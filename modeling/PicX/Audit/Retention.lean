import Mathlib.Algebra.Order.Archimedean.Real.Basic
import PicX.Audit.Effects
import PicX.Core.Values

/-!
# How long days are kept

Expiry counts the retention in whole days, and compares day numbers. Early in a day that is less
than what a retention of some days and some hours asks for: the day at the boundary is removed
before its last record is that old. Nothing stays too long, as long as the listing of the directory
does not break off; one that does ends the loop, which then reports success.

* `Elapsed` — every instant of a day is at least the retention in the past.
* `elapsed_iff_of_due` — which of the days that are due have elapsed.
* `expire_taken` — what is gone was listed, and its removal done.
* `keepsPromise_iff` — **expiry keeps what the retention promises exactly when the time of day
  covers the hours of the retention, or there is no such day to remove; and the listing is whole, or
  nothing is long past**.
-/

namespace PicX.Audit

open PicX Program

variable {f : Op → Outcome} {w w' w'' : World}

/-! ## Instants and days -/

/-- The day an instant falls on. -/
noncomputable def dayAt (t : ℝ) : Int := Civil.dayOf ⌊t⌋

/-- The seconds of an instant since its day began. -/
noncomputable def timeOfDay (t : ℝ) : ℝ := t - dayAt t * 86400

/-- Every instant of a day is at least the retention in the past. -/
def Elapsed (retention : Nat) (now : ℝ) (day : Int) : Prop :=
  ∀ t, dayAt t = day → t + retention ≤ now

/-- A day ended more than the retention and a day ago. -/
def LongPast (retention : Nat) (now : ℝ) (day : Int) : Prop :=
  ((day + 1) * 86400 : ℝ) + retention + 86400 < now

theorem dayAt_eq_iff {t : ℝ} {day : Int} :
    dayAt t = day ↔ (day * 86400 : ℝ) ≤ t ∧ t < (day + 1) * 86400 := by
  have hday : dayAt t = day ↔ day * 86400 ≤ ⌊t⌋ ∧ ⌊t⌋ < (day + 1) * 86400 := by
    show ⌊t⌋ / 86400 = day ↔ _
    omega
  rw [hday, Int.le_floor, Int.floor_lt]
  push_cast
  rfl

theorem dayAt_le (t : ℝ) : (dayAt t * 86400 : ℝ) ≤ t := (dayAt_eq_iff.mp rfl).1

theorem lt_dayAt (t : ℝ) : t < (dayAt t + 1) * 86400 := (dayAt_eq_iff.mp rfl).2

theorem elapsed_iff {retention : Nat} {now : ℝ} {day : Int} :
    Elapsed retention now day ↔ ((day + 1) * 86400 : ℝ) + retention ≤ now := by
  constructor
  · intro h
    by_contra hlate
    -- An instant of the day after both its first one and the retention before now.
    have hstart : (day * 86400 : ℝ) < (day + 1) * 86400 := by linarith
    have hnow : now - retention < (day + 1) * 86400 := by linarith
    obtain ⟨t, hlow, hhigh⟩ := exists_between (max_lt hstart hnow)
    rw [max_lt_iff] at hlow
    have := h t (dayAt_eq_iff.mpr ⟨hlow.1.le, hhigh⟩)
    linarith
  · intro h t ht
    have := (dayAt_eq_iff.mp ht).2
    linarith

/-- The retention and the oldest day kept, in whole days and seconds. -/
theorem oldestKept_eq (sink : FileAuditSink) (today : Int) :
    ∃ days : Nat, oldestKept sink today = today - days ∧
      (sink.retention : ℝ) = days * 86400 + (sink.retention % 86400 : Nat) := by
  refine ⟨sink.retention / 86400, rfl, ?_⟩
  exact_mod_cast (Nat.div_add_mod' sink.retention 86400).symm

/-- **Of the days that are due, only the newest may not have elapsed**, when the retention has more
seconds beyond its whole days than the day has behind it. -/
theorem elapsed_iff_of_due {sink : FileAuditSink} {now : ℝ} {day : Int}
    (hdue : day < oldestKept sink (dayAt now)) :
    Elapsed sink.retention now day ↔
      day < oldestKept sink (dayAt now) - 1 ∨ (sink.retention % 86400 : Nat) ≤ timeOfDay now := by
  obtain ⟨days, holdest, hsplit⟩ := oldestKept_eq sink (dayAt now)
  have hstart := dayAt_le now
  have hrest : ((sink.retention % 86400 : Nat) : ℝ) < 86400 := by
    exact_mod_cast Nat.mod_lt sink.retention (by decide)
  rw [elapsed_iff, hsplit]
  rw [holdest] at hdue ⊢
  unfold timeOfDay
  by_cases hlast : day < dayAt now - days - 1
  · have hday : (day : ℝ) + 1 ≤ dayAt now - days - 1 := by
      exact_mod_cast (by omega : day + 1 ≤ dayAt now - days - 1)
    simp only [hlast, true_or, iff_true]
    linarith
  · have hday : (day : ℝ) + 1 = dayAt now - days := by
      exact_mod_cast (by omega : day + 1 = dayAt now - days)
    rw [hday]
    simp only [hlast, false_or]
    constructor
    · intro h
      linarith
    · intro h
      linarith

theorem not_longPast {sink : FileAuditSink} {now : ℝ} {day : Int}
    (hkept : oldestKept sink (dayAt now) ≤ day) : ¬LongPast sink.retention now day := by
  obtain ⟨days, holdest, hsplit⟩ := oldestKept_eq sink (dayAt now)
  have hend := lt_dayAt now
  have hrest : (0 : ℝ) ≤ (sink.retention % 86400 : Nat) := Nat.cast_nonneg _
  have hday : (dayAt now : ℝ) - days ≤ day := by
    rw [holdest] at hkept
    exact_mod_cast hkept
  unfold LongPast
  rw [hsplit]
  linarith

/-! ## What is gone was listed and removed -/

/-- Every day file that is gone was listed, and its removal done. -/
def Taken (f : Op → Outcome) (w w' : World) : Prop :=
  ∀ name, dayOfFile name ≠ none → w.lookup name ≠ none → w'.lookup name = none →
    f (.readDirEntry name) = .done ∧ f (.removeDay name) = .done

theorem Taken.refl (f : Op → Outcome) (w : World) : Taken f w w :=
  fun _ _ hsome hnone => absurd hnone hsome

theorem Taken.trans (h : Taken f w w') (h' : Taken f w' w'') : Taken f w w'' := by
  intro name hof hsome hnone
  by_cases hgone : w'.lookup name = none
  · exact h name hof hsome hgone
  · exact h' name hof hgone hnone

theorem removeDay_taken {sink : FileAuditSink} {name : String}
    (hread : f (.readDirEntry name) = .done) :
    WP (removeDay sink name) f (fun _ => Taken f w) (fun _ => Taken f w) (Taken f w) w := by
  refine WP.perform (fun hdone => ?_) (fun _ _ _ => .refl f w) (fun _ => .refl f w)
  unfold WP
  dsimp only
  cases hnode : w.lookup name with
  | none => exact .refl f w
  | some node => cases node with
    | directory => exact .refl f w
    | file content =>
      intro name' _ hsome hnone
      rw [World.lookup_erase] at hnone
      split_ifs at hnone with heq
      · exact heq ▸ ⟨hread, hdone⟩
      · exact absurd hnone hsome

theorem removeSeal_taken {name : String} {day : Int} :
    WP (removeSeal name day) f (fun _ => Taken f w) (fun _ => Taken f w) (Taken f w) w := by
  refine WP.perform (fun _ => ?_) (fun _ _ _ => .refl f w) (fun _ => .refl f w)
  unfold WP
  dsimp only
  cases hnode : w.lookup (sealName day) with
  | none => exact .refl f w
  | some node => cases node with
    | directory => exact .refl f w
    | file content =>
      intro name' hof hsome hnone
      rw [World.lookup_erase] at hnone
      split_ifs at hnone with heq
      · exact absurd (heq ▸ dayOfFile_sealName day) hof
      · exact absurd hnone hsome

theorem expireEntries_taken {sink : FileAuditSink} {oldest : Int} (names : List String)
    (removed : Nat) : WP (expireEntries sink oldest names removed) f (fun _ => Taken f w)
      (fun _ => Taken f w) (Taken f w) w := by
  induction names generalizing w removed with
  | nil => exact .refl f w
  | cons name rest ih =>
    unfold expireEntries
    refine WP.bind (WP.perform
      (Q := fun more w' => w' = w ∧ (more = true → f (.readDirEntry name) = .done))
      (fun hdone => ⟨rfl, fun _ => hdone⟩) (fun _ _ _ => ⟨rfl, by simp⟩) (fun _ => .refl f w)) ?_
    intro more w₁ hmore
    obtain ⟨hw, hread⟩ := hmore
    subst hw
    cases more with
    | false => exact .refl f w₁
    | true =>
      simp only [if_true]
      cases hof : dayOfFile name with
      | none => exact ih removed
      | some day =>
        dsimp only
        split_ifs with hkept
        · exact ih removed
        · refine WP.bind (removeDay_taken (hread rfl)) fun _ w₂ h₂ => ?_
          refine WP.bind (removeSeal_taken.mono (fun _ _ h => h₂.trans h)
            (fun _ _ h => h₂.trans h) (fun _ h => h₂.trans h)) fun _ w₃ h₃ => ?_
          exact (ih (removed + 1)).mono (fun _ _ h => h₃.trans h) (fun _ _ h => h₃.trans h)
            (fun _ h => h₃.trans h)

/-- **What expiry removes was listed, and its removal done.** -/
theorem expire_taken {sink : FileAuditSink} {m : Moment} {today : Int} :
    WP (expire sink m today) f (fun _ w' => f .readDir = .done ∧ Taken f w w')
      (fun _ w' => w' = w ∨ f .readDir = .done ∧ Taken f w w')
      (fun w' => w' = w ∨ f .readDir = .done ∧ Taken f w w') w := by
  unfold expire
  refine WP.bind (WP.perform (Q := fun _ w' => w' = w ∧ f .readDir = .done)
    (fun hdone => ⟨rfl, hdone⟩) (fun _ _ _ => Or.inl rfl) (fun _ => Or.inl rfl)) ?_
  intro _ w₁ hchecked
  obtain ⟨hw, hread⟩ := hchecked
  subst hw
  rw [wp_bind, wp_get]
  cases hd : w₁.directory with
  | none => exact ⟨hread, .refl f w₁⟩
  | some d =>
    exact (expireEntries_taken _ 0).mono (fun _ _ h => ⟨hread, h⟩)
      (fun _ _ h => Or.inr ⟨hread, h⟩) (fun _ h => Or.inr ⟨hread, h⟩)

/-! ## Listings -/

/-- Every entry of the directory can be read, if the listing does not crash. -/
def Listed (f : Op → Outcome) (w : World) : Prop :=
  ∀ name ∈ w.files.keys, ∀ n reason, f (.readDirEntry name) ≠ .failed n reason

/-- A call whose directory lists `name` first. -/
def listedFirst (name : String) : Moment where
  now := ⟨0, by decide⟩
  sealedAt := ⟨0, by decide⟩
  sign := none
  order names := if name ∈ names then name :: names.erase name else names
  order_perm names := by
    split_ifs with h
    · exact (List.perm_cons_erase h).symm
    · exact .refl _

theorem expire_eq {sink : FileAuditSink} {m : Moment} {today : Int} {d : Directory}
    (hread : f .readDir = .done) (hd : w.directory = some d) :
    expire sink m today f w =
      expireEntries sink (oldestKept sink today) (m.order d.keys) 0 f w := by
  have hcheck : check .readDir .unavailable f w = .ok () w := by
    unfold check perform
    rw [hread]
  unfold expire
  rw [bind_of_ok hcheck, bind_of_ok (p := get) rfl, hd]

theorem expire_listedFirst (sink : FileAuditSink) {name : String} (today : Int)
    (hread : f .readDir = .done) (hmem : name ∈ w.files.keys) :
    ∃ rest, expire sink (listedFirst name) today f w =
      expireEntries sink (oldestKept sink today) (name :: rest) 0 f w := by
  obtain ⟨node, hnode⟩ := World.mem_keys.mp hmem
  obtain ⟨d, hd⟩ := Option.isSome_iff_exists.mp (World.isSome_of_lookup hnode)
  refine ⟨d.keys.erase name, ?_⟩
  rw [expire_eq hread hd]
  have hkeys : name ∈ d.keys := by simpa [World.files, hd] using hmem
  show expireEntries _ _ (if name ∈ d.keys then _ else _) 0 f w = _
  rw [if_pos hkeys]

/-- A listing that breaks off at once leaves everything, and is a success. -/
theorem expire_brokenOff (sink : FileAuditSink) {name : String} (today : Int)
    (hread : f .readDir = .done) (hmem : name ∈ w.files.keys) {n : Nat} {reason : String}
    (hentry : f (.readDirEntry name) = .failed n reason) :
    expire sink (listedFirst name) today f w = .ok 0 w := by
  obtain ⟨rest, hrun⟩ := expire_listedFirst sink today hread hmem
  have hbroken : (perform (.readDirEntry name) (fun w => .ok true w) (fun _ _ w => .ok false w) :
      Action Bool) f w = .ok false w := by
    unfold perform
    rw [hentry]
  rw [hrun, expireEntries, bind_of_ok hbroken]
  rfl

/-- A file that is due, listed first, and can be removed is gone, however the call goes on. -/
theorem expire_first {sink : FileAuditSink} {name : String} {today day : Int} {content : Bytes}
    (hof : dayOfFile name = some day) (hdue : day < oldestKept sink today)
    (hfile : w.lookup name = some (.file content)) (hread : f .readDir = .done)
    (hentry : f (.readDirEntry name) = .done) (hremove : f (.removeDay name) = .done) :
    (expire sink (listedFirst name) today f w).world.lookup name = none := by
  have hmem : name ∈ w.files.keys := World.mem_keys.mpr ⟨_, hfile⟩
  obtain ⟨rest, hrun⟩ := expire_listedFirst sink today hread hmem
  have hlisted : (perform (.readDirEntry name) (fun w => .ok true w) (fun _ _ w => .ok false w) :
      Action Bool) f w = .ok true w := by
    unfold perform
    rw [hentry]
  have hremoved : removeDay sink name f w = .ok () (w.onDirectory (·.erase name)) := by
    unfold removeDay perform
    simp only [hremove, hfile]
  have hgone : (w.onDirectory (·.erase name)).lookup name = none := by simp [World.lookup_erase]
  have hloop : WP (expireEntries sink (oldestKept sink today) (name :: rest) 0) f
      (fun _ w' => w'.lookup name = none) (fun _ w' => w'.lookup name = none)
      (fun w' => w'.lookup name = none) w := by
    unfold WP
    rw [expireEntries, bind_of_ok hlisted]
    simp only [if_true, hof]
    rw [if_neg (not_le.mpr hdue), bind_of_ok hremoved]
    -- What follows only removes.
    refine WP.bind ((removeSeal_spec (oldestKept sink today)).mono
      (fun _ _ h => h.1.lookup_none hgone) (fun _ _ h => h.elim)
      (fun _ h => h.1.lookup_none hgone)) fun _ w₂ h₂ => ?_
    exact (expireEntries_spec rest 1).mono (fun _ _ h => h.lookup_none h₂)
      (fun _ _ h => h.lookup_none h₂) (fun _ h => h.1.lookup_none h₂)
  rw [hrun]
  exact hloop.world

/-! ## What the retention promises -/

/-- What a run of expiry owes: it removes no file of a day that has not elapsed; when it succeeds no
file of a day long past is left; and it leaves what is neither a day nor a seal. -/
structure Promised (retention : Nat) (now : ℝ) (w : World) (run : Ending World AuditError Nat) :
    Prop where
  removed : ∀ name day content, dayOfFile name = some day → w.lookup name = some (.file content) →
    run.world.lookup name = none → Elapsed retention now day
  remaining : run.isOk = true → ∀ name day, dayOfFile name = some day →
    run.world.lookup name ≠ none → ¬LongPast retention now day
  others : ∀ name, dayOfFile name = none → (∀ day, name ≠ sealName day) →
    run.world.lookup name = w.lookup name

/-- Expiry at an instant keeps its promise, in whatever order the directory is listed. -/
def KeepsPromise (sink : FileAuditSink) (now : ℝ) (f : Op → Outcome) (w : World) : Prop :=
  ∀ m, Promised sink.retention now w (expire sink m (dayAt now) f w)

/-- When it does. -/
structure OnTime (sink : FileAuditSink) (now : ℝ) (f : Op → Outcome) (w : World) : Prop where
  /-- The day is far enough behind, or there is no file of the newest day due that would go. -/
  boundary : (sink.retention % 86400 : Nat) ≤ timeOfDay now ∨ ∀ name content,
    dayOfFile name = some (oldestKept sink (dayAt now) - 1) →
    w.lookup name = some (.file content) →
    ¬(f .readDir = .done ∧ f (.readDirEntry name) = .done ∧ f (.removeDay name) = .done)
  /-- The listing is whole, or nothing is long past. -/
  listing : f .readDir = .done → ¬Listed f w → ∀ name ∈ w.files.keys, ∀ day,
    dayOfFile name = some day → ¬LongPast sink.retention now day

theorem boundary_of_keepsPromise {sink : FileAuditSink} {now : ℝ} (h : KeepsPromise sink now f w) :
    (sink.retention % 86400 : Nat) ≤ timeOfDay now ∨ ∀ name content,
      dayOfFile name = some (oldestKept sink (dayAt now) - 1) →
      w.lookup name = some (.file content) →
      ¬(f .readDir = .done ∧ f (.readDirEntry name) = .done ∧ f (.removeDay name) = .done) := by
  by_cases htime : (sink.retention % 86400 : Nat) ≤ timeOfDay now
  · exact Or.inl htime
  · refine Or.inr ?_
    intro name content hof hfile ⟨hread, hentry, hremove⟩
    have hdue : oldestKept sink (dayAt now) - 1 < oldestKept sink (dayAt now) := by omega
    have hgone := expire_first hof hdue hfile hread hentry hremove
    have helapsed := (h (listedFirst name)).removed name _ content hof hfile hgone
    rcases (elapsed_iff_of_due hdue).mp helapsed with hlt | hle
    · omega
    · exact htime hle

theorem listing_of_keepsPromise {sink : FileAuditSink} {now : ℝ} (h : KeepsPromise sink now f w)
    (hread : f .readDir = .done) (hlisted : ¬Listed f w) :
    ∀ name ∈ w.files.keys, ∀ day, dayOfFile name = some day →
      ¬LongPast sink.retention now day := by
  intro name hmem day hof
  unfold Listed at hlisted
  push Not at hlisted
  obtain ⟨broken, hbroken, n, reason, hentry⟩ := hlisted
  have hrun := expire_brokenOff sink (dayAt now) hread hbroken hentry
  have hpromised := h (listedFirst broken)
  rw [hrun] at hpromised
  obtain ⟨node, hnode⟩ := World.mem_keys.mp hmem
  have hleft : w.lookup name ≠ none := by simp [hnode]
  exact hpromised.remaining rfl name day hof hleft

theorem expire_world (sink : FileAuditSink) (m : Moment) (today : Int) (f : Op → Outcome)
    (w : World) : Shrunk (oldestKept sink today) w (expire sink m today f w).world :=
  WP.world (expire_spec.mono (fun _ _ h => h) (fun _ _ h => h) (fun _ h => h.1))

/-- A file of a day that is gone was due, and its removal done. -/
theorem expire_removed {sink : FileAuditSink} {m : Moment} {today day : Int} {name : String}
    {content : Bytes} (hof : dayOfFile name = some day)
    (hfile : w.lookup name = some (.file content))
    (hgone : (expire sink m today f w).world.lookup name = none) :
    day < oldestKept sink today ∧
      (f .readDir = .done ∧ f (.readDirEntry name) = .done ∧ f (.removeDay name) = .done) := by
  refine ⟨?_, ?_⟩
  · rcases (expire_world sink m today f w).lookup name with heq |
      ⟨-, ⟨day', hof', hlt⟩ | ⟨day', heq⟩⟩
    · rw [hgone, hfile] at heq
      cases heq
    · obtain rfl := Option.some.inj (hof.symm.trans hof')
      exact hlt
    · rw [heq, dayOfFile_sealName] at hof
      cases hof
  · have hspec : WP (expire sink m today) f (fun _ w' => w' = w ∨ f .readDir = .done ∧ Taken f w w')
        (fun _ w' => w' = w ∨ f .readDir = .done ∧ Taken f w w')
        (fun w' => w' = w ∨ f .readDir = .done ∧ Taken f w w') w :=
      expire_taken.mono (fun _ _ h => Or.inr h) (fun _ _ h => h) (fun _ h => h)
    rcases hspec.world with heq | ⟨hread, htaken⟩
    · rw [heq, hfile] at hgone
      cases hgone
    · exact ⟨hread, htaken name (by simp [hof]) (by simp [hfile]) hgone⟩

theorem expire_left {sink : FileAuditSink} {m : Moment} {today : Int} {name : String} {n : Nat}
    (hrun : expire sink m today f w = .ok n w') (hleft : w'.lookup name ≠ none) :
    f .readDir = .done ∧ name ∈ w.files.keys := by
  have hshrunk : Shrunk (oldestKept sink today) w w' := expire_spec.ok hrun
  exact ⟨(expire_taken.ok hrun).1, hshrunk.mem_keys hleft⟩

/-- What a success leaves of the days of a directory that was listed in full is not due. -/
theorem expire_remaining {sink : FileAuditSink} {m : Moment} {today day : Int} {name : String}
    {n : Nat} (hlisted : Listed f w) (hrun : expire sink m today f w = .ok n w')
    (hof : dayOfFile name = some day) (hleft : w'.lookup name ≠ none) :
    oldestKept sink today ≤ day := by
  by_contra hdue
  obtain ⟨hread, hmem⟩ := expire_left hrun hleft
  obtain ⟨node, hnode⟩ := World.mem_keys.mp hmem
  obtain ⟨d, hd⟩ := Option.isSome_iff_exists.mp (World.isSome_of_lookup hnode)
  have hkeys : ∀ name', name' ∈ m.order d.keys ↔ name' ∈ w.files.keys := by
    intro name'
    rw [(m.order_perm d.keys).mem_iff]
    simp [World.files, hd]
  rw [expire_eq hread hd] at hrun
  have hloop := (expireEntries_due ((m.order_perm d.keys).nodup_iff.mpr d.keys_nodup) 0
    fun name' hname' => hlisted name' ((hkeys name').mp hname')).ok hrun
  exact hleft (hloop.2 name ((hkeys name).mpr hmem) day hof (not_le.mp hdue)).1

/-- **When expiry keeps what the retention promises.** Whatever the retention, the instant, the
directory and the outcome of each operation: exactly when the time of day covers the seconds that
the retention has beyond its whole days, or the newest day that is due has no file that would go;
and, where the listing breaks off, when nothing is long past. -/
theorem keepsPromise_iff (sink : FileAuditSink) (now : ℝ) (f : Op → Outcome) (w : World) :
    KeepsPromise sink now f w ↔ OnTime sink now f w := by
  constructor
  · intro h
    exact ⟨boundary_of_keepsPromise h, listing_of_keepsPromise h⟩
  · intro h m
    constructor
    · intro name day content hof hfile hgone
      obtain ⟨hdue, hops⟩ := expire_removed hof hfile hgone
      rw [elapsed_iff_of_due hdue]
      rcases h.boundary with htime | hnone
      · exact Or.inr htime
      · refine Or.inl ?_
        by_contra hlast
        have hday : day = oldestKept sink (dayAt now) - 1 := by omega
        exact hnone name content (hday ▸ hof) hfile hops
    · intro hok name day hof hleft
      obtain ⟨n, w', hrun, -⟩ := Ending.eq_ok_of (P := fun _ => true) (by simpa using hok)
      rw [hrun] at hleft
      by_cases hlisted : Listed f w
      · exact not_longPast (expire_remaining hlisted hrun hof hleft)
      · obtain ⟨hread, hmem⟩ := expire_left hrun hleft
        exact h.listing hread hlisted name hmem day hof
    · intro name hof hseal
      rcases (expire_world sink m (dayAt now) f w).lookup name with heq |
        ⟨-, ⟨day, hof', -⟩ | ⟨day, heq⟩⟩
      · exact heq
      · rw [hof] at hof'
        cases hof'
      · exact absurd heq (hseal day)

/-- A retention of 36 hours, at midnight: the day before yesterday ended 24 hours ago, and is
removed. -/
theorem removed_too_soon :
    Core.parseDuration "36h" = .ok 129600 ∧
    ¬KeepsPromise ⟨"audit", "pic-x", "1.0.0", 129600⟩ (20489 * 86400) (fun _ => .done)
      ⟨some (AList.insert "audit-2026-02-03.jsonl" (.file []) ∅), none, []⟩ := by
  refine ⟨by decide +kernel, ?_⟩
  intro h
  have hday : dayAt (20489 * 86400) = 20489 := by
    rw [dayAt_eq_iff]
    norm_num
  have hof : dayOfFile "audit-2026-02-03.jsonl" = some 20487 := by decide +kernel
  rcases boundary_of_keepsPromise h with htime | hnone
  · rw [timeOfDay, hday] at htime
    norm_num at htime
  · rw [hday] at hnone
    exact hnone "audit-2026-02-03.jsonl" [] hof rfl ⟨rfl, rfl, rfl⟩

end PicX.Audit
