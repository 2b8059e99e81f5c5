import PicX.Audit.Layout
import PicX.Audit.Sink

/-!
# What each part of the sink does

One specification for each function a call is made of, for every outcome of every operation: what
it leaves of the directory and of the memory, and that it only stops early because an operation
was refused or the process died.

* `expire_spec`, `expire_nothing`, `expire_done` — expiry only removes, and only what is due;
  with every operation done, all of it.
* `seal_spec` — sealing touches one file.
* `tail_spec` — where the chain left off is read from the newest day (`tailOf`).
* `openDay_spec`, `appendRecord_spec` — what is in the file of the day afterwards.
-/

namespace PicX.Audit

open PicX Program

variable {c : Crates} {f : Op → Outcome} {w w' w'' : World}

/-! ## Files -/

/-- The files of the directory, none when it is not there. -/
def World.files (w : World) : Directory := w.directory.getD ∅

theorem World.lookup_eq (w : World) (name : String) : w.lookup name = w.files.lookup name := by
  unfold World.lookup World.files
  cases w.directory <;> simp

theorem World.mem_keys {name : String} :
    name ∈ w.files.keys ↔ ∃ node, w.lookup name = some node := by
  rw [World.lookup_eq, ← Option.isSome_iff_exists, AList.lookup_isSome, AList.mem_keys]

theorem World.mem_keys_iff_ne {name : String} : name ∈ w.files.keys ↔ w.lookup name ≠ none := by
  rw [World.mem_keys, Option.ne_none_iff_exists']

theorem World.files_onDirectory {g : Directory → Directory} (h : w.directory.isSome) :
    (w.onDirectory g).files = g w.files := by
  obtain ⟨d, hd⟩ := Option.isSome_iff_exists.mp h
  simp [World.onDirectory, World.files, hd]

theorem World.isSome_of_lookup {name : String} {node : Node} (h : w.lookup name = some node) :
    w.directory.isSome := by
  unfold World.lookup at h
  cases hd : w.directory with
  | none => simp [hd] at h
  | some d => rfl

@[simp] theorem World.onDirectory_opened (g : Directory → Directory) :
    (w.onDirectory g).opened = w.opened := rfl

@[simp] theorem World.onDirectory_written (g : Directory → Directory) :
    (w.onDirectory g).written = w.written := rfl

@[simp] theorem World.onDirectory_isSome (g : Directory → Directory) :
    (w.onDirectory g).directory.isSome = w.directory.isSome := by
  simp [World.onDirectory]

theorem World.lookup_insert (h : w.directory.isSome) (name : String) (node : Node)
    (name' : String) :
    (w.onDirectory (·.insert name node)).lookup name' =
      if name' = name then some node else w.lookup name' := by
  rw [World.lookup_eq, World.files_onDirectory h, World.lookup_eq]
  split_ifs with heq
  · rw [heq, AList.lookup_insert]
  · rw [AList.lookup_insert_ne heq]

theorem World.lookup_erase (name name' : String) :
    (w.onDirectory (·.erase name)).lookup name' =
      if name' = name then none else w.lookup name' := by
  unfold World.lookup World.onDirectory
  cases w.directory with
  | none => simp
  | some d =>
    split_ifs with heq
    · subst heq
      simp
    · simp [AList.lookup_erase_ne heq]

theorem wp_check {o : Op} {refuse : String → AuditError} :
    WP (check o refuse) f (fun _ w' => w' = w) (fun _ w' => w' = w ∧ Refused f)
      (fun w' => w' = w ∧ Cut f) w :=
  WP.perform (fun _ => rfl) (fun n reason h => ⟨rfl, o, n, reason, h⟩) (fun h => ⟨rfl, o, h⟩)

/-! ## Expiry -/

/-- Only days before `oldest`, and seals, are gone. -/
structure Shrunk (oldest : Int) (w w' : World) : Prop where
  opened : w'.opened = w.opened
  written : w'.written = w.written
  isSome : w'.directory.isSome = w.directory.isSome
  lookup : ∀ name, w'.lookup name = w.lookup name ∨
    w'.lookup name = none ∧
      ((∃ day, dayOfFile name = some day ∧ day < oldest) ∨ ∃ day, name = sealName day)

theorem Shrunk.refl (oldest : Int) (w : World) : Shrunk oldest w w :=
  ⟨rfl, rfl, rfl, fun _ => Or.inl rfl⟩

theorem Shrunk.trans {oldest : Int} (h : Shrunk oldest w w') (h' : Shrunk oldest w' w'') :
    Shrunk oldest w w'' where
  opened := h'.opened.trans h.opened
  written := h'.written.trans h.written
  isSome := h'.isSome.trans h.isSome
  lookup name := by
    rcases h'.lookup name with heq' | hgone
    · rw [heq']
      exact h.lookup name
    · exact Or.inr hgone

theorem Shrunk.erase {oldest : Int} {name : String}
    (hname : (∃ day, dayOfFile name = some day ∧ day < oldest) ∨ ∃ day, name = sealName day) :
    Shrunk oldest w (w.onDirectory (·.erase name)) where
  opened := rfl
  written := rfl
  isSome := by simp
  lookup name' := by
    rw [World.lookup_erase]
    split_ifs with heq
    · exact Or.inr ⟨rfl, heq ▸ hname⟩
    · exact Or.inl rfl

theorem Shrunk.fileName {oldest : Int} (h : Shrunk oldest w w') {day : Int} (hday : Readable day)
    (hkept : oldest ≤ day) : w'.lookup (fileName day) = w.lookup (fileName day) := by
  rcases h.lookup (Audit.fileName day) with heq | ⟨-, ⟨day', hof, hlt⟩ | ⟨day', hname⟩⟩
  · exact heq
  · rw [dayOfFile_fileName hday] at hof
    obtain rfl := Option.some.inj hof
    omega
  · exact absurd hname (fileName_ne_sealName hday day')

theorem Shrunk.lookup_none {oldest : Int} (h : Shrunk oldest w w') {name : String}
    (hnone : w.lookup name = none) : w'.lookup name = none := by
  rcases h.lookup name with heq | ⟨hnone', -⟩
  · rw [heq, hnone]
  · exact hnone'

/-- What is left was there. -/
theorem Shrunk.mem_keys {oldest : Int} (h : Shrunk oldest w w') {name : String}
    (hin : w'.lookup name ≠ none) : name ∈ w.files.keys := by
  rw [World.mem_keys_iff_ne]
  intro hnone
  exact hin (h.lookup_none hnone)

theorem Shrunk.lookup_ne {oldest : Int} (h : Shrunk oldest w w') {name : String} {node : Node}
    (hne : w.lookup name ≠ some node) : w'.lookup name ≠ some node := by
  rcases h.lookup name with heq | ⟨hnone', -⟩
  · rw [heq]
    exact hne
  · simp [hnone']

theorem removeDay_spec {sink : FileAuditSink} {name : String} {oldest day : Int}
    (hof : dayOfFile name = some day) (hlt : day < oldest) :
    WP (removeDay sink name) f
      (fun _ w' => Shrunk oldest w w' ∧ w'.lookup name = none ∧
        ∀ name' ≠ name, w'.lookup name' = w.lookup name')
      (fun _ w' => Shrunk oldest w w' ∧
        (Refused f ∨ ∀ content, w.lookup name ≠ some (.file content)))
      (fun w' => Shrunk oldest w w' ∧ Cut f) w := by
  refine WP.perform (fun _ => ?_) (fun n reason h => ⟨.refl _ _, Or.inl ⟨_, n, reason, h⟩⟩)
    (fun h => ⟨.refl _ _, _, h⟩)
  unfold WP
  dsimp only
  cases hnode : w.lookup name with
  | none => exact ⟨.refl _ _, Or.inr (by simp)⟩
  | some node => cases node with
    | directory => exact ⟨.refl _ _, Or.inr (by simp)⟩
    | file content =>
      refine ⟨.erase (Or.inl ⟨day, hof, hlt⟩), by simp [World.lookup_erase], fun name' hne => ?_⟩
      rw [World.lookup_erase, if_neg hne]

theorem removeSeal_spec {name : String} {day : Int} (oldest : Int) :
    WP (removeSeal name day) f
      (fun _ w' => Shrunk oldest w w' ∧
        (f (.removeSeal name) = .done →
          ∀ content, w'.lookup (sealName day) ≠ some (.file content)) ∧
        ∀ name' ≠ sealName day, w'.lookup name' = w.lookup name')
      (fun _ _ => False) (fun w' => Shrunk oldest w w' ∧ Cut f) w := by
  refine WP.perform (fun _ => ?_)
    (fun n reason h => ⟨.refl _ _, fun h' => by simp [h] at h', fun _ _ => rfl⟩)
    (fun h => ⟨.refl _ _, _, h⟩)
  unfold WP
  dsimp only
  cases hnode : w.lookup (sealName day) with
  | none => exact ⟨.refl _ _, by simp [hnode], fun _ _ => rfl⟩
  | some node => cases node with
    | directory => exact ⟨.refl _ _, by simp [hnode], fun _ _ => rfl⟩
    | file content =>
      refine ⟨.erase (Or.inr ⟨day, rfl⟩), by simp [World.lookup_erase], fun name' hne => ?_⟩
      rw [World.lookup_erase, if_neg hne]

theorem readDirEntry_spec (name : String) :
    WP (perform (.readDirEntry name) (fun w => .ok true w) (fun _ _ w => .ok false w) :
      Action Bool) f
      (fun more w' => w' = w ∧ (more = false → Refused f)) (fun _ _ => False)
      (fun w' => w' = w ∧ Cut f) w :=
  WP.perform (fun _ => ⟨rfl, by simp⟩) (fun n reason h => ⟨rfl, fun _ => ⟨_, n, reason, h⟩⟩)
    (fun h => ⟨rfl, _, h⟩)

/-- Whatever happens to it, the loop only removes what is due. -/
theorem expireEntries_spec {sink : FileAuditSink} {oldest : Int} (names : List String)
    (removed : Nat) : WP (expireEntries sink oldest names removed) f
      (fun _ => Shrunk oldest w) (fun _ => Shrunk oldest w)
      (fun w' => Shrunk oldest w w' ∧ Cut f) w := by
  induction names generalizing w removed with
  | nil => exact .refl _ _
  | cons name rest ih =>
    unfold expireEntries
    refine WP.bind ((readDirEntry_spec name).mono (fun _ _ h => h) (fun _ _ h => h.elim)
      (fun w' h => ⟨h.1 ▸ .refl _ _, h.2⟩)) ?_
    rintro more w' ⟨rfl, -⟩
    cases more with
    | false => exact .refl _ _
    | true =>
      simp only [if_true]
      cases hof : dayOfFile name with
      | none => exact ih removed
      | some day =>
        dsimp only
        split_ifs with hkept
        · exact ih removed
        · refine WP.bind ((removeDay_spec hof (not_le.mp hkept)).mono (fun _ _ h => h)
            (fun _ _ h => h.1) (fun _ h => h)) fun _ w₁ h₁ => ?_
          refine WP.bind ((removeSeal_spec oldest).mono (fun _ _ h => h)
            (fun _ _ h => h.elim) (fun _ h => ⟨h₁.1.trans h.1, h.2⟩)) fun _ w₂ h₂ => ?_
          have h02 : Shrunk oldest w' w₂ := h₁.1.trans h₂.1
          exact (ih (removed + 1)).mono (fun _ _ h => h02.trans h) (fun _ _ h => h02.trans h)
            (fun _ h => ⟨h02.trans h.1, h.2⟩)

/-- **Expiry only removes, and only days before the oldest one kept, with their seals.** -/
theorem expire_spec {sink : FileAuditSink} {m : Moment} {today : Int} :
    WP (expire sink m today) f (fun _ => Shrunk (oldestKept sink today) w)
      (fun _ => Shrunk (oldestKept sink today) w)
      (fun w' => Shrunk (oldestKept sink today) w w' ∧ Cut f) w := by
  unfold expire
  refine WP.bind (wp_check.mono (fun _ _ h => h) (fun _ _ h => h.1 ▸ .refl _ _)
    (fun _ h => ⟨h.1 ▸ .refl _ _, h.2⟩)) ?_
  rintro _ w' rfl
  rw [wp_bind, wp_get]
  cases hd : w'.directory with
  | none => exact .refl _ _
  | some d => exact expireEntries_spec _ _

/-- Nothing on disk is past its retention. -/
def NothingDue (sink : FileAuditSink) (today : Int) (w : World) : Prop :=
  ∀ name ∈ w.files.keys, ∀ day, dayOfFile name = some day → oldestKept sink today ≤ day

theorem expireEntries_nothing {sink : FileAuditSink} {oldest : Int} {names : List String}
    {removed : Nat} (h : ∀ name ∈ names, ∀ day, dayOfFile name = some day → oldest ≤ day) :
    WP (expireEntries sink oldest names removed) f (fun _ w' => w' = w) (fun _ _ => False)
      (fun w' => w' = w ∧ Cut f) w := by
  induction names with
  | nil => rfl
  | cons name rest ih =>
    unfold expireEntries
    refine WP.bind (readDirEntry_spec name) ?_
    rintro more w' ⟨rfl, -⟩
    cases more with
    | false => rfl
    | true =>
      have hrest := ih fun name' hname' => h name' (List.mem_cons_of_mem name hname')
      simp only [if_true]
      cases hof : dayOfFile name with
      | none => exact hrest
      | some day =>
        dsimp only
        rw [if_pos (h name List.mem_cons_self day hof)]
        exact hrest

/-- With nothing due, expiry changes nothing. -/
theorem expire_nothing {sink : FileAuditSink} {m : Moment} {today : Int}
    (h : NothingDue sink today w) :
    WP (expire sink m today) f (fun _ w' => w' = w) (fun _ w' => w' = w ∧ Refused f)
      (fun w' => w' = w ∧ Cut f) w := by
  unfold expire
  refine WP.bind wp_check ?_
  rintro _ w' rfl
  rw [wp_bind, wp_get]
  cases hd : w'.directory with
  | none => rfl
  | some d =>
    refine (expireEntries_nothing fun name hname => ?_).mono (fun _ _ h => h) (fun _ _ h => h.elim)
      (fun _ h => h)
    refine h name ?_
    simpa [World.files, hd] using (m.order_perm d.keys).mem_iff.mp hname

/-- With every entry read, a loop that ends removed everything that is due; it stops early at what
is no file, or because an operation was refused or the process died. -/
theorem expireEntries_due {sink : FileAuditSink} {oldest : Int} {names : List String}
    (hnodup : names.Nodup) (removed : Nat)
    (hread : ∀ name ∈ names, ∀ n reason, f (.readDirEntry name) ≠ .failed n reason) :
    WP (expireEntries sink oldest names removed) f
      (fun _ w' => Shrunk oldest w w' ∧ ∀ name ∈ names, ∀ day, dayOfFile name = some day →
        day < oldest → w'.lookup name = none ∧ (f (.removeSeal name) = .done →
          ∀ content, w'.lookup (sealName day) ≠ some (.file content)))
      (fun _ _ => Refused f ∨ ∃ name ∈ names, ∃ day, dayOfFile name = some day ∧ day < oldest ∧
        ∀ content, w.lookup name ≠ some (.file content))
      (fun _ => Cut f) w := by
  induction names generalizing w removed with
  | nil => exact ⟨.refl _ _, by simp⟩
  | cons name rest ih =>
    rw [List.nodup_cons] at hnodup
    have hrest : ∀ name' ∈ rest, ∀ n reason, f (.readDirEntry name') ≠ .failed n reason :=
      fun name' hname' => hread name' (List.mem_cons_of_mem name hname')
    unfold expireEntries
    refine WP.bind (WP.perform (Q := fun more w' => more = true ∧ w' = w) (fun _ => ⟨rfl, rfl⟩)
      (fun n reason h => absurd h (hread name List.mem_cons_self n reason)) (fun h => ⟨_, h⟩)) ?_
    rintro _ w' ⟨rfl, rfl⟩
    have hskip : (∀ day, dayOfFile name = some day → oldest ≤ day) →
        WP (expireEntries sink oldest rest removed) f
          (fun _ w'' => Shrunk oldest w' w'' ∧ ∀ name' ∈ name :: rest, ∀ day,
            dayOfFile name' = some day → day < oldest → w''.lookup name' = none ∧
              (f (.removeSeal name') = .done →
                ∀ content, w''.lookup (sealName day) ≠ some (.file content)))
          (fun _ _ => Refused f ∨ ∃ name' ∈ name :: rest, ∃ day, dayOfFile name' = some day ∧
            day < oldest ∧ ∀ content, w'.lookup name' ≠ some (.file content))
          (fun _ => Cut f) w' := by
      intro hkept
      refine (ih hnodup.2 removed hrest).mono
        (fun _ w'' h => ⟨h.1, fun name' hname' day hof hlt => ?_⟩) (fun _ _ h => ?_) (fun _ h => h)
      · rcases List.mem_cons.mp hname' with rfl | hname'
        · exact absurd (hkept day hof) (not_le.mpr hlt)
        · exact h.2 name' hname' day hof hlt
      · rcases h with h | ⟨name', hname', hno⟩
        · exact Or.inl h
        · exact Or.inr ⟨name', List.mem_cons_of_mem name hname', hno⟩
    simp only [if_true]
    cases hof : dayOfFile name with
    | none => exact hskip (by simp [hof])
    | some day =>
      dsimp only
      split_ifs with hkept
      · exact hskip (by simpa [hof] using hkept)
      · have hlt := not_le.mp hkept
        refine WP.bind ((removeDay_spec hof hlt).mono (fun _ _ h => h) (fun _ _ h => ?_)
          (fun _ h => h.2)) fun _ w₁ h₁ => ?_
        · rcases h.2 with hrefused | hno
          · exact Or.inl hrefused
          · exact Or.inr ⟨name, List.mem_cons_self, day, hof, hlt, hno⟩
        refine WP.bind ((removeSeal_spec oldest).mono (fun _ _ h => h)
          (fun _ _ h => h.elim) (fun _ h => h.2)) fun _ w₂ h₂ => ?_
        have h02 : Shrunk oldest w' w₂ := h₁.1.trans h₂.1
        have hlookup : ∀ name' ∈ rest, dayOfFile name' ≠ none →
            w₂.lookup name' = w'.lookup name' := fun name' hname' hday => by
          rw [h₂.2.2 name' fun heq => hday (heq ▸ dayOfFile_sealName day),
            h₁.2.2 name' fun heq => hnodup.1 (heq ▸ hname')]
        refine (ih hnodup.2 (removed + 1) hrest).mono
          (fun _ w₃ h₃ => ⟨h02.trans h₃.1, fun name' hname' day' hof' hlt' => ?_⟩)
          (fun _ _ h => ?_) (fun _ h => h)
        · rcases List.mem_cons.mp hname' with rfl | hname'
          · obtain rfl : day = day' := Option.some.inj (hof.symm.trans hof')
            have hnone : w₂.lookup name' = none := by
              rw [h₂.2.2 name' fun heq => by simp [heq, dayOfFile_sealName] at hof]
              exact h₁.2.1
            exact ⟨h₃.1.lookup_none hnone, fun hdone content =>
              h₃.1.lookup_ne (h₂.2.1 hdone content)⟩
          · exact h₃.2 name' hname' day' hof' hlt'
        · rcases h with h | ⟨name', hname', day', hof', hlt', hno⟩
          · exact Or.inl h
          · rw [hlookup name' hname' (by simp [hof'])] at hno
            exact Or.inr ⟨name', List.mem_cons_of_mem name hname', day', hof', hlt', hno⟩

/-- **With every operation done, expiry removes everything that is due.** -/
theorem expire_done {sink : FileAuditSink} {m : Moment} {today : Int} (hf : ∀ o, f o = .done)
    (hfile : ∀ name ∈ w.files.keys, ∀ day, dayOfFile name = some day →
      day < oldestKept sink today → ∃ content, w.lookup name = some (.file content)) :
    WP (expire sink m today) f
      (fun _ w' => Shrunk (oldestKept sink today) w w' ∧ ∀ name ∈ w.files.keys, ∀ day,
        dayOfFile name = some day → day < oldestKept sink today → w'.lookup name = none ∧
          ∀ content, w'.lookup (sealName day) ≠ some (.file content))
      (fun _ _ => False) (fun _ => False) w := by
  unfold expire
  refine WP.bind (wp_check.mono (fun _ _ h => h) (fun _ _ h => ?_) (fun _ h => ?_)) ?_
  · obtain ⟨o, n, r, h⟩ := h.2
    simp [hf o] at h
  · obtain ⟨o, h⟩ := h.2
    simp [hf o] at h
  rintro _ w' rfl
  rw [wp_bind, wp_get]
  cases hd : w'.directory with
  | none => exact ⟨.refl _ _, by simp [World.files, hd]⟩
  | some d =>
    have hfiles : w'.files = d := by simp [World.files, hd]
    rw [hfiles] at hfile ⊢
    have hmem : ∀ name, name ∈ m.order d.keys ↔ name ∈ d.keys := fun name =>
      (m.order_perm d.keys).mem_iff
    have hcut : ¬Cut f := fun ⟨o, h⟩ => by simp [hf o] at h
    have hrefused : ¬Refused f := fun ⟨o, n, r, h⟩ => by simp [hf o] at h
    refine (expireEntries_due ((m.order_perm d.keys).nodup_iff.mpr d.keys_nodup) 0
      fun name _ n r => by simp [hf]).mono (fun _ _ h => ⟨h.1, fun name hname day hof hlt => ?_⟩)
      (fun _ _ h => ?_) (fun _ h => hcut h)
    · obtain ⟨hgone, hseal⟩ := h.2 name ((hmem name).mpr hname) day hof hlt
      exact ⟨hgone, hseal (hf _)⟩
    · rcases h with h | ⟨name, hname, day, hof, hlt, hno⟩
      · exact hrefused h
      · obtain ⟨content, hcontent⟩ := hfile name ((hmem name).mp hname) day hof hlt
        exact hno content hcontent

/-! ## Sealing -/

/-- The seal of `day` may have been written, in full unless its write did not come off. -/
def SealTouched (f : Op → Outcome) (day : Int) (text : String) (w w' : World) : Prop :=
  w' = w ∨ w.directory.isSome ∧ f .createSeal = .done ∧
    ∃ content, w' = w.onDirectory (·.insert (sealName day) (.file content)) ∧
      (f .writeSeal = .done → content = utf8 text)

theorem SealTouched.opened {day : Int} {text : String} (h : SealTouched f day text w w') :
    w'.opened = w.opened := by
  rcases h with rfl | ⟨-, -, content, rfl, -⟩
  · rfl
  · rfl

theorem onDirectory_insert_insert (name : String) (n n' : Node) :
    (w.onDirectory (·.insert name n)).onDirectory (·.insert name n') =
      w.onDirectory (·.insert name n') := by
  unfold World.onDirectory
  cases w.directory <;> simp [AList.insert_insert]

theorem writeSealFile_spec {sink : FileAuditSink} {day : Int} {text : String} :
    WP (writeSealFile sink day text) f (fun _ => SealTouched f day text w)
      (fun _ => SealTouched f day text w) (fun w' => SealTouched f day text w w' ∧ Cut f) w := by
  unfold writeSealFile
  refine WP.bind (Q := fun _ w' => w.directory.isSome ∧ f .createSeal = .done ∧
    w' = w.onDirectory (·.insert (sealName day) (.file []))) ?_ ?_
  · refine WP.perform (fun hdone => ?_) (fun n reason h => Or.inl rfl) (fun h => ⟨Or.inl rfl, _, h⟩)
    unfold WP
    dsimp only
    cases hd : w.directory with
    | none => exact Or.inl rfl
    | some d =>
      cases w.lookup (sealName day) with
      | none => exact ⟨rfl, hdone, rfl⟩
      | some node => cases node with
        | directory => exact Or.inl rfl
        | file content => exact ⟨rfl, hdone, rfl⟩
  · rintro _ w' ⟨hsome, hcreate, rfl⟩
    refine WP.perform (fun hdone => Or.inr ⟨hsome, hcreate, utf8 text, ?_, fun _ => rfl⟩)
      (fun n reason h =>
        Or.inr ⟨hsome, hcreate, (utf8 text).take n, ?_, fun h' => by simp [h] at h'⟩)
      (fun h => ⟨Or.inr ⟨hsome, hcreate, [], rfl, fun h' => by simp [h] at h'⟩, _, h⟩)
    · exact onDirectory_insert_insert _ _ _
    · exact onDirectory_insert_insert _ _ _

/-- **Sealing touches the seal of its day and nothing else.** -/
theorem seal_spec {sink : FileAuditSink} {m : Moment} {day : Int} {records : Nat} {head : String} :
    let text := c.sealToStringPretty (sealOf c m day records head)
    WP (FileAuditSink.seal c sink m day records head) f (fun _ => SealTouched f day text w)
      (fun _ => SealTouched f day text w) (fun w' => SealTouched f day text w w' ∧ Cut f) w := by
  refine WP.bind writeSealFile_spec fun _ w' h => ?_
  exact wp_check.mono (fun _ _ h' => h' ▸ h) (fun _ _ h' => h'.1 ▸ h) (fun _ h' => ⟨h'.1 ▸ h, h'.2⟩)

/-! ## Where the chain left off -/

/-- What the newest day of the directory says about where the chain left off. -/
def tailOf (c : Crates) (d : Directory) : Except AuditError (Option (Nat × String)) :=
  match (daysOf d.keys).getLast? with
  | none => .ok none
  | some latest => match d.lookup (fileName latest) with
    | none => .error (.unavailable notFound)
    | some .directory => .ok none
    | some (.file content) => match lastLine content (lines content).length with
      | none => .ok none
      | some text => match c.recordFromStr text with
        | .error e => .error (.backend ("reading the last record of the trail: " ++ e))
        | .ok record => .ok (some (record.body.seq, record.digest))

theorem listEntries_spec (hlist : ∀ name n reason, f (.listDaysEntry name) ≠ .failed n reason)
    (names : List String) : WP (listEntries names) f (fun names' w' => w' = w ∧ names' = names)
      (fun _ _ => False) (fun w' => w' = w ∧ Cut f) w := by
  induction names with
  | nil => exact ⟨rfl, rfl⟩
  | cons name rest ih =>
    unfold listEntries
    refine WP.bind (Q := fun more w' => w' = w ∧ more = true)
      (WP.perform (fun _ => ⟨rfl, rfl⟩) (fun n reason h => absurd h (hlist name n reason))
        (fun h => ⟨rfl, _, h⟩)) ?_
    rintro _ w' ⟨rfl, rfl⟩
    refine WP.bind ih ?_
    rintro names' w'' ⟨rfl, rfl⟩
    exact ⟨rfl, rfl⟩

theorem daysOf_perm {names names' : List String} (h : names.Perm names') :
    daysOf names = daysOf names' :=
  (((List.perm_insertionSort _ _).trans (h.filterMap dayOfFile)).trans
    (List.perm_insertionSort _ _).symm).eq_of_pairwise' (List.pairwise_insertionSort _ _)
    (List.pairwise_insertionSort _ _)

theorem days_spec {m : Moment}
    (hlist : ∀ name n reason, f (.listDaysEntry name) ≠ .failed n reason) :
    WP (days m) f (fun ds w' => w' = w ∧ ds = daysOf w.files.keys)
      (fun _ w' => w' = w ∧ Refused f) (fun w' => w' = w ∧ Cut f) w := by
  unfold days
  refine WP.bind wp_check ?_
  rintro _ w' rfl
  rw [wp_bind, wp_get]
  cases hd : w'.directory with
  | none => exact ⟨rfl, by simp [World.files, hd, daysOf, sortUnstable]⟩
  | some d =>
    refine WP.bind ((listEntries_spec hlist (m.order d.keys)).mono (fun _ _ h => h)
      (fun _ _ h => h.elim) (fun _ h => h)) ?_
    rintro names w'' ⟨rfl, rfl⟩
    refine ⟨rfl, ?_⟩
    rw [daysOf_perm (m.order_perm d.keys), World.files, hd]
    rfl

theorem readLast_spec {latest : Int} (hread : ∀ n reason, f .readTail ≠ .failed n reason) :
    WP (readLast latest) f
      (fun last w' => w' = w ∧ match w.files.lookup (fileName latest) with
        | none => False
        | some .directory => last = none
        | some (.file content) => last = lastLine content (lines content).length)
      (fun e w' => w' = w ∧
        (Refused f ∨ w.files.lookup (fileName latest) = none ∧ e = .unavailable notFound))
      (fun w' => w' = w ∧ Cut f) w := by
  unfold readLast
  refine WP.bind (Q := fun _ w' => w' = w ∧ w.files.lookup (fileName latest) ≠ none) ?_ ?_
  · refine WP.perform (fun _ => ?_) (fun n reason h => ⟨rfl, Or.inl ⟨_, n, reason, h⟩⟩)
      (fun h => ⟨rfl, _, h⟩)
    unfold WP
    dsimp only
    rw [World.lookup_eq]
    cases hnode : w.files.lookup (fileName latest) with
    | none => exact ⟨rfl, Or.inr ⟨rfl, rfl⟩⟩
    | some node => exact ⟨rfl, by simp⟩
  · rintro _ w' ⟨rfl, hne⟩
    refine WP.perform (fun _ => ?_) (fun n reason h => absurd h (hread n reason))
      (fun h => ⟨rfl, _, h⟩)
    unfold WP
    dsimp only
    rw [World.lookup_eq]
    cases hnode : w'.files.lookup (fileName latest) with
    | none => exact absurd hnode hne
    | some node => cases node <;> exact ⟨rfl, rfl⟩

/-- **A cold start continues from the newest day**, when the directory and the file can be read. -/
theorem tail_spec {m : Moment}
    (hlist : ∀ name n reason, f (.listDaysEntry name) ≠ .failed n reason)
    (hread : ∀ n reason, f .readTail ≠ .failed n reason) :
    WP (tail c m) f (fun found w' => w' = w ∧ tailOf c w.files = .ok found)
      (fun e w' => w' = w ∧ (Refused f ∨ tailOf c w.files = .error e))
      (fun w' => w' = w ∧ Cut f) w := by
  unfold tail
  refine WP.bind ((days_spec hlist).mono (fun _ _ h => h) (fun _ _ h => ⟨h.1, Or.inl h.2⟩)
    (fun _ h => h)) ?_
  rintro ds w' ⟨rfl, rfl⟩
  cases hnewest : (daysOf w'.files.keys).getLast? with
  | none => exact ⟨rfl, by simp [tailOf, hnewest]⟩
  | some latest =>
    refine WP.bind ((readLast_spec hread).mono (fun _ _ h => h) (fun e _ h => ⟨h.1, h.2.imp id ?_⟩)
      (fun _ h => h)) ?_
    · rintro ⟨hnone, rfl⟩
      simp [tailOf, hnewest, hnone]
    · rintro last w'' ⟨rfl, hlast⟩
      cases hnode : w''.files.lookup (fileName latest) with
      | none => simp [hnode] at hlast
      | some node =>
        rw [hnode] at hlast
        cases node with
        | directory =>
          obtain rfl : last = none := hlast
          exact ⟨rfl, by simp [tailOf, hnewest, hnode]⟩
        | file content =>
          have hlast : lastLine content (lines content).length = last := Eq.symm hlast
          cases last with
          | none => exact ⟨rfl, by simp [tailOf, hnewest, hnode, hlast]⟩
          | some text =>
            dsimp only
            cases hparse : c.recordFromStr text with
            | error e => exact ⟨rfl, Or.inr (by simp [tailOf, hnewest, hnode, hlast, hparse])⟩
            | ok record => exact ⟨rfl, by simp [tailOf, hnewest, hnode, hlast, hparse]⟩

/-! ## Opening -/

theorem createDirAll_spec {sink : FileAuditSink} :
    WP (createDirAll sink) f (fun _ w' => w' = { w with directory := some w.files })
      (fun _ w' => w' = w ∧ Refused f) (fun w' => w' = w ∧ Cut f) w :=
  WP.perform (fun _ => rfl) (fun n reason h => ⟨rfl, _, n, reason, h⟩) (fun h => ⟨rfl, _, h⟩)

/-- The file of a day is there: it was, or it has just been created empty. -/
def DayOpened (day : Int) (w w' : World) : Prop :=
  (∃ content, w.lookup (fileName day) = some (.file content)) ∧ w' = w ∨
    w.lookup (fileName day) = none ∧ w.directory.isSome ∧
      w' = w.onDirectory (·.insert (fileName day) (.file []))

theorem openDay_spec {sink : FileAuditSink} {day : Int} (h : w.directory.isSome) :
    WP (openDay sink day) f (fun _ => DayOpened day w)
      (fun _ w' => w' = w ∧ (Refused f ∨ w.lookup (fileName day) = some .directory))
      (fun w' => w' = w ∧ Cut f) w := by
  refine WP.perform (fun _ => ?_) (fun n reason h => ⟨rfl, Or.inl ⟨_, n, reason, h⟩⟩)
    (fun h => ⟨rfl, _, h⟩)
  obtain ⟨d, hd⟩ := Option.isSome_iff_exists.mp h
  unfold WP
  dsimp only
  rw [hd]
  cases hnode : w.lookup (fileName day) with
  | none => exact Or.inr ⟨hnode, h, rfl⟩
  | some node => cases node with
    | directory => exact ⟨rfl, Or.inr rfl⟩
    | file content => exact Or.inl ⟨⟨content, hnode⟩, rfl⟩

/-! ## Appending -/

/-- A record more in the history, and its bytes in the file of the day. -/
def World.appended (w : World) (day : Int) (content : Bytes) (record : Record) : World :=
  { w.onDirectory (·.insert (fileName day) (.file content)) with
    written := w.written ++ [(day, record)] }

theorem World.append_eq {day : Int} {content bytes : Bytes}
    (h : w.lookup (fileName day) = some (.file content)) :
    w.append day bytes = w.onDirectory (·.insert (fileName day) (.file (content ++ bytes))) := by
  simp [World.append, h]

theorem World.appended_lookup (h : w.directory.isSome) (day : Int) (content : Bytes)
    (record : Record) (name : String) : (w.appended day content record).lookup name =
      if name = fileName day then some (.file content) else w.lookup name :=
  World.lookup_insert h _ _ _

theorem World.append_wrote {day : Int} {content bytes : Bytes}
    (h : w.lookup (fileName day) = some (.file content)) (record : Record) :
    (w.append day bytes).wrote day record = w.appended day (content ++ bytes) record := by
  have hsome := World.isSome_of_lookup h
  rw [World.append_eq h, World.wrote, World.lookup_insert hsome, if_pos rfl]
  rfl

theorem World.append_appended {day : Int} {content bytes : Bytes} (record : Record)
    (h : w.directory.isSome) : (w.appended day content record).append day bytes =
      w.appended day (content ++ bytes) record := by
  have hlookup : (w.appended day content record).lookup (fileName day) = some (.file content) := by
    rw [World.appended_lookup h, if_pos rfl]
  rw [World.append_eq hlookup]
  unfold World.appended
  obtain ⟨d, hd⟩ := Option.isSome_iff_exists.mp h
  simp [World.onDirectory, hd, AList.insert_insert]

/-- The log follows the file. -/
theorem Holds.appended {log₁ log₂ : Log} {day : Int} {rs : List Record}
    (h : Holds c w.files (log₁ ++ (day, rs) :: log₂)) (hsome : w.directory.isSome) (r : Record) :
    Holds c (w.appended day (textOf c rs ++ utf8 (c.recordToString r) ++ [10]) r).files
      (log₁ ++ (day, rs ++ [r]) :: log₂) := by
  have hreplaced := h.replace (rs ++ [r])
  rwa [textOf_concat, ← World.files_onDirectory hsome (g := fun d => d.insert _ _)] at hreplaced

/-- **Appending a record**: the whole line, or the part of it that came through, is at the end of
the file; the history has it once the line is there. -/
theorem appendRecord_spec {day : Int} {record : Record} {content : Bytes}
    (h : w.lookup (fileName day) = some (.file content)) :
    let line := utf8 (c.recordToString record)
    WP (appendRecord c day record) f
      (fun _ w' => f .syncData = .done ∧ w' = w.appended day (content ++ line ++ [10]) record)
      (fun _ w' =>
        (∃ n reason, f .writeLine = .failed n reason ∧ w' = w.append day (line.take n)) ∨
          f .writeLine = .done ∧ ((∃ n reason, f .writeNewline = .failed n reason) ∨
            (∃ n reason, f .syncData = .failed n reason) ∧
              w' = w.appended day (content ++ line ++ [10]) record))
      (fun w' => Cut f ∧ (w' = w ∨ w' = w.appended day (content ++ line) record ∨
        w' = w.appended day (content ++ line ++ [10]) record)) w := by
  intro line
  have hsome := World.isSome_of_lookup h
  unfold appendRecord
  refine WP.bind (Q := fun _ w' => f .writeLine = .done ∧
    w' = w.appended day (content ++ line) record) ?_ ?_
  · refine WP.perform (fun hdone => ⟨hdone, World.append_wrote h record⟩)
      (fun n reason hf => Or.inl ⟨n, reason, hf, rfl⟩) (fun hf => ⟨⟨_, hf⟩, Or.inl rfl⟩)
  · rintro _ _ ⟨hline, rfl⟩
    refine WP.bind (Q := fun _ w' => f .writeNewline = .done ∧
      w' = w.appended day (content ++ line ++ [10]) record) ?_ ?_
    · refine WP.perform (fun hdone => ⟨hdone, World.append_appended record hsome⟩)
        (fun n reason hf => Or.inr ⟨hline, Or.inl ⟨n, reason, hf⟩⟩)
        (fun hf => ⟨⟨_, hf⟩, Or.inr (Or.inl rfl)⟩)
    · rintro _ _ ⟨-, rfl⟩
      exact WP.perform (fun hdone => ⟨hdone, rfl⟩)
        (fun n reason hf => Or.inr ⟨hline, Or.inr ⟨⟨n, reason, hf⟩, rfl⟩⟩)
        (fun hf => ⟨⟨_, hf⟩, Or.inr (Or.inr rfl)⟩)

end PicX.Audit
