import PicX.Keys.Schedule

/-!
# When a pass has nothing to do

A pass is called at startup and on a timer, and is meant to do nothing the second time. Its stages
run once each: what the last one leaves may give it something to do again.

* `AtRest` — a ring on which a pass has nothing to do (`maintain_atRest`, `atRest_of_quiet`).
* `maintain_leaves` — what a pass leaves.
* `maintain_idempotent` — when a second pass at the same reading of the clock does nothing.
-/

namespace PicX.Keys

open PicX Program

variable {c : Crates} {m : DirectoryKeyManager} {now a r n : Nat} {keys before : List Entry}
  {f : Op → Outcome} {w w' : World} {e e' : Entry} {p p' : Pass} {report : Maintenance}

/-! ## A ring on which there is nothing to do -/

/-- No stage of a pass has anything to do. -/
structure AtRest (m : DirectoryKeyManager) (now : Nat) (keys : List Entry) : Prop where
  nonempty : keys ≠ []
  current : activeIsCurrent m keys = true
  due : dueKey m now keys = none
  successor : successorDue m now keys = true → waiting keys = true
  archive : toArchive m now keys = []
  forget : toForget m now keys = []

theorem aged_eq_self (harchive : toArchive m now keys = []) (hforget : toForget m now keys = []) :
    aged m now keys = keys := by
  unfold aged
  rw [harchive, hforget]
  have hentry : agedEntry [] [] = some := by
    funext e
    simp [agedEntry]
  rw [hentry, List.filterMap_some]

/-- **A pass over a ring at rest reports nothing and touches nothing.** -/
theorem maintain_atRest (h : AtRest m now w.entries) (hread : f .readRing = .done) :
    maintain c m now f w = .ok .default w := by
  have hring : readRing .readRing f w = .ok (w.ring.getD .default) w := by
    simp [readRing, perform, hread]
  let p : Pass := { keys := w.entries, report := .default }
  have hempty : w.entries.isEmpty = false := by simpa using h.nonempty
  have hfirst : bootstrap c m now p f w = .ok p w := by
    unfold bootstrap
    rw [show p.keys.isEmpty = false from hempty]
    rfl
  have hmigrate : migrate c m now p f w = .ok p w := by
    unfold migrate
    rw [show activeIsCurrent m p.keys = true from h.current]
    rfl
  have hcatch : catchUpAll m now p f w = .ok p w := by
    unfold catchUpAll
    rw [catchUp, show dueKey m now p.keys = none from h.due]
    rfl
  have hsucceed : succeed c m now p f w = .ok p w := by
    have hguard : (successorDue m now p.keys && !waiting p.keys) = false := by
      cases hdue : successorDue m now p.keys with
      | false => rfl
      | true => rw [h.successor hdue]; rfl
    unfold succeed
    rw [hguard]
    rfl
  have hage : age m now p f w = .ok p w := by
    have haged : p.aged m now = p := by
      unfold Pass.aged
      rw [show toArchive m now p.keys = [] from h.archive,
        show toForget m now p.keys = [] from h.forget,
        show Keys.aged m now p.keys = p.keys from aged_eq_self h.archive h.forget]
      simp [p]
    unfold age
    rw [show toArchive m now p.keys = [] from h.archive,
      show toForget m now p.keys = [] from h.forget, haged]
    rfl
  unfold maintain
  rw [bind_of_ok hring]
  show (bootstrap c m now p >>= _) f w = _
  rw [bind_of_ok hfirst, bind_of_ok hmigrate, bind_of_ok hcatch, bind_of_ok hsucceed,
    bind_of_ok hage]
  rfl

/-! ## The stages of a pass that succeeded -/

theorem bootstrap_ok (h : bootstrap c m now p f w = .ok p' w') :
    p.keys ≠ [] ∧ p' = p ∨ p'.report.published = p.report.published + 1 := by
  unfold bootstrap at h
  cases hempty : p.keys.isEmpty with
  | true =>
    rw [hempty] at h
    obtain ⟨e, w₁, -, h⟩ := bind_eq_ok h
    cases h
    exact Or.inr rfl
  | false =>
    rw [hempty] at h
    cases h
    exact Or.inl ⟨by simpa using hempty, rfl⟩

theorem migrate_ok (h : migrate c m now p f w = .ok p' w') :
    (p.keys ≠ [] → activeIsCurrent m p.keys = true) ∧ p' = p ∨
      p'.report.published = p.report.published + 1 := by
  unfold migrate at h
  cases hchange : !activeIsCurrent m p.keys && !p.keys.isEmpty with
  | true =>
    rw [hchange] at h
    obtain ⟨e, w₁, -, h⟩ := bind_eq_ok h
    cases h
    exact Or.inr rfl
  | false =>
    rw [hchange] at h
    cases h
    refine Or.inl ⟨fun hne => ?_, rfl⟩
    have hempty : p.keys.isEmpty = false := by simpa using hne
    simpa [hempty] using hchange

theorem catchUpAll_ok (h : catchUpAll m now p f w = .ok p' w') :
    catchUp m now (p.keys.length + 1) p = some p' ∧ w' = w := by
  unfold catchUpAll at h
  cases hcatch : catchUp m now (p.keys.length + 1) p with
  | none =>
    rw [hcatch] at h
    cases h
  | some p₁ =>
    rw [hcatch] at h
    cases h
    exact ⟨rfl, rfl⟩

/-- The loop ends when nothing is due, and publishes nothing. -/
theorem catchUp_some {k : Nat} (h : catchUp m now k p = some p') :
    dueKey m now p'.keys = none ∧ p'.report.published = p.report.published := by
  induction k generalizing p with
  | zero => simp [catchUp] at h
  | succ k ih =>
    rw [catchUp] at h
    cases hdue : dueKey m now p.keys with
    | none =>
      rw [hdue] at h
      cases h
      exact ⟨hdue, rfl⟩
    | some kid =>
      rw [hdue] at h
      obtain ⟨hnone, hpublished⟩ := ih h
      exact ⟨hnone, hpublished⟩

theorem succeed_ok (h : succeed c m now p f w = .ok p' w') :
    (successorDue m now p.keys = true → waiting p.keys = true) ∧ p' = p ∨
      ∃ e, Created c m now false w.drawn e ∧ p'.keys = p.keys ++ [e] ∧
        p'.report.published = p.report.published + 1 := by
  unfold succeed at h
  cases hdue : successorDue m now p.keys && !waiting p.keys with
  | true =>
    rw [hdue] at h
    obtain ⟨e, w₁, hcreate, h⟩ := bind_eq_ok h
    cases h
    exact Or.inr ⟨e, (create_spec.ok hcreate).1, rfl, rfl⟩
  | false =>
    rw [hdue] at h
    cases h
    refine Or.inl ⟨fun hdue' => ?_, rfl⟩
    simpa [hdue'] using hdue

/-- A pass that succeeded, stage by stage. -/
theorem maintain_stages (hdistinct : Distinct c) (hsound : Sound c (w.drawn, w.entries))
    (h : maintain c m now f w = .ok report w') : ∃ p₁ w₁ p₂ w₂ p₃ p₄ w₄,
      bootstrap c m now { keys := w.entries, report := .default } f w = .ok p₁ w₁ ∧
      migrate c m now p₁ f w₁ = .ok p₂ w₂ ∧
      catchUp m now (p₂.keys.length + 1) p₂ = some p₃ ∧
      succeed c m now p₃ f w₂ = .ok p₄ w₄ ∧ Reached c m now w p₄ w₄ ∧
      report = (p₄.aged m now).report ∧
      (report.isEmpty = true ∧ w'.entries = w.entries ∨
        report.isEmpty = false ∧ w'.entries = aged m now p₄.keys) := by
  unfold maintain at h
  obtain ⟨ring, w₀, hread, h⟩ := bind_eq_ok h
  obtain ⟨rfl, rfl⟩ := readRing_spec.ok hread
  obtain ⟨p₁, w₁, hfirst, h⟩ := bind_eq_ok h
  obtain ⟨p₂, w₂, hmigrate, h⟩ := bind_eq_ok h
  obtain ⟨p₃, w₃, hcatch, h⟩ := bind_eq_ok h
  obtain ⟨p₄, w₄, hsucceed, h⟩ := bind_eq_ok h
  obtain ⟨p₅, w₅, hage, h⟩ := bind_eq_ok h
  obtain ⟨hcaught, rfl⟩ := catchUpAll_ok hcatch
  obtain ⟨_, _, hforget, hpass⟩ := bind_eq_ok hage
  cases hpass
  have h₁ : Reached c m now w₀ p₁ w₁ := bootstrap_spec.ok hfirst
  have h₂ : Reached c m now w₀ p₂ w₃ := (migrate_spec h₁).ok hmigrate
  have h₃ : Reached c m now w₀ p₃ w₃ := ((catchUpAll_spec hdistinct hsound h₂).ok hcatch).2
  have h₄ : Reached c m now w₀ p₄ w₄ := (succeed_spec h₃).ok hsucceed
  refine ⟨p₁, w₁, p₂, w₃, p₃, p₄, w₄, hfirst, hmigrate, hcaught, hsucceed, h₄, ?_⟩
  have htouched : Touched c w₀ w₅ := h₄.touched.trans ((forgetAll_spec _).ok hforget).1
  cases hempty : (p₄.aged m now).report.isEmpty with
  | true =>
    rw [hempty] at h
    cases h
    exact ⟨rfl, Or.inl ⟨hempty, htouched.entries⟩⟩
  | false =>
    rw [hempty] at h
    obtain ⟨_, w₆, hwrite, h⟩ := bind_eq_ok h
    cases h
    refine ⟨rfl, Or.inr ⟨hempty, ?_⟩⟩
    rw [writeRing_spec.ok hwrite]
    rfl

/-- **A pass that reports nothing found the ring at rest.** -/
theorem atRest_of_quiet (hdistinct : Distinct c) (hsound : Sound c (w.drawn, w.entries))
    (h : maintain c m now f w = .ok report w') (hquiet : report.isEmpty = true) :
    AtRest m now w.entries := by
  obtain ⟨p₁, w₁, p₂, w₂, p₃, p₄, w₄, hfirst, hmigrate, hcatch, hsucceed, -, rfl, -⟩ :=
    maintain_stages hdistinct hsound h
  have hpublished : (p₄.aged m now).report.published = 0 := published_of_isEmpty hquiet
  change p₄.report.published = 0 at hpublished
  have hcaught := catchUp_some hcatch
  -- a stage that created a key has published it
  rcases succeed_ok hsucceed with ⟨hsuccessor, rfl⟩ | ⟨e, -, -, hcount⟩
  swap
  · omega
  rcases migrate_ok hmigrate with ⟨hcurrent, rfl⟩ | hcount
  swap
  · omega
  rcases bootstrap_ok hfirst with ⟨hne, rfl⟩ | hcount
  swap
  · omega
  dsimp only at hne hcurrent hcatch
  -- and a handover has activated one
  rcases catchUp_ends { keys := w.entries, report := .default } hsound.nodup_kid hsound.oneWaiting
    with ⟨hsame, hdue⟩ | ⟨kid, hdue, hsome⟩
  · cases hsame.symm.trans hcatch
    simp only [Maintenance.isEmpty, Bool.and_eq_true, decide_eq_true_eq] at hquiet
    obtain ⟨⟨-, harchived⟩, hforgotten⟩ := hquiet
    simp only [Pass.aged, Maintenance.default, Nat.zero_add] at harchived hforgotten
    refine ⟨hne, hcurrent hne, hdue, hsuccessor, ?_, List.length_eq_zero_iff.mp hforgotten⟩
    refine List.eq_nil_iff_forall_not_mem.mpr fun kid hkid => ?_
    obtain ⟨e, he, rfl⟩ := List.mem_map.mp hkid
    exact List.countP_eq_zero.mp harchived e (List.mem_of_mem_filter he) (decide_eq_true hkid)
  · cases hsome.symm.trans hcatch
    have hactivated := activated_of_isEmpty hquiet
    obtain ⟨e, he, hkid, -⟩ := mem_of_dueKey hdue
    have hany : (retireActive now w.entries).any (fun e => e.kid = kid) = true := by
      have hmap : kid ∈ (retireActive now w.entries).map Entry.kid := by
        rw [map_kid_retireActive, ← hkid]
        exact List.mem_map_of_mem he
      obtain ⟨e', he', heq⟩ := List.mem_map.mp hmap
      exact List.any_eq_true.mpr ⟨e', he', decide_eq_true heq⟩
    simp [Pass.aged, Pass.activateKey, Pass.retireActive, hany] at hactivated

/-! ## What a pass leaves -/

/-- Before ageing, a successor is there when one is due, and no key is due any more. -/
theorem maintain_leaves (hdistinct : Distinct c) (hsound : Sound c (w.drawn, w.entries))
    (hahead : 0 < m.policy.publishAhead) (h : maintain c m now f w = .ok report w') :
    ∃ n keys₁, Edits c m now (w.drawn, w.entries) (n, keys₁) ∧ keys₁ ≠ [] ∧
      w'.entries = aged m now keys₁ ∧
      (successorDue m now keys₁ = true → waiting keys₁ = true) ∧
      (now < U64_MAX → dueKey m now keys₁ = none) := by
  obtain ⟨p₁, w₁, p₂, w₂, p₃, p₄, w₄, -, -, hcatch, hsucceed, hreached, hreport, hwritten⟩ :=
    maintain_stages hdistinct hsound h
  rcases hwritten with ⟨hquiet, hentries⟩ | ⟨-, hentries⟩
  · have hrest := atRest_of_quiet hdistinct hsound h hquiet
    refine ⟨w.drawn, w.entries, .refl, hrest.nonempty, ?_, hrest.successor,
      fun _ => hrest.due⟩
    rw [hentries, aged_eq_self hrest.archive hrest.forget]
  · refine ⟨w₄.drawn, p₄.keys, hreached.edits, hreached.nonempty, hentries, ?_, ?_⟩
    · intro hdue
      rcases succeed_ok hsucceed with ⟨hsuccessor, rfl⟩ | ⟨e, hnew, hkeys, -⟩
      · exact hsuccessor hdue
      · rw [hkeys]
        exact List.any_eq_true.mpr ⟨e, by simp, decide_eq_true hnew.state⟩
    · intro hnow
      have hnone := (catchUp_some hcatch).1
      rcases succeed_ok hsucceed with ⟨-, rfl⟩ | ⟨e, hnew, hkeys, -⟩
      · exact hnone
      · rw [hkeys, dueKey_eq_none_iff]
        intro e' he' hpublished
        rcases List.mem_append.mp he' with hold | hlast
        · exact dueKey_eq_none_iff.mp hnone e' hold hpublished
        · rw [List.mem_singleton.mp hlast, hnew.createdAt]
          unfold saturatingAdd
          omega

theorem mem_of_mem_aged (hkids : (keys.map Entry.kid).Nodup) (he : e ∈ aged m now keys)
    (hstate : e.state ≠ .archived) : e ∈ keys := by
  obtain ⟨e₀, he₀, -, ⟨-, -, rfl⟩ | ⟨-, rfl⟩⟩ := (mem_aged hkids).mp he
  · simp at hstate
  · exact he₀

/-- Ageing leaves the keys that sign or wait alone. -/
theorem mem_aged_of_live (hkids : (keys.map Entry.kid).Nodup) (he : e ∈ keys)
    (hstate : e.state = .active ∨ e.state = .published) : e ∈ aged m now keys := by
  refine (mem_aged hkids).mpr ⟨e, he, ?_, Or.inr ⟨?_, rfl⟩⟩
  · rcases hstate with hstate | hstate <;> simp [Over, retentionOver, archiveOver, hstate]
  · rcases hstate with hstate | hstate <;> simp [retentionOver, hstate]

/-- A key that was archived by this pass and has nothing to verify any more. -/
def Overdue (m : DirectoryKeyManager) (now : Nat) (e : Entry) : Prop :=
  m.policy.hasArchivePhase = true ∧ retentionOver m now e = true ∧
    archiveOver m now { e with state := .archived } = true

/-- **What ageing leaves is at rest**, unless it archived a key that is already to be forgotten. -/
theorem atRest_aged (hdistinct : Distinct c) (hsound : Sound c (n, keys)) (hpaced : Paced m keys)
    (hne : keys ≠ []) (hdue : dueKey m now keys = none)
    (hsuccessor : successorDue m now keys = true → waiting keys = true)
    (hlate : ∀ e ∈ keys, ¬Overdue m now e) : AtRest m now (aged m now keys) := by
  have hkids := hsound.nodup_kid
  have hedit : Edit c m now true (n, keys) (n, aged m now keys) := .aged
  have hne' : aged m now keys ≠ [] := hedit.nonempty hsound hne
  have hsound' := hedit.sound hdistinct hsound
  refine ⟨hne', (hedit.paced hdistinct hsound hpaced).current (hsound'.2 hne'), ?_, ?_, ?_, ?_⟩
  · refine dueKey_eq_none_iff.mpr fun e he hpublished => ?_
    exact dueKey_eq_none_iff.mp hdue e (mem_of_mem_aged hkids he (by simp [hpublished])) hpublished
  · intro hdue'
    obtain ⟨e, ⟨he, hactive⟩, -⟩ := (hsound.2 hne).active
    obtain ⟨a, ha⟩ := Option.isSome_iff_exists.mp
      ((hsound.2 hne).activatedAt e he (by simp [hactive]))
    have hstart := (successorDue_iff (hsound'.2 hne')
      (mem_aged_of_live hkids he (Or.inl hactive)) hactive ha).mp hdue'
    obtain ⟨e', he', hpublished⟩ := List.any_eq_true.mp
      (hsuccessor ((successorDue_iff (hsound.2 hne) he hactive ha).mpr hstart))
    refine List.any_eq_true.mpr ⟨e', ?_, hpublished⟩
    exact mem_aged_of_live hkids he' (Or.inr (of_decide_eq_true hpublished))
  · refine List.eq_nil_iff_forall_not_mem.mpr fun kid hkid => ?_
    obtain ⟨e, he, rfl⟩ := List.mem_map.mp hkid
    have hin := List.mem_of_mem_filter he
    obtain ⟨hphase, hover⟩ := (mem_toArchive hsound'.nodup_kid hin).mp hkid
    obtain ⟨e₀, -, -, ⟨-, -, rfl⟩ | ⟨hnot, rfl⟩⟩ := (mem_aged hkids).mp hin
    · simp [retentionOver] at hover
    · exact hnot ⟨hphase, hover⟩
  · refine List.eq_nil_iff_forall_not_mem.mpr fun kid hkid => ?_
    obtain ⟨e, he, rfl⟩ := List.mem_map.mp hkid
    have hin := List.mem_of_mem_filter he
    have hover := (mem_toForget hsound'.nodup_kid hin).mp hkid
    obtain ⟨e₀, he₀, hkept, ⟨hphase, hretention, rfl⟩ | ⟨-, rfl⟩⟩ := (mem_aged hkids).mp hin
    · rcases hover with ⟨hnone, -⟩ | hover
      · simp [hphase] at hnone
      · exact hlate e₀ he₀ ⟨hphase, hretention, hover⟩
    · exact hkept hover

/-- A key that stopped signing did so before the pass, or in it. -/
theorem Edits.retired (hdistinct : Distinct c) {p p' : Nat × List Entry} (h : Edits c m now p p')
    (hsound : Sound c p) : ∀ e ∈ p'.2, e.state = .retired → e ∈ p.2 ∨ e.retiredAt = some now := by
  induction h with
  | refl => exact fun e he _ => Or.inl he
  | tail hedits hedit ih =>
    intro e he hretired
    have hkids := (Edits.sound hdistinct hedits hsound).nodup_kid
    rcases hedit.backward hkids e he with ⟨e₀, he₀, hbecomes⟩ | ⟨signing, hnew, -⟩
    · cases hbecomes with
      | same => exact ih e he₀ hretired
      | retired hactive => exact Or.inr rfl
      | activated hpublished => simp [Entry.activate] at hretired
      | archived hageing => simp at hageing
    · rw [hnew.state] at hretired
      cases signing <;> simp at hretired

theorem Edits.paced (hdistinct : Distinct c) {p p' : Nat × List Entry} (h : Edits c m now p p')
    (hsound : Sound c p) (hpaced : Paced m p.2) : Paced m p'.2 := by
  induction h with
  | refl => exact hpaced
  | tail hedits hedit ih => exact hedit.paced hdistinct (Edits.sound hdistinct hedits hsound) ih

/-! ## A second pass -/

/-- No retired key of the ring is past the time its public half is kept, when that is longer than
the time its private half is. -/
def InTime (m : DirectoryKeyManager) (now : Nat) (keys : List Entry) : Prop :=
  m.policy.hasArchivePhase = true → ∀ e ∈ keys, e.state = .retired →
    ∀ r, e.retiredAt = some r → now < saturatingAdd r m.policy.verifyRetained

theorem retentionOver_iff : retentionOver m now e = true ↔
    e.state = .retired ∧ ∃ r, e.retiredAt = some r ∧ saturatingAdd r m.policy.retain ≤ now := by
  unfold retentionOver
  cases hr : e.retiredAt <;> simp

theorem archiveOver_iff : archiveOver m now e = true ↔
    e.state = .archived ∧
      ∃ r, e.retiredAt = some r ∧ saturatingAdd r m.policy.verifyRetained ≤ now := by
  unfold archiveOver
  cases hr : e.retiredAt <;> simp

theorem not_overdue (hretain : 0 < m.policy.retain) (hnow : now < U64_MAX)
    (hdistinct : Distinct c) {p p' : Nat × List Entry} (h : Edits c m now p p')
    (hsound : Sound c p) (hintime : InTime m now p.2) (he : e ∈ p'.2) : ¬Overdue m now e := by
  rintro ⟨hphase, hretention, harchive⟩
  obtain ⟨hretired, r, hr, hover⟩ := retentionOver_iff.mp hretention
  rcases h.retired hdistinct hsound e he hretired with hbefore | hstopped
  · obtain ⟨-, r', hr', hover'⟩ := archiveOver_iff.mp harchive
    cases hr.symm.trans hr'
    exact absurd hover' (Nat.not_le.mpr (hintime hphase e hbefore hretired r hr))
  · -- a key that stopped in this pass has its retention before it
    cases hr.symm.trans hstopped
    unfold saturatingAdd at hover
    omega

/-- At the last reading of the clock no ring is at rest: a successor is due, and so is its turn. -/
theorem AtRest.lt_max (h : AtRest m now keys) (hshaped : Shaped keys) (hmax : now ≤ U64_MAX) :
    now < U64_MAX := by
  by_contra hlast
  have hall : ∀ x d, saturatingAdd x d ≤ now := by
    intro x d
    unfold saturatingAdd
    omega
  obtain ⟨e, ⟨he, hactive⟩, -⟩ := hshaped.active
  obtain ⟨a, ha⟩ := Option.isSome_iff_exists.mp (hshaped.activatedAt e he (by simp [hactive]))
  have hstart : saturatingAdd a m.policy.rotateEvery - m.policy.publishAhead ≤ now :=
    (Nat.sub_le _ _).trans (hall _ _)
  obtain ⟨e', he', hpublished⟩ := List.any_eq_true.mp
    (h.successor ((successorDue_iff hshaped he hactive ha).mpr hstart))
  exact dueKey_eq_none_iff.mp h.due e' he' (of_decide_eq_true hpublished) (hall _ _)

/-- A retired key past both times is archived by one pass and left for the next to forget. -/
theorem AtRest.inTime (hdistinct : Distinct c) {p : Nat × List Entry} (hsound : Sound c p)
    (hedits : Edits c m now p (n, keys)) (h : AtRest m now (aged m now keys)) :
    InTime m now p.2 := by
  intro hphase e he hretired r hr
  by_contra hover
  push Not at hover
  have hsound₁ := hedits.sound hdistinct hsound
  have hin : e ∈ keys := hedits.stays hdistinct hsound he ⟨Or.inl hretired, hr⟩
  have hphase' : m.policy.retain < m.policy.verifyRetained := of_decide_eq_true hphase
  have hretention : retentionOver m now e = true := by
    refine retentionOver_iff.mpr ⟨hretired, r, hr, ?_⟩
    unfold saturatingAdd at hover ⊢
    omega
  have hkept : ¬Over m now e := by
    rintro (⟨hnone, -⟩ | harchived)
    · simp [hphase] at hnone
    · simp [archiveOver, hretired] at harchived
  have harchived : { e with state := .archived } ∈ aged m now keys :=
    (mem_aged hsound₁.nodup_kid).mpr ⟨e, hin, hkept, Or.inl ⟨hphase, hretention, rfl⟩⟩
  have hforget := (mem_toForget (nodup_kid_aged hsound₁.nodup_kid) harchived).mpr
    (Or.inr (archiveOver_iff.mpr ⟨rfl, r, hr, hover⟩))
  rw [h.forget] at hforget
  simp at hforget

variable {run : Nat → Nat × World}

/-- **A second pass.** On every ring that a run of one manager reaches from an empty one, with a
policy whose periods fit: after a pass that succeeded, another at the same reading of the clock
reports nothing and leaves the ring and the private keys as they are, exactly when this is not the
last reading of the clock and, where public halves are kept longer, no retired key of the ring
before the first pass was past that time. -/
theorem maintain_idempotent (hdistinct : Distinct c) (hvalid : Valid m.policy)
    (hrun : Managed c m run n) (hmax : now ≤ U64_MAX)
    (hfirst : maintain c m now f (run n).2 = .ok report w') :
    (∃ w'', maintain c m now (fun _ => .done) w' = .ok .default w'' ∧
        w''.ring = w'.ring ∧ w''.pems = w'.pems) ↔
      now < U64_MAX ∧ InTime m now (run n).2.entries := by
  have hsound := hrun.sound hdistinct le_rfl
  have hpaced := hrun.paced hdistinct le_rfl
  obtain ⟨n₁, keys, hedits, hne, hentries, hsuccessor, hdue⟩ :=
    maintain_leaves hdistinct hsound hvalid.ahead hfirst
  obtain ⟨hsound', hne'⟩ := (maintain_sound hdistinct hsound).ok hfirst
  constructor
  · rintro ⟨w'', hsecond, -, -⟩
    have hrest := atRest_of_quiet hdistinct hsound' hsecond rfl
    refine ⟨hrest.lt_max (hsound'.2 hne') hmax, ?_⟩
    rw [hentries] at hrest
    exact hrest.inTime hdistinct hsound hedits
  · rintro ⟨hnow, hintime⟩
    have hretain : 0 < m.policy.retain :=
      hvalid.ahead.trans (hvalid.rotates.trans_le hvalid.retains)
    have hrest : AtRest m now w'.entries := by
      rw [hentries]
      exact atRest_aged hdistinct (hedits.sound hdistinct hsound)
        (hedits.paced hdistinct hsound hpaced) hne (hdue hnow) hsuccessor
        fun e he => not_overdue hretain hnow hdistinct hedits hsound hintime he
    exact ⟨w', maintain_atRest hrest rfl, rfl, rfl⟩

/-! ### A ring left alone for a season -/

/-- What two passes at one reading of the clock report. -/
def twice (m : DirectoryKeyManager) (now : Nat) (w : World) : Option (Maintenance × Maintenance) :=
  match maintain testCrates m now (fun _ => .done) w with
  | .ok first w' =>
    match maintain testCrates m now (fun _ => .done) w' with
    | .ok second _ => some (first, second)
    | _ => none
  | _ => none

theorem twice_some {first second : Maintenance} (h : twice m now w = some (first, second)) :
    ∃ w', maintain testCrates m now (fun _ => .done) w = .ok first w' ∧
      ∃ w'', maintain testCrates m now (fun _ => .done) w' = .ok second w'' := by
  unfold twice at h
  cases hfirst : maintain testCrates m now (fun _ => .done) w with
  | error e w' => simp [hfirst] at h
  | crash w' => simp [hfirst] at h
  | ok first' w' =>
    cases hsecond : maintain testCrates m now (fun _ => .done) w' with
    | error e w'' => simp [hfirst, hsecond] at h
    | crash w'' => simp [hfirst, hsecond] at h
    | ok second' w'' =>
      simp only [hfirst, hsecond, Option.some.injEq, Prod.mk.injEq] at h
      obtain ⟨rfl, rfl⟩ := h
      exact ⟨w', rfl, w'', hsecond⟩

theorem inTime_of_all (h : keys.all (fun e => e.retiredAt.all fun r =>
    now < saturatingAdd r m.policy.verifyRetained) = true) : InTime m now keys := by
  intro _ e he _ r hr
  simpa [hr] using List.all_eq_true.mp h e he

/-- One week with the first key, and the handover to the second. -/
def oneWeek : Nat → Nat × World := passesAt weekly [0, 601200, 604800]

theorem weekly_valid : Valid weekly.policy := ⟨by decide, by decide, by decide⟩

theorem managed_oneWeek : Managed testCrates weekly oneWeek 3 := managed_passesAt (by decide)

/-- A month after the handover the first key is archived, and there is nothing else to do. -/
theorem maintain_idempotent_after_a_month : ∃ w',
    maintain testCrates weekly 3196800 (fun _ => .done) (oneWeek 3).2 = .ok ⟨1, 0, 0, 1, 0⟩ w' ∧
    ∃ w'', maintain testCrates weekly 3196800 (fun _ => .done) w' = .ok .default w'' ∧
      w''.ring = w'.ring ∧ w''.pems = w'.pems := by
  have hrun : twice weekly 3196800 (oneWeek 3).2 = some (⟨1, 0, 0, 1, 0⟩, .default) ∧
      (oneWeek 3).2.entries.all (fun e => e.retiredAt.all fun r =>
        3196800 < saturatingAdd r weekly.policy.verifyRetained) = true := by
    decide +kernel
  obtain ⟨w', hfirst, -⟩ := twice_some hrun.1
  have hintime : InTime weekly 3196800 (oneWeek 3).2.entries := inTime_of_all hrun.2
  exact ⟨w', hfirst, (maintain_idempotent testCrates_distinct weekly_valid managed_oneWeek
    (by decide) hfirst).mpr ⟨by decide, hintime⟩⟩

/-- Three months after the handover the first key is archived, and a second pass forgets it. -/
theorem second_pass_forgets :
    Valid weekly.policy ∧ Managed testCrates weekly oneWeek 3 ∧ (oneWeek 3).1 ≤ 8380800 ∧
    ∃ w', maintain testCrates weekly 8380800 (fun _ => .done) (oneWeek 3).2 =
        .ok ⟨1, 0, 0, 1, 0⟩ w' ∧
      ∃ w'', maintain testCrates weekly 8380800 (fun _ => .done) w' = .ok ⟨0, 0, 0, 0, 1⟩ w'' ∧
        (⟨0, 0, 0, 0, 1⟩ : Maintenance) ≠ .default := by
  have hrun : twice weekly 8380800 (oneWeek 3).2 =
      some (⟨1, 0, 0, 1, 0⟩, ⟨0, 0, 0, 0, 1⟩) := by decide +kernel
  obtain ⟨w', hfirst, w'', hsecond⟩ := twice_some hrun
  have hlater : (oneWeek 3).1 ≤ 8380800 := by
    show 604800 ≤ 8380800
    decide
  exact ⟨weekly_valid, managed_oneWeek, hlater, w', hfirst, w'', hsecond, by decide⟩

end PicX.Keys
