import PicX.Keys.Base64
import PicX.Keys.Maintain

/-!
# How long a signature can be verified, and a private key be used

A key that signed stays in the key set while anything it signed may have to be verified; a key
that stopped signing never signs again, and its private half goes once it has been retired for
long enough. Both follow a key through any number of passes, whatever fails in them.

* `Serving` — a key that signs, or stopped signing at a given time or later.
* `maintain_serves` — a pass keeps a key that is not past its time.
* `Stopped` — a key that stopped signing at a given time, and whose file is gone unless it is
  still retired.
* `verification_window` — what both give over whole runs.
-/

namespace PicX.Keys

open PicX Program

variable {c : Crates} {m : DirectoryKeyManager} {policy : KeyPolicy} {now t r : Nat} {kid : String}
  {ageing : Bool} {f : Op → Outcome} {w w' : World} {e e' : Entry} {p p' : Nat × List Entry}

/-! ## A key that signed -/

/-- A key that signs, or that stopped signing at `t` or later. -/
def Serving (t : Nat) (e : Entry) : Prop :=
  e.state = .active ∨
    (e.state = .retired ∨ e.state = .archived) ∧ ∃ r, e.retiredAt = some r ∧ t ≤ r

theorem saturatingAdd_mono {a b : Nat} (h : a ≤ b) (d : Nat) :
    saturatingAdd a d ≤ saturatingAdd b d := by
  unfold saturatingAdd
  omega

theorem Serving.becomes (h : Serving t e) (ht : t ≤ now) (hbecomes : Becomes m now ageing e e') :
    Serving t e' := by
  cases hbecomes with
  | same => exact h
  | retired hactive => exact Or.inr ⟨Or.inl rfl, now, rfl, ht⟩
  | activated hpublished => exact Or.inl rfl
  | archived hageing hphase hover =>
    have hretired : e.state = .retired := (of_decide_eq_true hover).1
    rcases h with hactive | ⟨-, hr⟩
    · simp [hretired] at hactive
    · exact Or.inr ⟨Or.inr rfl, hr⟩

theorem Serving.mono {t' : Nat} (h : Serving t e) (hle : t' ≤ t) : Serving t' e := by
  rcases h with hactive | ⟨hstate, r, hr, ht⟩
  · exact Or.inl hactive
  · exact Or.inr ⟨hstate, r, hr, hle.trans ht⟩

/-- Within its window a key is not dropped. -/
theorem Serving.not_over (h : Serving t e)
    (hwindow : now < saturatingAdd t m.policy.verifyRetained) : ¬Over m now e := by
  rcases h with hactive | ⟨-, r, hr, hle⟩
  · simp [Over, retentionOver, archiveOver, hactive]
  · have hmono := saturatingAdd_mono hle m.policy.verifyRetained
    rintro (⟨hphase, hover⟩ | hover)
    · have hsame : m.policy.verifyRetained = m.policy.retain := by
        have : ¬m.policy.retain < m.policy.verifyRetained := of_decide_eq_false hphase
        unfold KeyPolicy.verifyRetained at this ⊢
        omega
      have hdue : saturatingAdd r m.policy.retain ≤ now := by
        simpa [hr] using (of_decide_eq_true hover).2
      rw [← hsame] at hdue
      omega
    · have hdue : saturatingAdd r m.policy.verifyRetained ≤ now := by
        simpa [hr] using (of_decide_eq_true hover).2
      omega

/-- A key of that name serves. -/
def Serves (kid : String) (t : Nat) (keys : List Entry) : Prop :=
  ∃ e ∈ keys, e.kid = kid ∧ Serving t e

theorem Edit.serves (h : Edit c m now ageing p p') (hkids : (p.2.map Entry.kid).Nodup)
    (ht : t ≤ now) (hwindow : now < saturatingAdd t m.policy.verifyRetained)
    (hserves : Serves kid t p.2) : Serves kid t p'.2 := by
  obtain ⟨e, he, rfl, hserving⟩ := hserves
  rcases h.forward hkids e he with ⟨e', he', hbecomes⟩ | ⟨-, hover⟩
  · exact ⟨e', he', hbecomes.kid, hserving.becomes ht hbecomes⟩
  · exact absurd hover (hserving.not_over hwindow)

/-! ## A key that stopped signing -/

/-- A key that stopped signing at `r`. -/
def Ended (r : Nat) (e : Entry) : Prop :=
  (e.state = .retired ∨ e.state = .archived) ∧ e.retiredAt = some r

theorem Ended.becomes (h : Ended r e) (hbecomes : Becomes m now ageing e e') : Ended r e' := by
  cases hbecomes with
  | same => exact h
  | retired hactive => simp [Ended, hactive] at h
  | activated hpublished => simp [Ended, hpublished] at h
  | archived hageing hphase hover => exact ⟨Or.inr rfl, h.2⟩

/-- Before ageing, an entry that ended is left alone. -/
theorem Ended.same (h : Ended r e) (hbecomes : Becomes m now false e e') : e' = e := by
  cases hbecomes with
  | same => rfl
  | retired hactive => simp [Ended, hactive] at h
  | activated hpublished => simp [Ended, hpublished] at h
  | archived hageing => simp at hageing

/-- Every entry of that name ended at `r`, and the name was given earlier. -/
def AllEnded (c : Crates) (kid : String) (r : Nat) (p : Nat × List Entry) : Prop :=
  (∃ draw < p.1, Named c draw kid) ∧ ∀ e ∈ p.2, e.kid = kid → Ended r e

theorem Edit.allEnded (hdistinct : Distinct c) (h : Edit c m now ageing p p')
    (hkids : (p.2.map Entry.kid).Nodup) (hended : AllEnded c kid r p) : AllEnded c kid r p' := by
  obtain ⟨⟨draw, hlt, hnamed⟩, hall⟩ := hended
  refine ⟨⟨draw, hlt.trans_le h.draws_le, hnamed⟩, fun e' he' heq => ?_⟩
  rcases h.backward hkids e' he' with ⟨e, he, hbecomes⟩ | ⟨signing, hnew, -⟩
  · exact (hall e he (hbecomes.kid.symm.trans heq)).becomes hbecomes
  · have := hdistinct draw p.1 kid hnamed (heq ▸ hnew.named)
    omega

/-- Before ageing, what ended stays on the ring, -/
theorem Edit.stays (h : Edit c m now false p p') (hkids : (p.2.map Entry.kid).Nodup) (he : e ∈ p.2)
    (hended : Ended r e) : e ∈ p'.2 := by
  rcases h.forward hkids e he with ⟨e', he', hbecomes⟩ | ⟨hageing, -⟩
  · exact hended.same hbecomes ▸ he'
  · simp at hageing

/-- and what is archived was so before. -/
theorem Edit.archived_mem (h : Edit c m now false p p') (hkids : (p.2.map Entry.kid).Nodup)
    (he' : e' ∈ p'.2) (hstate : e'.state = .archived) : e' ∈ p.2 := by
  rcases h.backward hkids e' he' with ⟨e, he, hbecomes⟩ | ⟨signing, hnew, -⟩
  · cases hbecomes with
    | same => exact he
    | retired hactive => simp [Entry.retire] at hstate
    | activated hpublished => simp [Entry.activate] at hstate
    | archived hageing => simp at hageing
  · rw [hnew.state] at hstate
    cases signing <;> simp at hstate

theorem Edits.allEnded (hdistinct : Distinct c) (h : Edits c m now p p') (hsound : Sound c p)
    (hended : AllEnded c kid r p) : AllEnded c kid r p' := by
  induction h with
  | refl => exact hended
  | tail hedits hedit ih =>
    exact hedit.allEnded hdistinct (Edits.sound hdistinct hedits hsound).nodup_kid ih

theorem Edits.stays (hdistinct : Distinct c) (h : Edits c m now p p') (hsound : Sound c p)
    (he : e ∈ p.2) (hended : Ended r e) : e ∈ p'.2 := by
  induction h with
  | refl => exact he
  | tail hedits hedit ih =>
    exact hedit.stays (Edits.sound hdistinct hedits hsound).nodup_kid ih hended

theorem Edits.archived_mem (hdistinct : Distinct c) (h : Edits c m now p p') (hsound : Sound c p)
    (he' : e' ∈ p'.2) (hstate : e'.state = .archived) : e' ∈ p.2 := by
  induction h with
  | refl => exact he'
  | tail hedits hedit ih =>
    exact ih (hedit.archived_mem (Edits.sound hdistinct hedits hsound).nodup_kid he' hstate)

/-- A file that is gone does not come back: new files are named after new draws. -/
theorem Touched.notMem (hdistinct : Distinct c) (h : Touched c w w')
    (hnamed : ∃ draw < w.drawn, Named c draw kid) (hgone : kid ∉ w.pems) : kid ∉ w'.pems := by
  intro hin
  obtain ⟨draw, hlt, hnamed⟩ := hnamed
  rcases h.pems kid hin with hold | ⟨draw', hge, -, hnamed'⟩
  · exact hgone hold
  · have := hdistinct draw draw' kid hnamed hnamed'
    omega

/-- The private half of an archived key is gone. -/
def Clean (w : World) : Prop := ∀ e ∈ w.entries, e.state = .archived → e.kid ∉ w.pems

theorem Clean.touched (hdistinct : Distinct c) (hsound : Sound c (w.drawn, w.entries))
    (hclean : Clean w) (h : Touched c w w') : Clean w' := by
  intro e he hstate
  rw [h.entries] at he
  exact h.notMem hdistinct (hsound.1 e he) (hclean e he hstate)

theorem maintain_clean (hdistinct : Distinct c) (hsound : Sound c (w.drawn, w.entries))
    (hclean : Clean w) :
    WP (maintain c m now) f (fun _ => Clean) (fun _ => Clean) Clean w := by
  refine (maintain_spec hdistinct hsound).mono ?_ (fun _ _ h => hclean.touched hdistinct hsound h)
    (fun _ h => hclean.touched hdistinct hsound h.1)
  rintro _ w' ⟨w₁, keys₁, htouched, hedits, -, hgone, ⟨rfl, -⟩ | ⟨version, rfl⟩⟩
  · exact hclean.touched hdistinct hsound htouched
  · intro e' he' hstate
    have hkids := (hedits.sound hdistinct hsound).nodup_kid
    obtain ⟨e, he, -, ⟨hphase, hover, rfl⟩ | ⟨-, rfl⟩⟩ := (mem_aged hkids).mp he'
    · exact hgone _ (List.mem_append_left _ ((mem_toArchive hkids he).mpr ⟨hphase, hover⟩))
    · have hbefore := hedits.archived_mem hdistinct hsound he hstate
      show e'.kid ∉ w₁.pems
      exact htouched.notMem hdistinct (hsound.1 e' hbefore) (hclean e' hbefore hstate)

/-- A key that stopped signing at `r`: its file is gone unless it is still retired. -/
structure Stopped (c : Crates) (kid : String) (r : Nat) (w : World) : Prop where
  allEnded : AllEnded c kid r (w.drawn, w.entries)
  gone : (∀ e ∈ w.entries, e.kid = kid → e.state = .archived) → kid ∉ w.pems

theorem Stopped.touched (hdistinct : Distinct c) (h : Stopped c kid r w)
    (htouched : Touched c w w') :
    Stopped c kid r w' := by
  obtain ⟨⟨hnamed, hall⟩, hgone⟩ := h
  refine ⟨⟨?_, ?_⟩, ?_⟩
  · obtain ⟨draw, hlt, hdraw⟩ := hnamed
    exact ⟨draw, lt_of_lt_of_le hlt htouched.drawn, hdraw⟩
  · rw [htouched.entries]
    exact hall
  · rw [htouched.entries]
    exact fun harchived => htouched.notMem hdistinct hnamed (hgone harchived)

/-- A retired key is archived or forgotten when its retention is over. -/
theorem mem_gone_of_retentionOver {keys : List Entry} (hkids : (keys.map Entry.kid).Nodup)
    (he : e ∈ keys) (hover : retentionOver m now e = true) :
    e.kid ∈ toArchive m now keys ++ toForget m now keys := by
  rw [List.mem_append, mem_toArchive hkids he, mem_toForget hkids he]
  by_cases hphase : m.policy.hasArchivePhase = true
  · exact Or.inl ⟨hphase, hover⟩
  · exact Or.inr (Or.inl ⟨by simpa using hphase, hover⟩)

/-- **A pass leaves a key that stopped signing stopped**, and without its private half once it
has been retired for `retain`. -/
theorem maintain_stopped (hdistinct : Distinct c) (hsound : Sound c (w.drawn, w.entries))
    (h : Stopped c kid r w) :
    WP (maintain c m now) f
      (fun _ w' => Stopped c kid r w' ∧
        (saturatingAdd r m.policy.retain ≤ now → kid ∉ w'.pems))
      (fun _ => Stopped c kid r) (Stopped c kid r) w := by
  refine (maintain_spec hdistinct hsound).mono ?_ (fun _ _ h' => h.touched hdistinct h')
    (fun _ h' => h.touched hdistinct h'.1)
  rintro _ w' ⟨w₁, keys₁, htouched, hedits, -, hgone, hring⟩
  have hkids := (hedits.sound hdistinct hsound).nodup_kid
  have hpems : w'.pems = w₁.pems := by
    rcases hring with ⟨rfl, -⟩ | ⟨version, rfl⟩
    · rfl
    · rfl
  have hended : AllEnded c kid r (w'.drawn, w'.entries) := by
    rcases hring with ⟨rfl, -⟩ | ⟨version, rfl⟩
    · exact (h.touched hdistinct htouched).allEnded
    · exact Edit.allEnded hdistinct (.aged : Edit c m now true (w₁.drawn, keys₁) _) hkids
        (hedits.allEnded hdistinct hsound h.allEnded)
  by_cases harchived : ∀ e ∈ w.entries, e.kid = kid → e.state = .archived
  · -- The file was gone before the pass.
    have hnone : kid ∉ w'.pems := by
      rw [hpems]
      exact htouched.notMem hdistinct h.allEnded.1 (h.gone harchived)
    exact ⟨⟨hended, fun _ => hnone⟩, fun _ => hnone⟩
  · -- The entry is still retired when ageing comes.
    push Not at harchived
    obtain ⟨e, he, rfl, hstate⟩ := harchived
    have hend := h.allEnded.2 e he rfl
    have hretired : e.state = .retired := hend.1.resolve_right hstate
    have hin : e ∈ keys₁ := hedits.stays hdistinct hsound he hend
    have hover : saturatingAdd r m.policy.retain ≤ now → retentionOver m now e = true := fun hdue =>
      decide_eq_true ⟨hretired, by simpa [hend.2] using hdue⟩
    refine ⟨⟨hended, fun hall => ?_⟩, fun hdue => ?_⟩
    · rw [hpems]
      rcases hring with ⟨rfl, -⟩ | ⟨version, rfl⟩
      · exact absurd (hall e (htouched.entries ▸ he) rfl) hstate
      · by_cases hkept : retentionOver m now e = true
        · exact hgone _ (mem_gone_of_retentionOver hkids hin hkept)
        · have hsame : e ∈ Keys.aged m now keys₁ := by
            refine (mem_aged hkids).mpr ⟨e, hin, ?_, Or.inr ⟨fun h' => hkept h'.2, rfl⟩⟩
            rintro (⟨-, h'⟩ | h')
            · exact hkept h'
            · exact hstate (of_decide_eq_true h').1
          exact absurd (hall e hsame rfl) hstate
    · rw [hpems]
      exact hgone _ (mem_gone_of_retentionOver hkids hin (hover hdue))

/-! ## Runs with a clock that never goes back -/

/-- A call at a reading of the clock that is not before the last one, under a fixed policy. -/
def Ticks (c : Crates) (policy : KeyPolicy) (p q : Nat × World) : Prop :=
  ∃ s : Step, s.manager.policy = policy ∧ p.1 ≤ s.now ∧ s.now ≤ U64_MAX ∧
    q = (s.now, s.run c p.2)

/-- Runs, from a time and a world to a later time and world. -/
abbrev Runs (c : Crates) (policy : KeyPolicy) : Nat × World → Nat × World → Prop :=
  Relation.ReflTransGen (Ticks c policy)

theorem Ticks.takes {q q' : Nat × World} (h : Ticks c policy q q') : Takes c q.2 q'.2 := by
  obtain ⟨s, -, -, -, rfl⟩ := h
  exact ⟨s, rfl⟩

theorem Ticks.le {q q' : Nat × World} (h : Ticks c policy q q') : q.1 ≤ q'.1 := by
  obtain ⟨s, -, hle, -, rfl⟩ := h
  exact hle

/-- What holds of a ring and its files at any time. -/
def Kept (c : Crates) (w : World) : Prop := Sound c (w.drawn, w.entries) ∧ Clean w

theorem Ticks.kept (hdistinct : Distinct c) {q q' : Nat × World} (h : Ticks c policy q q')
    (hkept : Kept c q.2) : Kept c q'.2 := by
  refine ⟨h.takes.sound hdistinct hkept.1, ?_⟩
  obtain ⟨s, -, -, -, rfl⟩ := h
  refine Step.run_of_wp ?_ fun w' h => hkept.2.touched hdistinct hkept.1 h
  exact maintain_clean hdistinct hkept.1 hkept.2

theorem Runs.kept (hdistinct : Distinct c) {q q' : Nat × World} (h : Runs c policy q q')
    (hkept : Kept c q.2) : Kept c q'.2 := by
  induction h with
  | refl => exact hkept
  | tail _ htick ih => exact htick.kept hdistinct ih

theorem Kept.absent (habsent : w.ring = none) : Kept c w := by
  have hnil := World.entries_of_absent habsent
  refine ⟨⟨?_, ?_⟩, ?_⟩ <;> simp [Known, Clean, hnil]

theorem Kept.touched (hdistinct : Distinct c) (h : Kept c w) (htouched : Touched c w w') :
    Kept c w' :=
  ⟨h.1.touched htouched, h.2.touched hdistinct h.1 htouched⟩

/-- A key that signed at `t` serves at any later time within its window. -/
theorem Runs.serves (hdistinct : Distinct c) {q q' : Nat × World} (h : Runs c policy q q')
    (hkept : Kept c q.2) (ht : t ≤ q.1) (hserves : Serves kid t q.2.entries) :
    t ≤ q'.1 ∧ (q'.1 < saturatingAdd t policy.verifyRetained → Serves kid t q'.2.entries) := by
  induction h with
  | refl => exact ⟨ht, fun _ => hserves⟩
  | tail hruns htick ih =>
    refine ⟨ih.1.trans htick.le, fun hwindow => ?_⟩
    have hbefore := ih.2 (htick.le.trans_lt hwindow)
    have hsound := (Runs.kept hdistinct hruns hkept).1
    obtain ⟨s, rfl, hle, -, rfl⟩ := htick
    refine Step.run_keeps hdistinct hsound (fun ageing p p' hsound hedit hserves => ?_) hbefore
    exact hedit.serves hsound.nodup_kid (ih.1.trans hle) hwindow hserves

/-- A key that has signed, and that a pass does not find past its time, is still there after it,
however it ends. -/
theorem maintain_serves (hdistinct : Distinct c) (hsound : Sound c (w.drawn, w.entries))
    (hnow : now < saturatingAdd now m.policy.verifyRetained) (hserves : Serves kid 0 w.entries)
    (htime : ∀ e ∈ w.entries, e.kid = kid → ∀ r, e.retiredAt = some r →
      now < saturatingAdd r m.policy.verifyRetained) :
    WP (maintain c m now) f (fun _ w' => Serves kid 0 w'.entries)
      (fun _ w' => Serves kid 0 w'.entries) (fun w' => Serves kid 0 w'.entries) w := by
  obtain ⟨e, he, hkid, hserving⟩ := hserves
  -- The moment it stopped signing, or this one.
  obtain ⟨t, ht, hsince, hwindow⟩ : ∃ t ≤ now, Serving t e ∧
      now < saturatingAdd t m.policy.verifyRetained := by
    rcases hserving with hactive | ⟨hstate, r, hr, -⟩
    · exact ⟨now, le_rfl, Or.inl hactive, hnow⟩
    · refine ⟨min r now, min_le_right _ _, Or.inr ⟨hstate, r, hr, min_le_left _ _⟩, ?_⟩
      rcases min_choice r now with h | h <;> rw [h]
      · exact htime e he hkid r hr
      · exact hnow
  have hweaken : ∀ keys, Serves kid t keys → Serves kid 0 keys := by
    intro keys ⟨e', he', hkid', hserving'⟩
    exact ⟨e', he', hkid', hserving'.mono (Nat.zero_le t)⟩
  refine (maintain_keeps (I := Serves kid t) hdistinct hsound ?_ ⟨e, he, hkid, hsince⟩).mono
    (fun _ _ h => hweaken _ h) (fun _ _ h => hweaken _ h) (fun _ h => hweaken _ h)
  intro ageing p p' hp hedit hserves
  exact hedit.serves hp.nodup_kid ht hwindow hserves

/-- A key that stopped signing stays stopped. -/
theorem Runs.stopped (hdistinct : Distinct c) {q q' : Nat × World} (h : Runs c policy q q')
    (hkept : Kept c q.2) (hstopped : Stopped c kid r q.2) : Stopped c kid r q'.2 := by
  induction h with
  | refl => exact hstopped
  | tail hruns htick ih =>
    have hsound := (Runs.kept hdistinct hruns hkept).1
    obtain ⟨s, -, -, -, rfl⟩ := htick
    refine Step.run_of_wp ?_ fun w' h => ih.touched hdistinct h
    refine (maintain_stopped hdistinct hsound ih).mono (fun _ _ h => h.1) (fun _ _ h => h) ?_
    exact fun w' h => ⟨h.allEnded, h.gone⟩

/-- A key that was made earlier, and whose private half is gone. -/
def Erased (c : Crates) (kid : String) (w : World) : Prop :=
  (∃ draw < w.drawn, Named c draw kid) ∧ kid ∉ w.pems

theorem Erased.touched (hdistinct : Distinct c) (h : Erased c kid w) (htouched : Touched c w w') :
    Erased c kid w' := by
  obtain ⟨⟨draw, hlt, hnamed⟩, hgone⟩ := h
  exact ⟨⟨draw, lt_of_lt_of_le hlt htouched.drawn, hnamed⟩,
    htouched.notMem hdistinct ⟨draw, hlt, hnamed⟩ hgone⟩

/-- A private half that is gone does not come back. -/
theorem Runs.erased (hdistinct : Distinct c) {q q' : Nat × World} (h : Runs c policy q q')
    (hkept : Kept c q.2) (herased : Erased c kid q.2) : Erased c kid q'.2 := by
  induction h with
  | refl => exact herased
  | tail hruns htick ih =>
    have hsound := (Runs.kept hdistinct hruns hkept).1
    obtain ⟨s, -, -, -, rfl⟩ := htick
    refine Step.run_of_wp ?_ fun w' h => ih.touched hdistinct h
    refine (maintain_spec hdistinct hsound).mono ?_ (fun _ _ h => ih.touched hdistinct h)
      (fun w' h => (ih.touched hdistinct h.1 : Erased c kid w'))
    rintro _ w' ⟨w₁, keys₁, htouched, -, -, -, ⟨rfl, -⟩ | ⟨version, rfl⟩⟩
    · exact ih.touched hdistinct htouched
    · exact (ih.touched hdistinct htouched : Erased c kid w₁)

/-- The entry of a key that ended says that it stopped. -/
theorem Kept.stopped (h : Kept c w) (he : e ∈ w.entries) (hended : Ended r e) :
    Stopped c e.kid r w where
  allEnded := by
    refine ⟨h.1.1 e he, fun e' he' heq => ?_⟩
    rw [eq_of_kid_eq h.1.nodup_kid he' he heq]
    exact hended
  gone hall := h.2 e he (hall e he rfl)

theorem publicKeys_done (w : World) :
    publicKeys (fun _ => .done) w = .ok (w.entries.map Entry.toJwk) w := rfl

theorem Entry.toJwk_kid (e : Entry) : e.toJwk.kid = e.kid := by
  unfold Entry.toJwk
  cases e.algorithm <;> rfl

/-- **The verification window.** At any point of a run under a fixed policy: a key that signs now
is in the key set at every later time before the end of its window; and a key that is retired or
archived never signs again, is never active again, and has no private half from the first
successful pass on that comes `retain` or more after it stopped. -/
theorem verification_window (hdistinct : Distinct c) {w₀ : World} (habsent : w₀.ring = none)
    {t₀ : Nat} (hrun : Runs c policy (t₀, w₀) (t, w)) :
    (∀ m payload f signature w₁ t₁, t ≤ t₁ → sign c m payload f w = .ok signature w₁ →
      ∀ t' w', Runs c policy (t₁, w₁) (t', w') →
        t' < saturatingAdd t₁ (max policy.retain policy.verifyRetain) →
        ∃ jwks, publicKeys (fun _ => .done) w' = .ok jwks w' ∧
          ∃ jwk ∈ jwks, jwk.kid = signature.keyId) ∧
    ∀ e ∈ w.entries, ∀ r, e.state = .retired ∨ e.state = .archived → e.retiredAt = some r →
      ∀ t' w', Runs c policy (t, w) (t', w') →
        (∀ m now f report w₁, m.policy = policy → t' ≤ now → now ≤ U64_MAX →
          r + policy.retain ≤ now → maintain c m now f w' = .ok report w₁ →
          ∀ t'' w'', Runs c policy (now, w₁) (t'', w'') → e.kid ∉ w''.pems) ∧
        (∀ e' ∈ w'.entries, e'.kid = e.kid → e'.state ≠ .active) ∧
        ∀ m payload f signature w₁, sign c m payload f w' = .ok signature w₁ →
          signature.keyId ≠ e.kid := by
  have hkept : Kept c w := hrun.kept hdistinct (.absent habsent)
  refine ⟨?_, ?_⟩
  · intro m payload f signature w₁ t₁ hle hsign t' w' hruns hwindow
    obtain ⟨⟨e, he, hkid, hstate⟩, htouched⟩ := sign_spec.ok hsign
    have hserves : Serves signature.keyId t₁ w₁.entries :=
      ⟨e, htouched.entries ▸ he, hkid, Or.inl hstate⟩
    rw [max_comm] at hwindow
    obtain ⟨e', he', hkid', -⟩ :=
      (hruns.serves hdistinct (hkept.touched hdistinct htouched) le_rfl hserves).2 hwindow
    refine ⟨_, publicKeys_done w', e'.toJwk, List.mem_map_of_mem he', ?_⟩
    rw [Entry.toJwk_kid, hkid']
  · intro e he r hstate hretired t' w' hruns
    have hkept' : Kept c w' := hruns.kept hdistinct hkept
    have hstopped : Stopped c e.kid r w' :=
      hruns.stopped hdistinct hkept (hkept.stopped he ⟨hstate, hretired⟩)
    have hactive : ∀ e' ∈ w'.entries, e'.kid = e.kid → e'.state ≠ .active := by
      intro e' he' heq hactive
      simpa [hactive] using (hstopped.allEnded.2 e' he' heq).1
    refine ⟨?_, hactive, ?_⟩
    · intro m now f report w₁ hpolicy hle hmax hdue hok t'' w'' hruns'
      obtain ⟨hstopped₁, hgone⟩ := (maintain_stopped hdistinct hkept'.1 hstopped).ok hok
      have hkept₁ : Kept c w₁ :=
        ⟨((maintain_sound hdistinct hkept'.1).ok hok).1,
          (maintain_clean hdistinct hkept'.1 hkept'.2).ok hok⟩
      have hsaturated : saturatingAdd r m.policy.retain ≤ now := by
        rw [hpolicy]
        exact (min_le_left _ _).trans hdue
      exact (hruns'.erased hdistinct hkept₁ ⟨hstopped₁.allEnded.1, hgone hsaturated⟩).2
    · intro m payload f signature w₁ hsign heq
      obtain ⟨⟨e', he', hkid, hstate'⟩, -⟩ := sign_spec.ok hsign
      exact hactive e' he' (hkid.trans heq) hstate'

/-! ### A window that ends with the clock -/

/-- With every operation done, an Edwards key whose file is whole is read, -/
theorem signer_done {pkcs8 publicKey : Bytes} {text : String} (hf : ∀ o, f o = .done)
    (hentry : (w.entries.find? fun e' => e'.kid = e.kid) = some e)
    (halgorithm : e.algorithm = .ed25519) (hcache : w.signers.lookup e.kid = none)
    (hfile : w.pems.lookup e.kid = some (utf8 text)) (hpem : Encoding.fromPem text = some pkcs8)
    (hread : c.fromPkcs8 .ed25519 pkcs8 = .ok publicKey) :
    signer c m e.kid f w = .ok ⟨.ed25519, pkcs8, publicKey⟩
      { w with signers := w.signers.insert e.kid ⟨.ed25519, pkcs8, publicKey⟩ } := by
  unfold World.entries at hentry
  have hring : readRing .readRingAgain f w = .ok (w.ring.getD .default) w := by
    simp [readRing, perform, hf]
  have hkey : readKey m e.kid f w = .ok text w := by
    simp [readKey, perform, hf, hfile, fromUtf8_utf8]
  have hparse : parseKey c m e.kid text f w = .ok ⟨.ed25519, pkcs8, publicKey⟩
      { w with signers := w.signers.insert e.kid ⟨.ed25519, pkcs8, publicKey⟩ } := by
    unfold parseKey
    rw [hpem]
    dsimp only
    rw [bind_of_ok hring, hentry, Option.map_some, Option.getD_some, halgorithm, hread]
    rfl
  unfold signer
  rw [bind_of_ok (show Program.get f w = .ok w w from rfl), hcache]
  dsimp only
  rw [bind_of_ok hkey, hparse]

/-- and signs. -/
theorem sign_done {payload pkcs8 publicKey : Bytes} (hf : ∀ o, f o = .done)
    (hactive : (w.entries.find? fun e => e.state = .active) = some e)
    (hsigner : signer c m e.kid f w = .ok ⟨.ed25519, pkcs8, publicKey⟩ w') :
    sign c m payload f w = .ok ⟨e.kid, ALGORITHM, c.signEd25519 pkcs8 payload⟩ w' := by
  unfold World.entries at hactive
  have hring : readRing .readRing f w = .ok (w.ring.getD .default) w := by
    simp [readRing, perform, hf]
  have hid : activeKeyId m f w = .ok e.kid w := by
    unfold activeKeyId
    rw [bind_of_ok hring, hactive]
    rfl
  unfold sign
  rw [bind_of_ok hid, bind_of_ok hsigner]
  rfl

/-- A manager that keeps its keys as long as a clock can count. -/
def forever : DirectoryKeyManager where
  directory := "keys"
  policy := { publishAhead := 1, rotateEvery := 2, retain := U64_MAX, verifyRetain := 0 }
  algorithm := .ed25519

/-- A pass with every operation done. -/
def passAt (now : Nat) : Step :=
  { manager := forever, now, call := .maintain, outcome := fun _ => .done }

/-- A ring with its first key. -/
def firstWorld : World := (passAt 0).run testCrates absent

/-- The passes that hand over to a second key. -/
def handedOver (w : World) : World := (passAt 2).run testCrates ((passAt 1).run testCrates w)

def firstKey : TestKey := testKeys.headD ⟨[], [], []⟩

def firstEntry : Entry := newEntry testCrates forever 0 true firstKey.publicKey

theorem firstWorld_eq : firstWorld =
    { ring := some { version := 0, keys := [firstEntry] }
      pems := ((∅ : AList fun _ : String => Bytes).insert firstEntry.kid []).insert firstEntry.kid
        (utf8 (Encoding.pem PEM_LABEL firstKey.document))
      signers := ∅
      drawn := 1 } := by
  rfl

/-- The first key after it signed. -/
def signedWorld : World :=
  { firstWorld with
    signers := firstWorld.signers.insert firstEntry.kid
      ⟨.ed25519, firstKey.document, firstKey.publicKey⟩ }

theorem firstKey_pem : Encoding.fromPem (Encoding.pem PEM_LABEL firstKey.document) =
    some firstKey.document :=
  Encoding.fromPem_pem (by decide) firstKey.document

theorem firstKey_read :
    testCrates.fromPkcs8 .ed25519 firstKey.document = .ok firstKey.publicKey := by
  decide +kernel

theorem firstKey_signature : testCrates.signEd25519 firstKey.document [] = testSignature := by
  decide +kernel

/-- Any manager reads the first key back. -/
theorem firstWorld_signer (m : DirectoryKeyManager) :
    signer testCrates m firstEntry.kid (fun _ => .done) firstWorld =
      .ok ⟨.ed25519, firstKey.document, firstKey.publicKey⟩ signedWorld := by
  unfold signedWorld
  rw [firstWorld_eq]
  exact signer_done (fun _ => rfl) (by simp [World.entries]) rfl rfl (AList.lookup_insert _)
    firstKey_pem firstKey_read

theorem firstWorld_signs : sign testCrates forever [] (fun _ => .done) firstWorld =
    .ok ⟨firstEntry.kid, ALGORITHM, testSignature⟩ signedWorld := by
  rw [← firstKey_signature]
  refine sign_done (fun _ => rfl) ?_ (firstWorld_signer forever)
  rw [firstWorld_eq]
  rfl

theorem ticks_passAt {t now : Nat} {w : World} (hle : t ≤ now) (hmax : now ≤ U64_MAX) :
    Ticks testCrates forever.policy (t, w) (now, (passAt now).run testCrates w) :=
  ⟨passAt now, rfl, hle, hmax, rfl⟩

theorem runs_firstWorld : Runs testCrates forever.policy (0, absent) (0, firstWorld) :=
  .single (ticks_passAt le_rfl (by decide))

theorem runs_handedOver (w : World) :
    Runs testCrates forever.policy (1, w) (2, handedOver w) :=
  (Relation.ReflTransGen.single (ticks_passAt le_rfl (by decide))).tail
    (ticks_passAt (by decide) (by decide))

/-- The first key is still published after it handed over. -/
theorem verification_window_handed_over :
    ∃ signature, sign testCrates forever [] (fun _ => .done) firstWorld =
        .ok signature signedWorld ∧
      ∃ jwks, publicKeys (fun _ => .done) (handedOver signedWorld) =
          .ok jwks (handedOver signedWorld) ∧ ∃ jwk ∈ jwks, jwk.kid = signature.keyId :=
  ⟨_, firstWorld_signs,
    (verification_window testCrates_distinct rfl runs_firstWorld).1 forever [] (fun _ => .done) _
      signedWorld 1 (by decide) firstWorld_signs 2 _ (runs_handedOver signedWorld) (by decide)⟩

/-- A sum past the last reading of the clock: the key is gone before it. -/
theorem window_cut_short :
    ∃ signature w', Runs testCrates forever.policy (0, absent) (0, firstWorld) ∧
      0 < forever.policy.retain ∧
      sign testCrates forever [] (fun _ => .done) firstWorld = .ok signature signedWorld ∧
      Runs testCrates forever.policy (1, signedWorld) (U64_MAX, w') ∧
      U64_MAX < 1 + max forever.policy.retain forever.policy.verifyRetain ∧
      ∃ jwks, publicKeys (fun _ => .done) w' = .ok jwks w' ∧
        ∀ jwk ∈ jwks, jwk.kid ≠ signature.keyId := by
  refine ⟨_, (passAt U64_MAX).run testCrates (handedOver signedWorld), runs_firstWorld, by decide,
    firstWorld_signs, (runs_handedOver signedWorld).tail (ticks_passAt (by decide) le_rfl),
    by decide, _, publicKeys_done _, ?_⟩
  have hgone : ((passAt U64_MAX).run testCrates (handedOver signedWorld)).entries.all
      (fun e => e.kid ≠ firstEntry.kid) = true := by decide +kernel
  intro jwk hjwk
  obtain ⟨e, he, rfl⟩ := List.mem_map.mp hjwk
  rw [Entry.toJwk_kid]
  simpa using List.all_eq_true.mp hgone e he

end PicX.Keys
