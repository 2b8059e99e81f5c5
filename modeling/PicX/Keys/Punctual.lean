import PicX.Keys.Copies
import PicX.Keys.Settled

/-!
# Keys that take over in time

A pass moves a ring on only when it runs, and only when nothing fails in it. What the policy says
about the life of a key therefore holds as far as passes keep succeeding.

* `Punctual` — on a ring with keys, the last pass that succeeded is never long ago.
* `OnTime` — what a ring says about the last pass that succeeded, kept by every edit that comes
  soon enough after it (`Edit.onTime`) and put right by the pass itself (`maintain_onTime`).
* `signs_in_time` — over whole runs, how old the key of a signature can be.
-/

namespace PicX.Keys

open PicX Program

variable {c : Crates} {m : DirectoryKeyManager} {now n i j T l : Nat} {keys : List Entry}
  {ageing : Bool} {f : Op → Outcome} {w w' : World} {run : Nat → Nat × World}
  {report : Maintenance} {p p' : Nat × List Entry}

/-! ## What a ring says about the last pass -/

/-- The ring of a manager whose last pass that succeeded was at `l`, when these are never more than
`T` apart. A key that signs alone was not to be followed at `l`; the window of a key that waits had
not ended at `l`, and it was made at most `T` late. -/
structure OnTime (m : DirectoryKeyManager) (T l : Nat) (keys : List Entry) : Prop where
  alone : waiting keys = false → ∀ e ∈ keys, e.state = .active → ∀ a, e.activatedAt = some a →
    l + m.policy.publishAhead < a + m.policy.rotateEvery
  window : ∀ e ∈ keys, e.state = .published → l < e.createdAt + m.policy.publishAhead
  made : ∀ e ∈ keys, ∀ e' ∈ keys, e.state = .active → e'.state = .published →
    ∀ a, e.activatedAt = some a →
      e'.createdAt + m.policy.publishAhead < a + m.policy.rotateEvery + T

theorem OnTime.nil : OnTime m T l [] := ⟨by simp, by simp, by simp⟩

theorem OnTime.earlier {l' : Nat} (h : OnTime m T l keys) (hle : l' ≤ l) : OnTime m T l' keys where
  alone hwait e he hactive a ha := by
    have halone := h.alone hwait e he hactive a ha
    omega
  window e he hpublished := by
    have hwindow := h.window e he hpublished
    omega
  made := h.made

theorem waiting_eq_false : waiting keys = false ↔ ∀ e ∈ keys, e.state ≠ .published := by
  simp [waiting]

theorem OnTime.fresh (hvalid : Valid m.policy) (hle : l ≤ now)
    (hactivated : ∀ e ∈ keys, e.state = .active → e.activatedAt = some now)
    (hwait : ∀ e ∈ keys, e.state ≠ .published) : OnTime m T l keys where
  alone _ e he hactive a ha := by
    have hrotates := hvalid.rotates
    obtain rfl : now = a := Option.some.inj ((hactivated e he hactive).symm.trans ha)
    omega
  window e he hpublished := absurd hpublished (hwait e he)
  made e he e' he' _ hpublished := absurd hpublished (hwait e' he')

theorem waiting_aged (hkids : (keys.map Entry.kid).Nodup) :
    waiting (aged m now keys) = false → waiting keys = false := by
  intro h
  refine waiting_eq_false.mpr fun e he hpublished => ?_
  exact waiting_eq_false.mp h e (mem_aged_of_live hkids he (Or.inr hpublished)) hpublished

theorem OnTime.aged (hkids : (keys.map Entry.kid).Nodup) (h : OnTime m T l keys) :
    OnTime m T l (aged m now keys) where
  alone hwait e he hactive :=
    h.alone (waiting_aged hkids hwait) e (mem_of_mem_aged hkids he (by simp [hactive])) hactive
  window e he hpublished :=
    h.window e (mem_of_mem_aged hkids he (by simp [hpublished])) hpublished
  made e he e' he' hactive hpublished :=
    h.made e (mem_of_mem_aged hkids he (by simp [hactive])) e'
      (mem_of_mem_aged hkids he' (by simp [hpublished])) hactive hpublished

/-- **Every edit that comes in time keeps the ring on time.** -/
theorem Edit.onTime (hvalid : Valid m.policy) (h : Edit c m now ageing p p') (hsound : Sound c p)
    (hpaced : Paced m p.2) (hle : l ≤ now) (hsoon : now ≤ l + T) (hon : OnTime m T l p.2) :
    OnTime m T l p'.2 := by
  have hkids := hsound.nodup_kid
  cases h with
  | first hnew =>
    refine .fresh hvalid hle (fun e he _ => ?_) fun e he => ?_
    · rw [List.mem_singleton.mp he]
      obtain ⟨publicKey, -, rfl⟩ := hnew
      rfl
    · rw [List.mem_singleton.mp he, hnew.state]
      simp
  | migrated hne hchange hnew =>
    rw [hpaced.current (hsound.2 hne)] at hchange
    cases hchange
  | handedOver hdue =>
    refine .fresh hvalid hle (fun e' he' hactive => ?_) fun e' he' hpublished =>
      not_published_of_mem_handedOver hkids hsound.oneWaiting hdue he' hpublished
    obtain ⟨e, he, ⟨-, -, rfl⟩ | ⟨-, -, rfl⟩ | ⟨-, hnot, rfl⟩⟩ := (mem_handedOver hkids hdue).mp he'
    · rfl
    · simp [Entry.retire] at hactive
    · exact absurd hactive hnot
  | @succeeded n keys new hdue hwait hnew =>
    have hold : ∀ e ∈ keys ++ [new], e.state = .active → e ∈ keys := by
      intro e he hactive
      rcases List.mem_append.mp he with hold | hlast
      · exact hold
      · rw [List.mem_singleton.mp hlast, hnew.state] at hactive
        simp at hactive
    have hlast : ∀ e ∈ keys ++ [new], e.state = .published → e = new := by
      intro e he hpublished
      rcases List.mem_append.mp he with hin | hlast
      · exact absurd hpublished (waiting_eq_false.mp hwait e hin)
      · exact List.mem_singleton.mp hlast
    refine ⟨fun hnone => ?_, fun e he hpublished => ?_,
      fun e he e' he' hactive hpublished a ha => ?_⟩
    · exact absurd hnew.state (waiting_eq_false.mp hnone new (by simp))
    · have hahead := hvalid.ahead
      rw [hlast e he hpublished, hnew.createdAt]
      omega
    · have halone := hon.alone hwait e (hold e he hactive) hactive a ha
      rw [hlast e' he' hpublished, hnew.createdAt]
      omega
  | aged => exact hon.aged hkids

/-! ## What a pass puts right -/

/-- After a pass a key that signs alone is not to be followed yet, and the window of a key that
waits has not ended. -/
theorem OnTime.renewed (hon : OnTime m T l keys) (hshaped : Shaped keys)
    (hsuccessor : successorDue m now keys = true → waiting keys = true)
    (hdue : dueKey m now keys = none) : OnTime m T now keys where
  alone hwait e he hactive a ha := by
    have hnot : ¬saturatingAdd a m.policy.rotateEvery - m.policy.publishAhead ≤ now := by
      intro hstart
      rw [hsuccessor ((successorDue_iff hshaped he hactive ha).mpr hstart)] at hwait
      cases hwait
    unfold saturatingAdd at hnot
    omega
  window e he hpublished := by
    have hnot := dueKey_eq_none_iff.mp hdue e he hpublished
    unfold saturatingAdd at hnot
    omega
  made := hon.made

/-- **A pass that succeeds in time leaves a ring that is on time from then on.** -/
theorem maintain_onTime (hdistinct : Distinct c) (hvalid : Valid m.policy)
    (hsound : Sound c (w.drawn, w.entries)) (hpaced : Paced m w.entries) (hnow : now < U64_MAX)
    (hle : l ≤ now) (hsoon : now ≤ l + T) (hon : OnTime m T l w.entries)
    (h : maintain c m now f w = .ok report w') : OnTime m T now w'.entries ∧ w'.entries ≠ [] := by
  obtain ⟨k, keys₁, hedits, hne, hentries, hsuccessor, hdue⟩ :=
    maintain_leaves hdistinct hsound hvalid.ahead h
  have hsound₁ : Sound c (k, keys₁) := hedits.sound hdistinct hsound
  have hon₁ : OnTime m T l keys₁ := by
    have hboth : ∀ {q}, Edits c m now (w.drawn, w.entries) q →
        Sound c q ∧ Paced m q.2 ∧ OnTime m T l q.2 := by
      intro q hedits
      induction hedits with
      | refl => exact ⟨hsound, hpaced, hon⟩
      | tail _ hedit ih =>
        obtain ⟨hsound', hpaced', hon'⟩ := ih
        exact ⟨hedit.sound hdistinct hsound', hedit.paced hdistinct hsound' hpaced',
          hedit.onTime hvalid hsound' hpaced' hle hsoon hon'⟩
    exact (hboth hedits).2.2
  have haged : Edit c m now true (k, keys₁) (k, aged m now keys₁) := .aged
  rw [hentries]
  exact ⟨(hon₁.renewed (hsound₁.2 hne) hsuccessor (hdue hnow)).aged hsound₁.nodup_kid,
    haged.nonempty hsound₁ hne⟩

/-! ## Runs -/

/-- The next call of the run is a pass, and it succeeds. -/
def Passes (c : Crates) (m : DirectoryKeyManager) (run : Nat → Nat × World) (i : Nat) : Prop :=
  ∃ f report, maintain c m (run (i + 1)).1 f (run i).2 = .ok report (run (i + 1)).2

/-- On a ring with keys, no call comes more than `T` after the last pass that succeeded. -/
def Punctual (c : Crates) (m : DirectoryKeyManager) (run : Nat → Nat × World) (n T : Nat) : Prop :=
  ∀ j < n, (run j).2.entries ≠ [] →
    ∃ i < j, Passes c m run i ∧ (run (j + 1)).1 ≤ (run (i + 1)).1 + T

theorem Managed.entries_eq (hdistinct : Distinct c) (hrun : Managed c m run n) (hj : j < n)
    (hnot : ¬Passes c m run j) : (run (j + 1)).2.entries = (run j).2.entries := by
  have hsound := hrun.sound hdistinct hj.le
  obtain ⟨s, rfl, -, -, hs⟩ := hrun.advances j hj
  suffices hsame : (s.run c (run j).2).entries = (run j).2.entries by rw [hs]; exact hsame
  unfold Step.run
  cases hcall : s.call with
  | maintain =>
    have hspec : WP (maintain c s.manager s.now) s.outcome _ _ _ (run j).2 :=
      maintain_spec hdistinct hsound
    unfold WP at hspec
    show (afterwards (maintain c s.manager s.now s.outcome (run j).2)).entries = _
    cases hend : maintain c s.manager s.now s.outcome (run j).2 with
    | ok report w' =>
      refine absurd ⟨s.outcome, report, ?_⟩ hnot
      rw [hs]
      simp only [Step.run, hcall, hend, afterwards]
    | error e w' =>
      rw [hend] at hspec
      exact hspec.entries
    | crash w' =>
      rw [hend] at hspec
      exact hspec.1.entries
  | sign payload =>
    apply afterwards_of_wp (I := fun w' => w'.entries = (run j).2.entries)
    exact sign_spec.mono (fun _ _ h => h.2.entries) (fun _ _ h => h.entries) fun _ h => h.1.entries
  | restart => rfl

/-- **A punctual run stays on time**: after every call, the ring is on time for every pass that
succeeded before. -/
theorem Managed.onTime (hdistinct : Distinct c) (hvalid : Valid m.policy)
    (hrun : Managed c m run n) (hpunctual : Punctual c m run n T) (hlast : (run n).1 < U64_MAX)
    (hj : j ≤ n) (hi : i < j) (hpasses : Passes c m run i) :
    OnTime m T (run (i + 1)).1 (run j).2.entries := by
  induction j generalizing i with
  | zero => omega
  | succ j ih =>
    by_cases hpass : Passes c m run j
    · -- The call is such a pass itself: it leaves the ring on time from then on.
      have hrenewed : OnTime m T (run (j + 1)).1 (run (j + 1)).2.entries := by
        have hsound := hrun.sound hdistinct (show j ≤ n by omega)
        have hpaced := hrun.paced hdistinct (show j ≤ n by omega)
        have hnow : (run (j + 1)).1 < U64_MAX := (hrun.time_le hj le_rfl).trans_lt hlast
        obtain ⟨f, report, hok⟩ := hpass
        by_cases hempty : (run j).2.entries = []
        · exact (maintain_onTime hdistinct hvalid hsound hpaced hnow le_rfl (by omega)
            (hempty ▸ OnTime.nil) hok).1
        · obtain ⟨i₀, hi₀, hpasses₀, hsoon⟩ := hpunctual j hj hempty
          exact (maintain_onTime hdistinct hvalid hsound hpaced hnow
            (hrun.time_le (by omega) hj) hsoon (ih (by omega) hi₀ hpasses₀) hok).1
      exact hrenewed.earlier (hrun.time_le (by omega) hj)
    · rw [hrun.entries_eq hdistinct hj hpass]
      have hne : i ≠ j := fun heq => hpass (heq ▸ hpasses)
      exact ih (by omega) (by omega) hpasses

theorem OnTime.age (hon : OnTime m T l keys) {t : Nat} (hsoon : t ≤ l + T) {e : Entry}
    (he : e ∈ keys) (hactive : e.state = .active) {a : Nat} (ha : e.activatedAt = some a) :
    t < a + m.policy.rotateEvery + 2 * T := by
  cases hwait : waiting keys with
  | false =>
    have halone := hon.alone hwait e he hactive a ha
    omega
  | true =>
    obtain ⟨e', he', hpublished⟩ := List.any_eq_true.mp hwait
    have hwindow := hon.window e' he' (of_decide_eq_true hpublished)
    have hmade := hon.made e he e' he' hactive (of_decide_eq_true hpublished) a ha
    omega

/-- **Signatures are made in time.** In every run of one manager from an empty ring, with a policy
whose periods fit, in which passes succeed at most `T` apart, whatever else fails: the key of a
signature made within `T` of the last such pass has signed for less than `rotate_every` and twice
`T`. -/
theorem signs_in_time (hdistinct : Distinct c) (hvalid : Valid m.policy)
    (hrun : Managed c m run n) (hpunctual : Punctual c m run n T) (hlast : (run n).1 < U64_MAX)
    (hj : j ≤ n) (hi : i < j) (hpasses : Passes c m run i) {t : Nat}
    (hsoon : t ≤ (run (i + 1)).1 + T) {payload : Bytes} {signature : Signature}
    (hsign : sign c m payload f (run j).2 = .ok signature w') :
    ∃ e ∈ (run j).2.entries, e.kid = signature.keyId ∧ ∃ a, e.activatedAt = some a ∧
      t < a + m.policy.rotateEvery + 2 * T := by
  obtain ⟨⟨e, he, hkid, hactive⟩, -⟩ := sign_spec.ok hsign
  have hshaped := (hrun.sound hdistinct hj).2 (List.ne_nil_of_mem he)
  obtain ⟨a, ha⟩ := Option.isSome_iff_exists.mp (hshaped.activatedAt e he (by simp [hactive]))
  have hon := hrun.onTime hdistinct hvalid hpunctual hlast hj hi hpasses
  exact ⟨e, he, hkid, a, ha, hon.age hsoon he hactive ha⟩

theorem passes_passesAt {times : List Nat}
    (h : (maintain testCrates m (times.getD j 0) (fun _ => .done) (passesAt m times j).2).isOk) :
    Passes testCrates m (passesAt m times) j := by
  cases hend : maintain testCrates m (times.getD j 0) (fun _ => .done) (passesAt m times j).2 with
  | ok report w' =>
    refine ⟨fun _ => .done, report, ?_⟩
    show maintain testCrates m (times.getD j 0) (fun _ => .done) (passesAt m times j).2 =
      .ok report (afterwards (maintain testCrates m (times.getD j 0) _ _))
    rw [hend]
    rfl
  | error e w' =>
    rw [hend] at h
    exact absurd h Bool.false_ne_true
  | crash w' =>
    rw [hend] at h
    exact absurd h Bool.false_ne_true

/-- The first key signs within the first five minutes, with a pass every five minutes. -/
theorem signs_in_time_hasty :
    ∃ e ∈ (passesAt hasty [0, 300, 600] 1).2.entries, e.kid = firstEntry.kid ∧
      ∃ a, e.activatedAt = some a ∧ 300 < a + 600 + 2 * 300 := by
  have hok : ∀ j < 3, (maintain testCrates hasty ([0, 300, 600].getD j 0) (fun _ => .done)
      (passesAt hasty [0, 300, 600] j).2).isOk = true := by decide +kernel
  have hpasses : ∀ j < 3, Passes testCrates hasty (passesAt hasty [0, 300, 600]) j :=
    fun j hj => passes_passesAt (hok j hj)
  have hpunctual : Punctual testCrates hasty (passesAt hasty [0, 300, 600]) 3 300 := by
    intro j hj hne
    match j, hj with
    | 0, _ => exact absurd rfl hne
    | 1, _ => exact ⟨0, by decide, hpasses 0 (by decide), by decide⟩
    | 2, _ => exact ⟨1, by decide, hpasses 1 (by decide), by decide⟩
  exact signs_in_time testCrates_distinct ⟨by decide, by decide, by decide⟩
    (managed_passesAt (by decide)) hpunctual (by decide) (show 1 ≤ 3 by decide)
    (show 0 < 1 by decide) (hpasses 0 (by decide)) (show 300 ≤ 0 + 300 by decide) hasty_signs

end PicX.Keys
