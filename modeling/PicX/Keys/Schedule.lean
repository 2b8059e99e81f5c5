import PicX.Keys.Window

/-!
# When keys take over

Under one manager, with one policy and one algorithm, the times on the ring fit together: a key
that waits was made so late that its window does not end before the time of the key it replaces.

* `Paced` — the times of a ring, kept by every edit (`Edit.paced`).
* `Managed` — runs of calls on one manager.
* `publish_before_sign` — over whole runs, how long a key is published before it signs, and how
  long it signs.
-/

namespace PicX.Keys

open PicX Program

variable {c : Crates} {m : DirectoryKeyManager} {now a r n : Nat} {keys before : List Entry}
  {ageing : Bool} {f : Op → Outcome} {w w' : World} {e e' : Entry} {p p' : Nat × List Entry}

/-! ## Times that fit together -/

/-- A policy whose periods fit into one another, as the configuration demands. -/
structure Valid (policy : KeyPolicy) : Prop where
  ahead : 0 < policy.publishAhead
  rotates : policy.publishAhead < policy.rotateEvery
  retains : policy.rotateEvery ≤ policy.retain

/-- Every key is of the manager's kind, the window of a key that waits ends no sooner than the
time of the key that signs, and a key that stopped had its time. -/
structure Paced (m : DirectoryKeyManager) (keys : List Entry) : Prop where
  algorithm : ∀ e ∈ keys, e.algorithm = m.algorithm
  ordered : ∀ e ∈ keys, ∀ e' ∈ keys, e.state = .active → e'.state = .published →
    ∀ a, e.activatedAt = some a →
      saturatingAdd a m.policy.rotateEvery ≤ saturatingAdd e'.createdAt m.policy.publishAhead
  served : ∀ e ∈ keys, e.state = .retired ∨ e.state = .archived →
    ∀ a r, e.activatedAt = some a → e.retiredAt = some r →
      saturatingAdd a m.policy.rotateEvery ≤ r

theorem Becomes.algorithm (h : Becomes m now ageing e e') : e'.algorithm = e.algorithm := by
  cases h <;> rfl

theorem Created.createdAt {signing : Bool} (h : Created c m now signing n e) :
    e.createdAt = now := by
  obtain ⟨publicKey, -, rfl⟩ := h
  rfl

/-- The key that signs is of the manager's kind. -/
theorem Paced.current (hpaced : Paced m keys) (hshaped : Shaped keys) :
    activeIsCurrent m keys = true := by
  obtain ⟨e, ⟨he, hactive⟩, -⟩ := hshaped.active
  exact List.any_eq_true.mpr ⟨e, he, decide_eq_true ⟨hactive, hpaced.algorithm e he⟩⟩

/-- A handover comes no sooner than the time of the key that signs. -/
theorem Paced.due (hpaced : Paced m keys) {kid : String} (hdue : dueKey m now keys = some kid)
    (he : e ∈ keys) (hactive : e.state = .active) (ha : e.activatedAt = some a) :
    saturatingAdd a m.policy.rotateEvery ≤ now := by
  obtain ⟨e', he', -, hpublished, hwindow⟩ := mem_of_dueKey hdue
  exact (hpaced.ordered e he e' he' hactive hpublished a ha).trans hwindow

/-- The successor is due by the time of the one key that signs. -/
theorem successorDue_iff (hshaped : Shaped keys) (he : e ∈ keys) (hactive : e.state = .active)
    (ha : e.activatedAt = some a) : successorDue m now keys = true ↔
      saturatingAdd a m.policy.rotateEvery - m.policy.publishAhead ≤ now := by
  have hfind : (keys.find? fun e => e.state = .active) = some e := by
    cases hfound : keys.find? fun e => e.state = .active with
    | none =>
      have hnone := List.find?_eq_none.mp hfound e he
      simp [hactive] at hnone
    | some e₀ =>
      have hactive₀ : e₀.state = .active := by simpa using List.find?_some hfound
      obtain ⟨e₁, -, honly⟩ := hshaped.active
      rw [honly e ⟨he, hactive⟩, honly e₀ ⟨List.mem_of_find?_eq_some hfound, hactive₀⟩]
  unfold successorDue
  rw [hfind, Option.bind_some, ha, Option.any_some, decide_eq_true_eq]

/-- Whether an edit leaves the key that signs alone, or its time is over. -/
theorem Edit.stops (h : Edit c m now ageing p p') (hsound : Sound c p) (hpaced : Paced m p.2)
    (he : e ∈ p.2) (hactive : e.state = .active) :
    e ∈ p'.2 ∨ ∀ a, e.activatedAt = some a → saturatingAdd a m.policy.rotateEvery ≤ now := by
  cases h with
  | first hnew => simp at he
  | migrated hne hchange hnew =>
    rw [hpaced.current (hsound.2 hne)] at hchange
    cases hchange
  | handedOver hdue => exact Or.inr fun a ha => hpaced.due hdue he hactive ha
  | succeeded hdue hwait hnew => exact Or.inl (List.mem_append_left _ he)
  | aged =>
    refine Or.inl ((mem_aged hsound.nodup_kid).mpr ⟨e, he, ?_, Or.inr ⟨?_, rfl⟩⟩)
    · simp [Over, retentionOver, archiveOver, hactive]
    · simp [retentionOver, hactive]

theorem Edit.served (hdistinct : Distinct c) (h : Edit c m now ageing p p') (hsound : Sound c p)
    (hpaced : Paced m p.2) : ∀ e ∈ p'.2, e.state = .retired ∨ e.state = .archived →
      ∀ a r, e.activatedAt = some a → e.retiredAt = some r →
        saturatingAdd a m.policy.rotateEvery ≤ r := by
  intro e' he' hstate a r ha hr
  rcases h.backward hsound.nodup_kid e' he' with ⟨e, he, hbecomes⟩ | ⟨signing, hnew, -⟩
  · cases hbecomes with
    | same => exact hpaced.served e' he hstate a r ha hr
    | retired hactive =>
      rcases h.stops hsound hpaced he hactive with hsame | hover
      · -- the entry would be on the ring twice
        have heq := eq_of_kid_eq (h.sound hdistinct hsound).nodup_kid hsame he' rfl
        rw [heq] at hactive
        simp [Entry.retire] at hactive
      · cases hr
        exact hover a ha
    | activated hpublished => simp [Entry.activate] at hstate
    | archived hageing hphase hover =>
      exact hpaced.served e he (Or.inl (of_decide_eq_true hover).1) a r ha hr
  · rw [hnew.state] at hstate
    cases signing <;> simp at hstate

theorem Edit.ordered (h : Edit c m now ageing p p') (hsound : Sound c p) (hpaced : Paced m p.2) :
    ∀ e ∈ p'.2, ∀ e' ∈ p'.2, e.state = .active → e'.state = .published →
      ∀ a, e.activatedAt = some a →
        saturatingAdd a m.policy.rotateEvery ≤ saturatingAdd e'.createdAt
          m.policy.publishAhead := by
  intro e he e' he' hactive hpublished a ha
  have hkids := hsound.nodup_kid
  cases h with
  | first hnew =>
    rw [List.mem_singleton.mp he, hnew.state] at hactive
    rw [List.mem_singleton.mp he', hnew.state] at hpublished
    simp at hpublished
  | migrated hne hchange hnew =>
    rw [hpaced.current (hsound.2 hne)] at hchange
    cases hchange
  | handedOver hdue =>
    exact absurd hpublished (not_published_of_mem_handedOver hkids hsound.oneWaiting hdue he')
  | @succeeded n keys new hdue hwait hnew =>
    have hold : e ∈ keys := by
      rcases List.mem_append.mp he with hold | hlast
      · exact hold
      · rw [List.mem_singleton.mp hlast, hnew.state] at hactive
        simp at hactive
    rcases List.mem_append.mp he' with hold' | hlast'
    · have hsome : waiting keys = true :=
        List.any_eq_true.mpr ⟨e', hold', decide_eq_true hpublished⟩
      rw [hwait] at hsome
      cases hsome
    · have hstart := (successorDue_iff (hsound.2 (List.ne_nil_of_mem hold)) hold hactive ha).mp hdue
      rw [List.mem_singleton.mp hlast', hnew.createdAt]
      unfold saturatingAdd at hstart ⊢
      omega
  | aged =>
    obtain ⟨e₁, he₁, -, ⟨-, -, rfl⟩ | ⟨-, rfl⟩⟩ := (mem_aged hkids).mp he
    · simp at hactive
    obtain ⟨e₂, he₂, -, ⟨-, -, rfl⟩ | ⟨-, rfl⟩⟩ := (mem_aged hkids).mp he'
    · simp at hpublished
    exact hpaced.ordered e he₁ e' he₂ hactive hpublished a ha

/-- **Every edit by the manager keeps the times of the ring together.** -/
theorem Edit.paced (hdistinct : Distinct c) (h : Edit c m now ageing p p') (hsound : Sound c p)
    (hpaced : Paced m p.2) : Paced m p'.2 where
  algorithm e' he' := by
    rcases h.backward hsound.nodup_kid e' he' with ⟨e, he, hbecomes⟩ | ⟨signing, hnew, -⟩
    · exact hbecomes.algorithm.trans (hpaced.algorithm e he)
    · exact hnew.algorithm
  ordered := h.ordered hsound hpaced
  served := h.served hdistinct hsound hpaced

/-! ## What a pass makes of the keys before it -/

/-- A key that waits was waiting before, or is new. -/
theorem Edit.waits (h : Edit c m now ageing p p') (hkids : (p.2.map Entry.kid).Nodup)
    (he' : e' ∈ p'.2) (hpublished : e'.state = .published) : e' ∈ p.2 ∨ e'.createdAt = now := by
  rcases h.backward hkids e' he' with ⟨e, he, hbecomes⟩ | ⟨signing, hnew, -⟩
  · cases hbecomes with
    | same => exact Or.inl he
    | retired hactive => simp [Entry.retire] at hpublished
    | activated hwas => simp [Entry.activate] at hpublished
    | archived hageing hphase hover => simp at hpublished
  · exact Or.inr hnew.createdAt

/-- How the keys of a pass follow from those before it: a key that signs did so before or waited
for its window, and one that signed still does or had its time. -/
structure Follows (m : DirectoryKeyManager) (now : Nat) (before keys : List Entry) : Prop where
  nonempty : keys ≠ []
  paced : Paced m keys
  waits : ∀ e ∈ keys, e.state = .published → e ∈ before ∨ e.createdAt = now
  signs : ∀ e ∈ keys, e.state = .active → e ∈ before ∨ ∃ e₀ ∈ before, e₀.kid = e.kid ∧
    e₀.state = .published ∧ saturatingAdd e₀.createdAt m.policy.publishAhead ≤ now
  stops : ∀ e ∈ before, e.state = .active → e ∈ keys ∨
    ∀ a, e.activatedAt = some a → saturatingAdd a m.policy.rotateEvery ≤ now

theorem Follows.refl (hne : keys ≠ []) (hpaced : Paced m keys) : Follows m now keys keys where
  nonempty := hne
  paced := hpaced
  waits _ he _ := Or.inl he
  signs _ he _ := Or.inl he
  stops _ he _ := Or.inl he

theorem Edit.signs (hahead : 0 < m.policy.publishAhead) (hnow : now < U64_MAX)
    (h : Edit c m now ageing p p') (hsound : Sound c p) (hfollows : Follows m now before p.2)
    (he' : e' ∈ p'.2) (hactive : e'.state = .active) : e' ∈ before ∨ ∃ e₀ ∈ before,
      e₀.kid = e'.kid ∧ e₀.state = .published ∧
        saturatingAdd e₀.createdAt m.policy.publishAhead ≤ now := by
  have hkids := hsound.nodup_kid
  cases h with
  | first hnew => exact absurd rfl hfollows.nonempty
  | migrated hne hchange hnew =>
    rw [hfollows.paced.current (hsound.2 hne)] at hchange
    cases hchange
  | handedOver hdue =>
    obtain ⟨e₀, he₀, hkid, hpublished, hwindow⟩ := mem_of_dueKey hdue
    obtain ⟨e, he, ⟨heq, -, rfl⟩ | ⟨-, -, rfl⟩ | ⟨-, hnot, rfl⟩⟩ :=
      (mem_handedOver hkids hdue).mp he'
    · obtain rfl := eq_of_kid_eq hkids he he₀ (heq.trans hkid.symm)
      rcases hfollows.waits e he hpublished with hbefore | hnew
      · exact Or.inr ⟨e, hbefore, rfl, hpublished, hwindow⟩
      · -- a key of this pass has its window before it
        rw [hnew] at hwindow
        unfold saturatingAdd at hwindow
        omega
    · simp [Entry.retire] at hactive
    · exact absurd hactive hnot
  | succeeded hdue hwait hnew =>
    rcases List.mem_append.mp he' with hold | hlast
    · exact hfollows.signs e' hold hactive
    · rw [List.mem_singleton.mp hlast, hnew.state] at hactive
      simp at hactive
  | aged =>
    obtain ⟨e, he, -, ⟨-, -, rfl⟩ | ⟨-, rfl⟩⟩ := (mem_aged hkids).mp he'
    · simp at hactive
    · exact hfollows.signs e' he hactive

theorem Edit.follows (hdistinct : Distinct c) (hahead : 0 < m.policy.publishAhead)
    (hnow : now < U64_MAX) (h : Edit c m now ageing p p') (hsound : Sound c p)
    (hfollows : Follows m now before p.2) : Follows m now before p'.2 where
  nonempty := h.nonempty hsound hfollows.nonempty
  paced := h.paced hdistinct hsound hfollows.paced
  waits e' he' hpublished := by
    rcases h.waits hsound.nodup_kid he' hpublished with hold | hnew
    · exact hfollows.waits e' hold hpublished
    · exact Or.inr hnew
  signs _ he' hactive := h.signs hahead hnow hsound hfollows he' hactive
  stops e he hactive := by
    rcases hfollows.stops e he hactive with hkept | hover
    · exact h.stops hsound hfollows.paced hkept hactive
    · exact Or.inr hover

/-! ## Runs under one manager -/

/-- A call on the manager, at a reading of the clock that is not before the last one. -/
def Advances (c : Crates) (m : DirectoryKeyManager) (p q : Nat × World) : Prop :=
  ∃ s : Step, s.manager = m ∧ p.1 ≤ s.now ∧ s.now ≤ U64_MAX ∧ q = (s.now, s.run c p.2)

/-- A run of `n` calls on the manager, from an empty ring: the time and the world after each. -/
structure Managed (c : Crates) (m : DirectoryKeyManager) (run : Nat → Nat × World) (n : Nat) :
    Prop where
  empty : (run 0).2.entries = []
  advances : ∀ j < n, Advances c m (run j) (run (j + 1))

variable {run : Nat → Nat × World} {j : Nat}

theorem Sound.empty (h : w.entries = []) : Sound c (w.drawn, w.entries) := by
  rw [h]
  exact ⟨by simp [Known], fun hne => absurd rfl hne⟩

theorem Managed.sound (hdistinct : Distinct c) (hrun : Managed c m run n) (hj : j ≤ n) :
    Sound c ((run j).2.drawn, (run j).2.entries) := by
  induction j with
  | zero => exact Sound.empty hrun.empty
  | succ j ih =>
    obtain ⟨s, -, -, -, hs⟩ := hrun.advances j hj
    rw [hs]
    exact Takes.sound hdistinct ⟨s, rfl⟩ (ih (by omega))

theorem Managed.paced (hdistinct : Distinct c) (hrun : Managed c m run n) (hj : j ≤ n) :
    Paced m (run j).2.entries := by
  induction j with
  | zero =>
    rw [hrun.empty]
    exact ⟨by simp, by simp, by simp⟩
  | succ j ih =>
    have hsound := hrun.sound hdistinct (show j ≤ n by omega)
    obtain ⟨s, rfl, -, -, hs⟩ := hrun.advances j hj
    rw [hs]
    exact Step.run_keeps hdistinct hsound
      (fun _ _ _ hsound hedit hpaced => hedit.paced hdistinct hsound hpaced) (ih (by omega))

/-- A key that waits has been on the ring since it was made. -/
theorem Managed.waited (hdistinct : Distinct c) (hrun : Managed c m run n) (hj : j ≤ n) :
    ∀ e ∈ (run j).2.entries, e.state = .published → ∃ i ≤ j, (run i).1 = e.createdAt ∧
      ∀ k, i ≤ k → k ≤ j → e ∈ (run k).2.entries := by
  induction j with
  | zero =>
    intro e he
    rw [hrun.empty] at he
    simp at he
  | succ j ih =>
    intro e he hpublished
    have hsound := hrun.sound hdistinct (show j ≤ n by omega)
    obtain ⟨s, -, -, -, hs⟩ := hrun.advances j hj
    have hwaits : ∀ e ∈ (run (j + 1)).2.entries, e.state = .published →
        e ∈ (run j).2.entries ∨ e.createdAt = s.now := by
      rw [hs]
      refine Step.run_keeps (I := fun keys => ∀ e ∈ keys, e.state = .published →
        e ∈ (run j).2.entries ∨ e.createdAt = s.now) hdistinct hsound ?_ fun _ he _ => Or.inl he
      intro _ _ _ hsound hedit hwaits e' he' hpublished
      rcases hedit.waits hsound.nodup_kid he' hpublished with hold | hnew
      · exact hwaits e' hold hpublished
      · exact Or.inr hnew
    rcases hwaits e he hpublished with hold | hnew
    · obtain ⟨i, hi, htime, hpresent⟩ := ih (by omega) e hold hpublished
      refine ⟨i, by omega, htime, fun k hik hkj => ?_⟩
      rcases Nat.lt_or_eq_of_le hkj with hlt | rfl
      · exact hpresent k hik (by omega)
      · exact he
    · refine ⟨j + 1, le_rfl, by rw [hs, hnew], fun k hik hkj => ?_⟩
      rw [show k = j + 1 by omega]
      exact he

/-- The key set of the ring has a key of that name. -/
def InKeySet (kid : String) (w : World) : Prop :=
  ∃ jwks, publicKeys (fun _ => .done) w = .ok jwks w ∧ ∃ jwk ∈ jwks, jwk.kid = kid

/-- The key of that name signs. -/
def IsActive (kid : String) (w : World) : Prop :=
  ∃ e ∈ w.entries, e.kid = kid ∧ e.state = .active

theorem inKeySet_iff {kid : String} : InKeySet kid w ↔ ∃ e ∈ w.entries, e.kid = kid := by
  constructor
  · rintro ⟨jwks, hjwks, jwk, hjwk, rfl⟩
    rw [publicKeys_done] at hjwks
    cases hjwks
    obtain ⟨e, he, rfl⟩ := List.mem_map.mp hjwk
    exact ⟨e, he, (Entry.toJwk_kid e).symm⟩
  · rintro ⟨e, he, rfl⟩
    exact ⟨_, publicKeys_done w, e.toJwk, List.mem_map_of_mem he, Entry.toJwk_kid e⟩

theorem le_of_saturatingAdd_le {x d : Nat} (h : saturatingAdd x d ≤ now) (hnow : now < U64_MAX) :
    x + d ≤ now := by
  unfold saturatingAdd at h
  omega

/-- What a call makes of a ring that is not empty. -/
theorem Managed.follows (hdistinct : Distinct c) (hvalid : Valid m.policy)
    (hrun : Managed c m run n) (hj : j < n) (hnow : (run (j + 1)).1 < U64_MAX)
    (hne : (run j).2.entries ≠ []) :
    Follows m (run (j + 1)).1 (run j).2.entries (run (j + 1)).2.entries := by
  have hsound := hrun.sound hdistinct hj.le
  have hpaced := hrun.paced hdistinct hj.le
  obtain ⟨s, rfl, -, -, hs⟩ := hrun.advances j hj
  rw [hs] at hnow ⊢
  exact Step.run_keeps hdistinct hsound
    (fun _ _ _ hsound hedit hfollows => hedit.follows hdistinct hvalid.ahead hnow hsound hfollows)
    (.refl hne hpaced)

/-- **Publish before sign.** In every run of one manager from an empty ring, with a policy whose
periods fit, whatever fails in it, and at every call before the last reading of the clock: a key
other than the first that starts to sign has been in the key set for `publish_ahead` and at every
call since; a key that stops signing had its `rotate_every`, and so did all that stopped before. -/
theorem publish_before_sign (hdistinct : Distinct c) (hvalid : Valid m.policy)
    (hrun : Managed c m run n) (hj : j < n) (hnow : (run (j + 1)).1 < U64_MAX) :
    (∀ kid, IsActive kid (run (j + 1)).2 → ¬IsActive kid (run j).2 → (run j).2.entries ≠ [] →
      ∃ i ≤ j, (run i).1 + m.policy.publishAhead ≤ (run (j + 1)).1 ∧
        ∀ k, i ≤ k → k ≤ j → InKeySet kid (run k).2) ∧
    (∀ e ∈ (run j).2.entries, e.state = .active → ¬IsActive e.kid (run (j + 1)).2 →
      ∀ a, e.activatedAt = some a → a + m.policy.rotateEvery ≤ (run (j + 1)).1) ∧
    ∀ e ∈ (run (j + 1)).2.entries, e.state = .retired ∨ e.state = .archived →
      ∀ a r, e.activatedAt = some a → e.retiredAt = some r → r < U64_MAX →
        a + m.policy.rotateEvery ≤ r := by
  refine ⟨?_, ?_, ?_⟩
  · intro kid hactive hbefore hne
    obtain ⟨e, he, rfl, hstate⟩ := hactive
    have hfollows := hrun.follows hdistinct hvalid hj hnow hne
    rcases hfollows.signs e he hstate with hold | ⟨e₀, he₀, hkid, hpublished, hwindow⟩
    · exact absurd ⟨e, hold, rfl, hstate⟩ hbefore
    · obtain ⟨i, hi, htime, hpresent⟩ := hrun.waited hdistinct hj.le e₀ he₀ hpublished
      refine ⟨i, hi, ?_, fun k hik hkj => inKeySet_iff.mpr ⟨e₀, hpresent k hik hkj, hkid⟩⟩
      rw [htime]
      exact le_of_saturatingAdd_le hwindow hnow
  · intro e he hstate hstopped a ha
    have hfollows := hrun.follows hdistinct hvalid hj hnow (List.ne_nil_of_mem he)
    rcases hfollows.stops e he hstate with hkept | hover
    · exact absurd ⟨e, hkept, rfl, hstate⟩ hstopped
    · exact le_of_saturatingAdd_le (hover a ha) hnow
  · intro e he hstate a r ha hr hlast
    have hpaced := hrun.paced hdistinct (show j + 1 ≤ n from hj)
    exact le_of_saturatingAdd_le (hpaced.served e he hstate a r ha hr) hlast

/-- The run of passes of a manager at these readings of the clock, from a ring that is absent. -/
def passesAt (m : DirectoryKeyManager) (times : List Nat) : Nat → Nat × World
  | 0 => (0, absent)
  | j + 1 =>
    let now := times.getD j 0
    (now, afterwards (maintain testCrates m now (fun _ => .done) (passesAt m times j).2))

theorem managed_passesAt {times : List Nat} (h : ∀ j < times.length,
    (passesAt m times j).1 ≤ times.getD j 0 ∧ times.getD j 0 ≤ U64_MAX) :
    Managed testCrates m (passesAt m times) times.length where
  empty := rfl
  advances j hj :=
    ⟨⟨m, times.getD j 0, .maintain, fun _ => .done⟩, rfl, (h j hj).1, (h j hj).2, rfl⟩

theorem forever_valid : Valid forever.policy := ⟨by decide, by decide, by decide⟩

/-- The second of the test keys. -/
def secondKid : String := testKids.getD 1 ""

theorem isActive_of_any {kid : String}
    (h : w.entries.any (fun e => e.kid = kid ∧ e.state = .active) = true) : IsActive kid w := by
  obtain ⟨e, he, hactive⟩ := List.any_eq_true.mp h
  exact ⟨e, he, of_decide_eq_true hactive⟩

theorem not_isActive_of_all {kid : String}
    (h : w.entries.all (fun e => ¬(e.kid = kid ∧ e.state = .active)) = true) : ¬IsActive kid w := by
  rintro ⟨e, he, hactive⟩
  exact of_decide_eq_true (List.all_eq_true.mp h e he) hactive

/-- Passes at zero, one and two: the second key takes over one second after it was published. -/
theorem publish_before_sign_second :
    IsActive secondKid (passesAt forever [0, 1, 2] 3).2 ∧
    ∃ i ≤ 2, (passesAt forever [0, 1, 2] i).1 + 1 ≤ 2 ∧
      ∀ k, i ≤ k → k ≤ 2 → InKeySet secondKid (passesAt forever [0, 1, 2] k).2 := by
  have hrun : Managed testCrates forever (passesAt forever [0, 1, 2]) 3 :=
    managed_passesAt (by decide)
  -- The passes are run once for all three facts.
  have hends : (passesAt forever [0, 1, 2] 3).2.entries.any
        (fun e => e.kid = secondKid ∧ e.state = .active) = true ∧
      (passesAt forever [0, 1, 2] 2).2.entries.all
        (fun e => ¬(e.kid = secondKid ∧ e.state = .active)) = true ∧
      (passesAt forever [0, 1, 2] 2).2.entries ≠ [] := by decide +kernel
  obtain ⟨hactive, hbefore, hne⟩ := hends
  exact ⟨isActive_of_any hactive, (publish_before_sign testCrates_distinct forever_valid hrun
    (show 2 < 3 by decide) (by decide)).1 secondKid (isActive_of_any hactive)
      (not_isActive_of_all hbefore) hne⟩

/-- Two passes at the last reading of the clock: the second key signs at once. -/
theorem signs_unpublished_at_the_last_reading :
    Valid forever.policy ∧ Managed testCrates forever (passesAt forever [0, U64_MAX, U64_MAX]) 3 ∧
    IsActive secondKid (passesAt forever [0, U64_MAX, U64_MAX] 3).2 ∧
    ¬IsActive secondKid (passesAt forever [0, U64_MAX, U64_MAX] 2).2 ∧
    (passesAt forever [0, U64_MAX, U64_MAX] 2).2.entries ≠ [] ∧
    ¬∃ i ≤ 2, (passesAt forever [0, U64_MAX, U64_MAX] i).1 + forever.policy.publishAhead ≤
        (passesAt forever [0, U64_MAX, U64_MAX] 3).1 ∧
      ∀ k, i ≤ k → k ≤ 2 → InKeySet secondKid (passesAt forever [0, U64_MAX, U64_MAX] k).2 := by
  have hends : (passesAt forever [0, U64_MAX, U64_MAX] 3).2.entries.any
        (fun e => e.kid = secondKid ∧ e.state = .active) = true ∧
      (passesAt forever [0, U64_MAX, U64_MAX] 2).2.entries.all
        (fun e => ¬(e.kid = secondKid ∧ e.state = .active)) = true ∧
      (passesAt forever [0, U64_MAX, U64_MAX] 2).2.entries ≠ [] ∧
      ∀ k < 2, (passesAt forever [0, U64_MAX, U64_MAX] k).2.entries.all
        (fun e => e.kid ≠ secondKid) = true := by decide +kernel
  obtain ⟨hactive, hbefore, hne, habsent⟩ := hends
  refine ⟨forever_valid, managed_passesAt (by decide), isActive_of_any hactive,
    not_isActive_of_all hbefore, hne, ?_⟩
  rintro ⟨i, hi, htime, hpresent⟩
  obtain rfl | hlt := Nat.eq_or_lt_of_le hi
  · exact absurd htime (by decide)
  · obtain ⟨e, he, hkid⟩ := inKeySet_iff.mp (hpresent i le_rfl hi)
    exact absurd hkid (by simpa using List.all_eq_true.mp (habsent i hlt) e he)

end PicX.Keys
