import PicX.Keys.Maintain

/-!
# The activation loop, on any ring

A round of the loop picks a due key, retires what signs and activates the first entry of the
*name* of the due key. The names on a ring that was read from disk need not be distinct.

* `DueFirst` — every due key is the first of its name; no round changes whether that is so
  (`dueFirst_round`).
* `catchUp_of_dueFirst` — then the due keys get fewer with every round, and the loop ends.
* `catchUp_of_not_dueFirst` — else one of them stays due, and the loop does not end.

Main result: `activation_loop_iff`.
-/

namespace PicX.Keys

open PicX Program

variable {c : Crates} {m : DirectoryKeyManager} {now : Nat} {keys : List Entry} {p p' : Pass}
  {f : Op → Outcome} {w w' : World} {e : Entry} {kid : String}

/-! ## The pass around the loop -/

/-- What a pass does before the loop. -/
def beforeLoop (c : Crates) (m : DirectoryKeyManager) (now : Nat) : Action (Ring × Pass) := do
  let ring ← readRing .readRing
  let p ← bootstrap c m now { keys := ring.keys, report := .default }
  let p ← migrate c m now p
  pure (ring, p)

/-- What a pass does after the loop. -/
def afterLoop (c : Crates) (m : DirectoryKeyManager) (now : Nat) (ring : Ring) (p : Pass) :
    Action Maintenance := do
  let p ← succeed c m now p
  let p ← age m now p
  if !p.report.isEmpty then writeRing m { ring with keys := p.keys } else pure ()
  pure p.report

theorem maintain_eq : maintain c m now = beforeLoop c m now >>= fun entered =>
    catchUpAll m now entered.2 >>= afterLoop c m now entered.1 := by
  unfold beforeLoop
  rw [bind_assoc]
  unfold maintain
  congr 1
  funext ring
  rw [bind_assoc]
  congr 1
  funext p
  rw [bind_assoc]
  rfl

/-! ## Due keys -/

/-- A published key whose window has passed. -/
def Due (m : DirectoryKeyManager) (now : Nat) (e : Entry) : Prop :=
  e.state = .published ∧ saturatingAdd e.createdAt m.policy.publishAhead ≤ now

instance (m : DirectoryKeyManager) (now : Nat) : DecidablePred (Due m now) := fun e =>
  inferInstanceAs (Decidable (e.state = .published ∧ _ ≤ now))

def countDue (m : DirectoryKeyManager) (now : Nat) (keys : List Entry) : Nat :=
  keys.countP fun e => Due m now e

/-- No due key has the name of an entry before it. -/
def DueFirst (m : DirectoryKeyManager) (now : Nat) (keys : List Entry) : Prop :=
  keys.Pairwise fun e e' => Due m now e' → e.kid ≠ e'.kid

theorem not_due_of_active (h : e.state = .active) : ¬Due m now e := by
  rintro ⟨hpublished, -⟩
  simp [h] at hpublished

@[simp] theorem not_due_retire : ¬Due m now (e.retire now) := by
  simp [Due, Entry.retire]

@[simp] theorem not_due_activate : ¬Due m now (e.activate now) := by
  simp [Due, Entry.activate]

theorem dueKey_eq_none_iff_due : dueKey m now keys = none ↔ ∀ e ∈ keys, ¬Due m now e := by
  rw [dueKey_eq_none_iff]
  exact forall₂_congr fun _ _ => not_and.symm

theorem due_of_dueKey (h : dueKey m now keys = some kid) :
    ∃ e ∈ keys, e.kid = kid ∧ Due m now e := by
  obtain ⟨e, he, hkid, hpublished, hwindow⟩ := mem_of_dueKey h
  exact ⟨e, he, hkid, hpublished, hwindow⟩

/-- An entry that is due is due again after what signed was retired. -/
theorem due_retired_iff :
    Due m now (if e.state = .active then e.retire now else e) ↔ Due m now e := by
  by_cases hactive : e.state = .active
  · simp [hactive, not_due_of_active hactive]
  · rw [if_neg hactive]

theorem kid_retired : (if e.state = .active then e.retire now else e).kid = e.kid := by
  split_ifs <;> rfl

/-! ## What a round does -/

theorem countDue_retireActive : countDue m now (retireActive now keys) = countDue m now keys := by
  unfold countDue retireActive
  rw [List.countP_map]
  apply List.countP_congr
  intro e _
  simp only [Function.comp_apply, decide_eq_true_eq]
  exact due_retired_iff

theorem dueFirst_retireActive : DueFirst m now (retireActive now keys) ↔ DueFirst m now keys := by
  unfold DueFirst retireActive
  rw [List.pairwise_map]
  simp only [due_retired_iff, kid_retired]

theorem countActive_retireActive : countActive (retireActive now keys) = 0 := by
  unfold countActive
  rw [List.countP_eq_zero]
  intro e he
  simpa using not_active_of_mem_retireActive he

/-- Activation leaves the entries as they are, but for one of the given name. -/
theorem mem_activateKey (he : e ∈ keys) : e ∈ activateKey now kid keys ∨ e.kid = kid := by
  induction keys with
  | nil => simp at he
  | cons head rest ih =>
    unfold activateKey
    rcases List.mem_cons.mp he with rfl | hrest
    · by_cases hkid : e.kid = kid
      · exact Or.inr hkid
      · rw [if_neg hkid]
        exact Or.inl List.mem_cons_self
    · split_ifs
      · exact Or.inl (List.mem_cons_of_mem _ hrest)
      · exact (ih hrest).imp_left (List.mem_cons_of_mem _)

/-- What is due after an activation was on the ring before it. -/
theorem mem_of_activateKey (hdue : Due m now e) (he : e ∈ activateKey now kid keys) : e ∈ keys := by
  induction keys with
  | nil => exact he
  | cons head rest ih =>
    unfold activateKey at he
    split_ifs at he with hkid
    · rcases List.mem_cons.mp he with rfl | hrest
      · exact absurd hdue not_due_activate
      · exact List.mem_cons_of_mem _ hrest
    · rcases List.mem_cons.mp he with rfl | hrest
      · exact List.mem_cons_self
      · exact List.mem_cons_of_mem _ (ih hrest)

/-- Only an entry of another name can have been activated behind an entry that was not. -/
theorem dueFirst_activateKey :
    DueFirst m now (activateKey now kid keys) ↔ DueFirst m now keys := by
  induction keys with
  | nil => rfl
  | cons head rest ih =>
    unfold activateKey DueFirst
    by_cases hkid : head.kid = kid
    · rw [if_pos hkid, List.pairwise_cons, List.pairwise_cons]
      rfl
    · rw [if_neg hkid, List.pairwise_cons, List.pairwise_cons]
      refine and_congr ⟨fun h e he hdue => ?_, fun h e he hdue => ?_⟩ ih
      · have hkept : e ∈ activateKey now kid rest ∨ e.kid = kid := mem_activateKey he
        rcases hkept with hstill | heq
        · exact h e hstill hdue
        · exact fun hsame => hkid (hsame.trans heq)
      · exact h e (mem_of_activateKey hdue he) hdue

/-- With nothing active before it, an activation leaves one active key. -/
theorem countActive_activateKey (hnone : countActive keys = 0) (hkid : ∃ e ∈ keys, e.kid = kid) :
    countActive (activateKey now kid keys) = 1 := by
  induction keys with
  | nil => simp at hkid
  | cons head rest ih =>
    unfold countActive at hnone
    rw [List.countP_cons] at hnone
    have hrest : countActive rest = 0 := by unfold countActive; omega
    unfold activateKey
    split_ifs with hhead
    · unfold countActive
      rw [List.countP_cons_of_pos (by simp [Entry.activate])]
      exact congrArg (· + 1) hrest
    · have hnot : ¬head.state = .active := by
        intro hactive
        simp [hactive] at hnone
      obtain ⟨e, he, heq⟩ := hkid
      have hmem : e ∈ rest := (List.mem_cons.mp he).resolve_left fun h => hhead (h ▸ heq)
      unfold countActive
      rw [List.countP_cons_of_neg (by simpa using hnot)]
      exact ih hrest ⟨e, hmem, heq⟩

/-- The activated entry is the due one when that is the first of its name. -/
theorem countDue_activateKey (hfirst : DueFirst m now keys) (he : e ∈ keys) (hdue : Due m now e) :
    countDue m now (activateKey now e.kid keys) + 1 = countDue m now keys := by
  induction keys with
  | nil => simp at he
  | cons head rest ih =>
    obtain ⟨hhead, hrest⟩ := List.pairwise_cons.mp hfirst
    unfold activateKey countDue
    by_cases hkid : head.kid = e.kid
    · obtain rfl : e = head :=
        (List.mem_cons.mp he).resolve_right fun hmem => hhead e hmem hdue hkid
      rw [if_pos rfl, List.countP_cons_of_neg (by simp),
        List.countP_cons_of_pos (by simpa using hdue)]
    · have hmem : e ∈ rest := (List.mem_cons.mp he).resolve_left fun h => hkid (h ▸ rfl)
      have hfewer := ih hrest hmem
      unfold countDue at hfewer
      rw [if_neg hkid, List.countP_cons, List.countP_cons, ← hfewer]
      omega

/-- One round of the loop. -/
def Pass.round (now : Nat) (kid : String) (p : Pass) : Pass :=
  (p.retireActive now).activateKey now kid

theorem Pass.round_keys :
    (p.round now kid).keys = Keys.activateKey now kid (Keys.retireActive now p.keys) := rfl

/-- **No round brings a due key behind an entry of its name, or out from behind it.** -/
theorem dueFirst_round : DueFirst m now (p.round now kid).keys ↔ DueFirst m now p.keys := by
  rw [Pass.round_keys, dueFirst_activateKey, dueFirst_retireActive]

theorem countActive_round (hdue : dueKey m now p.keys = some kid) :
    countActive (p.round now kid).keys = 1 := by
  obtain ⟨e, he, hkid, -⟩ := due_of_dueKey hdue
  apply countActive_activateKey countActive_retireActive
  have hmem : kid ∈ (retireActive now p.keys).map Entry.kid := by
    rw [map_kid_retireActive]
    exact List.mem_map.mpr ⟨e, he, hkid⟩
  obtain ⟨e', he', hkid'⟩ := List.mem_map.mp hmem
  exact ⟨e', he', hkid'⟩

/-- **A round leaves fewer due keys** when each is the first of its name. -/
theorem countDue_round (hfirst : DueFirst m now p.keys) (hdue : dueKey m now p.keys = some kid) :
    countDue m now (p.round now kid).keys + 1 = countDue m now p.keys := by
  obtain ⟨e, he, rfl, hnow⟩ := due_of_dueKey hdue
  have hmem : e ∈ retireActive now p.keys := by
    refine mem_retireActive.mpr ⟨e, he, Or.inr ⟨fun hactive => ?_, rfl⟩⟩
    exact not_due_of_active hactive hnow
  rw [Pass.round_keys, countDue_activateKey (dueFirst_retireActive.mpr hfirst) hmem hnow,
    countDue_retireActive]

/-! ## What the loop does -/

/-- A loop that ended left nothing due, and one active key if it ran. -/
theorem catchUp_leaves {fuel : Nat} (h : catchUp m now fuel p = some p') :
    dueKey m now p'.keys = none ∧ (dueKey m now p.keys ≠ none → countActive p'.keys = 1) := by
  induction fuel generalizing p with
  | zero => simp [catchUp] at h
  | succ fuel ih =>
    unfold catchUp at h
    cases hdue : dueKey m now p.keys with
    | none =>
      rw [hdue] at h
      cases h
      exact ⟨hdue, fun hne => absurd rfl hne⟩
    | some kid =>
      rw [hdue] at h
      change catchUp m now fuel (p.round now kid) = some p' at h
      obtain ⟨hnone, hactive⟩ := ih h
      refine ⟨hnone, fun _ => ?_⟩
      by_cases hagain : dueKey m now (p.round now kid).keys = none
      · -- That was the last round.
        cases fuel with
        | zero => simp [catchUp] at h
        | succ fuel =>
          rw [catchUp, hagain] at h
          cases h
          exact countActive_round hdue
      · exact hactive hagain

theorem catchUp_of_dueFirst (hfirst : DueFirst m now p.keys) {fuel : Nat}
    (hfuel : countDue m now p.keys < fuel) : ∃ p', catchUp m now fuel p = some p' := by
  induction fuel generalizing p with
  | zero => omega
  | succ fuel ih =>
    unfold catchUp
    cases hdue : dueKey m now p.keys with
    | none => exact ⟨p, rfl⟩
    | some kid =>
      apply ih (dueFirst_round.mpr hfirst)
      have hfewer := countDue_round hfirst hdue
      show countDue m now (p.round now kid).keys < fuel
      omega

theorem dueFirst_of_dueKey_eq_none (h : dueKey m now keys = none) : DueFirst m now keys := by
  have hnone := dueKey_eq_none_iff_due.mp h
  exact List.pairwise_of_forall_mem_list fun _ _ e he hdue => absurd hdue (hnone e he)

theorem catchUp_of_not_dueFirst (hfirst : ¬DueFirst m now p.keys) (fuel : Nat) :
    catchUp m now fuel p = none := by
  induction fuel generalizing p with
  | zero => rfl
  | succ fuel ih =>
    unfold catchUp
    cases hdue : dueKey m now p.keys with
    | none => exact absurd (dueFirst_of_dueKey_eq_none hdue) hfirst
    | some kid => exact ih (mt dueFirst_round.mp hfirst)

/-- **The loop ends exactly when every due key is the first of its name.** -/
theorem catchUp_ends_iff :
    (∃ fuel p', catchUp m now fuel p = some p') ↔ DueFirst m now p.keys := by
  constructor
  · rintro ⟨fuel, p', h⟩
    by_contra hfirst
    simp [catchUp_of_not_dueFirst hfirst] at h
  · intro hfirst
    exact ⟨_, catchUp_of_dueFirst hfirst (Nat.lt_succ_self _)⟩

/-- One round more than there are keys is enough for any loop that ends. -/
theorem catchUp_eq_none_iff :
    catchUp m now (p.keys.length + 1) p = none ↔ ∀ fuel, catchUp m now fuel p = none := by
  refine ⟨fun h => catchUp_of_not_dueFirst fun hfirst => ?_, fun h => h _⟩
  obtain ⟨p', hp'⟩ := catchUp_of_dueFirst hfirst
    (Nat.lt_succ_of_le (List.countP_le_length (l := p.keys)))
  simp [hp'] at h

/-! ## From the ring file to the loop -/

theorem dueFirst_pushActive (hactive : e.state = .active) :
    DueFirst m now (p.pushActive e).keys ↔ DueFirst m now p.keys := by
  have hnot : ¬Due m now e := not_due_of_active hactive
  show List.Pairwise _ (p.keys ++ [e]) ↔ _
  rw [List.pairwise_append]
  simp [DueFirst, hnot]

theorem bootstrap_dueFirst :
    WP (bootstrap c m now p) f (fun p' _ => DueFirst m now p'.keys ↔ DueFirst m now p.keys)
      (fun _ _ => True) (fun _ => True) w := by
  unfold bootstrap
  split_ifs
  · refine WP.bind (create_spec.mono (fun _ _ h => h) (fun _ _ _ => trivial) fun _ _ => trivial) ?_
    rintro e w' ⟨hnew, -, -⟩
    exact dueFirst_pushActive hnew.state
  · exact Iff.rfl

theorem migrate_dueFirst :
    WP (migrate c m now p) f (fun p' _ => DueFirst m now p'.keys ↔ DueFirst m now p.keys)
      (fun _ _ => True) (fun _ => True) w := by
  unfold migrate
  split_ifs
  · refine WP.bind (create_spec.mono (fun _ _ h => h) (fun _ _ _ => trivial) fun _ _ => trivial) ?_
    rintro e w' ⟨hnew, -, -⟩
    exact (dueFirst_pushActive hnew.state).trans dueFirst_retireActive
  · exact Iff.rfl

/-- Whatever comes before the loop, each due key is as much the first of its name as it was in the
ring file. -/
theorem beforeLoop_dueFirst :
    WP (beforeLoop c m now) f
      (fun entered _ => DueFirst m now entered.2.keys ↔ DueFirst m now w.entries)
      (fun _ _ => True) (fun _ => True) w := by
  unfold beforeLoop
  refine WP.bind (readRing_spec.mono (fun _ _ h => h) (fun _ _ _ => trivial) fun _ _ => trivial) ?_
  rintro _ _ ⟨rfl, rfl⟩
  refine WP.bind bootstrap_dueFirst fun p w' hboot => ?_
  refine WP.bind migrate_dueFirst fun p' w'' hmigrate => ?_
  exact hmigrate.trans hboot

/-- The loop ends, and when it ran at least once it leaves one active key and nothing due. -/
structure HandsOver (m : DirectoryKeyManager) (now : Nat) (p : Pass) : Prop where
  ends : ∃ fuel p', catchUp m now fuel p = some p'
  left : ∀ fuel p', catchUp m now fuel p = some p' → dueKey m now p.keys ≠ none →
    countActive p'.keys = 1 ∧ ∀ e ∈ p'.keys, ¬Due m now e

/-- **The activation loop does its work exactly when no due key in the ring file has the name of an
entry before it.** Else it goes on for ever. -/
theorem activation_loop_iff {entered : Ring × Pass}
    (hrun : beforeLoop c m now f w = .ok entered w') :
    HandsOver m now entered.2 ↔ DueFirst m now w.entries := by
  rw [← beforeLoop_dueFirst.ok hrun, ← catchUp_ends_iff]
  refine ⟨HandsOver.ends, fun hends => ⟨hends, fun fuel p' h hran => ?_⟩⟩
  obtain ⟨hnone, hactive⟩ := catchUp_leaves h
  exact ⟨hactive hran, dueKey_eq_none_iff_due.mp hnone⟩

/-- A pass that enters a loop without an end does nothing after it. -/
theorem maintain_hangs {entered : Ring × Pass} (hrun : beforeLoop c m now f w = .ok entered w')
    (hnot : ¬DueFirst m now w.entries) : maintain c m now f w = .crash w' := by
  have hforever : catchUp m now (entered.2.keys.length + 1) entered.2 = none :=
    catchUp_of_not_dueFirst (mt (beforeLoop_dueFirst.ok hrun).mp hnot) _
  rw [maintain_eq, bind_of_ok hrun]
  show Program.bind _ _ f w' = _
  unfold Program.bind catchUpAll
  rw [hforever]

/-- A ring file with a waiting key, and a signing one before it. -/
def handoverRing (signing waiting : String) : Ring where
  version := 1
  keys :=
    [{ kid := signing, state := .active, algorithm := .ed25519, publicKey := "", createdAt := 0,
       activatedAt := some 0, retiredAt := none },
     { kid := waiting, state := .published, algorithm := .ed25519, publicKey := "",
       createdAt := 600000, activatedAt := none, retiredAt := none }]

def handoverWorld (signing waiting : String) : World :=
  { absent with ring := some (handoverRing signing waiting) }

def handoverPass (signing waiting : String) : Pass where
  keys := (handoverRing signing waiting).keys
  report := .default

/-- The keys `a` and `b` have names of their own, and `b` takes over. -/
theorem activation_loop_iff_ab :
    HandsOver weekly 604800 (handoverPass "a" "b") ∧
      dueKey weekly 604800 (handoverPass "a" "b").keys = some "b" := by
  have hrun : beforeLoop testCrates weekly 604800 (fun _ => .done) (handoverWorld "a" "b") =
      .ok (handoverRing "a" "b", handoverPass "a" "b") (handoverWorld "a" "b") := rfl
  refine ⟨(activation_loop_iff hrun).mpr ?_, rfl⟩
  refine List.pairwise_pair.mpr fun _ => ?_
  show "a" ≠ "b"
  decide

/-- **Two keys of one name**: the due one is second, the first is activated and retired in turns,
and the loop has no end. -/
theorem activation_loop_hangs :
    beforeLoop testCrates weekly 604800 (fun _ => .done) (handoverWorld "a" "a") =
        .ok (handoverRing "a" "a", handoverPass "a" "a") (handoverWorld "a" "a") ∧
      (∀ fuel, catchUp weekly 604800 fuel (handoverPass "a" "a") = none) ∧
      ¬HandsOver weekly 604800 (handoverPass "a" "a") := by
  have hnot : ¬DueFirst weekly 604800 (handoverPass "a" "a").keys := by
    intro hfirst
    exact List.pairwise_pair.mp hfirst ⟨rfl, by decide⟩ rfl
  refine ⟨rfl, catchUp_of_not_dueFirst hnot, fun hands => ?_⟩
  exact hnot (catchUp_ends_iff.mp hands.ends)

end PicX.Keys
