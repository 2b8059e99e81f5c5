import Mathlib.Logic.Relation
import PicX.Keys.Ring

/-!
# What a pass can do to the ring

A pass of `maintain` is a sequence of edits to the list of entries: a first key, a change of
algorithm, a published key taking over, a successor, and the end of a key's life. What one edit
can do to one entry is said once; every property of the ring over time follows from it.

* `Edit` — the edits, and `Becomes` — what an edit makes of an entry (`Edit.backward`,
  `Edit.forward`).
* `Shaped` — the shape of a ring, kept by every edit (`Edit.sound`).
* `catchUp_ends` — the activation loop ends on such a ring.
-/

namespace PicX.Keys

open PicX Program

variable {c : Crates} {m : DirectoryKeyManager} {now n : Nat} {keys : List Entry} {ageing : Bool}

/-! ## Edits -/

/-- `kid` names a key made of the given draw of the random source. -/
def Named (c : Crates) (draw : Nat) (kid : String) : Prop :=
  ∃ algorithm publicKey,
    c.fromPkcs8 algorithm (c.generatePkcs8 algorithm draw) = .ok publicKey ∧
      kid = thumbprint c algorithm (Encoding.base64url publicKey)

/-- Generated keys have distinct thumbprints. -/
def Distinct (c : Crates) : Prop :=
  ∀ draw draw' kid, Named c draw kid → Named c draw' kid → draw = draw'

/-- `e` describes the key made of the given draw. -/
def Created (c : Crates) (m : DirectoryKeyManager) (now : Nat) (signing : Bool) (draw : Nat)
    (e : Entry) : Prop :=
  ∃ publicKey, c.fromPkcs8 m.algorithm (c.generatePkcs8 m.algorithm draw) = .ok publicKey ∧
    e = newEntry c m now signing publicKey

/-- One edit of the entries, with the number of draws before and after it. The last one, `ageing`,
is told from the others. -/
inductive Edit (c : Crates) (m : DirectoryKeyManager) (now : Nat) :
    Bool → Nat × List Entry → Nat × List Entry → Prop
  | first {n : Nat} {e : Entry} (hnew : Created c m now true n e) :
      Edit c m now false (n, []) (n + 1, [e])
  | migrated {n : Nat} {keys : List Entry} {e : Entry} (hne : keys ≠ [])
      (hchange : activeIsCurrent m keys = false) (hnew : Created c m now true n e) :
      Edit c m now false (n, keys) (n + 1, retireActive now keys ++ [e])
  | handedOver {n : Nat} {keys : List Entry} {kid : String} (hdue : dueKey m now keys = some kid) :
      Edit c m now false (n, keys) (n, activateKey now kid (retireActive now keys))
  | succeeded {n : Nat} {keys : List Entry} {e : Entry} (hdue : successorDue m now keys = true)
      (hwait : waiting keys = false) (hnew : Created c m now false n e) :
      Edit c m now false (n, keys) (n + 1, keys ++ [e])
  | aged {n : Nat} {keys : List Entry} : Edit c m now true (n, keys) (n, aged m now keys)

/-- What an edit makes of an entry that stays on the ring. -/
inductive Becomes (m : DirectoryKeyManager) (now : Nat) (ageing : Bool) (e : Entry) : Entry → Prop
  | same : Becomes m now ageing e e
  | retired (hactive : e.state = .active) : Becomes m now ageing e (e.retire now)
  | activated (hpublished : e.state = .published) : Becomes m now ageing e (e.activate now)
  | archived (hageing : ageing = true) (hphase : m.policy.hasArchivePhase = true)
      (hover : retentionOver m now e = true) :
      Becomes m now ageing e { e with state := .archived }

/-- An entry whose life is over. -/
def Over (m : DirectoryKeyManager) (now : Nat) (e : Entry) : Prop :=
  (m.policy.hasArchivePhase = false ∧ retentionOver m now e = true) ∨ archiveOver m now e = true

theorem Becomes.kid {e e' : Entry} (h : Becomes m now ageing e e') : e'.kid = e.kid := by
  cases h <;> rfl

/-! ## The shape of a ring -/

/-- Exactly one key signs, at most one waits, no two share a name, and a key has the times of the
states it has been through. -/
structure Shaped (keys : List Entry) : Prop where
  active : ∃! e, e ∈ keys ∧ e.state = .active
  published : ∀ e ∈ keys, ∀ e' ∈ keys, e.state = .published → e'.state = .published → e = e'
  kids : (keys.map Entry.kid).Nodup
  activatedAt : ∀ e ∈ keys, e.state ≠ .published → e.activatedAt.isSome
  retiredAt : ∀ e ∈ keys, e.state = .retired ∨ e.state = .archived → e.retiredAt.isSome

/-- Every key on the ring was made of an earlier draw. -/
def Known (c : Crates) (n : Nat) (keys : List Entry) : Prop :=
  ∀ e ∈ keys, ∃ draw < n, Named c draw e.kid

theorem eq_of_kid_eq (h : (keys.map Entry.kid).Nodup) {e e' : Entry} (he : e ∈ keys)
    (he' : e' ∈ keys) (heq : e.kid = e'.kid) : e = e' :=
  List.inj_on_of_nodup_map h he he' heq

theorem Created.named {signing : Bool} {e : Entry} (h : Created c m now signing n e) :
    Named c n e.kid := by
  obtain ⟨publicKey, hread, rfl⟩ := h
  exact ⟨m.algorithm, publicKey, hread, rfl⟩

/-- A new key has a name of its own. -/
theorem Created.fresh (hdistinct : Distinct c) {signing : Bool} {e : Entry}
    (h : Created c m now signing n e) (hknown : Known c n keys) : ∀ e' ∈ keys, e'.kid ≠ e.kid := by
  intro e' he' heq
  obtain ⟨draw, hlt, hnamed⟩ := hknown e' he'
  have := hdistinct draw n e.kid (heq ▸ hnamed) h.named
  omega

theorem Created.known {signing : Bool} {e : Entry} (h : Created c m now signing n e)
    (hknown : Known c n keys) : Known c (n + 1) (keys ++ [e]) := by
  intro e' he'
  rcases List.mem_append.mp he' with hold | hnew
  · obtain ⟨draw, hlt, hnamed⟩ := hknown e' hold
    exact ⟨draw, by omega, hnamed⟩
  · rw [List.mem_singleton.mp hnew]
    exact ⟨n, by omega, h.named⟩

/-! ## What each edit does to an entry -/

theorem mem_retireActive {e' : Entry} :
    e' ∈ retireActive now keys ↔
      ∃ e ∈ keys, (e.state = .active ∧ e' = e.retire now) ∨ (e.state ≠ .active ∧ e' = e) := by
  unfold retireActive
  rw [List.mem_map]
  constructor
  · rintro ⟨e, he, rfl⟩
    refine ⟨e, he, ?_⟩
    by_cases hactive : e.state = .active
    · exact Or.inl ⟨hactive, if_pos hactive⟩
    · exact Or.inr ⟨hactive, if_neg hactive⟩
  · rintro ⟨e, he, ⟨hactive, rfl⟩ | ⟨hactive, rfl⟩⟩
    · exact ⟨e, he, if_pos hactive⟩
    · exact ⟨e', he, if_neg hactive⟩

theorem map_kid_retireActive : (retireActive now keys).map Entry.kid = keys.map Entry.kid := by
  unfold retireActive
  rw [List.map_map]
  refine List.map_congr_left fun e _ => ?_
  show Entry.kid (if e.state = .active then e.retire now else e) = e.kid
  split_ifs <;> rfl

/-- With distinct names, activation touches the one entry of that name. -/
theorem activateKey_eq_map (h : (keys.map Entry.kid).Nodup) (kid : String) :
    activateKey now kid keys = keys.map fun e => if e.kid = kid then e.activate now else e := by
  induction keys with
  | nil => rfl
  | cons e rest ih =>
    rw [List.map_cons, List.nodup_cons] at h
    unfold activateKey
    by_cases hkid : e.kid = kid
    · have hrest : ∀ e' ∈ rest, ¬e'.kid = kid := fun e' he' heq =>
        h.1 (List.mem_map.mpr ⟨e', he', heq.trans hkid.symm⟩)
      rw [if_pos hkid, List.map_cons, if_pos hkid]
      congr 1
      exact (List.map_id'' (fun _ => rfl) rest).symm.trans
        (List.map_congr_left fun e' he' => (if_neg (hrest e' he')).symm)
    · rw [if_neg hkid, List.map_cons, if_neg hkid, ih h.2]

theorem map_kid_activateKey (kid : String) :
    (activateKey now kid keys).map Entry.kid = keys.map Entry.kid := by
  induction keys with
  | nil => rfl
  | cons e rest ih =>
    unfold activateKey
    split_ifs
    · rfl
    · rw [List.map_cons, List.map_cons, ih]

/-- A due key is a published one on the ring. -/
theorem mem_of_dueKey {kid : String} (h : dueKey m now keys = some kid) :
    ∃ e ∈ keys, e.kid = kid ∧ e.state = .published ∧
      saturatingAdd e.createdAt m.policy.publishAhead ≤ now := by
  unfold dueKey at h
  obtain ⟨e, he, rfl⟩ := Option.map_eq_some_iff.mp h
  have hmem := List.argmin_mem he
  rw [List.mem_filter] at hmem
  have hdue := of_decide_eq_true hmem.2
  exact ⟨e, hmem.1, rfl, hdue.1, hdue.2⟩

/-- Nothing is due exactly when the window of no published key has passed. -/
theorem dueKey_eq_none_iff : dueKey m now keys = none ↔ ∀ e ∈ keys, e.state = .published →
    ¬saturatingAdd e.createdAt m.policy.publishAhead ≤ now := by
  unfold dueKey
  rw [Option.map_eq_none_iff, List.argmin_eq_none, List.filter_eq_nil_iff]
  simp

theorem dueKey_eq_none (h : ∀ e ∈ keys, e.state ≠ .published) : dueKey m now keys = none :=
  dueKey_eq_none_iff.mpr fun e he hpub => absurd hpub (h e he)

/-- Handing over: the key that is due signs, the one that signed is retired, the others stay. -/
theorem mem_handedOver (hkids : (keys.map Entry.kid).Nodup) {kid : String}
    (hdue : dueKey m now keys = some kid) {e' : Entry} :
    e' ∈ activateKey now kid (retireActive now keys) ↔
      ∃ e ∈ keys, (e.kid = kid ∧ e.state = .published ∧ e' = e.activate now) ∨
        (e.kid ≠ kid ∧ e.state = .active ∧ e' = e.retire now) ∨
        (e.kid ≠ kid ∧ e.state ≠ .active ∧ e' = e) := by
  obtain ⟨e₀, he₀, rfl, hstate, -⟩ := mem_of_dueKey hdue
  have honly : ∀ e ∈ keys, e.kid = e₀.kid → e.state = .published := fun e he heq => by
    rw [eq_of_kid_eq hkids he he₀ heq]
    exact hstate
  rw [activateKey_eq_map (by rw [map_kid_retireActive]; exact hkids), List.mem_map]
  constructor
  · rintro ⟨e₁, he₁, rfl⟩
    obtain ⟨e, he, ⟨hactive, rfl⟩ | ⟨hactive, rfl⟩⟩ := mem_retireActive.mp he₁
    · have hne : e.kid ≠ e₀.kid := fun heq => by simp [honly e he heq] at hactive
      exact ⟨e, he, Or.inr (Or.inl ⟨hne, hactive, if_neg hne⟩)⟩
    · by_cases heq : e₁.kid = e₀.kid
      · exact ⟨e₁, he, Or.inl ⟨heq, honly e₁ he heq, if_pos heq⟩⟩
      · exact ⟨e₁, he, Or.inr (Or.inr ⟨heq, hactive, if_neg heq⟩)⟩
  · rintro ⟨e, he, ⟨heq, hpub, rfl⟩ | ⟨hne, hactive, rfl⟩ | ⟨hne, hactive, rfl⟩⟩
    · exact ⟨e, mem_retireActive.mpr ⟨e, he, Or.inr ⟨by simp [hpub], rfl⟩⟩, if_pos heq⟩
    · exact ⟨e.retire now, mem_retireActive.mpr ⟨e, he, Or.inl ⟨hactive, rfl⟩⟩, if_neg hne⟩
    · exact ⟨e', mem_retireActive.mpr ⟨e', he, Or.inr ⟨hactive, rfl⟩⟩, if_neg hne⟩

/-- With distinct names, a key is to be archived exactly if its own entry says so. -/
theorem mem_toArchive (hkids : (keys.map Entry.kid).Nodup) {e : Entry} (he : e ∈ keys) :
    e.kid ∈ toArchive m now keys ↔
      m.policy.hasArchivePhase = true ∧ retentionOver m now e = true := by
  unfold toArchive
  rw [List.mem_map]
  constructor
  · rintro ⟨e', he', heq⟩
    obtain ⟨hin, hover⟩ := List.mem_filter.mp he'
    rw [← eq_of_kid_eq hkids hin he heq]
    exact Bool.and_eq_true_iff.mp hover
  · intro hover
    exact ⟨e, List.mem_filter.mpr ⟨he, Bool.and_eq_true_iff.mpr hover⟩, rfl⟩

theorem mem_toForget (hkids : (keys.map Entry.kid).Nodup) {e : Entry} (he : e ∈ keys) :
    e.kid ∈ toForget m now keys ↔ Over m now e := by
  have hover : ∀ e, ((!m.policy.hasArchivePhase && retentionOver m now e) ||
      archiveOver m now e) = true ↔ Over m now e := fun e => by
    simp [Over]
  unfold toForget
  rw [List.mem_map]
  constructor
  · rintro ⟨e', he', heq⟩
    obtain ⟨hin, h⟩ := List.mem_filter.mp he'
    rw [← eq_of_kid_eq hkids hin he heq]
    exact (hover e').mp h
  · intro h
    exact ⟨e, List.mem_filter.mpr ⟨he, (hover e).mpr h⟩, rfl⟩

/-- Ageing: a key whose life is over is gone, one whose private half goes is archived. -/
theorem mem_aged (hkids : (keys.map Entry.kid).Nodup) {e' : Entry} :
    e' ∈ aged m now keys ↔ ∃ e ∈ keys, ¬Over m now e ∧
      ((m.policy.hasArchivePhase = true ∧ retentionOver m now e = true ∧
          e' = { e with state := .archived }) ∨
        (¬(m.policy.hasArchivePhase = true ∧ retentionOver m now e = true) ∧ e' = e)) := by
  have hentry : ∀ e ∈ keys, agedEntry (toArchive m now keys) (toForget m now keys) e = some e' ↔
      ¬Over m now e ∧ ((m.policy.hasArchivePhase = true ∧ retentionOver m now e = true ∧
          e' = { e with state := .archived }) ∨
        (¬(m.policy.hasArchivePhase = true ∧ retentionOver m now e = true) ∧ e' = e)) := by
    intro e he
    have harchive : e.kid ∈ toArchive m now keys ↔ _ := mem_toArchive hkids he
    have hforget : e.kid ∈ toForget m now keys ↔ _ := mem_toForget hkids he
    unfold agedEntry
    by_cases hin : e.kid ∈ toArchive m now keys
    · by_cases hgone : Over m now e
      · simp [hin, hforget.mpr hgone, hgone]
      · simp [hin, mt hforget.mp hgone, hgone, harchive.mp hin, eq_comm]
    · by_cases hgone : Over m now e
      · simp [hin, hforget.mpr hgone, hgone]
      · have hnot := mt harchive.mpr hin
        rw [if_neg hin, if_neg (mt hforget.mp hgone), Option.some.injEq]
        constructor
        · exact fun heq => ⟨hgone, Or.inr ⟨hnot, heq.symm⟩⟩
        · rintro ⟨-, ⟨hphase, hover, -⟩ | ⟨-, heq⟩⟩
          · exact absurd ⟨hphase, hover⟩ hnot
          · exact heq.symm
  unfold aged
  rw [List.mem_filterMap]
  exact ⟨fun ⟨e, he, h⟩ => ⟨e, he, (hentry e he).mp h⟩, fun ⟨e, he, h⟩ =>
    ⟨e, he, (hentry e he).mpr h⟩⟩

theorem nodup_kid_aged (hkids : (keys.map Entry.kid).Nodup) :
    ((aged m now keys).map Entry.kid).Nodup := by
  have hsub : ∀ (archiving forgetting : List String) (keys : List Entry),
      ((keys.filterMap (agedEntry archiving forgetting)).map Entry.kid).Sublist
        (keys.map Entry.kid) := by
    intro archiving forgetting keys
    induction keys with
    | nil => simp
    | cons e rest ih =>
      rw [List.filterMap_cons]
      cases hentry : agedEntry archiving forgetting e with
      | none => exact ih.cons _
      | some e' =>
        have hkid : e'.kid = e.kid := by
          by_cases hin : e.kid ∈ archiving <;> by_cases hgone : e.kid ∈ forgetting <;>
            simp [agedEntry, hin, hgone] at hentry <;> rw [← hentry]
        rw [List.map_cons, List.map_cons, hkid]
        exact ih.cons_cons _
  exact hkids.sublist (hsub _ _ _)

/-- **Where an entry comes from**: an entry of before, or a key that was just made. -/
theorem Edit.backward {p p' : Nat × List Entry} (h : Edit c m now ageing p p')
    (hkids : (p.2.map Entry.kid).Nodup) : ∀ e' ∈ p'.2, (∃ e ∈ p.2, Becomes m now ageing e e') ∨
      ∃ signing, Created c m now signing p.1 e' ∧ p'.1 = p.1 + 1 := by
  intro e' he'
  cases h with
  | first hnew => exact Or.inr ⟨true, List.mem_singleton.mp he' ▸ hnew, rfl⟩
  | migrated hne hchange hnew =>
    rcases List.mem_append.mp he' with hold | hlast
    · obtain ⟨e, he, ⟨hactive, rfl⟩ | ⟨-, rfl⟩⟩ := mem_retireActive.mp hold
      · exact Or.inl ⟨e, he, .retired hactive⟩
      · exact Or.inl ⟨e', he, .same⟩
    · exact Or.inr ⟨true, List.mem_singleton.mp hlast ▸ hnew, rfl⟩
  | handedOver hdue =>
    obtain ⟨e, he, ⟨-, hpub, rfl⟩ | ⟨-, hactive, rfl⟩ | ⟨-, -, rfl⟩⟩ :=
      (mem_handedOver hkids hdue).mp he'
    · exact Or.inl ⟨e, he, .activated hpub⟩
    · exact Or.inl ⟨e, he, .retired hactive⟩
    · exact Or.inl ⟨e', he, .same⟩
  | succeeded hdue hwait hnew =>
    rcases List.mem_append.mp he' with hold | hlast
    · exact Or.inl ⟨e', hold, .same⟩
    · exact Or.inr ⟨false, List.mem_singleton.mp hlast ▸ hnew, rfl⟩
  | aged =>
    obtain ⟨e, he, -, ⟨hphase, hover, rfl⟩ | ⟨-, rfl⟩⟩ := (mem_aged hkids).mp he'
    · exact Or.inl ⟨e, he, .archived rfl hphase hover⟩
    · exact Or.inl ⟨e', he, .same⟩

/-- **Where an entry goes to**: it stays, perhaps in its next state, or its life is over. -/
theorem Edit.forward {p p' : Nat × List Entry} (h : Edit c m now ageing p p')
    (hkids : (p.2.map Entry.kid).Nodup) :
    ∀ e ∈ p.2, (∃ e' ∈ p'.2, Becomes m now ageing e e') ∨ ageing = true ∧ Over m now e := by
  intro e he
  cases h with
  | first hnew => simp at he
  | migrated hne hchange hnew =>
    by_cases hactive : e.state = .active
    · refine Or.inl ⟨e.retire now, List.mem_append_left _ ?_, .retired hactive⟩
      exact mem_retireActive.mpr ⟨e, he, Or.inl ⟨hactive, rfl⟩⟩
    · refine Or.inl ⟨e, List.mem_append_left _ ?_, .same⟩
      exact mem_retireActive.mpr ⟨e, he, Or.inr ⟨hactive, rfl⟩⟩
  | @handedOver n keys kid hdue =>
    have hmem (e' : Entry) : e' ∈ activateKey now kid (retireActive now keys) ↔ _ :=
      mem_handedOver hkids hdue
    by_cases hkid : e.kid = kid
    · obtain ⟨e₀, he₀, heq, hpub, -⟩ := mem_of_dueKey hdue
      obtain rfl := eq_of_kid_eq hkids he he₀ (hkid.trans heq.symm)
      exact Or.inl ⟨_, (hmem _).mpr ⟨e, he, Or.inl ⟨hkid, hpub, rfl⟩⟩, .activated hpub⟩
    · by_cases hactive : e.state = .active
      · exact Or.inl ⟨_, (hmem _).mpr ⟨e, he, Or.inr (Or.inl ⟨hkid, hactive, rfl⟩)⟩,
          .retired hactive⟩
      · exact Or.inl ⟨_, (hmem _).mpr ⟨e, he, Or.inr (Or.inr ⟨hkid, hactive, rfl⟩)⟩, .same⟩
  | succeeded hdue hwait hnew => exact Or.inl ⟨e, List.mem_append_left _ he, .same⟩
  | aged =>
    by_cases hgone : Over m now e
    · exact Or.inr ⟨rfl, hgone⟩
    · by_cases harchive : m.policy.hasArchivePhase = true ∧ retentionOver m now e = true
      · refine Or.inl
          ⟨_, (mem_aged hkids).mpr ⟨e, he, hgone, Or.inl ⟨harchive.1, harchive.2, rfl⟩⟩, ?_⟩
        exact .archived rfl harchive.1 harchive.2
      · exact Or.inl ⟨e, (mem_aged hkids).mpr ⟨e, he, hgone, Or.inr ⟨harchive, rfl⟩⟩, .same⟩

theorem Edit.draws_le {p p' : Nat × List Entry} (h : Edit c m now ageing p p') : p.1 ≤ p'.1 := by
  cases h <;> simp

/-! ## Every edit keeps the shape -/

/-- The entry has the times of the states it has been through. -/
def Timed (e : Entry) : Prop :=
  (e.state ≠ .published → e.activatedAt.isSome) ∧
    (e.state = .retired ∨ e.state = .archived → e.retiredAt.isSome)

theorem Shaped.timed (h : Shaped keys) {e : Entry} (he : e ∈ keys) : Timed e :=
  ⟨h.activatedAt e he, h.retiredAt e he⟩

theorem Becomes.timed {e e' : Entry} (h : Becomes m now ageing e e') (htimed : Timed e) :
    Timed e' := by
  cases h with
  | same => exact htimed
  | retired hactive =>
    exact ⟨fun _ => htimed.1 (by simp [hactive]), fun _ => rfl⟩
  | activated hpublished => exact ⟨fun _ => rfl, by simp [Entry.activate]⟩
  | archived hageing hphase hover =>
    have hretired : e.state = .retired := (of_decide_eq_true hover).1
    exact ⟨fun _ => htimed.1 (by simp [hretired]), fun _ => htimed.2 (Or.inl hretired)⟩

theorem Created.timed {signing : Bool} {e : Entry} (h : Created c m now signing n e) : Timed e := by
  obtain ⟨publicKey, -, rfl⟩ := h
  cases signing with
  | true => exact ⟨fun _ => rfl, by simp [newEntry]⟩
  | false => exact ⟨by simp [newEntry], by simp [newEntry]⟩

theorem Created.state {signing : Bool} {e : Entry} (h : Created c m now signing n e) :
    e.state = if signing then .active else .published := by
  obtain ⟨publicKey, -, rfl⟩ := h
  rfl

theorem Created.algorithm {signing : Bool} {e : Entry} (h : Created c m now signing n e) :
    e.algorithm = m.algorithm := by
  obtain ⟨publicKey, -, rfl⟩ := h
  rfl

theorem Edit.known {p p' : Nat × List Entry} (h : Edit c m now ageing p p')
    (hkids : (p.2.map Entry.kid).Nodup) (hknown : Known c p.1 p.2) : Known c p'.1 p'.2 := by
  intro e' he'
  rcases h.backward hkids e' he' with ⟨e, he, hbecomes⟩ | ⟨signing, hnew, hdraws⟩
  · obtain ⟨draw, hlt, hnamed⟩ := hknown e he
    exact ⟨draw, hlt.trans_le h.draws_le, hbecomes.kid ▸ hnamed⟩
  · exact ⟨p.1, by omega, hnew.named⟩

theorem nodup_kid_concat {e : Entry} (hkids : (keys.map Entry.kid).Nodup)
    (hfresh : ∀ e' ∈ keys, e'.kid ≠ e.kid) : ((keys ++ [e]).map Entry.kid).Nodup := by
  rw [List.map_append, List.map_singleton, List.nodup_append]
  refine ⟨hkids, by simp, ?_⟩
  intro kid hkid kid' hkid' heq
  obtain ⟨e', he', rfl⟩ := List.mem_map.mp hkid
  exact hfresh e' he' (heq.trans (List.mem_singleton.mp hkid'))

theorem Edit.nodup_kid (hdistinct : Distinct c) {p p' : Nat × List Entry}
    (h : Edit c m now ageing p p')
    (hknown : Known c p.1 p.2) (hkids : (p.2.map Entry.kid).Nodup) :
    (p'.2.map Entry.kid).Nodup := by
  cases h with
  | first hnew => simp
  | migrated hne hchange hnew =>
    refine nodup_kid_concat (by rw [map_kid_retireActive]; exact hkids) fun e' he' => ?_
    obtain ⟨e, he, ⟨-, rfl⟩ | ⟨-, rfl⟩⟩ := mem_retireActive.mp he'
    · exact hnew.fresh hdistinct hknown e he
    · exact hnew.fresh hdistinct hknown e' he
  | handedOver hdue => rwa [map_kid_activateKey, map_kid_retireActive]
  | succeeded hdue hwait hnew =>
    exact nodup_kid_concat hkids (hnew.fresh hdistinct hknown)
  | aged => exact nodup_kid_aged hkids

theorem not_active_of_mem_retireActive {e' : Entry} (h : e' ∈ retireActive now keys) :
    e'.state ≠ .active := by
  obtain ⟨e, -, ⟨-, rfl⟩ | ⟨hactive, rfl⟩⟩ := mem_retireActive.mp h
  · simp [Entry.retire]
  · exact hactive

/-- After an edit of a ring with one signing key, exactly one key signs. -/
theorem Edit.active {p p' : Nat × List Entry} (h : Edit c m now ageing p p')
    (hkids : (p.2.map Entry.kid).Nodup)
    (hactive : p.2 ≠ [] → ∃! e, e ∈ p.2 ∧ e.state = .active) :
    p'.2 ≠ [] → ∃! e, e ∈ p'.2 ∧ e.state = .active := by
  intro hne'
  cases h with
  | @first n e hnew =>
    exact ⟨e, ⟨by simp, hnew.state⟩, fun e' h' => by simpa using h'.1⟩
  | @migrated n keys e hne hchange hnew =>
    refine ⟨e, ⟨by simp, hnew.state⟩, ?_⟩
    rintro e' ⟨hin, hstate⟩
    rcases List.mem_append.mp hin with hold | hlast
    · exact absurd hstate (not_active_of_mem_retireActive hold)
    · exact List.mem_singleton.mp hlast
  | @handedOver n keys kid hdue =>
    obtain ⟨e₀, he₀, hkid, hpub, -⟩ := mem_of_dueKey hdue
    refine ⟨e₀.activate now, ⟨(mem_handedOver hkids hdue).mpr ⟨e₀, he₀, Or.inl ⟨hkid, hpub, rfl⟩⟩,
      rfl⟩, ?_⟩
    rintro e' ⟨hin, hstate⟩
    obtain ⟨e, he, ⟨heq, -, rfl⟩ | ⟨-, -, rfl⟩ | ⟨-, hnot, rfl⟩⟩ :=
      (mem_handedOver hkids hdue).mp hin
    · rw [eq_of_kid_eq hkids he he₀ (heq.trans hkid.symm)]
    · simp [Entry.retire] at hstate
    · exact absurd hstate hnot
  | @succeeded n keys e hdue hwait hnew =>
    have hne : keys ≠ [] := by
      rintro rfl
      simp [successorDue] at hdue
    obtain ⟨e₀, ⟨he₀, hstate₀⟩, honly⟩ := hactive hne
    refine ⟨e₀, ⟨List.mem_append_left _ he₀, hstate₀⟩, ?_⟩
    rintro e' ⟨hin, hstate⟩
    rcases List.mem_append.mp hin with hold | hlast
    · exact honly e' ⟨hold, hstate⟩
    · rw [List.mem_singleton.mp hlast, hnew.state] at hstate
      simp at hstate
  | @aged n keys =>
    have hne : keys ≠ [] := by
      rintro rfl
      exact hne' rfl
    obtain ⟨e₀, ⟨he₀, hstate₀⟩, honly⟩ := hactive hne
    have hkept : ¬Over m now e₀ ∧
        ¬(m.policy.hasArchivePhase = true ∧ retentionOver m now e₀ = true) := by
      simp [Over, retentionOver, archiveOver, hstate₀]
    refine ⟨e₀, ⟨(mem_aged hkids).mpr ⟨e₀, he₀, hkept.1, Or.inr ⟨hkept.2, rfl⟩⟩, hstate₀⟩, ?_⟩
    rintro e' ⟨hin, hstate⟩
    obtain ⟨e, he, -, ⟨-, -, rfl⟩ | ⟨-, rfl⟩⟩ := (mem_aged hkids).mp hin
    · simp at hstate
    · exact honly e' ⟨he, hstate⟩

/-- At most one key waits. -/
def OneWaiting (keys : List Entry) : Prop :=
  ∀ e ∈ keys, ∀ e' ∈ keys, e.state = .published → e'.state = .published → e = e'

/-- After a handover no key waits. -/
theorem not_published_of_mem_handedOver (hkids : (keys.map Entry.kid).Nodup)
    (hone : OneWaiting keys) {kid : String} (hdue : dueKey m now keys = some kid) {e' : Entry}
    (h : e' ∈ activateKey now kid (retireActive now keys)) : e'.state ≠ .published := by
  intro hstate
  obtain ⟨e₀, he₀, hkid, hpub, -⟩ := mem_of_dueKey hdue
  obtain ⟨e, he, ⟨-, -, rfl⟩ | ⟨-, -, rfl⟩ | ⟨hne, -, rfl⟩⟩ := (mem_handedOver hkids hdue).mp h
  · simp [Entry.activate] at hstate
  · simp [Entry.retire] at hstate
  · exact hne ((congrArg Entry.kid (hone e' he e₀ he₀ hstate hpub)).trans hkid)

theorem Edit.oneWaiting {p p' : Nat × List Entry} (h : Edit c m now ageing p p')
    (hkids : (p.2.map Entry.kid).Nodup) (hone : OneWaiting p.2) : OneWaiting p'.2 := by
  intro e₁ he₁ e₂ he₂ hpub₁ hpub₂
  cases h with
  | first hnew => exact (List.mem_singleton.mp he₁).trans (List.mem_singleton.mp he₂).symm
  | @migrated n keys e hne hchange hnew =>
    have hold : ∀ e' ∈ retireActive now keys ++ [e], e'.state = .published → e' ∈ keys := by
      intro e' he' hpub
      rcases List.mem_append.mp he' with hin | hlast
      · obtain ⟨e'', he'', ⟨-, rfl⟩ | ⟨-, rfl⟩⟩ := mem_retireActive.mp hin
        · simp [Entry.retire] at hpub
        · exact he''
      · rw [List.mem_singleton.mp hlast, hnew.state] at hpub
        simp at hpub
    exact hone e₁ (hold e₁ he₁ hpub₁) e₂ (hold e₂ he₂ hpub₂) hpub₁ hpub₂
  | handedOver hdue => exact absurd hpub₁ (not_published_of_mem_handedOver hkids hone hdue he₁)
  | @succeeded n keys e hdue hwait hnew =>
    have hlast : ∀ e' ∈ keys ++ [e], e'.state = .published → e' = e := by
      intro e' he' hpub
      rcases List.mem_append.mp he' with hin | hlast
      · have : waiting keys = true := List.any_eq_true.mpr ⟨e', hin, decide_eq_true hpub⟩
        simp [hwait] at this
      · exact List.mem_singleton.mp hlast
    exact (hlast e₁ he₁ hpub₁).trans (hlast e₂ he₂ hpub₂).symm
  | @aged n keys =>
    have hold : ∀ e' ∈ Keys.aged m now keys, e'.state = .published → e' ∈ keys := by
      intro e' he' hpub
      obtain ⟨e, he, -, ⟨-, -, rfl⟩ | ⟨-, rfl⟩⟩ := (mem_aged hkids).mp he'
      · simp at hpub
      · exact he
    exact hone e₁ (hold e₁ he₁ hpub₁) e₂ (hold e₂ he₂ hpub₂) hpub₁ hpub₂

/-- An empty ring, or one of the right shape, with names from earlier draws. -/
def Sound (c : Crates) (p : Nat × List Entry) : Prop :=
  Known c p.1 p.2 ∧ (p.2 ≠ [] → Shaped p.2)

theorem Sound.nodup_kid {p : Nat × List Entry} (h : Sound c p) : (p.2.map Entry.kid).Nodup := by
  by_cases hne : p.2 = []
  · simp [hne]
  · exact (h.2 hne).kids

theorem Sound.oneWaiting {p : Nat × List Entry} (h : Sound c p) : OneWaiting p.2 := by
  intro e he
  exact (h.2 (List.ne_nil_of_mem he)).published e he

/-- **Every edit keeps the shape of the ring.** -/
theorem Edit.sound (hdistinct : Distinct c) {p p' : Nat × List Entry} (h : Edit c m now ageing p p')
    (hsound : Sound c p) : Sound c p' := by
  have hkids := hsound.nodup_kid
  have htimed : ∀ e' ∈ p'.2, Timed e' := by
    intro e' he'
    rcases h.backward hkids e' he' with ⟨e, he, hbecomes⟩ | ⟨signing, hnew, -⟩
    · exact hbecomes.timed ((hsound.2 (List.ne_nil_of_mem he)).timed he)
    · exact hnew.timed
  refine ⟨h.known hkids hsound.1, fun hne => ?_⟩
  exact {
    active := h.active hkids (fun hne => (hsound.2 hne).active) hne
    published := h.oneWaiting hkids hsound.oneWaiting
    kids := h.nodup_kid hdistinct hsound.1 hkids
    activatedAt := fun e he => (htimed e he).1
    retiredAt := fun e he => (htimed e he).2 }

/-- The key that signs is never dropped. -/
theorem Edit.nonempty {p p' : Nat × List Entry} (h : Edit c m now ageing p p')
    (hsound : Sound c p) (hne : p.2 ≠ []) : p'.2 ≠ [] := by
  obtain ⟨e, ⟨he, hstate⟩, -⟩ := (hsound.2 hne).active
  have hkept : ¬Over m now e := by simp [Over, retentionOver, archiveOver, hstate]
  rcases h.forward hsound.nodup_kid e he with ⟨e', he', -⟩ | ⟨-, hover⟩
  · exact List.ne_nil_of_mem he'
  · exact absurd hover hkept

/-- The edits of a pass before ageing. -/
abbrev Edits (c : Crates) (m : DirectoryKeyManager) (now : Nat) :
    Nat × List Entry → Nat × List Entry → Prop :=
  Relation.ReflTransGen (Edit c m now false)

theorem Edits.sound (hdistinct : Distinct c) {p p' : Nat × List Entry} (h : Edits c m now p p')
    (hsound : Sound c p) : Sound c p' := by
  induction h with
  | refl => exact hsound
  | tail _ hedit ih => exact hedit.sound hdistinct ih

/-! ## The activation loop ends -/

/-- **On a ring of the right shape the loop makes at most one handover and ends.** -/
theorem catchUp_ends (p : Pass) (hkids : (p.keys.map Entry.kid).Nodup) (hone : OneWaiting p.keys) :
    catchUp m now (p.keys.length + 1) p = some p ∧ dueKey m now p.keys = none ∨
      ∃ kid, dueKey m now p.keys = some kid ∧
        catchUp m now (p.keys.length + 1) p = some ((p.retireActive now).activateKey now kid) := by
  cases hdue : dueKey m now p.keys with
  | none => exact Or.inl ⟨by rw [catchUp, hdue], rfl⟩
  | some kid =>
    refine Or.inr ⟨kid, rfl, ?_⟩
    obtain ⟨e₀, he₀, -⟩ := mem_of_dueKey hdue
    obtain ⟨k, hk⟩ : ∃ k, p.keys.length = k + 1 :=
      Nat.exists_eq_add_one.mpr (List.length_pos_of_mem he₀)
    have hnone : dueKey m now ((p.retireActive now).activateKey now kid).keys = none :=
      dueKey_eq_none fun e he => not_published_of_mem_handedOver hkids hone hdue he
    rw [hk, catchUp, hdue]
    show catchUp m now (k + 1) _ = _
    rw [catchUp, hnone]

end PicX.Keys
