import Mathlib.Data.List.Forall2

/-!
# Computations that stop at the first error

Small steps a fallible computation is written in, and what it means that one of them succeeded.
A proof about a sequence of checks takes it apart with `bind_ok`, one check at a time; a loop over a
list fails on its `FirstNot`, the first item that does not pass.
-/

namespace PicX

variable {ε ε' α β : Type}

/-- A value that has to be there (`Option::ok_or`). -/
def okOr (o : Option α) (e : ε) : Except ε α :=
  match o with
  | some a => .ok a
  | none => .error e

/-- A condition that has to hold. -/
def ensure (p : Prop) [Decidable p] (e : ε) : Except ε Unit := if p then .ok () else .error e

/-- An error in other words (`Result::map_err`). -/
def mapErr (g : ε → ε') : Except ε α → Except ε' α
  | .ok a => .ok a
  | .error e => .error (g e)

theorem bind_ok {x : Except ε α} {k : α → Except ε β} {b : β} :
    (x >>= k) = .ok b ↔ ∃ a, x = .ok a ∧ k a = .ok b := by
  constructor
  · intro h
    cases x with
    | ok a => exact ⟨a, rfl, h⟩
    | error e => cases h
  · intro ⟨a, hx, hk⟩
    rw [hx]
    exact hk

theorem pure_ok {a b : α} : (pure a : Except ε α) = .ok b ↔ a = b :=
  ⟨fun h => Except.ok.inj h, fun h => h ▸ rfl⟩

theorem okOr_ok {o : Option α} {e : ε} {a : α} : okOr o e = .ok a ↔ o = some a := by
  cases o <;> simp [okOr]

theorem ensure_ok {p : Prop} [Decidable p] {e : ε} {u : Unit} : ensure p e = .ok u ↔ p := by
  by_cases h : p <;> simp [ensure, h]

theorem toOption_eq_some {x : Except ε α} {a : α} : x.toOption = some a ↔ x = .ok a := by
  cases x <;> simp [Except.toOption]

theorem mapErr_ok {g : ε → ε'} {x : Except ε α} {a : α} : mapErr g x = .ok a ↔ x = .ok a := by
  cases x <;> simp [mapErr]

theorem bind_error {x : Except ε α} {k : α → Except ε β} {e : ε} :
    (x >>= k) = .error e ↔ x = .error e ∨ ∃ a, x = .ok a ∧ k a = .error e := by
  cases x with
  | ok a => simp [bind, Except.bind]
  | error e' => simp [bind, Except.bind]

theorem map_ok {x : Except ε α} {g : α → β} {b : β} :
    x.map g = .ok b ↔ ∃ a, x = .ok a ∧ g a = b := by
  cases x <;> simp [Except.map]

/-- What comes after a step only has to agree where the step succeeds. -/
theorem bind_congr_ok {x : Except ε α} {k k' : α → Except ε β} (h : ∀ a, x = .ok a → k a = k' a) :
    (x >>= k) = (x >>= k') := by
  cases x with
  | ok a => exact h a rfl
  | error e => rfl

theorem okOr_error {o : Option α} {e e' : ε} : okOr o e = .error e' ↔ o = none ∧ e = e' := by
  cases o <;> simp [okOr]

theorem ensure_error {p : Prop} [Decidable p] {e e' : ε} :
    ensure p e = .error e' ↔ ¬p ∧ e = e' := by
  by_cases h : p <;> simp [ensure, h]

theorem mapErr_error {g : ε → ε'} {x : Except ε α} {e : ε'} :
    mapErr g x = .error e ↔ ∃ e', x = .error e' ∧ g e' = e := by
  cases x <;> simp [mapErr]

/-- A list is read entry by entry. -/
theorem mapM_ok {f : α → Except ε β} {l : List α} {r : List β} :
    l.mapM f = .ok r ↔ List.Forall₂ (fun a b => f a = .ok b) l r := by
  induction l generalizing r with
  | nil => rw [List.mapM_nil, pure_ok, List.forall₂_nil_left_iff, eq_comm]
  | cons a l ih =>
    rw [List.mapM_cons, bind_ok, List.forall₂_cons_left_iff]
    constructor
    · intro ⟨b, hb, hrest⟩
      obtain ⟨bs, hbs, hr⟩ := bind_ok.mp hrest
      exact ⟨b, bs, hb, ih.mp hbs, (pure_ok.mp hr).symm⟩
    · intro ⟨b, bs, hb, hbs, hr⟩
      exact ⟨b, hb, bind_ok.mpr ⟨bs, ih.mpr hbs, pure_ok.mpr hr.symm⟩⟩

/-- What is read of an entry is in the result, -/
theorem mem_mapM_left {f : α → Except ε β} {l : List α} {r : List β} (h : l.mapM f = .ok r) {a : α}
    (ha : a ∈ l) : ∃ b ∈ r, f a = .ok b := by
  have hall := mapM_ok.mp h
  clear h
  induction hall with
  | nil => simp at ha
  | cons hab _ ih =>
    rcases List.mem_cons.mp ha with rfl | ha
    · exact ⟨_, List.mem_cons_self, hab⟩
    · obtain ⟨b, hb, heq⟩ := ih ha
      exact ⟨b, List.mem_cons_of_mem _ hb, heq⟩

/-- and what is in the result was read of an entry. -/
theorem mem_mapM_right {f : α → Except ε β} {l : List α} {r : List β} (h : l.mapM f = .ok r) {b : β}
    (hb : b ∈ r) : ∃ a ∈ l, f a = .ok b := by
  have hall := mapM_ok.mp h
  clear h
  induction hall with
  | nil => simp at hb
  | cons hab _ ih =>
    rcases List.mem_cons.mp hb with rfl | hb
    · exact ⟨_, List.mem_cons_self, hab⟩
    · obtain ⟨a, ha, heq⟩ := ih hb
      exact ⟨a, List.mem_cons_of_mem _ ha, heq⟩

/-! ## The first that does not pass -/

/-- The first item of a list without a property. -/
def FirstNot (P : α → Prop) (l : List α) (a : α) : Prop :=
  ∃ before after, l = before ++ a :: after ∧ (∀ b ∈ before, P b) ∧ ¬P a

variable {P : α → Prop} {l l' : List α} {a b : α}

@[simp] theorem firstNot_nil : ¬FirstNot P [] a := by
  intro ⟨before, after, h, _⟩
  simp at h

theorem firstNot_cons : FirstNot P (b :: l) a ↔ ¬P b ∧ a = b ∨ P b ∧ FirstNot P l a := by
  constructor
  · intro ⟨before, after, h, hbefore, ha⟩
    cases before with
    | nil =>
      obtain ⟨rfl, -⟩ := List.cons.inj h
      exact Or.inl ⟨ha, rfl⟩
    | cons b' before =>
      obtain ⟨rfl, hl⟩ := List.cons.inj h
      obtain ⟨hb, hbefore⟩ := List.forall_mem_cons.mp hbefore
      exact Or.inr ⟨hb, before, after, hl, hbefore, ha⟩
  · rintro (⟨hb, rfl⟩ | ⟨hb, before, after, rfl, hbefore, ha⟩)
    · exact ⟨[], l, rfl, by simp, hb⟩
    · exact ⟨b :: before, after, rfl, List.forall_mem_cons.mpr ⟨hb, hbefore⟩, ha⟩

theorem firstNot_append :
    FirstNot P (l ++ l') a ↔ FirstNot P l a ∨ (∀ b ∈ l, P b) ∧ FirstNot P l' a := by
  induction l with
  | nil => simp
  | cons b l ih =>
    rw [List.cons_append, firstNot_cons, firstNot_cons, ih, List.forall_mem_cons]
    tauto

/-- There is one as soon as some item is without the property. -/
theorem exists_firstNot : (∃ a, FirstNot P l a) ↔ ∃ a ∈ l, ¬P a := by
  induction l with
  | nil => simp
  | cons b l ih =>
    simp only [firstNot_cons, List.exists_mem_cons_iff, ← ih]
    constructor
    · rintro ⟨a, ⟨hb, rfl⟩ | ⟨-, ha⟩⟩
      · exact Or.inl hb
      · exact Or.inr ⟨a, ha⟩
    · intro h
      by_cases hb : P b
      · obtain ⟨a, ha⟩ := h.resolve_left (not_not.mpr hb)
        exact ⟨a, Or.inr ⟨hb, ha⟩⟩
      · exact ⟨b, Or.inl ⟨hb, rfl⟩⟩

/-- There is at most one. -/
theorem FirstNot.unique (h : FirstNot P l a) (h' : FirstNot P l b) : a = b := by
  induction l with
  | nil => exact absurd h firstNot_nil
  | cons x l ih =>
    rcases firstNot_cons.mp h with ⟨hx, rfl⟩ | ⟨hx, h⟩
    · rcases firstNot_cons.mp h' with ⟨-, rfl⟩ | ⟨hx', -⟩
      · rfl
      · exact absurd hx' hx
    · rcases firstNot_cons.mp h' with ⟨hx', -⟩ | ⟨-, h'⟩
      · exact absurd hx hx'
      · exact ih h h'

theorem FirstNot.mem (h : FirstNot P l a) : a ∈ l ∧ ¬P a := by
  obtain ⟨before, after, rfl, -, ha⟩ := h
  exact ⟨by simp, ha⟩

/-- A computation that goes through a list: it succeeds when every item has the property, and fails
on the first that has not, with an error of that item. -/
def StopsOnFirst (P : α → Prop) (l : List α) (error : α → ε → Prop) : Except ε β → Prop
  | .ok _ => ∀ a ∈ l, P a
  | .error e => ∃ a, FirstNot P l a ∧ error a e

variable {error : α → ε → Prop} {x : Except ε β} {γ : Type} {k : β → Except ε γ}

theorem stopsOnFirst_nil {b : β} : StopsOnFirst P [] error (.ok b) :=
  fun _ ha => absurd ha List.not_mem_nil

theorem stopsOnFirst_of_pos {b : β} (h : P a) : StopsOnFirst P [a] error (.ok b) := by
  intro a' ha
  obtain rfl := List.mem_singleton.mp ha
  exact h

theorem stopsOnFirst_of_neg {e : ε} (h : ¬P a) (he : error a e) :
    StopsOnFirst P [a] error (.error e : Except ε β) :=
  ⟨a, firstNot_cons.mpr (Or.inl ⟨h, rfl⟩), he⟩

theorem StopsOnFirst.ok_iff (h : StopsOnFirst P l error x) :
    (∃ b, x = .ok b) ↔ ∀ a ∈ l, P a := by
  cases x with
  | ok b => exact ⟨fun _ => h, fun _ => ⟨b, rfl⟩⟩
  | error e =>
    obtain ⟨a, ha, -⟩ := h
    exact ⟨nofun, fun hall => absurd (hall a ha.mem.1) ha.mem.2⟩

theorem StopsOnFirst.error_iff (h : StopsOnFirst P l error x)
    (hunique : ∀ a e e', error a e → error a e' → e = e') {e : ε} :
    x = .error e ↔ ∃ a, FirstNot P l a ∧ error a e := by
  cases x with
  | ok b => exact ⟨nofun, fun ⟨a, ha, _⟩ => absurd (h a ha.mem.1) ha.mem.2⟩
  | error e' =>
    obtain ⟨a, ha, he'⟩ := h
    constructor
    · rintro ⟨⟩
      exact ⟨a, ha, he'⟩
    · intro ⟨b, hb, he⟩
      obtain rfl := ha.unique hb
      rw [hunique a e' e he' he]

/-- One list after another. -/
theorem StopsOnFirst.bind (h : StopsOnFirst P l error x)
    (hk : ∀ b, x = .ok b → StopsOnFirst P l' error (k b)) :
    StopsOnFirst P (l ++ l') error (x >>= k) := by
  cases x with
  | ok b =>
    have hrest := hk b rfl
    show StopsOnFirst P (l ++ l') error (k b)
    cases hkb : k b with
    | ok c =>
      rw [hkb] at hrest
      exact fun a ha => (List.mem_append.mp ha).elim (h a) (hrest a)
    | error e =>
      rw [hkb] at hrest
      obtain ⟨a, ha, he⟩ := hrest
      exact ⟨a, firstNot_append.mpr (Or.inr ⟨h, ha⟩), he⟩
  | error e =>
    obtain ⟨a, ha, he⟩ := h
    exact ⟨a, firstNot_append.mpr (Or.inl ha), he⟩

/-- What cannot fail any more leaves the list as it is. -/
theorem StopsOnFirst.map (h : StopsOnFirst P l error x) {g : β → γ} (hk : ∀ b, k b = .ok (g b)) :
    StopsOnFirst P l error (x >>= k) := by
  rw [← List.append_nil l]
  refine h.bind fun b _ => ?_
  rw [hk b]
  exact stopsOnFirst_nil

end PicX
