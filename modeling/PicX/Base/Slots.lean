import Mathlib.Data.List.Basic

/-!
# Slots

A slot is a place in a document where a value may stand. Slots are put together as documents are:
a field of a record, an entry of a list, a slot of what stands there.

* `Slot` — reading a value and writing another; to write what stands there changes nothing.
* `Slot.Shows` — a view of the document in which two values of a slot can be told apart.
-/

namespace PicX

/-- A place in a document that holds a value or none. -/
structure Slot (σ : Type) where
  Value : Type
  get : σ → Option Value
  set : Value → σ → σ
  set_get : ∀ s v, get s = some v → set v s = s

namespace Slot

variable {σ τ ρ α : Type}

/-- A place where nothing can stand. -/
def absent : Slot σ := ⟨Empty, fun _ => none, fun _ s => s, fun _ _ h => nomatch h⟩

/-- A field that is always there. -/
def field (get : σ → α) (set : α → σ → σ) (h : ∀ s, set (get s) s = s) : Slot σ where
  Value := α
  get s := some (get s)
  set := set
  set_get s v hv := by
    rw [← Option.some.inj hv]
    exact h s

/-- A field that may be left out. -/
def optional (get : σ → Option α) (set : Option α → σ → σ) (h : ∀ s, set (get s) s = s) :
    Slot σ where
  Value := α
  get := get
  set v := set (some v)
  set_get s v hv := by
    rw [← hv]
    exact h s

/-- A slot of a part of the document. -/
def inside (slot : Slot τ) (get : σ → τ) (set : τ → σ → σ) (h : ∀ s, set (get s) s = s) :
    Slot σ where
  Value := slot.Value
  get s := slot.get (get s)
  set v s := set (slot.set v (get s)) s
  set_get s v hv := by
    rw [slot.set_get _ v hv]
    exact h s

/-- A slot of an entry of a list. -/
def nth (slot : Slot τ) (i : Nat) : Slot (List τ) where
  Value := slot.Value
  get l := l[i]?.bind slot.get
  set v l := l.modify i (slot.set v)
  set_get l v hv := by
    obtain ⟨t, ht, hget⟩ := Option.bind_eq_some_iff.mp hv
    refine List.ext_getElem? fun j => ?_
    rw [List.getElem?_modify]
    by_cases hij : i = j
    · subst hij
      rw [ht, Option.map_eq_map, Option.map_some, if_pos rfl, slot.set_get t v hget]
    · cases l[j]? with
      | none => rfl
      | some t' => rw [Option.map_eq_map, Option.map_some, if_neg hij]

/-! ## Views -/

/-- Two values can be told apart by looking at the view of the document they stand in. -/
def Shows (slot : Slot σ) (view : σ → ρ) : Prop :=
  ∃ v v' : slot.Value, ∀ s, (slot.get s).isSome → view (slot.set v s) ≠ view (slot.set v' s)

theorem shows_of (slot : Slot σ) {view : σ → ρ} {v v' : slot.Value} (hne : v ≠ v')
    (part : ρ → Option slot.Value) (hpart : ∀ v s, part (view (slot.set v s)) = some v) :
    slot.Shows view := by
  refine ⟨v, v', fun s _ heq => hne (Option.some.inj ?_)⟩
  rw [← hpart v s, ← hpart v' s]
  exact congrArg part heq

theorem Shows.inside {slot : Slot τ} {view : τ → ρ} (h : slot.Shows view) {get : σ → τ}
    {set : τ → σ → σ} {hset : ∀ s, set (get s) s = s} {whole : σ → α} (part : α → ρ)
    (hpart : ∀ t s, part (whole (set t s)) = view t) :
    (slot.inside get set hset).Shows whole := by
  obtain ⟨v, v', hne⟩ := h
  refine ⟨v, v', fun s hs heq => hne (get s) hs ?_⟩
  rw [← hpart _ s, ← hpart _ s]
  exact congrArg part heq

theorem Shows.nth {slot : Slot τ} {view : τ → ρ} (h : slot.Shows view) (i : Nat) :
    (slot.nth i).Shows (List.map view) := by
  obtain ⟨v, v', hne⟩ := h
  refine ⟨v, v', fun l hl heq => ?_⟩
  obtain ⟨u, hu⟩ := Option.isSome_iff_exists.mp hl
  obtain ⟨t, ht, hget⟩ := Option.bind_eq_some_iff.mp hu
  have hentry := congrArg (fun l => l[i]?) heq
  simp only [Slot.nth, List.getElem?_map, List.getElem?_modify, ht, Option.map_eq_map,
    Option.map_some, if_true, Option.some.injEq] at hentry
  exact hne t (by rw [hget]; rfl) hentry

end Slot

end PicX
