import Mathlib.Data.List.Induction

/-!
# Keeping the last good answer

Something is asked for again and again, and an attempt brings a value or fails. What is kept is the
value of the last attempt that brought one, with the time of that attempt and the time of the first
failure after it.

* `observe` — what one attempt does to what is kept.
* `heldAfter_eq_some`, `heldAfter_eq_none` — what is kept, read off the history of the attempts.
-/

namespace PicX.LastGood

variable {α : Type}

/-- A value that is kept. -/
structure Held (α : Type) where
  value : α
  fetchedAt : Nat
  /-- The first failure since. -/
  failedSince : Option Nat
  deriving DecidableEq, Repr

/-- What an attempt does to what is kept: a value replaces it, a failure is dated once. -/
def observe (now : Nat) (outcome : Option α) (held : Option (Held α)) : Option (Held α) :=
  match outcome with
  | some value => some { value, fetchedAt := now, failedSince := none }
  | none => held.map fun h => { h with failedSince := h.failedSince.or (some now) }

/-- What is kept after the attempts of a history, the oldest first. -/
def heldAfter (history : List (Nat × Option α)) : Option (Held α) :=
  history.foldl (fun held attempt => observe attempt.1 attempt.2 held) none

/-- The last attempt that brought a value brought this one, at this time; the later ones failed. -/
def LastSuccess (history : List (Nat × Option α)) (value : α) (time : Nat)
    (later : List (Nat × Option α)) : Prop :=
  (∃ earlier, history = earlier ++ (time, some value) :: later) ∧ ∀ attempt ∈ later,
    attempt.2 = none

variable {history later : List (Nat × Option α)} {value : α} {time now : Nat}

theorem heldAfter_concat (attempt : Nat × Option α) :
    heldAfter (history ++ [attempt]) = observe attempt.1 attempt.2 (heldAfter history) := by
  rw [heldAfter, List.foldl_append]
  rfl

theorem LastSuccess.failure (h : LastSuccess history value time later) (now : Nat) :
    LastSuccess (history ++ [(now, none)]) value time (later ++ [(now, none)]) := by
  obtain ⟨⟨earlier, heq⟩, hfailed⟩ := h
  refine ⟨⟨earlier, by rw [heq]; simp⟩, fun attempt hmem => ?_⟩
  rcases List.mem_append.mp hmem with hold | hnew
  · exact hfailed attempt hold
  · rw [List.mem_singleton.mp hnew]

/-- What is kept came from the last success. -/
theorem lastSuccess_of_heldAfter {held : Held α} (h : heldAfter history = some held) :
    ∃ later, LastSuccess history held.value held.fetchedAt later ∧
      held.failedSince = later.head?.map Prod.fst := by
  induction history using List.reverseRecOn generalizing held with
  | nil => cases h
  | append_singleton history attempt ih =>
    obtain ⟨now, outcome⟩ := attempt
    rw [heldAfter_concat] at h
    cases outcome with
    | some value =>
      cases h
      exact ⟨[], ⟨⟨history, rfl⟩, by simp⟩, rfl⟩
    | none =>
      obtain ⟨before, hbefore, rfl⟩ := Option.map_eq_some_iff.mp h
      obtain ⟨later, hlast, hsince⟩ := ih hbefore
      refine ⟨later ++ [(now, none)], hlast.failure now, ?_⟩
      cases later with
      | nil => simp [hsince]
      | cons first rest => simp [hsince]

/-- The value of the last success is kept through the failures after it. -/
theorem LastSuccess.held (h : LastSuccess history value time later) :
    heldAfter history = some ⟨value, time, later.head?.map Prod.fst⟩ := by
  obtain ⟨⟨earlier, rfl⟩, hfailed⟩ := h
  induction later using List.reverseRecOn with
  | nil => exact heldAfter_concat _
  | append_singleton later attempt ih =>
    obtain ⟨now, outcome⟩ := attempt
    obtain rfl : outcome = none := hfailed (now, outcome) (by simp)
    have hbefore := ih fun attempt hmem => hfailed attempt (List.mem_append_left _ hmem)
    rw [← List.cons_append, ← List.append_assoc, heldAfter_concat, hbefore]
    cases later with
    | nil => rfl
    | cons first rest => rfl

/-- **What is kept** is the value of the last success, dated, with the first failure after it. -/
theorem heldAfter_eq_some {held : Held α} : heldAfter history = some held ↔
    ∃ later, LastSuccess history held.value held.fetchedAt later ∧
      held.failedSince = later.head?.map Prod.fst := by
  constructor
  · exact lastSuccess_of_heldAfter
  · intro ⟨later, hlast, hsince⟩
    rw [hlast.held, ← hsince]

/-- Nothing is kept while no attempt succeeded. -/
theorem heldAfter_eq_none : heldAfter history = none ↔ ∀ attempt ∈ history, attempt.2 = none := by
  induction history using List.reverseRecOn with
  | nil => simp [heldAfter]
  | append_singleton history attempt ih =>
    obtain ⟨now, outcome⟩ := attempt
    rw [heldAfter_concat]
    cases outcome with
    | some value =>
      constructor
      · intro h
        cases h
      · intro h
        cases h (now, some value) (by simp)
    | none =>
      rw [observe, Option.map_eq_none_iff, ih, List.forall_mem_append]
      exact (and_iff_left fun attempt hmem => by rw [List.mem_singleton.mp hmem]).symm

end PicX.LastGood
