import Mathlib.Data.Nat.Count
import PicX.Base.Program

/-!
# Worlds of several parts

A world may be made of parts that know nothing of each other. What is done to the whole is then, for
each part, something done to it alone, or nothing.

* `part` — a program over one part, as a program over the whole; `wp_part` is its rule.
* `Underlies` — a run of a part, seen in a history of the whole that leaves it alone between two of
  its steps.
* `exists_underlies` — when the whole leaves the part alone or makes a step of it, there is such a
  run.
-/

namespace PicX

namespace Program

variable {op σ τ ε α : Type} {view : τ → σ} {put : τ → σ → τ} {p : Program op σ ε α}
  {f : op → Outcome}

/-- A program over one part of the world. -/
def part (view : τ → σ) (put : τ → σ → τ) (p : Program op σ ε α) : Program op τ ε α :=
  fun f w => match p f (view w) with
    | .ok a s => .ok a (put w s)
    | .error e s => .error e (put w s)
    | .crash s => .crash (put w s)

@[simp] theorem wp_part {Q : α → τ → Prop} {E : ε → τ → Prop} {C : τ → Prop} {w : τ} :
    WP (part view put p) f Q E C w ↔
      WP p f (fun a s => Q a (put w s)) (fun e s => E e (put w s)) (fun s => C (put w s))
        (view w) := by
  unfold WP part
  cases p f (view w) <;> rfl

end Program

/-! ## Runs of a part -/

/-- A run of a part, in a history of `N` steps of the whole. The part makes a step where the whole
has `moved` it, and by the moment `i` it has made as many as there were such moments. -/
structure Underlies {A : Type} (Still Step : A → A → Prop) (moved : Nat → Bool) (history : Nat → A)
    (N : Nat) (run : Nat → A) : Prop where
  start : run 0 = history 0
  steps : ∀ j < Nat.count (fun i => moved i) N, Step (run j) (run (j + 1))
  moves : ∀ i < N, moved i = true → run (Nat.count (fun i => moved i) (i + 1)) = history (i + 1)
  still : ∀ i ≤ N, Still (run (Nat.count (fun i => moved i) i)) (history i)

variable {A : Type} {Still Step : A → A → Prop} {moved : Nat → Bool} {history run : Nat → A}
  {N i : Nat}

theorem count_of_moved (h : moved i = true) :
    Nat.count (fun i => moved i) (i + 1) = Nat.count (fun i => moved i) i + 1 := by
  rw [Nat.count_succ, if_pos h]

theorem count_of_not_moved (h : moved i = false) :
    Nat.count (fun i => moved i) (i + 1) = Nat.count (fun i => moved i) i := by
  rw [Nat.count_succ, if_neg (by simp [h]), Nat.add_zero]

/-- **Where the whole leaves a part alone or makes a step of it, a run of the part underlies the
history of the whole.** -/
theorem exists_underlies (hrefl : ∀ a, Still a a)
    (htrans : ∀ a b c, Still a b → Still b c → Still a c)
    (hstep : ∀ a b c, Still a b → Step b c → Step a c) (N : Nat)
    (hmoves : ∀ i < N, moved i = true → Step (history i) (history (i + 1)))
    (hstays : ∀ i < N, moved i = false → Still (history i) (history (i + 1))) :
    ∃ run, Underlies Still Step moved history N run := by
  induction N with
  | zero =>
    refine ⟨history, rfl, fun j hj => absurd hj (by simp), fun i hi => absurd hi (by simp),
      fun i hi => ?_⟩
    rw [Nat.le_zero.mp hi]
    exact hrefl _
  | succ N ih =>
    obtain ⟨run, h⟩ := ih (fun i hi => hmoves i (by omega)) fun i hi => hstays i (by omega)
    have hlast := h.still N le_rfl
    cases hmoved : moved N with
    | false =>
      have hcount := count_of_not_moved hmoved
      refine ⟨run, h.start, fun j hj => h.steps j (hcount ▸ hj), fun i hi hi' => ?_,
        fun i hi => ?_⟩
      · rcases Nat.lt_succ_iff_lt_or_eq.mp hi with hlt | rfl
        · exact h.moves i hlt hi'
        · rw [hmoved] at hi'
          cases hi'
      · rcases Nat.le_succ_iff.mp hi with hle | rfl
        · exact h.still i hle
        · rw [hcount]
          exact htrans _ _ _ hlast (hstays N (by omega) hmoved)
    | true =>
      -- The part makes a step: the run is one step longer.
      have hcount := count_of_moved hmoved
      have hold : ∀ j ≤ Nat.count (fun i => moved i) N,
          Function.update run (Nat.count (fun i => moved i) (N + 1)) (history (N + 1)) j =
            run j := by
        intro j hj
        exact Function.update_of_ne (by omega) _ _
      have hnew := Function.update_self (Nat.count (fun i => moved i) (N + 1)) (history (N + 1)) run
      have hbelow : ∀ i ≤ N, Nat.count (fun i => moved i) i ≤ Nat.count (fun i => moved i) N :=
        fun i hi => Nat.count_monotone _ hi
      refine ⟨Function.update run (Nat.count (fun i => moved i) (N + 1)) (history (N + 1)),
        (hold 0 (Nat.zero_le _)).trans h.start, fun j hj => ?_, fun i hi hi' => ?_, fun i hi => ?_⟩
      · rcases Nat.lt_succ_iff_lt_or_eq.mp (hcount ▸ hj) with hlt | rfl
        · rw [hold j hlt.le, hold (j + 1) hlt]
          exact h.steps j hlt
        · rw [hold _ le_rfl, ← hcount, hnew]
          exact hstep _ _ _ hlast (hmoves N (by omega) hmoved)
      · rcases Nat.lt_succ_iff_lt_or_eq.mp hi with hlt | rfl
        · rw [hold _ (hbelow (i + 1) hlt)]
          exact h.moves i hlt hi'
        · exact hnew
      · rcases Nat.le_succ_iff.mp hi with hle | rfl
        · rw [hold _ (hbelow i hle)]
          exact h.still i hle
        · rw [hnew]
          exact hrefl _

end PicX
