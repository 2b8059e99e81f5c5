import Mathlib.Data.List.Basic
import Mathlib.Data.Nat.Bitwise
import Mathlib.Tactic.Ring

/-!
# Bit strings

Numbers written out in a fixed number of bits, the highest first, and bit strings cut into groups of
one length. Going from groups of one length to groups of another is to join the bits of the first
and cut them again.

* `number_bits`, `bits_number` — the bits of a number and the number of some bits.
* `bits_add` — the bits of a number, cut in two.
* `groups_append` — cutting off the first group.
* `length_le_of_mem_groups` — no group is longer.
* `flatMap_bits_groups` — the numbers of the groups give the bits back.
-/

namespace PicX.Bits

variable {α : Type}

/-! ## Numbers and their bits -/

/-- The last `k` bits of a number, the highest first. -/
def bits : Nat → Nat → List Bool
  | 0, _ => []
  | k + 1, n => n.testBit k :: bits k n

/-- The number of some bits, the highest first. -/
def number : List Bool → Nat
  | [] => 0
  | b :: l => b.toNat * 2 ^ l.length + number l

@[simp] theorem length_bits (k n : Nat) : (bits k n).length = k := by
  induction k with
  | zero => rfl
  | succ k ih => simp [bits, ih]

theorem number_append (l l' : List Bool) :
    number (l ++ l') = number l * 2 ^ l'.length + number l' := by
  induction l with
  | nil => simp [number]
  | cons b l ih =>
    rw [List.cons_append, number, number, ih, List.length_append, pow_add]
    ring

theorem number_lt (l : List Bool) : number l < 2 ^ l.length := by
  induction l with
  | nil => decide
  | cons b l ih =>
    have hbit : b.toNat ≤ 1 := by cases b <;> decide
    have hmul : b.toNat * 2 ^ l.length ≤ 1 * 2 ^ l.length := Nat.mul_le_mul_right _ hbit
    rw [number, List.length_cons, pow_succ]
    omega

/-- Bit strings of one length are told apart by their numbers. -/
theorem number_injective {l l' : List Bool} (hlength : l.length = l'.length)
    (h : number l = number l') : l = l' := by
  induction l generalizing l' with
  | nil => exact (List.length_eq_zero_iff.mp hlength.symm).symm
  | cons b l ih =>
    cases l' with
    | nil => cases hlength
    | cons b' l' =>
      have hrest : l.length = l'.length := Nat.succ.inj hlength
      have hl := number_lt l
      have hl' := number_lt l'
      rw [number, number, ← hrest] at h
      rw [← hrest] at hl'
      have hboth : b = b' ∧ number l = number l' := by
        cases b <;> cases b' <;> simp only [Bool.toNat_false, Bool.toNat_true] at h <;>
          simp <;> omega
      rw [hboth.1, ih hrest hboth.2]

@[simp] theorem number_bits (k n : Nat) : number (bits k n) = n % 2 ^ k := by
  induction k with
  | zero => simp [bits, number, Nat.mod_one]
  | succ k ih =>
    rw [bits, number, length_bits, ih, Nat.toNat_testBit, Nat.mod_pow_succ]
    ring

@[simp] theorem bits_number (l : List Bool) : bits l.length (number l) = l := by
  apply number_injective
  · rw [length_bits]
  · rw [number_bits, Nat.mod_eq_of_lt (number_lt l)]

/-- The bits of a number depend on its remainder alone. -/
theorem bits_congr {k m n : Nat} (h : m % 2 ^ k = n % 2 ^ k) : bits k m = bits k n := by
  apply number_injective
  · rw [length_bits, length_bits]
  · rw [number_bits, number_bits, h]

/-- The bits of a number, cut in two. -/
theorem bits_add (j k n : Nat) : bits (j + k) n = bits j (n / 2 ^ k) ++ bits k n := by
  induction j with
  | zero => simp [bits]
  | succ j ih =>
    rw [Nat.succ_add, bits, bits, ih, List.cons_append, Nat.testBit_div_two_pow]

theorem bits_zero (k : Nat) : bits k 0 = List.replicate k false := by
  induction k with
  | zero => rfl
  | succ k ih => simp [bits, ih, List.replicate_succ]

/-! ## Groups -/

/-- A list in groups of `k`; the last one may be shorter. -/
def groups (k : Nat) (l : List α) : List (List α) :=
  if h : k = 0 ∨ l = [] then []
  else
    have : (l.drop k).length < l.length := by
      rw [not_or] at h
      have := List.length_pos_of_ne_nil h.2
      rw [List.length_drop]
      omega
    l.take k :: groups k (l.drop k)
termination_by l.length

@[simp] theorem groups_nil (k : Nat) : groups k ([] : List α) = [] := by
  rw [groups]
  simp

theorem groups_append {k : Nat} {l : List α} (hk : 0 < k) (hl : l.length = k) (rest : List α) :
    groups k (l ++ rest) = l :: groups k rest := by
  have hne : l ++ rest ≠ [] := by
    intro hnil
    rw [List.append_eq_nil_iff] at hnil
    rw [hnil.1] at hl
    exact absurd hl hk.ne
  rw [groups, dif_neg (by simp [hk.ne', hne])]
  show (l ++ rest).take k :: groups k ((l ++ rest).drop k) = _
  rw [List.take_left' hl, List.drop_left' hl]

theorem length_le_of_mem_groups {k : Nat} {l g : List α} (h : g ∈ groups k l) : g.length ≤ k := by
  fun_induction groups k l with
  | case1 l hend => cases h
  | case2 l hne hlt ih =>
    rcases List.mem_cons.mp h with heq | hrest
    · rw [heq, List.length_take]
      exact Nat.min_le_left _ _
    · exact ih hrest

/-- The numbers of the groups of a bit string give the bits back, when no group is short. -/
theorem flatMap_bits_groups {k : Nat} (hk : 0 < k) (n : Nat) {l : List Bool}
    (hl : l.length = n * k) : ((groups k l).map number).flatMap (bits k) = l := by
  induction n generalizing l with
  | zero =>
    rw [Nat.zero_mul, List.length_eq_zero_iff] at hl
    simp [hl]
  | succ n ih =>
    have htake : (l.take k).length = k := by
      rw [List.length_take, hl, Nat.succ_mul]
      omega
    have hdrop : (l.drop k).length = n * k := by
      rw [List.length_drop, hl, Nat.succ_mul]
      omega
    have hfirst : bits k (number (l.take k)) = l.take k := by
      have hbits := bits_number (l.take k)
      rwa [htake] at hbits
    nth_rewrite 1 [← List.take_append_drop k l]
    rw [groups_append hk htake, List.map_cons, List.flatMap_cons, ih hdrop, hfirst,
      List.take_append_drop]

end PicX.Bits
