import Mathlib.Data.BitVec
import Mathlib.Tactic.Common
import Mathlib.Tactic.SplitIfs

/-!
# Machine words

An operation on machine words can leave their type: a difference falls below zero, a sum passes the
largest number, a shift is as wide as its word. A build with overflow checks panics there, and one
without them goes on with a word that is off.

* `Build.i64` — an `i64` after an operation, in either build.
* `sub`, `shl` — a difference and a shift, or nothing where they leave the type.
* `prefixMask_eq` — the mask of a prefix does not, and compares the bits of the prefix.
-/

namespace PicX.Machine

/-! ## Signed words -/

/-- What a build does with an operation that leaves its type. -/
inductive Build where
  /-- It panics. -/
  | checked
  /-- It wraps around. -/
  | wrapping
  deriving DecidableEq, Repr

/-- An `i64` after an operation; `none` is a panic. -/
def Build.i64 : Build → Int → Option Int
  | .checked, n => if -2 ^ 63 ≤ n ∧ n < 2 ^ 63 then some n else none
  | .wrapping, n => some (n.bmod (2 ^ 64))

variable {n : Int}

theorem i64_of_mem (b : Build) (h : -2 ^ 63 ≤ n ∧ n < 2 ^ 63) : b.i64 n = some n := by
  cases b with
  | checked => exact if_pos h
  | wrapping =>
    rw [Build.i64, Int.bmod_eq_of_le] <;> omega

/-! ## Shifts -/

/-- `a - b` of an unsigned type. -/
def sub (a b : Nat) : Option Nat := if b ≤ a then some (a - b) else none

variable {w k : Nat}

/-- `x << n`. -/
def shl (x : BitVec w) (n : Nat) : Option (BitVec w) := if n < w then some (x <<< n) else none

/-- The mask of the first `k` bits of a word. The empty prefix has a case of its own: its shift
would be as wide as the word. -/
def prefixMask (w k : Nat) : Option (BitVec w) :=
  if k = 0 then some 0 else (sub w k).bind (shl (BitVec.allOnes w))

/-- Under a mask of the first `k` bits, two words are equal when these bits are. -/
theorem and_mask_eq_iff (x y : BitVec w) (h : k ≤ w) :
    x &&& (BitVec.allOnes w <<< (w - k)) = y &&& (BitVec.allOnes w <<< (w - k)) ↔
      ∀ i < k, x.getMsbD i = y.getMsbD i := by
  have hmask : ∀ i < w, (BitVec.allOnes w <<< (w - k)).getMsbD i = decide (i < k) := by
    intro i hi
    rw [BitVec.getMsbD_shiftLeft, BitVec.getMsbD_allOnes]
    simp only [decide_eq_decide]
    omega
  constructor
  · intro heq i hi
    have hbit := congrArg (fun z => BitVec.getMsbD z i) heq
    simpa [BitVec.getMsbD_and, hmask i (by omega), hi] using hbit
  · intro hbits
    apply BitVec.eq_of_getMsbD_eq
    intro i hi
    rw [BitVec.getMsbD_and, BitVec.getMsbD_and, hmask i hi]
    by_cases hk : i < k
    · rw [hbits i hk]
    · simp [hk]

/-- **The mask of a prefix is there**, and compares the bits of the prefix. -/
theorem prefixMask_eq (h : k ≤ w) : ∃ mask, prefixMask w k = some mask ∧
    ∀ x y : BitVec w, x &&& mask = y &&& mask ↔ ∀ i < k, x.getMsbD i = y.getMsbD i := by
  unfold prefixMask
  by_cases hk : k = 0
  · refine ⟨0, if_pos hk, fun x y => ?_⟩
    simp [hk]
  · refine ⟨BitVec.allOnes w <<< (w - k), ?_, fun x y => and_mask_eq_iff x y h⟩
    have hamount : w - k < w := by omega
    rw [if_neg hk, sub, if_pos h, Option.bind_some, shl, if_pos hamount]

end PicX.Machine
