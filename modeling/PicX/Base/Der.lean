import Mathlib.Data.List.Basic
import Mathlib.Data.List.TakeWhile
import Mathlib.Tactic.Linarith
import Mathlib.Tactic.Ring
import PicX.Base.Text

/-!
# DER

The distinguished encoding of a value: a tag, the length of the contents in its shortest form, and
the contents. An INTEGER is in two's complement, in as few bytes as it takes.

* `IsLength`, `IsInteger`, `Tlv` — the encodings, as relations; each determines its bytes
  (`IsLength.unique`, `IsContents.unique`, `IsInteger.unique`).
* `readLength`, `readTlv`, `readInteger` — a reader that takes nothing else (`readLength_eq_some`,
  `readTlv_eq_some`, `readInteger_eq_some`).
-/

namespace PicX.Der

open PicX

/-! ## Numbers in base 256 -/

/-- The number of some bytes, the highest first. -/
def unsigned : Bytes → Nat
  | [] => 0
  | b :: l => b.toNat * 256 ^ l.length + unsigned l

/-- A byte in two's complement. -/
def signedByte (b : UInt8) : Int := if b.toNat < 128 then b.toNat else b.toNat - 256

/-- The number of some bytes in two's complement. -/
def signed : Bytes → Int
  | [] => 0
  | b :: l => signedByte b * 256 ^ l.length + unsigned l

/-- The last `k` bytes of a number, the highest first. -/
def bytesOf : Nat → Nat → Bytes
  | 0, _ => []
  | k + 1, n => UInt8.ofNat (n / 256 ^ k) :: bytesOf k n

theorem unsigned_lt (l : Bytes) : unsigned l < 256 ^ l.length := by
  induction l with
  | nil => decide
  | cons b l ih =>
    have hbyte : b.toNat * 256 ^ l.length ≤ 255 * 256 ^ l.length :=
      Nat.mul_le_mul_right _ (Nat.le_of_lt_succ b.toNat_lt)
    rw [unsigned, List.length_cons, pow_succ]
    omega

theorem le_unsigned {b : UInt8} {l : Bytes} (h : b ≠ 0) : 256 ^ l.length ≤ unsigned (b :: l) := by
  have hpos : 0 < b.toNat := Nat.pos_of_ne_zero fun hzero => h (UInt8.toNat_inj.mp hzero)
  have hbyte : 1 * 256 ^ l.length ≤ b.toNat * 256 ^ l.length := Nat.mul_le_mul_right _ hpos
  rw [unsigned]
  omega

/-- Byte strings of one length are told apart by their numbers. -/
theorem unsigned_injective {l l' : Bytes} (hlength : l.length = l'.length)
    (h : unsigned l = unsigned l') : l = l' := by
  induction l generalizing l' with
  | nil => exact (List.length_eq_zero_iff.mp hlength.symm).symm
  | cons b l ih =>
    cases l' with
    | nil => cases hlength
    | cons b' l' =>
      have hrest : l.length = l'.length := Nat.succ.inj hlength
      have hl := unsigned_lt l
      have hl' := unsigned_lt l'
      rw [unsigned, unsigned, ← hrest, mul_comm, mul_comm b'.toNat] at h
      rw [← hrest] at hl'
      have hbyte : b.toNat = b'.toNat := by
        have := congrArg (· / 256 ^ l.length) h
        simpa [Nat.mul_add_div, Nat.div_eq_of_lt hl, Nat.div_eq_of_lt hl'] using this
      rw [hbyte] at h
      rw [UInt8.toNat_inj.mp hbyte, ih hrest (Nat.add_left_cancel h)]

/-- Without a zero in front, numbers tell all byte strings apart. -/
theorem unsigned_injective_of_ne_zero {b b' : UInt8} {l l' : Bytes} (hb : b ≠ 0) (hb' : b' ≠ 0)
    (h : unsigned (b :: l) = unsigned (b' :: l')) : b :: l = b' :: l' := by
  apply unsigned_injective _ h
  have hlt : ∀ {b b' : UInt8} {l l' : Bytes}, b' ≠ 0 → unsigned (b :: l) = unsigned (b' :: l') →
      l'.length ≤ l.length := by
    intro b b' l l' hne heq
    by_contra hlonger
    have hle : 256 ^ (b :: l).length ≤ 256 ^ l'.length :=
      Nat.pow_le_pow_right (by decide) (by rw [List.length_cons]; omega)
    have hsmall := unsigned_lt (b :: l)
    have hlarge := le_unsigned (l := l') hne
    omega
  have hle := hlt hb' h
  have hge := hlt hb h.symm
  rw [List.length_cons, List.length_cons]
  omega

/-- Leading zeros do not count. -/
theorem unsigned_dropWhile (l : Bytes) : unsigned (l.dropWhile (· = 0)) = unsigned l := by
  induction l with
  | nil => rfl
  | cons b l ih =>
    by_cases hzero : b = 0
    · rw [List.dropWhile_cons_of_pos (by simpa using hzero), ih, hzero, unsigned]
      simp
    · rw [List.dropWhile_cons_of_neg (by simpa using hzero)]

@[simp] theorem length_bytesOf (k n : Nat) : (bytesOf k n).length = k := by
  induction k with
  | zero => rfl
  | succ k ih => simp [bytesOf, ih]

@[simp] theorem unsigned_bytesOf (k n : Nat) : unsigned (bytesOf k n) = n % 256 ^ k := by
  induction k with
  | zero => simp [bytesOf, unsigned, Nat.mod_one]
  | succ k ih =>
    have hbyte : (UInt8.ofNat (n / 256 ^ k)).toNat = n / 256 ^ k % 256 := UInt8.toNat_ofNat'
    rw [bytesOf, unsigned, length_bytesOf, ih, hbyte, Nat.mod_pow_succ, add_comm, mul_comm]

/-- Bytes that start below 128 have one number. -/
theorem signed_of_lt {b : UInt8} {l : Bytes} (h : b.toNat < 128) :
    signed (b :: l) = unsigned (b :: l) := by
  rw [signed, unsigned, signedByte, if_pos h]
  push_cast
  rfl

/-! ## Lengths -/

/-- The shortest form of a length: one byte below 128, else a count of the bytes that follow, which
do not start with a zero. -/
inductive IsLength : Nat → Bytes → Prop
  | short {n : Nat} (h : n < 128) : IsLength n [UInt8.ofNat n]
  | long {b : UInt8} {l : Bytes} (hne : b ≠ 0) (hlength : (b :: l).length < 127)
      (hlarge : 128 ≤ unsigned (b :: l)) :
      IsLength (unsigned (b :: l)) (UInt8.ofNat (128 + (b :: l).length) :: b :: l)

theorem IsLength.unique {n : Nat} {l l' : Bytes} (h : IsLength n l) (h' : IsLength n l') :
    l = l' := by
  generalize hn : n = n' at h'
  cases h with
  | short hsmall =>
    cases h' with
    | short => rw [hn]
    | long _ _ hlarge => omega
  | long hne _ hlarge =>
    cases h' with
    | short hsmall => omega
    | long hne' _ _ => rw [unsigned_injective_of_ne_zero hne hne' hn]

def readLength : Bytes → Option (Nat × Bytes)
  | [] => none
  | b :: rest =>
    if b.toNat < 128 then some (b.toNat, rest)
    else
      let count := b.toNat - 128
      let digits := rest.take count
      if count = 127 ∨ rest.length < count ∨ digits.head? = some 0 ∨ unsigned digits < 128 then none
      else some (unsigned digits, rest.drop count)

theorem toNat_ofNat_of_lt {n : Nat} (h : n < 256) : (UInt8.ofNat n).toNat = n := by
  rw [UInt8.toNat_ofNat', Nat.mod_eq_of_lt h]

/-- The reader takes the shortest form of a length, whatever follows it. -/
theorem IsLength.read {n : Nat} {l : Bytes} (h : IsLength n l) (rest : Bytes) :
    readLength (l ++ rest) = some (n, rest) := by
  cases h with
  | short hsmall =>
    have hbyte : (UInt8.ofNat n).toNat = n := toNat_ofNat_of_lt (by omega)
    simp [readLength, hbyte, hsmall]
  | @long b l hne hlength hlarge =>
    have hbyte : (UInt8.ofNat (128 + (b :: l).length)).toNat = 128 + (b :: l).length :=
      toNat_ofNat_of_lt (by omega)
    have hcount : 128 + (b :: l).length - 128 = (b :: l).length := by omega
    rw [List.cons_append, readLength, hbyte, if_neg (by omega)]
    simp only [hcount, List.take_left, List.drop_left]
    have hroom : ¬(b :: l ++ rest).length < (b :: l).length := by
      rw [List.length_append]
      omega
    have hgood : ¬((b :: l).length = 127 ∨ (b :: l ++ rest).length < (b :: l).length ∨
        (b :: l).head? = some 0 ∨ unsigned (b :: l) < 128) := by
      rintro (hcount | hshort | hzero | hsmall)
      · omega
      · exact hroom hshort
      · exact hne (Option.some.inj hzero)
      · omega
    rw [if_neg hgood]

/-- **The reader takes nothing but the shortest form of a length.** -/
theorem isLength_of_readLength {n : Nat} {input rest : Bytes}
    (h : readLength input = some (n, rest)) : ∃ l, input = l ++ rest ∧ IsLength n l := by
  cases input with
  | nil => cases h
  | cons b tail =>
    simp only [readLength] at h
    split_ifs at h with hsmall hbad
    · cases h
      refine ⟨[b], rfl, ?_⟩
      have hshort := IsLength.short hsmall
      rwa [UInt8.ofNat_toNat] at hshort
    · simp only [not_or, not_lt] at hbad
      obtain ⟨hcount, hroom, hzero, hlarge⟩ := hbad
      rw [Option.some.injEq, Prod.mk.injEq] at h
      obtain ⟨hn, hrest⟩ := h
      have hlength : (tail.take (b.toNat - 128)).length = b.toNat - 128 :=
        List.length_take_of_le hroom
      have hb := b.toNat_lt
      cases hdigits : tail.take (b.toNat - 128) with
      | nil => simp [hdigits, unsigned] at hlarge
      | cons d l =>
        rw [hdigits] at hn hzero hlarge hlength
        have hne : d ≠ 0 := by simpa using hzero
        refine ⟨b :: d :: l, ?_, ?_⟩
        · rw [List.cons_append, ← hrest, ← hdigits, List.take_append_drop]
        · have hlong := IsLength.long hne (by omega) hlarge
          have hbyte : UInt8.ofNat (128 + (d :: l).length) = b := by
            rw [hlength, show 128 + (b.toNat - 128) = b.toNat by omega, UInt8.ofNat_toNat]
          rwa [hbyte, hn] at hlong

theorem readLength_eq_some {n : Nat} {input rest : Bytes} :
    readLength input = some (n, rest) ↔ ∃ l, input = l ++ rest ∧ IsLength n l := by
  refine ⟨isLength_of_readLength, ?_⟩
  rintro ⟨l, rfl, h⟩
  exact h.read rest

/-! ## Tag, length, contents -/

/-- `out` is a tag, the length of the contents, and the contents. -/
def Tlv (tag : UInt8) (contents out : Bytes) : Prop :=
  ∃ l, IsLength contents.length l ∧ out = tag :: (l ++ contents)

theorem Tlv.unique {tag : UInt8} {contents out out' : Bytes} (h : Tlv tag contents out)
    (h' : Tlv tag contents out') : out = out' := by
  obtain ⟨l, hl, rfl⟩ := h
  obtain ⟨l', hl', rfl⟩ := h'
  rw [hl.unique hl']

def readTlv (tag : UInt8) : Bytes → Option (Bytes × Bytes)
  | [] => none
  | b :: input =>
    if b = tag then
      match readLength input with
      | none => none
      | some (n, rest) => if rest.length < n then none else some (rest.take n, rest.drop n)
    else none

theorem readTlv_eq_some {tag : UInt8} {input contents rest : Bytes} :
    readTlv tag input = some (contents, rest) ↔ ∃ out, Tlv tag contents out ∧
      input = out ++ rest := by
  constructor
  · intro h
    cases input with
    | nil => cases h
    | cons b input =>
      rw [readTlv] at h
      split_ifs at h with htag
      cases hread : readLength input with
      | none => simp [hread] at h
      | some read =>
        obtain ⟨n, tail⟩ := read
        simp only [hread, Option.ite_none_left_eq_some, not_lt, Option.some.injEq,
          Prod.mk.injEq] at h
        obtain ⟨hroom, rfl, rfl⟩ := h
        obtain ⟨l, rfl, hl⟩ := isLength_of_readLength hread
        have hlength : (tail.take n).length = n := List.length_take_of_le hroom
        refine ⟨tag :: (l ++ tail.take n), ⟨l, hlength.symm ▸ hl, rfl⟩, ?_⟩
        rw [htag, List.cons_append, List.append_assoc, List.take_append_drop]
  · rintro ⟨_, ⟨l, hl, rfl⟩, rfl⟩
    have hread := hl.read (contents ++ rest)
    rw [List.cons_append, List.append_assoc, readTlv, if_pos rfl, hread]
    simp

/-! ## Integers -/

/-- The first nine bits of the contents are not all alike. -/
def Minimal : Bytes → Prop
  | b :: b' :: _ => ¬(b.toNat = 0 ∧ b'.toNat < 128) ∧ ¬(b.toNat = 255 ∧ 128 ≤ b'.toNat)
  | _ => True

instance : DecidablePred Minimal
  | [] => isTrue trivial
  | [_] => isTrue trivial
  | b :: b' :: _ => inferInstanceAs (Decidable
      (¬(b.toNat = 0 ∧ b'.toNat < 128) ∧ ¬(b.toNat = 255 ∧ 128 ≤ b'.toNat)))

/-- The contents of an INTEGER: as few bytes as the value takes in two's complement, but one. -/
structure IsContents (value : Int) (contents : Bytes) : Prop where
  nonempty : contents ≠ []
  minimal : Minimal contents
  value : signed contents = value

theorem signedByte_bounds (b : UInt8) : -128 ≤ signedByte b ∧ signedByte b ≤ 127 := by
  have := b.toNat_lt
  unfold signedByte
  split_ifs <;> omega

theorem signed_bounds (b : UInt8) (l : Bytes) :
    -(128 * 256 ^ l.length) ≤ signed (b :: l) ∧ signed (b :: l) < 128 * 256 ^ l.length := by
  obtain ⟨hge, hle⟩ := signedByte_bounds b
  have hrest : (unsigned l : Int) < 256 ^ l.length := by exact_mod_cast unsigned_lt l
  have hpos : (0 : Int) < 256 ^ l.length := by positivity
  rw [signed]
  constructor <;> nlinarith

/-- A value whose contents take more than one byte does not fit in one byte less. -/
theorem Minimal.large {b b' : UInt8} {l : Bytes} (h : Minimal (b :: b' :: l)) :
    signed (b :: b' :: l) < -(128 * 256 ^ l.length) ∨
      128 * 256 ^ l.length ≤ signed (b :: b' :: l) := by
  obtain ⟨hzero, hones⟩ := h
  obtain ⟨K, hK⟩ : ∃ K : Int, K = 256 ^ l.length := ⟨_, rfl⟩
  have hrest : (unsigned l : Int) < K := by
    rw [hK]
    exact_mod_cast unsigned_lt l
  have hnonneg : (0 : Int) ≤ unsigned l := Int.natCast_nonneg _
  have hvalue : signed (b :: b' :: l) = (256 * signedByte b + b'.toNat) * K + unsigned l := by
    rw [signed, unsigned, List.length_cons, hK]
    push_cast
    ring
  have hb := b.toNat_lt
  have hb' := b'.toNat_lt
  rw [hvalue, ← hK]
  have hside : 256 * signedByte b + b'.toNat ≤ -129 ∨ 128 ≤ 256 * signedByte b + b'.toNat := by
    unfold signedByte
    split_ifs <;> omega
  rcases hside with hbelow | habove
  · left
    nlinarith
  · right
    nlinarith

/-- **An integer has one encoding.** -/
theorem IsContents.unique {value : Int} {l l' : Bytes} (h : IsContents value l)
    (h' : IsContents value l') : l = l' := by
  have hlength : ∀ {l l' : Bytes}, IsContents value l → IsContents value l' →
      l'.length ≤ l.length := by
    intro l l' h h'
    by_contra hlonger
    match l, l', h, h' with
    | [], _, h, _ => exact h.nonempty rfl
    | b :: l, [], _, _ => simp at hlonger
    | b :: l, [b'], _, _ => simp at hlonger
    | b :: l, b' :: b'' :: l', h, h' =>
      have hle : (256 : Int) ^ l.length ≤ 256 ^ l'.length := by
        apply pow_le_pow_right₀ (by decide)
        simp only [List.length_cons] at hlonger
        omega
      have hsmall := signed_bounds b l
      have hlarge := h'.minimal.large
      rw [h.value] at hsmall
      rw [h'.value] at hlarge
      omega
  have hsame : l.length = l'.length := le_antisymm (hlength h' h) (hlength h h')
  match l, l', h, h' with
  | [], _, h, _ => exact absurd rfl h.nonempty
  | _ :: _, [], _, h' => exact absurd rfl h'.nonempty
  | b :: l, b' :: l', h, h' =>
    have hrest : l.length = l'.length := Nat.succ.inj hsame
    have hvalue := h.value.trans h'.value.symm
    have hmod : unsigned l = unsigned l' := by
      have hl : (unsigned l : Int) < 256 ^ l.length := by exact_mod_cast unsigned_lt l
      have hl' : (unsigned l' : Int) < 256 ^ l.length := by
        rw [hrest]
        exact_mod_cast unsigned_lt l'
      rw [signed, signed, ← hrest] at hvalue
      have := congrArg (· % (256 ^ l.length : Int)) hvalue
      simp only [Int.add_emod, Int.mul_emod_left, zero_add,
        Int.emod_eq_of_lt (Int.natCast_nonneg _) hl, Int.emod_eq_of_lt (Int.natCast_nonneg _) hl']
          at this
      exact_mod_cast this
    rw [signed, signed, ← hrest, hmod] at hvalue
    have hbyte : signedByte b = signedByte b' := by
      have hpos : (256 ^ l.length : Int) ≠ 0 := by positivity
      exact mul_right_cancel₀ hpos (add_right_cancel hvalue)
    have hb : b = b' := by
      have hlt := b.toNat_lt
      have hlt' := b'.toNat_lt
      unfold signedByte at hbyte
      apply UInt8.toNat_inj.mp
      split_ifs at hbyte <;> omega
    rw [hb, unsigned_injective hrest hmod]

/-- The encoding of an INTEGER. -/
def IsInteger (value : Int) (out : Bytes) : Prop :=
  ∃ contents, IsContents value contents ∧ Tlv 0x02 contents out

theorem IsInteger.unique {value : Int} {out out' : Bytes} (h : IsInteger value out)
    (h' : IsInteger value out') : out = out' := by
  obtain ⟨contents, hcontents, htlv⟩ := h
  obtain ⟨contents', hcontents', htlv'⟩ := h'
  rw [hcontents.unique hcontents'] at htlv
  exact htlv.unique htlv'

def readInteger (input : Bytes) : Option (Int × Bytes) :=
  match readTlv 0x02 input with
  | none => none
  | some (contents, rest) =>
    if contents ≠ [] ∧ Minimal contents then some (signed contents, rest) else none

theorem readInteger_eq_some {value : Int} {input rest : Bytes} :
    readInteger input = some (value, rest) ↔ ∃ out, IsInteger value out ∧ input = out ++ rest := by
  unfold readInteger
  constructor
  · intro h
    cases hread : readTlv 0x02 input with
    | none => simp [hread] at h
    | some read =>
      obtain ⟨contents, tail⟩ := read
      simp only [hread, Option.ite_none_right_eq_some, Option.some.injEq, Prod.mk.injEq] at h
      obtain ⟨⟨hne, hminimal⟩, hvalue, rfl⟩ := h
      obtain ⟨out, htlv, rfl⟩ := readTlv_eq_some.mp hread
      exact ⟨out, ⟨contents, ⟨hne, hminimal, hvalue⟩, htlv⟩, rfl⟩
  · rintro ⟨out, ⟨contents, hcontents, htlv⟩, rfl⟩
    rw [readTlv_eq_some.mpr ⟨out, htlv, rfl⟩]
    show (if contents ≠ [] ∧ Minimal contents then some (signed contents, rest) else none) = _
    rw [if_pos ⟨hcontents.nonempty, hcontents.minimal⟩, hcontents.value]

end PicX.Der
