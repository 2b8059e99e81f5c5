import PicX.Base.Der
import PicX.Realm.Por

/-!
# The encoding of an RSA key (`por.rs`)

`ring` verifies RSA against a DER `RSAPublicKey`, a sequence of the modulus and the exponent. What
`derRsaPublicKey` makes of the bytes of a JWK is that encoding of their two numbers.

* `derLength_isLength`, `derInteger_isInteger` — the parts of the encoder make parts of the DER.
* `IsRsaPublicKey` — the encoding of two integers, and `readRsaPublicKey` — its reader.

Main result: `derRsaPublicKey_canonical`.
-/

namespace PicX.Realm

open PicX Der

/-! ## What an encoding is -/

/-- `out` is the DER of `SEQUENCE { modulus INTEGER, publicExponent INTEGER }`. -/
def IsRsaPublicKey (modulus exponent : Int) (out : Bytes) : Prop :=
  ∃ n e, IsInteger modulus n ∧ IsInteger exponent e ∧ Tlv 0x30 (n ++ e) out

theorem IsRsaPublicKey.unique {modulus exponent : Int} {out out' : Bytes}
    (h : IsRsaPublicKey modulus exponent out) (h' : IsRsaPublicKey modulus exponent out') :
    out = out' := by
  obtain ⟨n, e, hn, he, htlv⟩ := h
  obtain ⟨n', e', hn', he', htlv'⟩ := h'
  rw [hn.unique hn', he.unique he'] at htlv
  exact htlv.unique htlv'

/-- Two integers with nothing after them. -/
def readIntegers (body : Bytes) : Option (Int × Int) :=
  match readInteger body with
  | none => none
  | some (modulus, rest) =>
    match readInteger rest with
    | none => none
    | some (exponent, rest) => if rest = [] then some (modulus, exponent) else none

def readRsaPublicKey (input : Bytes) : Option (Int × Int) :=
  match readTlv 0x30 input with
  | none => none
  | some (body, rest) => if rest = [] then readIntegers body else none

theorem IsRsaPublicKey.read {modulus exponent : Int} {out : Bytes}
    (h : IsRsaPublicKey modulus exponent out) :
    readRsaPublicKey out = some (modulus, exponent) := by
  obtain ⟨n, e, hn, he, htlv⟩ := h
  have hbody : readTlv 0x30 out = some (n ++ e, []) :=
    readTlv_eq_some.mpr ⟨out, htlv, (List.append_nil out).symm⟩
  have hmodulus : readInteger (n ++ e) = some (modulus, e) :=
    readInteger_eq_some.mpr ⟨n, hn, rfl⟩
  have hexponent : readInteger e = some (exponent, []) :=
    readInteger_eq_some.mpr ⟨e, he, (List.append_nil e).symm⟩
  simp [readRsaPublicKey, hbody, readIntegers, hmodulus, hexponent]

/-! ## The encoder -/

/-- The length of a byte vector. -/
def IsUsize (n : Nat) : Prop := n < 2 ^ 64

theorem toBeBytes_eq (length : Nat) :
    ((List.range 8).map fun i => UInt8.ofNat (length >>> (8 * (7 - i)))) = bytesOf 8 length := by
  have hshift : ∀ k, length >>> (8 * k) = length / 256 ^ k := by
    intro k
    rw [Nat.shiftRight_eq_div_pow, pow_mul, show (2 : Nat) ^ 8 = 256 from rfl]
  show [_, _, _, _, _, _, _, _] = [_, _, _, _, _, _, _, _]
  simp only [hshift]

theorem or_0x80 {n : Nat} (h : n < 128) : 0x80 ||| n = 128 + n := by
  exact (Nat.two_pow_add_eq_or_of_lt (i := 7) h 1).symm

/-- **Every length is in its shortest form.** -/
theorem derLength_isLength {length : Nat} (h : IsUsize length) :
    IsLength length (derLength length) := by
  unfold derLength
  split_ifs with hshort
  · exact .short hshort
  · have hvalue : unsigned ((bytesOf 8 length).dropWhile (· = 0)) = length := by
      rw [unsigned_dropWhile, unsigned_bytesOf]
      exact Nat.mod_eq_of_lt h
    have hcount : ((bytesOf 8 length).dropWhile (· = 0)).length ≤ 8 :=
      (List.length_dropWhile_le _ _).trans (length_bytesOf 8 length).le
    cases hdigits : (bytesOf 8 length).dropWhile (· = 0) with
    | nil =>
      rw [hdigits] at hvalue
      simp only [unsigned] at hvalue
      omega
    | cons b l =>
      rw [hdigits] at hvalue hcount
      have hne : b ≠ 0 := by
        have := List.head?_dropWhile_not (fun x : UInt8 => decide (x = 0)) (bytesOf 8 length)
        simpa [hdigits] using this
      have hlong := IsLength.long (l := l) hne (by omega) (by omega)
      rw [hvalue, ← or_0x80 (by omega)] at hlong
      simp only [toBeBytes_eq, hdigits]
      exact hlong

/-- The bytes of a JWK number that do not start with a zero: what the encoder takes. -/
theorem dropWhile_of_mem {value : Bytes} (h : ∃ b ∈ value, b ≠ 0) :
    ∃ b l, value.dropWhile (· = 0) = b :: l ∧ b ≠ 0 := by
  cases htrimmed : value.dropWhile (· = 0) with
  | nil =>
    obtain ⟨b, hb, hne⟩ := h
    have := List.dropWhile_eq_nil_iff.mp htrimmed b hb
    exact absurd (of_decide_eq_true this) hne
  | cons b l =>
    refine ⟨b, l, rfl, ?_⟩
    have := List.head?_dropWhile_not (fun x : UInt8 => decide (x = 0)) value
    simpa [htrimmed] using this

theorem and_0x80 (b : UInt8) : b &&& 0x80 ≠ 0 ↔ 128 ≤ b.toNat := by
  have hall : ∀ n < 256, UInt8.ofNat n &&& 0x80 ≠ 0 ↔ 128 ≤ n := by decide +kernel
  rw [← hall b.toNat b.toNat_lt, UInt8.ofNat_toNat]

/-- What the encoder writes as the contents of an INTEGER. -/
theorem isContents_derInteger {b : UInt8} {l : Bytes} (hne : b ≠ 0) :
    IsContents (unsigned (b :: l)) (if b &&& 0x80 ≠ 0 then 0 :: b :: l else b :: l) := by
  have hpos : b.toNat ≠ 0 := fun hzero => hne (UInt8.toNat_inj.mp hzero)
  by_cases hhigh : b &&& 0x80 ≠ 0
  · have hlarge := (and_0x80 b).mp hhigh
    rw [if_pos hhigh]
    refine ⟨List.cons_ne_nil _ _, ⟨?_, by simp⟩, ?_⟩
    · rintro ⟨-, hsmall⟩
      omega
    · -- The byte in front keeps the value positive.
      rw [signed_of_lt (by decide), unsigned]
      simp
  · have hsmall : b.toNat < 128 := not_le.mp (mt (and_0x80 b).mpr hhigh)
    rw [if_neg hhigh]
    refine ⟨List.cons_ne_nil _ _, ?_, signed_of_lt hsmall⟩
    cases l with
    | nil => trivial
    | cons b' l => exact ⟨fun h => hpos h.1, fun h => by omega⟩

/-- **Every integer is positive, without a redundant byte in front.** -/
theorem derInteger_isInteger {value : Bytes} (h : ∃ b ∈ value, b ≠ 0)
    (hsize : IsUsize (derInteger value).length) :
    IsInteger (unsigned value) (derInteger value) := by
  obtain ⟨b, l, htrimmed, hne⟩ := dropWhile_of_mem h
  have hcontents := isContents_derInteger (l := l) hne
  rw [← htrimmed, unsigned_dropWhile] at hcontents
  have heq : derInteger value = 0x02 ::
      (derLength (if b &&& 0x80 ≠ 0 then 0 :: b :: l else b :: l).length ++
        if b &&& 0x80 ≠ 0 then 0 :: b :: l else b :: l) := by
    simp only [derInteger, htrimmed, List.head?_cons, Option.any_some, decide_eq_true_eq]
  refine ⟨_, htrimmed ▸ hcontents, _, derLength_isLength ?_, heq⟩
  unfold IsUsize at hsize ⊢
  rw [heq, List.length_cons, List.length_append] at hsize
  omega

theorem unsigned_pos {value : Bytes} (h : ∃ b ∈ value, b ≠ 0) : 0 < unsigned value := by
  obtain ⟨b, l, htrimmed, hne⟩ := dropWhile_of_mem h
  rw [← unsigned_dropWhile, htrimmed]
  exact (Nat.pow_pos (by decide)).trans_le (le_unsigned hne)

/-- **The encoding of an RSA key is canonical**: of all byte strings, exactly `derRsaPublicKey n e`
is the DER of the two numbers; a reader recovers them, and both are positive. The body is a
vector, and its length a `usize`. -/
theorem derRsaPublicKey_canonical (n e : Bytes) (hn : ∃ b ∈ n, b ≠ 0) (he : ∃ b ∈ e, b ≠ 0)
    (hsize : IsUsize (derInteger n ++ derInteger e).length) :
    (∀ out, IsRsaPublicKey (unsigned n) (unsigned e) out ↔ out = derRsaPublicKey n e) ∧
      readRsaPublicKey (derRsaPublicKey n e) = some ((unsigned n : Int), (unsigned e : Int)) ∧
      0 < unsigned n ∧ 0 < unsigned e := by
  have hparts : IsUsize (derInteger n).length ∧ IsUsize (derInteger e).length := by
    unfold IsUsize at hsize ⊢
    rw [List.length_append] at hsize
    omega
  have hkey : IsRsaPublicKey (unsigned n) (unsigned e) (derRsaPublicKey n e) :=
    ⟨_, _, derInteger_isInteger hn hparts.1, derInteger_isInteger he hparts.2, _,
      derLength_isLength hsize, rfl⟩
  refine ⟨fun out => ⟨fun hout => hout.unique hkey, ?_⟩, hkey.read, unsigned_pos hn,
    unsigned_pos he⟩
  rintro rfl
  exact hkey

/-- A modulus with a leading zero and a high bit, and the usual exponent. -/
theorem derRsaPublicKey_canonical_f4 :
    readRsaPublicKey (derRsaPublicKey [0, 0xc5, 0x11] [1, 0, 1]) = some (50449, 65537) ∧
      derRsaPublicKey [0, 0xc5, 0x11] [1, 0, 1] =
        [0x30, 0x0a, 0x02, 0x03, 0x00, 0xc5, 0x11, 0x02, 0x03, 0x01, 0x00, 0x01] := by
  have hmodulus : ∃ b ∈ ([0, 0xc5, 0x11] : Bytes), b ≠ 0 := ⟨0xc5, by decide, by decide⟩
  have hexponent : ∃ b ∈ ([1, 0, 1] : Bytes), b ≠ 0 := ⟨1, by decide, by decide⟩
  exact ⟨(derRsaPublicKey_canonical _ _ hmodulus hexponent (by unfold IsUsize; decide)).2.1, by
    decide⟩

end PicX.Realm
