import PicX.Base.Bits
import PicX.Base.Trim
import PicX.Keys.Encoding

/-!
# Base64 as RFC 4648 has it, and back

The standard describes the encoding over the string of bits: cut into groups of six, zeroes added on
the right of the last one, each group a character of a table, and `=` up to a multiple of four
characters. The encoder works on three bytes at a time instead, and the decoder on an accumulator
that loses its high bits.

* `encode_eq` — **the encoder writes what the standard describes**.
* `decodeChars_eq` — the decoder gives the bytes of the bits it is given, whatever is left over.
* `fromPem_pem` — the armour and its line breaks come off again.
* `encodings_inverted` — **each decoder inverts its encoder, and the encoders are those of the
  standard**.
-/

namespace PicX.Encoding

open PicX Bits

/-! ## The standard -/

/-- Table 1 of RFC 4648, §4. -/
def TABLE : String := "ABCDEFGHIJKLMNOPQRSTUVWXYZabcdefghijklmnopqrstuvwxyz0123456789+/"

/-- Table 2 of RFC 4648, §5. -/
def URL_TABLE : String := "ABCDEFGHIJKLMNOPQRSTUVWXYZabcdefghijklmnopqrstuvwxyz0123456789-_"

/-- The bits of a string of bytes, in order. -/
def octetBits (input : Bytes) : List Bool := input.flatMap fun byte => bits 8 byte.toNat

/-- The bits that are added on the right to make up groups of six. -/
def fill (l : List Bool) : List Bool := List.replicate ((6 - l.length % 6) % 6) false

/-- The values of the groups of six bits. -/
def sextets (l : List Bool) : List Nat := (groups 6 (l ++ fill l)).map number

/-- The characters of the groups, by a table. -/
def characters (table : String) (input : Bytes) : List Char :=
  (sextets (octetBits input)).map fun value => table.toList.getD value 'A'

/-- The padding up to a multiple of four characters. -/
def padding (count : Nat) : List Char := List.replicate ((4 - count % 4) % 4) '='

/-- RFC 4648, §5, without padding. -/
def unpaddedUrl (input : Bytes) : String := String.ofList (characters URL_TABLE input)

/-- RFC 4648, §4. -/
def paddedStandard (input : Bytes) : String :=
  String.ofList (characters TABLE input ++ padding (characters TABLE input).length)

/-! ## The groups of a bit string -/

theorem length_octetBits (input : Bytes) : (octetBits input).length = 8 * input.length := by
  induction input with
  | nil => rfl
  | cons byte rest ih =>
    rw [octetBits, List.flatMap_cons, List.length_append, length_bits]
    rw [octetBits] at ih
    rw [ih, List.length_cons]
    omega

theorem fill_append {l : List Bool} (hl : l.length % 6 = 0) (rest : List Bool) :
    fill (l ++ rest) = fill rest := by
  have hmod : (l.length + rest.length) % 6 = rest.length % 6 := by omega
  rw [fill, fill, List.length_append, hmod]

theorem sextets_bits (n : Nat) (rest : List Bool) :
    sextets (bits 6 n ++ rest) = n % 64 :: sextets rest := by
  rw [sextets, fill_append (by rw [length_bits]), List.append_assoc,
    groups_append (by decide) (length_bits 6 n), List.map_cons, number_bits]
  rfl

/-- The values of the groups are the bits again, and what was added. -/
theorem flatMap_sextets (l : List Bool) : (sextets l).flatMap (bits 6) = l ++ fill l := by
  refine flatMap_bits_groups (by decide) ((l ++ fill l).length / 6) ?_
  have hlength : (l ++ fill l).length = l.length + (6 - l.length % 6) % 6 := by
    rw [List.length_append, fill, List.length_replicate]
  omega

theorem lt_of_mem_sextets {l : List Bool} {value : Nat} (h : value ∈ sextets l) : value < 64 := by
  obtain ⟨group, hgroup, hvalue⟩ := List.mem_map.mp h
  have hlt := number_lt group
  have hle : 2 ^ group.length ≤ 2 ^ 6 :=
    Nat.pow_le_pow_right (by decide) (length_le_of_mem_groups hgroup)
  omega

/-- What is less than a group is one, with zeroes on its right. -/
theorem sextets_short {l : List Bool} (h0 : 0 < l.length) (h6 : l.length < 6) :
    sextets l = [number l * 2 ^ (6 - l.length)] := by
  have hfill : fill l = bits (6 - l.length) 0 := by
    rw [bits_zero, fill]
    congr 1
    omega
  have hlength : (l ++ bits (6 - l.length) 0).length = 6 := by
    rw [List.length_append, length_bits]
    omega
  rw [sextets, hfill, ← List.append_nil (l ++ _), groups_append (by decide) hlength, groups_nil,
    List.map_singleton, number_append, length_bits, number_bits, Nat.zero_mod, Nat.add_zero]

/-! ## The encoder -/

/-- The character of a value, in an alphabet of bytes. -/
def symbol (alphabet : Bytes) (value : Nat) : Char := Char.ofNat (alphabet.getD value 0).toNat

theorem pack_eq {a b c : Nat} (hb : b < 256) (hc : c < 256) :
    ((a <<< 16) ||| (b <<< 8)) ||| c = a * 2 ^ 16 + b * 2 ^ 8 + c := by
  have hlow : b <<< 8 ||| c = b * 2 ^ 8 + c := by
    rw [← Nat.shiftLeft_add_eq_or_of_lt hc, Nat.shiftLeft_eq]
  have hlt : b * 2 ^ 8 + c < 2 ^ 16 := by omega
  rw [Nat.or_assoc, hlow, ← Nat.shiftLeft_add_eq_or_of_lt hlt, Nat.shiftLeft_eq, Nat.add_assoc]

theorem sextet_eq (n k : Nat) : (n >>> k) &&& 0b111111 = n / 2 ^ k % 64 := by
  rw [Nat.shiftRight_eq_div_pow]
  exact Nat.and_two_pow_sub_one_eq_mod _ 6

/-- The bits of two numbers of eight bits are those of one of sixteen. -/
theorem bits_pair {a b : Nat} (hb : b < 256) : bits 8 a ++ bits 8 b = bits 16 (a * 2 ^ 8 + b) := by
  rw [bits_add 8 8, bits_congr (m := (a * 2 ^ 8 + b) / 2 ^ 8) (n := a) (by omega),
    bits_congr (m := a * 2 ^ 8 + b) (n := b) (by omega)]

theorem bits_triple {a b c : Nat} (hb : b < 256) (hc : c < 256) :
    bits 8 a ++ (bits 8 b ++ bits 8 c) = bits 24 (a * 2 ^ 16 + b * 2 ^ 8 + c) := by
  rw [bits_pair hc, bits_add 8 16,
    bits_congr (m := (a * 2 ^ 16 + b * 2 ^ 8 + c) / 2 ^ 16) (n := a) (by omega),
    bits_congr (m := a * 2 ^ 16 + b * 2 ^ 8 + c) (n := b * 2 ^ 8 + c) (by omega)]

theorem encodeChunk_three (alphabet : Bytes) (pad : Bool) (a b c : UInt8) (rest : Bytes) :
    (sextets (octetBits (a :: b :: c :: rest))).map (symbol alphabet) =
      encodeChunk alphabet pad [a, b, c] ++ (sextets (octetBits rest)).map (symbol alphabet) := by
  have hb : b.toNat < 256 := b.toNat_lt
  have hc : c.toNat < 256 := c.toNat_lt
  have hbits : octetBits (a :: b :: c :: rest) =
      bits 24 (a.toNat * 2 ^ 16 + b.toNat * 2 ^ 8 + c.toNat) ++ octetBits rest := by
    rw [← bits_triple hb hc]
    simp [octetBits]
  have hcut : ∀ n, bits 24 n =
      bits 6 (n / 2 ^ 18) ++ (bits 6 (n / 2 ^ 12) ++ (bits 6 (n / 2 ^ 6) ++ bits 6 n)) := by
    intro n
    rw [← bits_add 6 6, ← bits_add 6 12, ← bits_add 6 18]
  rw [hbits, hcut]
  simp only [List.append_assoc, sextets_bits, List.map_cons]
  simp [encodeChunk, List.range_succ, sextet_eq, pack_eq hb hc, symbol]

theorem encodeChunk_two (alphabet : Bytes) (pad : Bool) (a b : UInt8) :
    encodeChunk alphabet pad [a, b] =
      (sextets (octetBits [a, b])).map (symbol alphabet) ++
        if pad then padding (sextets (octetBits [a, b])).length else [] := by
  have hb : b.toNat < 256 := b.toNat_lt
  have hbits : octetBits [a, b] = bits 16 (a.toNat * 2 ^ 8 + b.toNat) := by
    rw [← bits_pair hb]
    simp [octetBits]
  have hcut : ∀ n, bits 16 n = bits 6 (n / 2 ^ 10) ++ (bits 6 (n / 2 ^ 4) ++ bits 4 n) := by
    intro n
    rw [← bits_add 6 4, ← bits_add 6 10]
  rw [hbits, hcut, sextets_bits, sextets_bits, sextets_short (by simp) (by simp), number_bits,
    length_bits]
  have hpack : ((a.toNat <<< 16) ||| (b.toNat <<< 8)) ||| 0 =
      a.toNat * 2 ^ 16 + b.toNat * 2 ^ 8 := by
    rw [pack_eq hb (by decide), Nat.add_zero]
  have hvalues : ∀ x y : Nat,
      (x * 2 ^ 16 + y * 2 ^ 8) / 2 ^ 18 % 64 = (x * 2 ^ 8 + y) / 2 ^ 10 % 64 ∧
      (x * 2 ^ 16 + y * 2 ^ 8) / 2 ^ 12 % 64 = (x * 2 ^ 8 + y) / 2 ^ 4 % 64 ∧
      (x * 2 ^ 16 + y * 2 ^ 8) / 2 ^ 6 % 64 = (x * 2 ^ 8 + y) % 2 ^ 4 * 2 ^ (6 - 4) := by
    intro x y
    omega
  obtain ⟨h0, h1, h2⟩ := hvalues a.toNat b.toNat
  rw [← h0, ← h1, ← h2, ← hpack]
  simp [encodeChunk, List.range_succ, sextet_eq, symbol, padding]

theorem encodeChunk_one (alphabet : Bytes) (pad : Bool) (a : UInt8) :
    encodeChunk alphabet pad [a] =
      (sextets (octetBits [a])).map (symbol alphabet) ++
        if pad then padding (sextets (octetBits [a])).length else [] := by
  have hbits : octetBits [a] = bits 8 a.toNat := by simp [octetBits]
  have hpack : ((a.toNat <<< 16) ||| (0 <<< 8)) ||| 0 = a.toNat * 2 ^ 16 := by
    rw [pack_eq (by decide) (by decide), Nat.zero_mul, Nat.add_zero]
  have hvalues : ∀ x : Nat, x * 2 ^ 16 / 2 ^ 18 % 64 = x / 2 ^ 2 % 64 ∧
      x * 2 ^ 16 / 2 ^ 12 % 64 = x % 2 ^ 2 * 2 ^ (6 - 2) := by
    intro x
    omega
  rw [hbits, bits_add 6 2, sextets_bits, sextets_short (by simp) (by simp), number_bits,
    length_bits]
  obtain ⟨h0, h1⟩ := hvalues a.toNat
  rw [← h0, ← h1, ← hpack]
  simp [encodeChunk, List.range_succ, sextet_eq, symbol, padding]

theorem sextets_nil : sextets [] = [] := by
  rw [sextets]
  show (groups 6 []).map number = []
  rw [groups_nil, List.map_nil]

/-- **The encoder writes what the standard describes**: the groups of six bits of its input by the
alphabet, and the padding up to a multiple of four characters. -/
theorem encode_eq (alphabet : Bytes) (pad : Bool) (input : Bytes) :
    encode alphabet pad input = (sextets (octetBits input)).map (symbol alphabet) ++
      if pad then padding (sextets (octetBits input)).length else [] := by
  fun_induction encode alphabet pad input with
  | case1 a b c rest ih =>
    have hthree := encodeChunk_three alphabet pad a b c rest
    have hlength : (sextets (octetBits (a :: b :: c :: rest))).length =
        4 + (sextets (octetBits rest)).length := by
      have hcount := congrArg List.length hthree
      simp only [List.length_append, List.length_map] at hcount
      rw [hcount]
      simp [encodeChunk]
    have hpadding : padding (4 + (sextets (octetBits rest)).length) =
        padding (sextets (octetBits rest)).length := by
      rw [padding, padding, Nat.add_mod_left]
    rw [hthree, hlength, hpadding, ih, List.append_assoc]
  | case2 =>
    show [] = (sextets []).map _ ++ if pad then padding (sextets []).length else []
    rw [sextets_nil]
    cases pad <;> rfl
  | case3 chunk hthree hnil =>
    -- One byte or two.
    match chunk with
    | [a] => exact encodeChunk_one alphabet pad a
    | [a, b] => exact encodeChunk_two alphabet pad a b
    | [] => exact absurd rfl hnil
    | a :: b :: c :: rest => exact absurd rfl (hthree a b c rest)

/-! ## The decoder -/

/-- An alphabet whose characters are told apart by their low byte, and from the padding. -/
structure Legible (alphabet : Bytes) : Prop where
  found : ∀ value < 64,
    alphabet.findIdx? (· == UInt8.ofNat (symbol alphabet value).toNat) = some value
  unpadded : ∀ value < 64, symbol alphabet value ≠ '='

/-- What the accumulator holds after one more character, without the bits that it lost. -/
theorem accumulate_eq {accumulator value : Nat} (h : value < 64) :
    ((accumulator <<< 6) % 2 ^ 32) ||| value = accumulator % 2 ^ 26 * 64 + value := by
  have hmod : (accumulator <<< 6) % 2 ^ 32 = (accumulator % 2 ^ 26) <<< 6 := by
    rw [Nat.shiftLeft_eq, Nat.shiftLeft_eq]
    exact Nat.mul_mod_mul_right (2 ^ 6) accumulator (2 ^ 26)
  rw [hmod, ← Nat.shiftLeft_add_eq_or_of_lt h, Nat.shiftLeft_eq]

/-- Of its last bits, few enough, none is lost. -/
theorem bits_accumulate {accumulator value n : Nat} (h : value < 64) (hn : n ≤ 26) :
    bits (n + 6) (((accumulator <<< 6) % 2 ^ 32) ||| value) =
      bits n accumulator ++ bits 6 value := by
  have hhigh : (accumulator % 2 ^ 26 * 64 + value) / 2 ^ 6 = accumulator % 2 ^ 26 := by omega
  have hlow : (accumulator % 2 ^ 26 * 64 + value) % 2 ^ 6 = value % 2 ^ 6 := by omega
  have hmod : accumulator % 2 ^ 26 % 2 ^ n = accumulator % 2 ^ n :=
    Nat.mod_mod_of_dvd _ (Nat.pow_dvd_pow 2 hn)
  rw [accumulate_eq h, bits_add n 6, hhigh, bits_congr hmod, bits_congr hlow]

/-- **The decoder gives the bytes of the bits it is given**: those that are pending, the last `n` of
the accumulator, and six for each character, up to the padding. What is left over, less than a byte,
is dropped. -/
theorem decodeChars_eq {alphabet : Bytes} (halphabet : Legible alphabet) {values : List Nat}
    (hvalues : ∀ value ∈ values, value < 64) {accumulator n : Nat} (hn : n < 8) {out output : Bytes}
    {left : List Bool} (hleft : left.length < 8) (count : Nat)
    (hbits : bits n accumulator ++ values.flatMap (bits 6) = octetBits output ++ left) :
    decodeChars alphabet (values.map (symbol alphabet) ++ List.replicate count '=') accumulator n
      out = some (out ++ output) := by
  induction values generalizing accumulator n out output with
  | nil =>
    have hlength := congrArg List.length hbits
    simp only [List.flatMap_nil, List.append_nil, length_bits, List.length_append,
      length_octetBits] at hlength
    have hempty : output = [] := List.length_eq_zero_iff.mp (by omega)
    rw [hempty, List.append_nil]
    cases count with
    | zero => rfl
    | succ count => rfl
  | cons value rest ih =>
    have hvalue : value < 64 := hvalues value List.mem_cons_self
    have hrest : ∀ value ∈ rest, value < 64 := fun v hv => hvalues v (List.mem_cons_of_mem _ hv)
    rw [List.flatMap_cons, ← List.append_assoc, ← bits_accumulate hvalue (by omega)] at hbits
    rw [List.map_cons, List.cons_append, decodeChars, if_neg (halphabet.unpadded value hvalue),
      halphabet.found value hvalue]
    dsimp only
    split_ifs with hfull
    · -- Eight of the bits are the first byte.
      obtain ⟨k, rfl⟩ : ∃ k, n = k + 2 := ⟨n - 2, by omega⟩
      rw [show k + 2 + 6 = 8 + k by omega, bits_add 8 k, List.append_assoc] at hbits
      cases output with
      | nil =>
        have hlength := congrArg List.length hbits
        simp only [List.length_append, length_bits, length_octetBits, List.length_nil] at hlength
        omega
      | cons byte output =>
        have hcons : octetBits (byte :: output) = bits 8 byte.toNat ++ octetBits output := rfl
        rw [hcons, List.append_assoc] at hbits
        obtain ⟨hbyte, htail⟩ := List.append_inj hbits (by simp)
        have hnumber := congrArg number hbyte
        rw [number_bits, number_bits, Nat.mod_eq_of_lt byte.toNat_lt,
          ← Nat.shiftRight_eq_div_pow] at hnumber
        have hemitted : UInt8.ofNat ((((accumulator <<< 6) % 2 ^ 32) ||| value) >>> k) = byte := by
          rw [← UInt8.toNat_inj, UInt8.toNat_ofNat', hnumber]
        rw [show k + 2 + 6 - 8 = k by omega, hemitted, ih hrest (by omega) htail, List.append_assoc]
        rfl
    · exact ih hrest (by omega) hbits

theorem decodeChars_encode {alphabet : Bytes} (halphabet : Legible alphabet) (pad : Bool)
    (input : Bytes) : decodeChars alphabet (encode alphabet pad input) 0 0 [] = some input := by
  have hbits : bits 0 0 ++ (sextets (octetBits input)).flatMap (bits 6) =
      octetBits input ++ fill (octetBits input) := flatMap_sextets _
  have hleft : (fill (octetBits input)).length < 8 := by
    rw [fill, List.length_replicate]
    omega
  have hdecoded : ∀ count,
      decodeChars alphabet ((sextets (octetBits input)).map (symbol alphabet) ++
        List.replicate count '=') 0 0 [] = some ([] ++ input) :=
    fun count => decodeChars_eq halphabet (fun _ => lt_of_mem_sextets) (by decide) hleft count hbits
  rw [encode_eq]
  cases pad with
  | true => exact hdecoded _
  | false => simpa using hdecoded 0

theorem legible_standard : Legible STANDARD := ⟨by decide +kernel, by decide +kernel⟩

theorem legible_urlSafe : Legible URL_SAFE := ⟨by decide +kernel, by decide +kernel⟩

/-! ## The armour -/

/-- A line of the armour. -/
def isBoundary (line : List Char) : Bool := "-----".toList.isPrefixOf line

/-- What the reader of a PEM text keeps of it. -/
def bodyOf (text : List Char) : List Char :=
  (((textPieces text).map fun piece => dropLineEnding (String.ofList piece)).filter fun line =>
    !isBoundary line.toList).flatMap
    fun line => line.toList.filter fun character => !isWhitespace character

theorem fromPem_eq (text : String) :
    fromPem text = decodeChars STANDARD (bodyOf text.toList) 0 0 [] := by
  unfold fromPem decodeWith bodyOf isBoundary textLines
  simp only [String.toList_ofList]

/-- A character of a body: neither white space nor part of a boundary. -/
def Plain (c : Char) : Prop := isWhitespace c = false ∧ c ≠ '-'

theorem bodyOf_line {l : List Char} (h : '\n' ∉ l) (hlast : l.getLast? ≠ some '\r')
    (rest : List Char) :
    bodyOf (l ++ '\n' :: rest) =
      (if isBoundary l then [] else l.filter fun c => !isWhitespace c) ++
        bodyOf rest := by
  have hline : dropLineEnding (String.ofList (l ++ ['\n'])) = String.ofList l := by
    rw [String.ofList_append]
    apply dropLineEnding_append
    rwa [String.toList_ofList]
  unfold bodyOf
  rw [textPieces_append h, List.map_cons, hline]
  cases hboundary : isBoundary l with
  | true =>
    rw [List.filter_cons_of_neg (by rw [String.toList_ofList, hboundary]; decide), if_pos rfl,
      List.nil_append]
  | false =>
    rw [List.filter_cons_of_pos (by rw [String.toList_ofList, hboundary]; decide),
      List.flatMap_cons, String.toList_ofList, if_neg Bool.false_ne_true]

theorem bodyOf_boundary {l : List Char} (h : '\n' ∉ l) (hlast : l.getLast? ≠ some '\r')
    (hboundary : isBoundary l = true) (rest : List Char) :
    bodyOf (l ++ '\n' :: rest) = bodyOf rest := by
  rw [bodyOf_line h hlast, if_pos hboundary, List.nil_append]

theorem bodyOf_plain {l : List Char} (h : ∀ c ∈ l, Plain c) (rest : List Char) :
    bodyOf (l ++ '\n' :: rest) = l ++ bodyOf rest := by
  have hmem : ∀ c, isWhitespace c = true → c ∉ l := by
    intro c hc hl
    rw [(h c hl).1] at hc
    cases hc
  have hboundary : ¬isBoundary l = true := by
    intro hstart
    have hdash : '-' ∈ "-----".toList := by decide
    exact (h '-' ((List.isPrefixOf_iff_prefix.mp hstart).subset hdash)).2 rfl
  have hkept : (l.filter fun c => !isWhitespace c) = l := by
    rw [List.filter_eq_self]
    intro c hc
    rw [(h c hc).1]
    rfl
  rw [bodyOf_line (hmem '\n' (by decide)) (fun hlast => hmem '\r' (by decide)
    (List.mem_of_getLast? hlast)), if_neg hboundary, hkept]

/-- **Wrapped lines are joined again.** -/
theorem bodyOf_wrapped (width : Nat) {cs pre : List Char} (hcs : ∀ c ∈ cs, Plain c)
    (hpre : ∀ c ∈ pre, Plain c) (rest : List Char) :
    bodyOf (pre ++ (wrapped width cs pre.length ++ rest)) = pre ++ cs ++ bodyOf rest := by
  induction cs generalizing pre with
  | nil =>
    unfold wrapped
    by_cases hempty : pre = []
    · rw [hempty]
      rfl
    · rw [if_neg (by simpa using hempty), List.append_nil]
      exact bodyOf_plain hpre rest
  | cons c cs ih =>
    have hrest : ∀ c ∈ cs, Plain c := fun c' hc' => hcs c' (List.mem_cons_of_mem c hc')
    have hline : ∀ c' ∈ pre ++ [c], Plain c' := by
      intro c' hc'
      rcases List.mem_append.mp hc' with hc' | hc'
      · exact hpre c' hc'
      · exact List.mem_singleton.mp hc' ▸ hcs c List.mem_cons_self
    unfold wrapped
    split_ifs with hfull
    · -- The line is full, and the next one begins.
      have hnext : bodyOf (wrapped width cs 0 ++ rest) = cs ++ bodyOf rest :=
        @ih [] hrest (by simp)
      have hshape : pre ++ (c :: '\n' :: wrapped width cs 0 ++ rest) =
          (pre ++ [c]) ++ '\n' :: (wrapped width cs 0 ++ rest) := by simp
      rw [hshape, bodyOf_plain hline, hnext]
      simp
    · have hmore := ih hrest hline
      have hshape : pre ++ (c :: wrapped width cs (pre.length + 1) ++ rest) =
          (pre ++ [c]) ++ (wrapped width cs (pre ++ [c]).length ++ rest) := by simp
      rw [hshape, hmore]
      simp

/-- The characters of an encoding in the standard alphabet are those of a body. -/
theorem plain_of_mem_encode {pad : Bool} {input : Bytes} {c : Char}
    (h : c ∈ encode STANDARD pad input) : Plain c := by
  have hsymbol : ∀ value < 64, isWhitespace (symbol STANDARD value) = false ∧
      symbol STANDARD value ≠ '-' := by decide +kernel
  rw [encode_eq] at h
  rcases List.mem_append.mp h with h | h
  · obtain ⟨value, hvalue, rfl⟩ := List.mem_map.mp h
    exact hsymbol value (lt_of_mem_sextets hvalue)
  · cases pad with
    | false => cases h
    | true =>
      rw [List.eq_of_mem_replicate h]
      exact ⟨by decide, by decide⟩

/-- A boundary whose label has no line break is a line of its own. -/
theorem bodyOf_label {label word : String} (hlabel : '\n' ∉ label.toList)
    (hword : '\n' ∉ word.toList) (rest : List Char) :
    bodyOf (("-----" ++ word ++ label ++ "-----\n").toList ++ rest) = bodyOf rest := by
  have hshape : ("-----" ++ word ++ label ++ "-----\n").toList ++ rest =
      ("-----".toList ++ word.toList ++ label.toList ++ "-----".toList) ++ '\n' :: rest := by
    simp
  have hdashes : '\n' ∉ "-----".toList := by decide
  rw [hshape, bodyOf_boundary]
  · simp only [List.mem_append, not_or]
    exact ⟨⟨⟨hdashes, hword⟩, hlabel⟩, hdashes⟩
  · rw [List.getLast?_append_of_ne_nil _ (by decide)]
    decide
  · unfold isBoundary
    rw [List.append_assoc, List.append_assoc, List.isPrefixOf_iff_prefix]
    exact List.prefix_append _ _

/-- **What is wrapped in armour is read back**, whatever the label, as long as it stays on one
line. -/
theorem fromPem_pem {label : String} (hlabel : '\n' ∉ label.toList) (der : Bytes) :
    fromPem (pem label der) = some der := by
  have hshape : (pem label der).toList = ("-----" ++ "BEGIN " ++ label ++ "-----\n").toList ++
      ([] ++ (wrapped PEM_WIDTH (encode STANDARD true der) ([] : List Char).length ++
        (("-----" ++ "END " ++ label ++ "-----\n").toList ++ []))) := by
    unfold pem base64
    simp only [String.toList_append, String.toList_ofList, List.append_assoc, List.nil_append,
      List.append_nil]
    rfl
  have hplain : ∀ c ∈ encode STANDARD true der, Plain c := fun _ => plain_of_mem_encode
  rw [fromPem_eq, hshape, bodyOf_label hlabel (by decide),
    bodyOf_wrapped PEM_WIDTH hplain (by simp), bodyOf_label hlabel (by decide)]
  show decodeChars STANDARD (encode STANDARD true der ++ []) 0 0 [] = some der
  rw [List.append_nil, decodeChars_encode legible_standard]

/-! ## Both ways -/

theorem fromBase64url_base64url (input : Bytes) : fromBase64url (base64url input) = some input := by
  unfold fromBase64url decodeWith base64url
  rw [String.toList_ofList, decodeChars_encode legible_urlSafe]

theorem characters_eq {alphabet : Bytes} {table : String}
    (h : ∀ value < 64, table.toList.getD value 'A' = symbol alphabet value) (input : Bytes) :
    characters table input = (sextets (octetBits input)).map (symbol alphabet) :=
  List.map_congr_left fun value hvalue => h value (lt_of_mem_sextets hvalue)

theorem base64url_eq (input : Bytes) : base64url input = unpaddedUrl input := by
  have htable : ∀ value < 64, URL_TABLE.toList.getD value 'A' = symbol URL_SAFE value := by
    decide +kernel
  rw [base64url, unpaddedUrl, encode_eq, characters_eq htable]
  simp

theorem base64_eq (input : Bytes) : base64 input = paddedStandard input := by
  have htable : ∀ value < 64, TABLE.toList.getD value 'A' = symbol STANDARD value := by
    decide +kernel
  rw [base64, paddedStandard, encode_eq, characters_eq htable, List.length_map]
  simp

example : paddedStandard (utf8 "foob") = "Zm9vYg==" := by
  rw [← base64_eq]
  decide +kernel

/-- **Each decoder inverts its encoder, and the encoders are those of the standard.** -/
theorem encodings_inverted (input : Bytes) (label : String) (hlabel : '\n' ∉ label.toList) :
    fromBase64url (base64url input) = some input ∧
    fromPem (pem label input) = some input ∧
    base64url input = unpaddedUrl input ∧
    base64 input = paddedStandard input :=
  ⟨fromBase64url_base64url input, fromPem_pem hlabel input, base64url_eq input, base64_eq input⟩

theorem encodings_inverted_key :
    '\n' ∉ "PRIVATE KEY".toList ∧ fromPem (pem "PRIVATE KEY" [251, 255]) = some [251, 255] :=
  ⟨by decide, (encodings_inverted [251, 255] "PRIVATE KEY" (by decide)).2.1⟩

end PicX.Encoding
