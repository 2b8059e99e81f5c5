import Mathlib.Data.List.DropRight
import PicX.Keys.Base64

/-!
# What the base64url decoder takes

The decoder takes a character by its low byte, ends at the first `=` whatever follows, and drops the
bits after the last whole byte. So it reads more texts than the encoder writes, and several of them
as one.

* `decodeChars_isSome` — what is refused: a character, before any padding, with a low byte that is
  not in the alphabet.
* `fromBase64url_of_wellFormed` — what is well formed is the encoding of what is read from it.
* `strict_iff` — **a text is read only as what it encodes exactly when it is refused or well
  formed**.
-/

namespace PicX.Encoding

open PicX Bits

/-! ## What is well formed -/

/-- The characters before the padding. -/
def unpadded (text : String) : String := String.ofList (text.toList.rdropWhile (· = '='))

/-- The characters that are read: those before the first `=`. -/
def readable (text : String) : List Char := text.toList.takeWhile (· ≠ '=')

/-- The bits some characters of the alphabet stand for. -/
def charBits (cs : List Char) : List Bool :=
  (cs.map fun c => URL_TABLE.toList.idxOf c).flatMap (bits 6)

/-- A text of the standard: characters of the alphabet, padding and nothing after it, no length that
cannot be, and no bit left over that is set. -/
structure WellFormed (text : String) : Prop where
  alphabet : ∀ c ∈ readable text, c ∈ URL_TABLE.toList
  padded : ∀ c ∈ text.toList.dropWhile (· ≠ '='), c = '='
  length : (readable text).length % 4 ≠ 1
  leftover : ∀ b ∈ (charBits (readable text)).drop
    ((charBits (readable text)).length / 8 * 8), b = false

/-- A character that is read has a low byte which is not in the alphabet. -/
def Refused (text : String) : Prop := ∃ c ∈ readable text, UInt8.ofNat c.toNat ∉ URL_SAFE

/-- Whatever is read from a text, the text encodes it. -/
def Strict (text : String) : Prop :=
  ∀ input, fromBase64url text = some input → unpadded text = base64url input

/-! ## Characters and values -/

theorem urlTable_getD : ∀ value < 64, URL_TABLE.toList.getD value 'A' = symbol URL_SAFE value := by
  decide +kernel

theorem idxOf_symbol : ∀ value < 64, URL_TABLE.toList.idxOf (symbol URL_SAFE value) = value := by
  decide +kernel

theorem length_urlTable : URL_TABLE.toList.length = 64 := by decide +kernel

theorem symbol_idxOf {c : Char} (h : c ∈ URL_TABLE.toList) :
    URL_TABLE.toList.idxOf c < 64 ∧ symbol URL_SAFE (URL_TABLE.toList.idxOf c) = c := by
  have hlt : URL_TABLE.toList.idxOf c < URL_TABLE.toList.length := List.idxOf_lt_length_of_mem h
  have hlt64 : URL_TABLE.toList.idxOf c < 64 := length_urlTable ▸ hlt
  refine ⟨hlt64, ?_⟩
  rw [← urlTable_getD _ hlt64, List.getD_eq_getElem _ _ hlt, List.getElem_idxOf]

theorem symbol_mem {value : Nat} (h : value < 64) : symbol URL_SAFE value ∈ URL_TABLE.toList := by
  have hlt : value < URL_TABLE.toList.length := length_urlTable.symm ▸ h
  rw [← urlTable_getD value h, List.getD_eq_getElem _ _ hlt]
  exact List.getElem_mem hlt

theorem map_symbol_idxOf {cs : List Char} (h : ∀ c ∈ cs, c ∈ URL_TABLE.toList) :
    (cs.map fun c => URL_TABLE.toList.idxOf c).map (symbol URL_SAFE) = cs := by
  rw [List.map_map]
  have hself : ∀ c ∈ cs, (symbol URL_SAFE ∘ fun c => URL_TABLE.toList.idxOf c) c = id c :=
    fun c hc => (symbol_idxOf (h c hc)).2
  rw [List.map_congr_left hself, List.map_id]

theorem charBits_symbols {values : List Nat} (h : ∀ value ∈ values, value < 64) :
    charBits (values.map (symbol URL_SAFE)) = values.flatMap (bits 6) := by
  have hself : ∀ value ∈ values, ((fun c => URL_TABLE.toList.idxOf c) ∘ symbol URL_SAFE) value =
      id value := fun value hvalue => idxOf_symbol value (h value hvalue)
  rw [charBits, List.map_map, List.map_congr_left hself, List.map_id]

theorem length_flatMap_bits (k : Nat) (values : List Nat) :
    (values.flatMap (bits k)).length = values.length * k := by
  induction values with
  | nil => simp
  | cons value rest ih =>
    rw [List.flatMap_cons, List.length_append, length_bits, ih, List.length_cons, Nat.succ_mul,
      Nat.add_comm]

/-! ## Groups and bytes -/

theorem exists_octets (n : Nat) {l : List Bool} (h : l.length = n * 8) :
    ∃ input, octetBits input = l := by
  refine ⟨((groups 8 l).map number).map UInt8.ofNat, ?_⟩
  have hbyte : ∀ value : Nat, bits 8 (UInt8.ofNat value).toNat = bits 8 value := by
    intro value
    apply bits_congr
    rw [UInt8.toNat_ofNat']
    exact Nat.mod_mod _ _
  rw [octetBits, List.flatMap_map]
  simp only [hbyte]
  exact flatMap_bits_groups (by decide) n h

/-- The groups of six of what values stand for are these values. -/
theorem groups_flatMap_bits {values : List Nat} (h : ∀ value ∈ values, value < 64) :
    (groups 6 (values.flatMap (bits 6))).map number = values := by
  induction values with
  | nil => simp
  | cons value rest ih =>
    have hvalue : value % 2 ^ 6 = value := Nat.mod_eq_of_lt (h value List.mem_cons_self)
    rw [List.flatMap_cons, groups_append (by decide) (length_bits 6 value), List.map_cons,
      number_bits, hvalue, ih fun v hv => h v (List.mem_cons_of_mem _ hv)]

/-! ## The decoder -/

/-- **What is refused.** A character that is read, with a low byte that is not in the alphabet. -/
theorem decodeChars_isSome (alphabet : Bytes) (cs : List Char) (accumulator n : Nat) (out : Bytes) :
    (decodeChars alphabet cs accumulator n out).isSome = true ↔
      ∀ c ∈ cs.takeWhile (· ≠ '='), UInt8.ofNat c.toNat ∈ alphabet := by
  induction cs generalizing accumulator n out with
  | nil => simp [decodeChars]
  | cons c cs ih =>
    rw [decodeChars]
    by_cases hpad : c = '='
    · simp [hpad]
    · rw [if_neg hpad, List.takeWhile_cons_of_pos (by simpa using hpad), List.forall_mem_cons]
      cases hfind : alphabet.findIdx? (· == UInt8.ofNat c.toNat) with
      | none =>
        have hnot : UInt8.ofNat c.toNat ∉ alphabet := by
          intro hmem
          simpa using List.findIdx?_eq_none_iff.mp hfind _ hmem
        simp [hnot]
      | some value =>
        have hmem : UInt8.ofNat c.toNat ∈ alphabet := by
          by_contra hnot
          have hnone : alphabet.findIdx? (· == UInt8.ofNat c.toNat) = none := by
            rw [List.findIdx?_eq_none_iff]
            intro b hb
            rw [beq_eq_false_iff_ne]
            exact fun heq => hnot (heq ▸ hb)
          rw [hfind] at hnone
          cases hnone
        dsimp only
        split_ifs
        · rw [ih]
          simp [hmem]
        · rw [ih]
          simp [hmem]

theorem fromBase64url_isSome {text : String} :
    (fromBase64url text).isSome = true ↔ ¬Refused text := by
  unfold fromBase64url decodeWith Refused readable
  rw [decodeChars_isSome]
  push Not
  rfl

theorem readable_append (text : String) :
    readable text ++ text.toList.dropWhile (· ≠ '=') = text.toList :=
  List.takeWhile_append_dropWhile

theorem rdropWhile_padding {cs : List Char} (hcs : ∀ c ∈ cs, c ≠ '=') (count : Nat) :
    (cs ++ List.replicate count '=').rdropWhile (· = '=') = cs := by
  induction count with
  | zero =>
    rw [List.replicate_zero, List.append_nil, List.rdropWhile_eq_self_iff]
    intro hne
    simpa using hcs _ (List.getLast_mem hne)
  | succ count ih =>
    rw [List.replicate_succ', ← List.append_assoc, List.rdropWhile_concat_pos _ _ _ (by simp), ih]

/-- Characters of the alphabet, with padding after them, are what is read and what is kept. -/
theorem readable_of_append {text : String} {cs : List Char} {count : Nat}
    (hcs : ∀ c ∈ cs, c ≠ '=') (h : text.toList = cs ++ List.replicate count '=') :
    readable text = cs ∧ unpadded text = String.ofList cs ∧
      ∀ c ∈ text.toList.dropWhile (· ≠ '='), c = '=' := by
  have hpos : ∀ c ∈ cs, decide (c ≠ '=') = true := fun c hc => decide_eq_true (hcs c hc)
  have hpadding : ∀ count, (List.replicate count '=').takeWhile (· ≠ '=') = [] ∧
      (List.replicate count '=').dropWhile (· ≠ '=') = List.replicate count '=' := by
    intro count
    cases count with
    | zero => exact ⟨rfl, rfl⟩
    | succ count => simp [List.replicate_succ]
  obtain ⟨htake, hdrop⟩ := hpadding count
  refine ⟨?_, ?_, ?_⟩
  · rw [readable, h, List.takeWhile_append_of_pos hpos, htake, List.append_nil]
  · rw [unpadded, h, rdropWhile_padding hcs]
  · rw [h, List.dropWhile_append_of_pos hpos, hdrop]
    exact fun c hc => List.eq_of_mem_replicate hc

theorem symbols_unpadded {values : List Nat} (h : ∀ value ∈ values, value < 64) :
    ∀ c ∈ values.map (symbol URL_SAFE), c ≠ '=' := by
  intro c hc
  obtain ⟨value, hvalue, rfl⟩ := List.mem_map.mp hc
  exact legible_urlSafe.unpadded value (h value hvalue)

theorem base64url_symbols (input : Bytes) :
    base64url input = String.ofList ((sextets (octetBits input)).map (symbol URL_SAFE)) := by
  rw [base64url, encode_eq]
  simp

/-! ## What is well formed is read as what it encodes -/

/-- The values of a text that is well formed, and how much padding it has. -/
theorem WellFormed.values {text : String} (h : WellFormed text) :
    ∃ (values : List Nat) (count : Nat), (∀ value ∈ values, value < 64) ∧
      text.toList = values.map (symbol URL_SAFE) ++ List.replicate count '=' := by
  refine ⟨(readable text).map fun c => URL_TABLE.toList.idxOf c,
    (text.toList.dropWhile (· ≠ '=')).length, ?_, ?_⟩
  · intro value hvalue
    obtain ⟨c, hc, rfl⟩ := List.mem_map.mp hvalue
    exact (symbol_idxOf (h.alphabet c hc)).1
  · rw [map_symbol_idxOf h.alphabet, ← List.eq_replicate_of_mem h.padded, readable_append]

/-- The bytes of bits that come from groups of six, and what is left of them. -/
theorem exists_input {values : List Nat} (hvalues : ∀ value ∈ values, value < 64)
    (hlength : values.length % 4 ≠ 1)
    (hzero : ∀ b ∈ (values.flatMap (bits 6)).drop ((values.flatMap (bits 6)).length / 8 * 8),
      b = false) :
    ∃ input, values.flatMap (bits 6) = octetBits input ++ fill (octetBits input) ∧
      sextets (octetBits input) = values := by
  obtain ⟨l, hl⟩ : ∃ l, values.flatMap (bits 6) = l := ⟨_, rfl⟩
  have hcount : l.length = values.length * 6 := hl ▸ length_flatMap_bits 6 values
  rw [hl] at hzero
  have htake : (l.take (l.length / 8 * 8)).length = l.length / 8 * 8 := by
    rw [List.length_take]
    omega
  obtain ⟨input, hinput⟩ := exists_octets (l.length / 8) htake
  have hleft : l.drop (l.length / 8 * 8) = fill (octetBits input) := by
    rw [List.eq_replicate_of_mem hzero, fill, hinput, htake, List.length_drop]
    congr 1
    have hrest : values.length % 4 = 0 ∨ values.length % 4 = 2 ∨ values.length % 4 = 3 := by omega
    obtain ⟨k, hk⟩ : ∃ k, values.length = 4 * k + values.length % 4 := ⟨values.length / 4, by omega⟩
    rcases hrest with hrest | hrest | hrest <;> rw [hrest] at hk <;> omega
  have hwhole : l = octetBits input ++ fill (octetBits input) := by
    rw [hinput, ← hinput, ← hleft, hinput, List.take_append_drop]
  refine ⟨input, hl.trans hwhole, ?_⟩
  rw [sextets, ← hwhole, ← hl, groups_flatMap_bits hvalues]

/-- **What is well formed is the encoding of what is read from it.** -/
theorem WellFormed.read {text : String} (h : WellFormed text) :
    ∃ input, fromBase64url text = some input ∧ unpadded text = base64url input := by
  obtain ⟨values, count, hvalues, htext⟩ := h.values
  obtain ⟨hreadable, hunpadded, -⟩ := readable_of_append (symbols_unpadded hvalues) htext
  have hlength := h.length
  have hzero := h.leftover
  rw [hreadable, List.length_map] at hlength
  rw [hreadable, charBits_symbols hvalues] at hzero
  obtain ⟨input, hbits, hsextets⟩ := exists_input hvalues hlength hzero
  have hleft : (fill (octetBits input)).length < 8 := by
    rw [fill, List.length_replicate]
    omega
  refine ⟨input, ?_, ?_⟩
  · unfold fromBase64url decodeWith
    rw [htext]
    exact decodeChars_eq legible_urlSafe hvalues (by decide) hleft count hbits
  · rw [hunpadded, base64url_symbols, hsextets]

/-- What is read as what it encodes is well formed. -/
theorem wellFormed_of_unpadded {text : String} {input : Bytes}
    (h : unpadded text = base64url input) : WellFormed text := by
  have hvalues : ∀ value ∈ sextets (octetBits input), value < 64 := fun _ => lt_of_mem_sextets
  have htext : text.toList = (sextets (octetBits input)).map (symbol URL_SAFE) ++
      List.replicate (text.toList.rtakeWhile (· = '=')).length '=' := by
    have hkept : text.toList.rdropWhile (· = '=') =
        (sextets (octetBits input)).map (symbol URL_SAFE) := by
      rw [unpadded, base64url_symbols] at h
      exact String.ofList_injective h
    have hpadding : ∀ c ∈ text.toList.rtakeWhile (· = '='), c = '=' :=
      fun c hc => by simpa using List.mem_rtakeWhile_imp hc
    rw [← List.eq_replicate_of_mem hpadding, ← hkept, List.rdropWhile_append_rtakeWhile]
  obtain ⟨hreadable, -, hpadded⟩ := readable_of_append (symbols_unpadded hvalues) htext
  have hbits := flatMap_sextets (octetBits input)
  have hfill : (fill (octetBits input)).length = (6 - 8 * input.length % 6) % 6 := by
    rw [fill, List.length_replicate, length_octetBits]
  have hcount := congrArg List.length hbits
  rw [length_flatMap_bits, List.length_append, length_octetBits, hfill] at hcount
  constructor
  · rw [hreadable]
    intro c hc
    obtain ⟨value, hvalue, rfl⟩ := List.mem_map.mp hc
    exact symbol_mem (hvalues value hvalue)
  · exact hpadded
  · rw [hreadable, List.length_map]
    omega
  · rw [hreadable, charBits_symbols hvalues, hbits]
    have hdrop : (octetBits input ++ fill (octetBits input)).length / 8 * 8 =
        (octetBits input).length := by
      rw [List.length_append, length_octetBits, hfill]
      omega
    rw [hdrop, List.drop_left]
    exact fun b hb => List.eq_of_mem_replicate hb

/-- **When a text is read only as what it encodes**: exactly when it is refused, or well formed; and
no two texts of this kind, without their padding, are read as one. -/
theorem strict_iff (text : String) :
    (Strict text ↔ Refused text ∨ WellFormed text) ∧
    ∀ text' input, Strict text → Strict text' → fromBase64url text = some input →
      fromBase64url text' = some input → unpadded text = unpadded text' := by
  refine ⟨?_, ?_⟩
  · constructor
    · intro h
      by_cases hrefused : Refused text
      · exact Or.inl hrefused
      · obtain ⟨input, hinput⟩ := Option.isSome_iff_exists.mp (fromBase64url_isSome.mpr hrefused)
        exact Or.inr (wellFormed_of_unpadded (h input hinput))
    · intro h input hinput
      rcases h with hrefused | hwell
      · have hsome : (fromBase64url text).isSome = true := by rw [hinput]; rfl
        exact absurd hrefused (fromBase64url_isSome.mp hsome)
      · obtain ⟨input', hinput', hunpadded⟩ := hwell.read
        rw [hinput] at hinput'
        cases hinput'
        exact hunpadded
  · intro text' input h h' hinput hinput'
    rw [h input hinput, h' input hinput']

/-- Bits that are left over are dropped, whatever they are: two texts are one byte. -/
theorem leftover_dropped :
    fromBase64url "QR" = some [65] ∧ base64url [65] = "QQ" ∧
    ¬∀ text input, fromBase64url text = some input → unpadded text = base64url input := by
  have hread : fromBase64url "QR" = some [65] := by decide +kernel
  have hencoded : base64url [65] = "QQ" := by decide +kernel
  refine ⟨hread, hencoded, ?_⟩
  intro h
  have hsame := h "QR" [65] hread
  rw [hencoded] at hsame
  exact absurd hsame (by decide +kernel)

end PicX.Encoding
