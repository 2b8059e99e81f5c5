import PicX.Audit.Evidence
import PicX.Audit.Overflow
import PicX.Base.Net
import PicX.Base.Slice
import PicX.Keys.Ring

/-!
# Checking a trail from the command line (`main.rs`)

`audit verify` reads a trail and, when a key set is named, checks the signature of every seal
against it. The files may be anybody's: a panic is an outcome of its own here, beside an error.

The signature of a seal is read two bytes of text at a time. A slice that ends inside a character
panics, and a sign is taken in front of a digit. In a build with overflow checks the calendar panics
too, on the name of a file.

* `Reads`, `fromHex_ok_iff` — what is read, and as what.
* `Splits`, `fromHex_panics_iff` — what panics.
* `fromHex_hex` — a rendered byte string reads back.
* `verifyAuditTrail_panics_iff` — a run panics exactly on a name with a far-off date, or when it
  gets to a seal with such a signature.

Main result: `trail_check_iff`.
-/

namespace PicX.Audit

open PicX
open PicX.Machine (Build)

/-! ## Hexadecimal text -/

/-- The digits of a `u8` in base 16, after those that make `n`. -/
def hexDigits : Nat → List Char → Except String UInt8
  | n, [] => .ok (UInt8.ofNat n)
  | n, c :: cs =>
    match Net.toDigit 16 c with
    | none => .error "invalid digit found in string"
    | some d =>
      if 256 ≤ n * 16 + d then .error "number too large to fit in target type"
      else hexDigits (n * 16 + d) cs

/-- `u8::from_str_radix(text, 16)`: a plus may stand in front. -/
def fromStrRadix (text : List Char) : Except String UInt8 :=
  if text = [] then .error "cannot parse integer from empty string"
  else if text = ['+'] ∨ text = ['-'] then .error "invalid digit found in string"
  else hexDigits 0 (if text.head? = some '+' then text.tail else text)

/-- The byte of the two bytes of text at `index`. -/
def hexByte (text : String) (index : Nat) : Result UInt8 :=
  match slice text.toList (index * 2) (index * 2 + 2) with
  | none => .error .panicked
  | some digits =>
    match fromStrRadix digits with
    | .error e => .error (.error e)
    | .ok b => .ok b

/-- Reads lowercase hexadecimal back into the bytes it renders. -/
def fromHex (text : String) : Result Bytes :=
  if byteLength text.toList % 2 ≠ 0 then
    .error (.error "a hexadecimal string has an even number of characters")
  else (List.range (byteLength text.toList / 2)).mapM (hexByte text)

/-! ## The command -/

/-- What the command takes from outside the repository. -/
structure Outside where
  readToString : String → Except String String
  jwkSetFromStr : String → Except String (List Jwk)
  verifyEd25519 : Bytes → Bytes → Bytes → Bool

variable (c : Crates) (o : Outside)

/-- Whether `signature` over `payload` was made by the key `jwk` publishes. -/
def verifySignature (jwk : Jwk) (payload signature : Bytes) : Bool :=
  if jwk.kty ≠ "OKP" ∨ jwk.crv ≠ some Keys.CURVE ∨ jwk.alg ≠ Keys.ALGORITHM then false
  else match Encoding.fromBase64url jwk.x with
    | none => false
    | some publicKey => o.verifyEd25519 publicKey payload signature

/-- `with_context`: a panic is not an error. -/
def Failure.context (text : String) : Failure → Failure
  | .error _ => .error text
  | .panicked => .panicked

/-- One seal, counted when its signature verifies. -/
def checkSeal (published : List Jwk) (signed : Nat) (s : Seal) : Result Nat :=
  match s.kid, s.signature with
  | some kid, some signature =>
    match published.find? fun key => key.kid = kid with
    | none => .error (.error ("the key set does not publish `" ++ kid ++ "`"))
    | some key =>
      match fromHex signature with
      | .error e =>
        .error (e.context ("the seal for " ++ s.body.day ++ " has an unreadable signature"))
      | .ok signature =>
        if verifySignature o key (s.signedBytes c) signature then .ok (signed + 1)
        else .error (.error ("the seal for " ++ s.body.day ++ " does not verify against `" ++ kid ++
          "`: it was not signed by the key it names, or it has been altered since"))
  | _, _ => .error (.error ("the seal for " ++ s.body.day ++ " carries no signature"))

def summary (verified : Verification) : String :=
  toString verified.records ++ " record(s) over " ++ toString verified.days ++
    " day(s) verify. Head: " ++ verified.head

/-- Checks a trail written by the file sink, and says what checking it found. -/
def verifyAuditTrail (b : Build) (path : String) (directory : Option Directory)
    (keys : Option String) : Result String :=
  match verifyIn c b path directory with
  | .error e => .error e
  | .ok verified =>
    if verified.seals.isEmpty then .ok (summary verified)
    else match keys with
      | none => .ok (summary verified ++ "\n" ++ toString verified.seals.length ++
          " seal(s) present, signatures unchecked. Pass --keys <JWKS> to check them.")
      | some file =>
        match o.readToString file with
        | .error e => .error (.error e)
        | .ok text =>
          match o.jwkSetFromStr text with
          | .error _ => .error (.error ("reading the key set from " ++ file))
          | .ok published =>
            match verified.seals.foldlM (checkSeal c o published) 0 with
            | .error e => .error e
            | .ok signed => .ok (summary verified ++ "\n" ++ toString signed ++
                " seal(s) verify against the key set.")

/-! ## Two bytes of text -/

/-- The byte two characters stand for: two digits, or a plus and a digit. -/
def pairValue (a b : Char) : Option UInt8 :=
  if a = '+' then (Net.toDigit 16 b).map UInt8.ofNat
  else (Net.toDigit 16 a).bind fun x => (Net.toDigit 16 b).map fun y => UInt8.ofNat (16 * x + y)

theorem toDigit_16 {ch : Char} {d : Nat} (h : Net.toDigit 16 ch = some d) :
    d < 16 ∧ ch.utf8Size = 1 ∧ ch.toLower = Nat.digitChar d ∧ ch ≠ '+' := by
  have hall : ∀ n < 128, (Net.toDigit 16 (Char.ofNat n)).all (fun d =>
      (Char.ofNat n).utf8Size = 1 ∧ (Char.ofNat n).toLower = Nat.digitChar d ∧
        Char.ofNat n ≠ '+') = true := by
    decide +kernel
  have hd : d < 16 := by
    simp only [Net.toDigit, Option.bind_eq_some_iff, Option.ite_none_right_eq_some,
      Option.some.injEq] at h
    obtain ⟨_, -, hlt, rfl⟩ := h
    exact hlt
  have hascii : ch.toNat < 128 := by
    unfold Net.toDigit at h
    dsimp only at h
    split_ifs at h with hdigit hlower hupper
    · exact lt_of_le_of_lt (show ch.toNat ≤ '9'.toNat from hdigit.2) (by decide)
    · exact lt_of_le_of_lt (show ch.toNat ≤ 'z'.toNat from hlower.2) (by decide)
    · exact lt_of_le_of_lt (show ch.toNat ≤ 'Z'.toNat from hupper.2) (by decide)
    · cases h
  have hchar := hall ch.toNat hascii
  rw [Char.ofNat_toNat, h] at hchar
  exact ⟨hd, of_decide_eq_true hchar⟩

/-- One character of a digit, or none. -/
theorem hexDigits_singleton (ch : Char) :
    (∃ d, Net.toDigit 16 ch = some d ∧ hexDigits 0 [ch] = .ok (UInt8.ofNat d)) ∨
      Net.toDigit 16 ch = none ∧ ∃ e, hexDigits 0 [ch] = .error e := by
  cases hdigit : Net.toDigit 16 ch with
  | none => exact Or.inr ⟨rfl, _, by rw [hexDigits, hdigit]⟩
  | some d =>
    have hd := (toDigit_16 hdigit).1
    refine Or.inl ⟨d, rfl, ?_⟩
    rw [hexDigits, hdigit]
    show (if 256 ≤ 0 * 16 + d then _ else _) = _
    rw [if_neg (by omega), hexDigits, Nat.zero_mul, Nat.zero_add]

/-- Two characters are read as the byte they stand for. -/
theorem fromStrRadix_pair (a b : Char) : match pairValue a b with
    | some v => fromStrRadix [a, b] = .ok v
    | none => ∃ e, fromStrRadix [a, b] = .error e := by
  by_cases hplus : a = '+'
  · subst hplus
    have hread : fromStrRadix ['+', b] = hexDigits 0 [b] := by simp [fromStrRadix]
    rw [pairValue, if_pos rfl, hread]
    rcases hexDigits_singleton b with ⟨d, hdigit, hok⟩ | ⟨hdigit, herror⟩
    · rw [hdigit]
      exact hok
    · rw [hdigit]
      exact herror
  · have hread : fromStrRadix [a, b] = hexDigits 0 [a, b] := by simp [fromStrRadix, hplus]
    rw [pairValue, if_neg hplus, hread, hexDigits]
    cases ha : Net.toDigit 16 a with
    | none => exact ⟨_, rfl⟩
    | some x =>
      have hx := (toDigit_16 ha).1
      cases hb : Net.toDigit 16 b with
      | none =>
        refine ⟨"invalid digit found in string", ?_⟩
        show (if 256 ≤ 0 * 16 + x then _ else hexDigits (0 * 16 + x) [b]) = _
        rw [if_neg (by omega), hexDigits, hb]
      | some y =>
        have hy := (toDigit_16 hb).1
        show (if 256 ≤ 0 * 16 + x then _ else hexDigits (0 * 16 + x) [b]) = _
        rw [if_neg (by omega), hexDigits, hb]
        show (if 256 ≤ (0 * 16 + x) * 16 + y then _ else _) = _
        rw [if_neg (by omega), hexDigits]
        congr 2
        omega

/-- One character of two bytes is no digit. -/
theorem fromStrRadix_wide {ch : Char} (h : ch.utf8Size = 2) :
    ∃ e, fromStrRadix [ch] = .error e := by
  have hnone : Net.toDigit 16 ch = none := by
    cases hdigit : Net.toDigit 16 ch with
    | none => rfl
    | some d =>
      have := (toDigit_16 hdigit).2.1
      omega
  refine ⟨"invalid digit found in string", ?_⟩
  have hsign : ch ≠ '+' ∧ ch ≠ '-' := by
    refine ⟨?_, ?_⟩ <;>
      · rintro rfl
        revert h
        decide
  have hread : fromStrRadix [ch] = hexDigits 0 [ch] := by
    simp [fromStrRadix, hsign.1, hsign.2]
  rw [hread, hexDigits, hnone]

/-! ## A whole text -/

/-- The characters are pairs, and these are their bytes. -/
inductive Reads : List Char → Bytes → Prop
  | nil : Reads [] []
  | pair {a b : Char} {v : UInt8} {cs : List Char} {bytes : Bytes} (h : pairValue a b = some v)
      (hrest : Reads cs bytes) : Reads (a :: b :: cs) (v :: bytes)

/-- After some pairs a slice of two bytes ends inside a character: one of more than two bytes, or
one of more than one byte behind one of one byte. -/
inductive Splits : List Char → Prop
  | long {ch : Char} {cs : List Char} (h : 2 < ch.utf8Size) : Splits (ch :: cs)
  | second {a b : Char} {cs : List Char} (ha : a.utf8Size = 1) (hb : 1 < b.utf8Size) :
      Splits (a :: b :: cs)
  | later {a b : Char} {v : UInt8} {cs : List Char} (h : pairValue a b = some v)
      (hrest : Splits cs) : Splits (a :: b :: cs)

theorem pairValue_sizes {a b : Char} {v : UInt8} (h : pairValue a b = some v) :
    a.utf8Size = 1 ∧ b.utf8Size = 1 := by
  unfold pairValue at h
  split_ifs at h with hplus
  · obtain ⟨d, hd, -⟩ := Option.map_eq_some_iff.mp h
    rw [hplus]
    exact ⟨by decide, (toDigit_16 hd).2.1⟩
  · obtain ⟨x, hx, hrest⟩ := Option.bind_eq_some_iff.mp h
    obtain ⟨y, hy, -⟩ := Option.map_eq_some_iff.mp hrest
    exact ⟨(toDigit_16 hx).2.1, (toDigit_16 hy).2.1⟩

/-- The byte of the first two bytes of some characters. -/
def firstByte (cs : List Char) : Result UInt8 :=
  match takeBytes 2 cs with
  | none => .error .panicked
  | some digits =>
    match fromStrRadix digits with
    | .error e => .error (.error e)
    | .ok b => .ok b

/-- What the first two bytes of some characters come to. -/
inductive First : List Char → Result UInt8 → Prop
  | read {a b : Char} {v : UInt8} {rest : List Char} (h : pairValue a b = some v) :
      First (a :: b :: rest) (.ok v)
  | refused {cs : List Char} {e : String} (hreads : ∀ bytes, ¬Reads cs bytes)
      (hsplits : ¬Splits cs) : First cs (.error (.error e))
  | split {cs : List Char} (hreads : ∀ bytes, ¬Reads cs bytes) (hsplits : Splits cs) :
      First cs (.error .panicked)

/-- Characters that are no pair are not read. -/
theorem not_reads {ch : Char} {cs : List Char}
    (h : ∀ b rest, cs = b :: rest → pairValue ch b = none)
    (bytes : Bytes) : ¬Reads (ch :: cs) bytes := by
  intro hreads
  cases hreads with
  | pair hvalue _ => simp [h _ _ rfl] at hvalue

theorem pairValue_of_wide {a b : Char} (h : a.utf8Size ≠ 1 ∨ b.utf8Size ≠ 1) :
    pairValue a b = none := by
  cases hvalue : pairValue a b with
  | none => rfl
  | some v =>
    obtain ⟨ha, hb⟩ := pairValue_sizes hvalue
    omega

theorem firstByte_first {cs : List Char} (h : 2 ≤ byteLength cs) : First cs (firstByte cs) := by
  cases cs with
  | nil => simp at h
  | cons ch cs =>
    unfold firstByte
    rw [takeBytes_two]
    by_cases hone : ch.utf8Size = 1
    · rw [if_pos hone]
      cases cs with
      | nil => simp [hone] at h
      | cons b rest =>
        by_cases hb : b.utf8Size = 1
        · have hpair := fromStrRadix_pair ch b
          simp only [if_pos hb]
          cases hvalue : pairValue ch b with
          | some v =>
            rw [hvalue] at hpair
            simp only [hpair]
            exact .read hvalue
          | none =>
            rw [hvalue] at hpair
            obtain ⟨e, he⟩ := hpair
            simp only [he]
            refine .refused (not_reads ?_) ?_
            · rintro b' rest' heq
              cases heq
              exact hvalue
            · intro hsplits
              cases hsplits with
              | long hlong => omega
              | second _ hwide => omega
              | later hsome _ => simp [hvalue] at hsome
        · simp only [if_neg hb]
          have hwide : 1 < b.utf8Size := lt_of_le_of_ne b.utf8Size_pos (Ne.symm hb)
          refine .split (not_reads ?_) (.second hone hwide)
          rintro b' rest' heq
          cases heq
          exact pairValue_of_wide (Or.inr hb)
    · rw [if_neg hone]
      have hnot : ∀ b rest, cs = b :: rest → pairValue ch b = none := fun b _ _ =>
        pairValue_of_wide (Or.inl hone)
      by_cases htwo : ch.utf8Size = 2
      · obtain ⟨e, he⟩ := fromStrRadix_wide htwo
        simp only [if_pos htwo, he]
        refine .refused (not_reads hnot) ?_
        intro hsplits
        cases hsplits with
        | long hlong => omega
        | second hsize _ => omega
        | later hsome _ => exact hone (pairValue_sizes hsome).1
      · simp only [if_neg htwo]
        have hpos := ch.utf8Size_pos
        exact .split (not_reads hnot) (.long (by omega))

/-- All the pairs of some characters, `k` of them. -/
def readPairs : Nat → List Char → Result Bytes
  | 0, _ => .ok []
  | k + 1, cs => do
    let b ← firstByte cs
    let bytes ← readPairs k (cs.drop 2)
    pure (b :: bytes)

/-- **A text is read pair by pair**, up to the first that is none. -/
theorem readPairs_iff {k : Nat} {cs : List Char} (h : byteLength cs = k * 2) :
    (∀ bytes, readPairs k cs = .ok bytes ↔ Reads cs bytes) ∧
      (readPairs k cs = .error .panicked ↔ Splits cs) := by
  induction k generalizing cs with
  | zero =>
    cases cs with
    | nil =>
      refine ⟨fun bytes => ⟨?_, ?_⟩, ?_⟩
      · rintro ⟨⟩
        exact .nil
      · rintro ⟨⟩
        rfl
      · exact ⟨nofun, nofun⟩
    | cons ch cs =>
      have hpos := ch.utf8Size_pos
      rw [byteLength_cons] at h
      omega
  | succ k ih =>
    have hfirst : First cs (firstByte cs) := firstByte_first (by omega)
    unfold readPairs
    generalize firstByte cs = first at hfirst
    cases hfirst with
    | @read a b v rest hvalue =>
      obtain ⟨ha, hb⟩ := pairValue_sizes hvalue
      rw [byteLength_cons, byteLength_cons, ha, hb] at h
      have hlength : byteLength rest = k * 2 := by omega
      obtain ⟨hok, hpanic⟩ := ih hlength
      have hrest : (do
          let v ← (Except.ok v : Result UInt8)
          let bytes ← readPairs k (List.drop 2 (a :: b :: rest))
          pure (v :: bytes)) = (readPairs k rest).map (v :: ·) := rfl
      rw [hrest]
      refine ⟨fun bytes => ⟨fun heq => ?_, fun hreads => ?_⟩, fun heq => ?_, fun hsplits => ?_⟩
      · cases hread : readPairs k rest with
        | error e => simp [hread, Except.map] at heq
        | ok bytes' =>
          rw [hread] at heq
          cases heq
          exact .pair hvalue ((hok bytes').mp hread)
      · cases hreads with
        | pair hvalue' hrest' =>
          rw [(hok _).mpr hrest']
          rw [hvalue] at hvalue'
          cases hvalue'
          rfl
      · cases hread : readPairs k rest with
        | ok bytes' => simp [hread, Except.map] at heq
        | error e =>
          rw [hread] at heq
          cases heq
          exact .later hvalue (hpanic.mp hread)
      · cases hsplits with
        | long hlong => omega
        | second _ hwide => omega
        | later _ hrest' =>
          rw [hpanic.mpr hrest']
          rfl
    | refused hreads hsplits =>
      refine ⟨fun bytes => ⟨nofun, fun hr => absurd hr (hreads bytes)⟩, ?_⟩
      exact ⟨nofun, fun hs => absurd hs hsplits⟩
    | split hreads hsplits =>
      refine ⟨fun bytes => ⟨nofun, fun hr => absurd hr (hreads bytes)⟩, ?_⟩
      exact ⟨fun _ => hsplits, fun _ => rfl⟩

theorem hexByte_eq {text : String} {index : Nat} {rest : List Char}
    (h : dropBytes (index * 2) text.toList = some rest) : hexByte text index = firstByte rest := by
  unfold hexByte slice
  rw [h, Option.bind_some, Nat.add_sub_cancel_left]
  rfl

/-- The loop over the indices goes through the text. -/
theorem mapM_hexByte {text : String} {k : Nat} : ∀ {start : Nat} {rest : List Char},
    dropBytes (start * 2) text.toList = some rest → byteLength rest = k * 2 →
      (List.range' start k).mapM (hexByte text) = readPairs k rest := by
  induction k with
  | zero =>
    intro start rest _ _
    rfl
  | succ k ih =>
    intro start rest hdrop hlength
    have hfirst : First rest (firstByte rest) := firstByte_first (by omega)
    rw [List.range'_succ, List.mapM_cons, hexByte_eq hdrop, readPairs]
    generalize hread : firstByte rest = first at hfirst
    cases hfirst with
    | refused _ _ => rfl
    | split _ _ => rfl
    | @read a b v tail hvalue =>
      obtain ⟨ha, hb⟩ := pairValue_sizes hvalue
      have hnext : dropBytes ((start + 1) * 2) text.toList = some tail := by
        rw [Nat.succ_mul, dropBytes_add hdrop, dropBytes_cons (by omega), ha,
          dropBytes_cons (by omega), hb]
        exact dropBytes_zero tail
      rw [byteLength_cons, byteLength_cons, ha, hb] at hlength
      rw [ih hnext (by omega)]
      rfl

theorem fromHex_eq (text : String) : fromHex text =
    if byteLength text.toList % 2 ≠ 0 then
      .error (.error "a hexadecimal string has an even number of characters")
    else readPairs (byteLength text.toList / 2) text.toList := by
  unfold fromHex
  split_ifs with hodd
  · rfl
  · have hzero : dropBytes (0 * 2) text.toList = some text.toList := by simp
    rw [List.range_eq_range', mapM_hexByte hzero (by omega)]

theorem Reads.even {cs : List Char} {bytes : Bytes} (h : Reads cs bytes) :
    byteLength cs % 2 = 0 := by
  induction h with
  | nil => rfl
  | pair hvalue _ ih =>
    obtain ⟨ha, hb⟩ := pairValue_sizes hvalue
    rw [byteLength_cons, byteLength_cons, ha, hb]
    omega

/-- **What is read, and as what.** -/
theorem fromHex_ok_iff {text : String} {bytes : Bytes} :
    fromHex text = .ok bytes ↔ Reads text.toList bytes := by
  rw [fromHex_eq]
  split_ifs with hodd
  · exact ⟨nofun, fun hreads => absurd hreads.even hodd⟩
  · exact (readPairs_iff (by omega)).1 bytes

/-- **What panics**: a text of even length in which a slice ends inside a character. -/
theorem fromHex_panics_iff {text : String} :
    fromHex text = .error .panicked ↔ byteLength text.toList % 2 = 0 ∧ Splits text.toList := by
  rw [fromHex_eq]
  split_ifs with hodd
  · exact ⟨nofun, fun h => absurd h.1 hodd⟩
  · rw [(readPairs_iff (by omega)).2]
    exact ⟨fun h => ⟨not_not.mp hodd, h⟩, And.right⟩

/-! ## Rendering and reading -/

theorem pairValue_hexPair (b : UInt8) :
    pairValue (Nat.digitChar (b.toNat / 16)) (Nat.digitChar (b.toNat % 16)) = some b := by
  have hall : ∀ n < 256, pairValue (Nat.digitChar (n / 16)) (Nat.digitChar (n % 16)) =
      some (UInt8.ofNat n) := by
    decide +kernel
  rw [hall b.toNat b.toNat_lt, UInt8.ofNat_toNat]

theorem reads_hexPairs (bytes : Bytes) : Reads (bytes.flatMap hexPair) bytes := by
  induction bytes with
  | nil => exact .nil
  | cons b bytes ih => exact .pair (pairValue_hexPair b) ih

/-- **A rendered byte string reads back.** -/
theorem fromHex_hex (bytes : Bytes) : fromHex (hex bytes) = .ok bytes := by
  rw [fromHex_ok_iff, hex, String.toList_ofList]
  exact reads_hexPairs bytes

/-- Two texts that differ in the case of their letters only. -/
def SameButCase (s t : String) : Prop := s.toList.map Char.toLower = t.toList.map Char.toLower

theorem pairValue_digits {a b : Char} {v : UInt8} (h : pairValue a b = some v) (ha : a ≠ '+') :
    hexPair v = [a.toLower, b.toLower] := by
  rw [pairValue, if_neg ha] at h
  obtain ⟨x, hx, hrest⟩ := Option.bind_eq_some_iff.mp h
  obtain ⟨y, hy, rfl⟩ := Option.map_eq_some_iff.mp hrest
  obtain ⟨hx16, -, hxlower, -⟩ := toDigit_16 hx
  obtain ⟨hy16, -, hylower, -⟩ := toDigit_16 hy
  have hbyte : (UInt8.ofNat (16 * x + y)).toNat = 16 * x + y := by
    rw [UInt8.toNat_ofNat']
    exact Nat.mod_eq_of_lt (by omega)
  rw [hexPair, hbyte, hxlower, hylower, Nat.mul_add_div (by decide), Nat.div_eq_of_lt hy16,
    Nat.mul_add_mod, Nat.mod_eq_of_lt hy16, Nat.add_zero]

theorem toLower_of_mem_hexPair {v : UInt8} {ch : Char} (h : ch ∈ hexPair v) :
    ch.toLower = ch ∧ ch ≠ '+' := by
  have hall : ∀ d < 16, (Nat.digitChar d).toLower = Nat.digitChar d ∧ Nat.digitChar d ≠ '+' := by
    decide +kernel
  have hv := v.toNat_lt
  rcases List.mem_cons.mp h with rfl | hlast
  · exact hall _ (by omega)
  · rw [List.mem_singleton.mp hlast]
    exact hall _ (by omega)

theorem map_toLower_hex (bytes : Bytes) :
    (hex bytes).toList.map Char.toLower = bytes.flatMap hexPair := by
  rw [hex, String.toList_ofList]
  refine (List.map_congr_left fun ch hch => ?_).trans (List.map_id _)
  obtain ⟨v, -, hmem⟩ := List.mem_flatMap.mp hch
  exact (toLower_of_mem_hexPair hmem).1

/-- Without a sign, the text is what renders its bytes, but for the case. -/
theorem Reads.flatMap_hexPair {cs : List Char} {bytes : Bytes} (h : Reads cs bytes)
    (hplus : '+' ∉ cs) : bytes.flatMap hexPair = cs.map Char.toLower := by
  induction h with
  | nil => rfl
  | @pair a b v cs bytes hvalue _ ih =>
    have ha : a ≠ '+' := fun heq => hplus (heq ▸ List.mem_cons_self)
    have hcs : '+' ∉ cs := fun hmem =>
      hplus (List.mem_cons_of_mem _ (List.mem_cons_of_mem _ hmem))
    rw [List.flatMap_cons, pairValue_digits hvalue ha, ih hcs]
    rfl

theorem sameButCase_iff {text : String} {bytes : Bytes} (h : Reads text.toList bytes) :
    SameButCase (hex bytes) text ↔ '+' ∉ text.toList := by
  unfold SameButCase
  rw [map_toLower_hex]
  refine ⟨fun heq hplus => ?_, h.flatMap_hexPair⟩
  have hmem : '+' ∈ bytes.flatMap hexPair :=
    heq ▸ List.mem_map.mpr ⟨'+', hplus, by decide⟩
  obtain ⟨v, -, hv⟩ := List.mem_flatMap.mp hmem
  exact (toLower_of_mem_hexPair hv).2 rfl

/-! ## The seals -/

variable {c o}

/-- The seal names a published key, and its signature verifies under it. -/
def Signed (c : Crates) (o : Outside) (published : List Jwk) (s : Seal) : Prop :=
  ∃ kid signature key bytes, s.kid = some kid ∧ s.signature = some signature ∧
    published.find? (fun key => key.kid = kid) = some key ∧ Reads signature.toList bytes ∧
      verifySignature o key (s.signedBytes c) bytes = true

/-- The seal names a published key, and reading its signature panics. -/
def Fatal (published : List Jwk) (s : Seal) : Prop :=
  ∃ kid signature key, s.kid = some kid ∧ s.signature = some signature ∧
    published.find? (fun key => key.kid = kid) = some key ∧
      byteLength signature.toList % 2 = 0 ∧ Splits signature.toList

theorem checkSeal_ok_iff {published : List Jwk} {signed n : Nat} {s : Seal} :
    checkSeal c o published signed s = .ok n ↔ Signed c o published s ∧ n = signed + 1 := by
  unfold checkSeal Signed
  cases hkid : s.kid with
  | none => simp
  | some kid =>
    cases hsignature : s.signature with
    | none => simp
    | some signature =>
      cases hkey : published.find? fun key => key.kid = kid with
      | none => simp [hkey]
      | some key =>
        cases hread : fromHex signature with
        | error e =>
          have hnot : ∀ bytes, ¬Reads signature.toList bytes := fun bytes hreads => by
            simp [fromHex_ok_iff.mpr hreads] at hread
          simp [hkey, hread, hnot]
        | ok bytes =>
          have hreads := fromHex_ok_iff.mp hread
          have honly : ∀ bytes', Reads signature.toList bytes' → bytes' = bytes := by
            intro bytes' h
            have := hread.symm.trans (fromHex_ok_iff.mpr h)
            exact (Except.ok.inj this).symm
          by_cases hverify : verifySignature o key (s.signedBytes c) bytes = true
          · simp only [hkey, hread, if_pos hverify, Except.ok.injEq]
            constructor
            · rintro rfl
              exact ⟨⟨kid, signature, key, bytes, rfl, rfl, hkey, hreads, hverify⟩, rfl⟩
            · rintro ⟨-, rfl⟩
              rfl
          · simp only [hkey, hread, if_neg hverify, reduceCtorEq, false_iff]
            rintro ⟨⟨kid', signature', key', bytes', hk, hs, hkey', hreads', hverify'⟩, -⟩
            cases hk
            cases hs
            rw [hkey] at hkey'
            cases hkey'
            rw [honly bytes' hreads'] at hverify'
            exact hverify hverify'

theorem checkSeal_panics_iff {published : List Jwk} {signed : Nat} {s : Seal} :
    checkSeal c o published signed s = .error .panicked ↔ Fatal published s := by
  unfold checkSeal Fatal
  cases hkid : s.kid with
  | none => simp
  | some kid =>
    cases hsignature : s.signature with
    | none => simp
    | some signature =>
      cases hkey : published.find? fun key => key.kid = kid with
      | none => simp [hkey]
      | some key =>
        have hiff : fromHex signature = .error .panicked ↔ _ := fromHex_panics_iff
        cases hread : fromHex signature with
        | error e =>
          rw [hread] at hiff
          cases e with
          | error text => simpa [hkey, hread, Failure.context] using hiff
          | panicked => simpa [hkey, hread, Failure.context] using hiff
        | ok bytes =>
          rw [hread] at hiff
          simp only [hkey, hread]
          split_ifs <;> simpa [hkey] using hiff

/-- The loop panics at the first seal that is not signed, when it is a fatal one. -/
theorem checkSeals_panics_iff {published : List Jwk} {seals : List Seal} {signed : Nat} :
    seals.foldlM (checkSeal c o published) signed = .error .panicked ↔
      ∃ before s rest, seals = before ++ s :: rest ∧ (∀ s' ∈ before, Signed c o published s') ∧
        Fatal published s := by
  induction seals generalizing signed with
  | nil =>
    refine ⟨nofun, ?_⟩
    rintro ⟨before, s, rest, heq, -⟩
    simp at heq
  | cons s seals ih =>
    rw [List.foldlM_cons]
    cases hcheck : checkSeal c o published signed s with
    | ok n =>
      have hsigned : Signed c o published s := (checkSeal_ok_iff.mp hcheck).1
      have hsafe : ¬Fatal published s := fun hfatal => by
        simp [checkSeal_panics_iff.mpr hfatal] at hcheck
      show seals.foldlM (checkSeal c o published) n = _ ↔ _
      rw [ih]
      constructor
      · rintro ⟨before, s', rest, rfl, hbefore, hfatal⟩
        exact ⟨s :: before, s', rest, rfl, List.forall_mem_cons.mpr ⟨hsigned, hbefore⟩, hfatal⟩
      · rintro ⟨before, s', rest, heq, hbefore, hfatal⟩
        cases before with
        | nil =>
          cases heq
          exact absurd hfatal hsafe
        | cons first before =>
          cases heq
          exact ⟨before, s', rest, rfl, (List.forall_mem_cons.mp hbefore).2, hfatal⟩
    | error e =>
      have hnot : ¬Signed c o published s := fun hsigned => by
        simp [checkSeal_ok_iff.mpr ⟨hsigned, rfl⟩] at hcheck
      show (Except.error e : Result Nat) = .error .panicked ↔ _
      have hiff : checkSeal c o published signed s = .error .panicked ↔ _ := checkSeal_panics_iff
      rw [hcheck] at hiff
      rw [hiff]
      constructor
      · intro hfatal
        exact ⟨[], s, seals, rfl, by simp, hfatal⟩
      · rintro ⟨before, s', rest, heq, hbefore, hfatal⟩
        cases before with
        | nil =>
          cases heq
          exact hfatal
        | cons first before =>
          cases heq
          exact absurd (List.forall_mem_cons.mp hbefore).1 hnot

/-! ## The whole command -/

/-- The run gets to a fatal seal: the trail verifies, the key set reads, and every seal before that
one is signed. -/
def MeetsFatal (c : Crates) (o : Outside) (path : String) (directory : Option Directory)
    (keys : Option String) : Prop :=
  ∃ verified file text published before s rest, verify c path directory = .ok verified ∧
    keys = some file ∧ o.readToString file = .ok text ∧ o.jwkSetFromStr text = .ok published ∧
      verified.seals = before ++ s :: rest ∧ (∀ s' ∈ before, Signed c o published s') ∧
        Fatal published s

theorem verifyAuditTrail_panics_iff {b : Build} {path : String} {directory : Option Directory}
    {keys : Option String} : verifyAuditTrail c o b path directory keys = .error .panicked ↔
      Overflows b directory ∨ MeetsFatal c o path directory keys := by
  unfold verifyAuditTrail
  by_cases hover : Overflows b directory
  · rw [verifyIn_panics hover]
    exact ⟨fun _ => Or.inl hover, fun _ => rfl⟩
  rw [verifyIn_eq hover, or_iff_right hover]
  unfold MeetsFatal
  cases hverify : verify c path directory with
  | error e => simp [mapErr]
  | ok verified =>
    rw [mapErr]
    by_cases hseals : verified.seals.isEmpty = true
    · have hnil : verified.seals = [] := List.isEmpty_iff.mp hseals
      simp only [if_pos hseals, reduceCtorEq, false_iff]
      rintro ⟨_, file, text, published, before, s, rest, hok, -, -, -, heq, -⟩
      cases hok
      simp [hnil] at heq
    · simp only [if_neg hseals]
      cases keys with
      | none => simp
      | some file =>
        cases htext : o.readToString file with
        | error e => simp [htext]
        | ok text =>
          cases hset : o.jwkSetFromStr text with
          | error e => simp [htext, hset]
          | ok published =>
            have hloop : verified.seals.foldlM (checkSeal c o published) 0 = .error .panicked ↔ _ :=
              checkSeals_panics_iff
            have hmeets : (∃ verified' file' text' published' before s rest,
                (Except.ok verified : Except VerifyError Verification) = .ok verified' ∧
                  some file = some file' ∧ o.readToString file' = .ok text' ∧
                    o.jwkSetFromStr text' = .ok published' ∧
                      verified'.seals = before ++ s :: rest ∧
                        (∀ s' ∈ before, Signed c o published' s') ∧ Fatal published' s) ↔
                ∃ before s rest, verified.seals = before ++ s :: rest ∧
                  (∀ s' ∈ before, Signed c o published s') ∧ Fatal published s := by
              constructor
              · rintro ⟨_, _, _, _, before, s, rest, ⟨rfl⟩, ⟨rfl⟩, ht, hp, h⟩
                rw [htext] at ht
                cases ht
                rw [hset] at hp
                cases hp
                exact ⟨before, s, rest, h⟩
              · rintro ⟨before, s, rest, h⟩
                exact ⟨_, _, _, _, before, s, rest, rfl, rfl, htext, hset, h⟩
            rw [hmeets, ← hloop]
            simp only [htext, hset]
            cases verified.seals.foldlM (checkSeal c o published) 0 <;> simp

/-- **Checking a trail is safe but for these slips.** A run ends without a panic exactly when, in a
build with overflow checks, no file name has a far-off date, and it does not get to a seal of a
published key whose signature has an even number of bytes and, behind pairs of digits, a slice that
ends inside a character. What was rendered reads back. And what is read from a text renders it, up
to the case of its letters, exactly when the text has no plus or is not read at all. -/
theorem trail_check_iff (c : Crates) (o : Outside) :
    (∀ b path directory keys, verifyAuditTrail c o b path directory keys ≠ .error .panicked ↔
      ¬Overflows b directory ∧ ¬MeetsFatal c o path directory keys) ∧
    (∀ bytes, fromHex (hex bytes) = .ok bytes) ∧
    (∀ text, (∀ bytes, fromHex text = .ok bytes → SameButCase (hex bytes) text) ↔
      ('+' ∈ text.toList → ∀ bytes, ¬Reads text.toList bytes)) := by
  refine ⟨fun b path directory keys => ?_, fromHex_hex,
    fun text => ⟨fun h hplus bytes hreads => ?_, fun h bytes hok => ?_⟩⟩
  · rw [ne_eq, verifyAuditTrail_panics_iff, not_or]
  · exact (sameButCase_iff hreads).mp (h bytes (fromHex_ok_iff.mpr hreads)) hplus
  · have hreads := fromHex_ok_iff.mp hok
    exact (sameButCase_iff hreads).mpr fun hplus => h hplus bytes hreads

/-! ### A signature with a letter that is not ASCII -/

/-- A seal for the first record, whose signature has four bytes and three characters. -/
def hostileSeal : Seal where
  body := ⟨"2026-08-09", "2026-08-10T00:00:00Z", 1, firstRecord.digest⟩
  kid := some "k"
  algorithm := some "EdDSA"
  signature := some "aéb"

/-- One record, and that seal. -/
def hostileTrail : Directory :=
  (oneRecord 20674).insert (sealName 20674)
    (.file (utf8 ((serde firstSha).sealToStringPretty hostileSeal)))

/-- The only day of a trail, with its seal. -/
theorem readSeals_singleton {d : Directory} {day : Int} {text path : String} {s : Seal}
    (hlookup : d.lookup (sealName day) = some (.file (utf8 text)))
    (hread : c.sealFromStr text = .ok s) :
    readSeals c path d [day] = .ok ((∅ : Seals).insert s.body.records s) := by
  simp [readSeals, readSeal, hlookup, fromUtf8_utf8, hread]

theorem verify_hostileTrail : verify (serde firstSha) "trail" (some hostileTrail) =
    .ok ⟨1, 1, firstRecord.digest, [hostileSeal]⟩ := by
  have hday : Readable 20674 := ⟨by decide, by decide⟩
  have hholds : Holds (serde firstSha) hostileTrail [(20674, [firstRecord])] :=
    (oneRecord_holds hday).insert_other (dayOfFile_sealName _) _
  have hdays : daysOf hostileTrail.keys = [20674] := hholds.daysOf_eq
  have hlookup : hostileTrail.lookup (sealName 20674) = some _ := AList.lookup_insert _
  have hread := (serde_lawful firstSha).sealFromStr_sealToStringPretty hostileSeal
  have hindex : ∀ n, ((∅ : Seals).insert 1 hostileSeal)[n]? =
      if n = 1 then some hostileSeal else none := by
    intro n
    rw [Std.TreeMap.getElem?_insert]
    by_cases hone : n = 1
    · simp [hone]
    · simp [hone, Ne.symm hone]
  refine verify_ok_iff.mpr ⟨hostileTrail, (∅ : Seals).insert 1 hostileSeal, [firstRecord], rfl, ?_,
    hholds.trail_eq (serde_lawful _), ⟨?_, chained_firstRecord, fun n s hs => ?_⟩, ?_⟩
  · rw [hdays]
    exact readSeals_singleton hlookup hread
  · simp [firstRecord]
  · rw [hindex n] at hs
    split_ifs at hs with hone
    cases hs
    exact Or.inr ⟨firstRecord, by simp [hone], rfl⟩
  · simp [hdays, chainHead, hindex]

/-- The key set has the key the seal names. -/
def keySet : Outside where
  readToString _ := .ok ("\x7b\"keys\":[\x7b\"kid\":\"k\",\"kty\":\"OKP\"," ++
    "\"crv\":\"Ed25519\",\"x\":\"AA\",\"alg\":\"EdDSA\",\"use\":\"sig\"\x7d]\x7d")
  jwkSetFromStr _ := .ok [Jwk.okp "k" "Ed25519" "EdDSA" "AA"]
  verifyEd25519 _ _ _ := false

/-- A trail with a file of a year that is far off. -/
def farOffTrail : Directory :=
  (∅ : Directory).insert "audit-99999999999999999-01-01.jsonl" (.file [])

theorem farOffTrail_overflows : Overflows .checked (some farOffTrail) := by
  refine ⟨rfl, farOffTrail, rfl, "audit-99999999999999999-01-01.jsonl", ?_, ?_⟩
  · rw [farOffTrail, ← AList.mem_keys]
    exact (AList.mem_insert _).mpr (Or.inl rfl)
  · refine ⟨"99999999999999999-01-01", ⟨99999999999999999, 1, 1⟩, by decide +kernel,
      by decide +kernel, ?_⟩
    unfold Civil.Fits
    decide

/-- **Three slips**: the run panics on the text `aéb`, whatever the build; with overflow checks it
panics on the far-off year; and `+f` is read as the byte that `0f` renders. -/
theorem hostile_trail_panics :
    (∀ b, verifyAuditTrail (serde firstSha) keySet b "trail" (some hostileTrail)
        (some "keys.json") = .error .panicked) ∧
      verifyAuditTrail (serde firstSha) keySet .checked "trail" (some farOffTrail) none =
        .error .panicked ∧
      fromHex "+f" = .ok [15] ∧ ¬SameButCase (hex [15]) "+f" := by
  refine ⟨fun b => verifyAuditTrail_panics_iff.mpr (Or.inr ?_),
    verifyAuditTrail_panics_iff.mpr (Or.inl farOffTrail_overflows), by decide +kernel,
    by unfold SameButCase; decide⟩
  refine ⟨_, "keys.json", _, _, [], hostileSeal, [], verify_hostileTrail, rfl, rfl, rfl, rfl,
    by simp, "k", "aéb", Jwk.okp "k" "Ed25519" "EdDSA" "AA", rfl, rfl, rfl, by decide, ?_⟩
  exact .second (by decide) (by decide)

end PicX.Audit
