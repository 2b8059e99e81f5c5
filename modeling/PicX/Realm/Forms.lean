import PicX.Base.Trim
import PicX.Realm.Form

/-!
# Reading a form back

A form is written pair by pair, and each name and value byte by byte: as it is, as `+` for a space,
or as `%` and two hex digits. Reading undoes it, for any choice that was made, and refuses a body
only where nothing could have been meant.

* `StandsFor`: what the bytes of a name or a value stand for.
* `percentBytes_iff`: the decoder returns that.
* `exists_decoded_iff`: every `%` followed by two hex digits is all it takes.
* `parsePairs_iff`: pairs are read when their parts are text and no name comes twice.
* `form_read_back`: **every spelling of a form is read as that form, and a body is refused exactly
  when it is not text, names a parameter twice, or has an escape that is none**.
-/

namespace PicX.Realm

open PicX ExchangeError

/-! ## Spellings -/

/-- A byte is a hex digit, of either case, for a number. -/
def HexDigit (b : UInt8) (n : Nat) : Prop :=
  n < 16 ∧ (b.toNat = (Nat.digitChar n).toNat ∨ b.toNat = (Nat.digitChar n).toUpper.toNat)

instance (b : UInt8) (n : Nat) : Decidable (HexDigit b n) := inferInstanceAs (Decidable (_ ∧ _))

/-- What the bytes of a name or a value stand for. -/
inductive StandsFor : Bytes → Bytes → Prop
  | nil : StandsFor [] []
  | plus {t bytes : Bytes} : StandsFor t bytes → StandsFor (43 :: t) (32 :: bytes)
  | escape {high low b : UInt8} {t bytes : Bytes} : HexDigit high (b.toNat / 16) →
      HexDigit low (b.toNat % 16) → StandsFor t bytes →
        StandsFor (37 :: high :: low :: t) (b :: bytes)
  | literal {b : UInt8} {t bytes : Bytes} : b ≠ 37 → b ≠ 43 → StandsFor t bytes →
      StandsFor (b :: t) (b :: bytes)

/-- Bytes are written down, each as it is unless it is reserved, or escaped, or a space as `+`. -/
inductive Spells (reserved : List UInt8) : Bytes → Bytes → Prop
  | nil : Spells reserved [] []
  | literal {b : UInt8} {bytes t : Bytes} : b ∉ reserved → Spells reserved bytes t →
      Spells reserved (b :: bytes) (b :: t)
  | plus {bytes t : Bytes} : Spells reserved bytes t → Spells reserved (32 :: bytes) (43 :: t)
  | escape {high low b : UInt8} {bytes t : Bytes} : HexDigit high (b.toNat / 16) →
      HexDigit low (b.toNat % 16) → Spells reserved bytes t →
      Spells reserved (b :: bytes) (37 :: high :: low :: t)

/-- `%`, `&`, `+`, and in a name `=`, which ends it. -/
def valueReserved : List UInt8 := [37, 38, 43]

def nameReserved : List UInt8 := 61 :: valueReserved

/-- A parameter is written as `name=value`. -/
def SpellsPair (pair : String × String) (piece : String) : Prop :=
  ∃ name value, piece = name ++ "=" ++ value ∧ Spells nameReserved (utf8 pair.1) (utf8 name) ∧
    Spells valueReserved (utf8 pair.2) (utf8 value)

/-- A text is a form, its parameters in some order. -/
def Serialises (form : Map String) (text : String) : Prop :=
  ∃ pairs pieces, (pairs.map Prod.fst).Nodup ∧ ofMembers pairs = form ∧
    List.Forall₂ SpellsPair pairs pieces ∧ text = joinWith "&" pieces

/-! ## Bodies that are refused -/

/-- The name and the value of each pair with something in it, as they are written. -/
def writtenPairs (text : String) : List (String × String) :=
  ((split '&' text).filter fun pair => !pair.isEmpty).map fun pair =>
    (splitOnce '=' pair).getD (pair, "")

/-- Two pairs have the same name once it is decoded. -/
def NamedTwice (text : String) : Prop :=
  ∃ p q, [p, q].Sublist (writtenPairs text) ∧
    ∃ name, StandsFor (utf8 p.1) name ∧ StandsFor (utf8 q.1) name

/-- Two hex digits come next. -/
def HexPair (t : Bytes) : Prop :=
  ∃ high low rest, t = high :: low :: rest ∧ (∃ n, HexDigit high n) ∧ ∃ n, HexDigit low n

/-- A `%` is not followed by two hex digits. -/
def BadEscape (t : Bytes) : Prop := ∃ before after, t = before ++ 37 :: after ∧ ¬HexPair after

/-- A name or a value is not UTF-8 once it is decoded. -/
def NotText (text : String) : Prop :=
  ∃ p ∈ writtenPairs text, ∃ field, (field = p.1 ∨ field = p.2) ∧
    ∃ bytes, StandsFor (utf8 field) bytes ∧ fromUtf8 bytes = none

/-! ## The decoder -/

theorem fromHex_iff {b : UInt8} {n : Nat} : fromHex b = .ok n ↔ HexDigit b n := by
  have hall : ∀ k < 256, ∀ n < 16,
      fromHex (UInt8.ofNat k) = .ok n ↔ HexDigit (UInt8.ofNat k) n := by decide +kernel
  have hlt : fromHex b = .ok n → n < 16 := by
    intro h
    rw [fromHex] at h
    split_ifs at h with h1 h2 h3
    · cases h
      have : b.toNat ≤ 57 := h1.2
      omega
    · cases h
      have : b.toNat ≤ 102 := h2.2
      omega
    · cases h
      have : b.toNat ≤ 70 := h3.2
      omega
  have hb := hall b.toNat b.toNat_lt n
  rw [UInt8.ofNat_toNat] at hb
  exact ⟨fun h => (hb (hlt h)).mp h, fun h => (hb h.1).mpr h⟩

theorem digits_byte {b : UInt8} {high low : Nat} (hlow : low < 16) :
    b = UInt8.ofNat ((high <<< 4) ||| low) ∧ high < 16 ↔
      high = b.toNat / 16 ∧ low = b.toNat % 16 := by
  have hor : (high <<< 4) ||| low = high * 16 + low := by
    rw [← Nat.shiftLeft_add_eq_or_of_lt hlow, Nat.shiftLeft_eq]
  have hlt : b.toNat < 256 := b.toNat_lt
  rw [hor, ← UInt8.toNat_inj, UInt8.toNat_ofNat']
  omega

theorem percentBytes_iff {t bytes : Bytes} : percentBytes t = .ok bytes ↔ StandsFor t bytes := by
  fun_induction percentBytes t generalizing bytes with
  | case1 =>
    constructor
    · intro h
      obtain rfl := pure_ok.mp h
      exact .nil
    · intro h
      cases h
      rfl
  | case2 high low rest ih =>
    constructor
    · intro h
      obtain ⟨m, hm, h⟩ := bind_ok.mp h
      obtain ⟨n, hn, h⟩ := bind_ok.mp h
      obtain ⟨decoded, hdecoded, h⟩ := bind_ok.mp h
      obtain rfl := pure_ok.mp h
      have hhigh := fromHex_iff.mp hm
      have hlow := fromHex_iff.mp hn
      obtain ⟨hm', hn'⟩ := (digits_byte hlow.1).mp ⟨rfl, hhigh.1⟩
      exact .escape (hm' ▸ hhigh) (hn' ▸ hlow) (ih.mp hdecoded)
    · intro h
      cases h with
      | escape hhigh hlow hrest =>
        refine bind_ok.mpr ⟨_, fromHex_iff.mpr hhigh, bind_ok.mpr ⟨_, fromHex_iff.mpr hlow, ?_⟩⟩
        refine bind_ok.mpr ⟨_, ih.mpr hrest, ?_⟩
        rw [← ((digits_byte hlow.1).mpr ⟨rfl, rfl⟩).1]
        rfl
      | literal hne => exact absurd rfl hne
  | case3 t hshort =>
    constructor
    · intro h
      cases h
    · intro h
      cases h with
      | escape => exact absurd rfl (hshort _ _ _)
      | literal hne => exact absurd rfl hne
  | case4 b rest hne hne' ih =>
    have hpercent : b ≠ 37 := hne'
    constructor
    · intro h
      obtain ⟨decoded, hdecoded, h⟩ := bind_ok.mp h
      obtain rfl := pure_ok.mp h
      split_ifs with hplus
      · rw [hplus]
        exact .plus (ih.mp hdecoded)
      · exact .literal hpercent hplus (ih.mp hdecoded)
    · intro h
      cases h with
      | plus hrest => exact bind_ok.mpr ⟨_, ih.mpr hrest, rfl⟩
      | escape => exact absurd rfl hpercent
      | literal _ hplus hrest =>
        refine bind_ok.mpr ⟨_, ih.mpr hrest, ?_⟩
        rw [if_neg hplus]
        rfl

theorem StandsFor.unique {t bytes bytes' : Bytes} (h : StandsFor t bytes)
    (h' : StandsFor t bytes') :
    bytes = bytes' :=
  Except.ok.inj ((percentBytes_iff.mpr h).symm.trans (percentBytes_iff.mpr h'))

theorem percentDecode_iff {s t : String} :
    percentDecode s = .ok t ↔ StandsFor (utf8 s) (utf8 t) := by
  constructor
  · intro h
    obtain ⟨bytes, hbytes, h⟩ := bind_ok.mp h
    rw [utf8_of_fromUtf8 (okOr_ok.mp h)]
    exact percentBytes_iff.mp hbytes
  · intro h
    refine bind_ok.mpr ⟨utf8 t, percentBytes_iff.mpr h, ?_⟩
    rw [fromUtf8_utf8]
    rfl

/-! ## Escapes -/

theorem HexDigit.ne {b : UInt8} {n : Nat} (h : HexDigit b n) : b ≠ 37 ∧ b ≠ 38 ∧ b ≠ 61 := by
  have hall : ∀ n < 16, ¬HexDigit 37 n ∧ ¬HexDigit 38 n ∧ ¬HexDigit 61 n := by decide
  obtain ⟨h37, h38, h61⟩ := hall n h.1
  exact ⟨fun heq => h37 (heq ▸ h), fun heq => h38 (heq ▸ h), fun heq => h61 (heq ▸ h)⟩

theorem not_badEscape_nil : ¬BadEscape [] := by
  intro ⟨before, after, heq, _⟩
  simp at heq

theorem badEscape_cons {b : UInt8} {t : Bytes} :
    BadEscape (b :: t) ↔ (b = 37 ∧ ¬HexPair t) ∨ BadEscape t := by
  constructor
  · intro ⟨before, after, heq, hpair⟩
    cases before with
    | nil =>
      obtain ⟨rfl, rfl⟩ := List.cons.inj heq
      exact Or.inl ⟨rfl, hpair⟩
    | cons b' before =>
      obtain ⟨-, rfl⟩ := List.cons.inj heq
      exact Or.inr ⟨before, after, rfl, hpair⟩
  · intro h
    rcases h with ⟨rfl, hpair⟩ | ⟨before, after, rfl, hpair⟩
    · exact ⟨[], t, rfl, hpair⟩
    · exact ⟨b :: before, after, rfl, hpair⟩

theorem hexPair_cons {high low : UInt8} {t : Bytes} :
    HexPair (high :: low :: t) ↔ (∃ n, HexDigit high n) ∧ ∃ n, HexDigit low n := by
  constructor
  · intro ⟨high', low', rest, heq, hhigh, hlow⟩
    cases heq
    exact ⟨hhigh, hlow⟩
  · intro ⟨hhigh, hlow⟩
    exact ⟨high, low, t, rfl, hhigh, hlow⟩

theorem exists_decoded_iff {t : Bytes} : (∃ bytes, StandsFor t bytes) ↔ ¬BadEscape t := by
  fun_induction percentBytes t with
  | case1 => exact iff_of_true ⟨[], .nil⟩ not_badEscape_nil
  | case2 high low rest ih =>
    rw [badEscape_cons, hexPair_cons]
    constructor
    · intro ⟨bytes, h⟩
      cases h with
      | escape hhigh hlow hrest =>
        rw [badEscape_cons, badEscape_cons]
        have := ih.mp ⟨_, hrest⟩
        simp [hhigh.ne, hlow.ne, this, Exists.intro _ hhigh, Exists.intro _ hlow]
      | literal hne => exact absurd rfl hne
    · intro h
      rw [badEscape_cons, badEscape_cons] at h
      simp only [true_and, not_or, not_not] at h
      obtain ⟨⟨⟨m, hhigh⟩, n, hlow⟩, -, -, hrest⟩ := h
      obtain ⟨bytes, hbytes⟩ := ih.mpr hrest
      obtain ⟨hm, hn⟩ := (digits_byte hlow.1).mp ⟨rfl, hhigh.1⟩
      exact ⟨_, .escape (hm ▸ hhigh) (hn ▸ hlow) hbytes⟩
  | case3 t hshort =>
    refine iff_of_false ?_ ?_
    · intro ⟨bytes, h⟩
      cases h with
      | escape => exact absurd rfl (hshort _ _ _)
      | literal hne => exact absurd rfl hne
    · rw [not_not, badEscape_cons]
      refine Or.inl ⟨rfl, ?_⟩
      intro ⟨high, low, rest, heq, _⟩
      exact hshort high low rest heq
  | case4 b rest hne hne' ih =>
    have hpercent : b ≠ 37 := hne'
    rw [badEscape_cons, or_iff_right (fun h => hpercent h.1), ← ih]
    constructor
    · intro ⟨bytes, h⟩
      cases h with
      | plus hrest => exact ⟨_, hrest⟩
      | escape => exact absurd rfl hpercent
      | literal _ _ hrest => exact ⟨_, hrest⟩
    · intro ⟨bytes, h⟩
      by_cases hplus : b = 43
      · rw [hplus]
        exact ⟨_, .plus h⟩
      · exact ⟨_, .literal hpercent hplus h⟩

theorem badEscape_append {separator : UInt8} (hseparator : separator ∈ [(38 : UInt8), 61])
    (l r : Bytes) : BadEscape (l ++ separator :: r) ↔ BadEscape l ∨ BadEscape r := by
  have hhex : ¬∃ n, HexDigit separator n := by
    intro ⟨n, hn⟩
    rcases List.mem_cons.mp hseparator with rfl | hmem
    · exact hn.ne.2.1 rfl
    · exact hn.ne.2.2 (List.mem_singleton.mp hmem)
  have hpercent : separator ≠ 37 := by
    intro heq
    subst heq
    exact absurd hseparator (by decide)
  induction l with
  | nil => simp [badEscape_cons, hpercent, not_badEscape_nil]
  | cons b l ih =>
    have hpair : HexPair (l ++ separator :: r) ↔ HexPair l := by
      cases l with
      | nil =>
        refine iff_of_false ?_ ?_
        · intro ⟨high, low, rest, heq, hhigh, _⟩
          obtain ⟨rfl, -⟩ := List.cons.inj heq
          exact hhex hhigh
        · intro ⟨high, low, rest, heq, _⟩
          cases heq
      | cons b' l =>
        cases l with
        | nil =>
          refine iff_of_false ?_ ?_
          · intro ⟨high, low, rest, heq, _, hlow⟩
            cases heq
            exact hhex hlow
          · intro ⟨high, low, rest, heq, _⟩
            cases heq
        | cons b'' l =>
          rw [List.cons_append, List.cons_append, hexPair_cons, hexPair_cons]
    rw [List.cons_append, badEscape_cons, badEscape_cons, hpair, or_assoc]
    exact or_congr_right ih

/-- A text that is cut at a separator has the escapes of its pieces. -/
theorem badEscape_joinWith (pieces : List String) :
    BadEscape (utf8 (joinWith "&" pieces)) ↔ ∃ piece ∈ pieces, BadEscape (utf8 piece) := by
  induction pieces with
  | nil => exact iff_of_false not_badEscape_nil (by simp)
  | cons piece rest ih =>
    cases rest with
    | nil => simp [joinWith]
    | cons piece' rest =>
      have hbytes : utf8 (joinWith "&" (piece :: piece' :: rest)) =
          utf8 piece ++ 38 :: utf8 (joinWith "&" (piece' :: rest)) := by
        rw [joinWith, utf8_append, utf8_append, List.append_assoc]
        rfl
      rw [hbytes, badEscape_append (by simp), ih]
      exact (List.exists_mem_cons_iff (fun piece => BadEscape (utf8 piece)) _ _).symm

theorem badEscape_cut (piece : String) :
    BadEscape (utf8 piece) ↔ BadEscape (utf8 ((splitOnce '=' piece).getD (piece, "")).1) ∨
      BadEscape (utf8 ((splitOnce '=' piece).getD (piece, "")).2) := by
  cases hcut : splitOnce '=' piece with
  | none =>
    have hempty : ¬BadEscape (utf8 "") := not_badEscape_nil
    rw [Option.getD_none]
    exact (or_iff_left hempty).symm
  | some cut =>
    obtain ⟨name, value⟩ := cut
    have hbytes : utf8 piece = utf8 name ++ 61 :: utf8 value := by
      rw [eq_of_splitOnce hcut, utf8_append, utf8_append, List.append_assoc]
      rfl
    rw [hbytes, badEscape_append (by simp), Option.getD_some]

/-- The escapes of a body are those of its names and values. -/
theorem badEscape_iff (text : String) :
    BadEscape (utf8 text) ↔
      ∃ p ∈ writtenPairs text, BadEscape (utf8 p.1) ∨ BadEscape (utf8 p.2) := by
  have hjoin : text = joinWith "&" (split '&' text) := (joinWith_split '&' text).symm
  have hpieces : BadEscape (utf8 text) ↔ ∃ piece ∈ split '&' text, BadEscape (utf8 piece) := by
    rw [← badEscape_joinWith, ← hjoin]
  rw [hpieces]
  constructor
  · intro ⟨piece, hpiece, hbad⟩
    refine ⟨_, List.mem_map_of_mem (List.mem_filter.mpr ⟨hpiece, ?_⟩),
      (badEscape_cut piece).mp hbad⟩
    -- A piece with nothing in it has no escape.
    rw [Bool.not_eq_true']
    refine Bool.eq_false_iff.mpr fun hempty => ?_
    rw [String.isEmpty_iff.mp hempty] at hbad
    exact not_badEscape_nil hbad
  · intro ⟨p, hp, hbad⟩
    obtain ⟨piece, hpiece, rfl⟩ := List.mem_map.mp hp
    exact ⟨piece, (List.mem_filter.mp hpiece).1, (badEscape_cut piece).mpr hbad⟩

/-! ## Pairs -/

/-- A written pair stands for a parameter. -/
def ReadsPair (written pair : String × String) : Prop :=
  StandsFor (utf8 written.1) (utf8 pair.1) ∧ StandsFor (utf8 written.2) (utf8 pair.2)

/-- Pairs are read when each stands for a parameter and no name comes twice. -/
theorem parsePairs_iff {pieces : List String} {form form' : Map String} :
    parsePairs pieces form = .ok form' ↔
      ∃ pairs, List.Forall₂ ReadsPair
          (pieces.map fun piece => (splitOnce '=' piece).getD (piece, "")) pairs ∧
        (pairs.map Prod.fst).Nodup ∧ (∀ q ∈ pairs, q.1 ∉ form) ∧ insertAll form pairs = form' := by
  induction pieces generalizing form with
  | nil =>
    constructor
    · intro h
      exact ⟨[], .nil, List.nodup_nil, by simp, pure_ok.mp h⟩
    · intro ⟨pairs, hpairs, _, _, h⟩
      cases hpairs
      exact pure_ok.mpr h
  | cons piece rest ih =>
    constructor
    · intro h
      obtain ⟨key, hkey, h⟩ := bind_ok.mp h
      obtain ⟨value, hvalue, h⟩ := bind_ok.mp h
      obtain ⟨_, hfresh, h⟩ := bind_ok.mp h
      obtain ⟨pairs, hpairs, hnodup, hnew, hform⟩ := ih.mp h
      refine ⟨(key, value) :: pairs, .cons ⟨percentDecode_iff.mp hkey, percentDecode_iff.mp hvalue⟩
        hpairs, ?_, ?_, hform⟩
      · rw [List.map_cons, List.nodup_cons]
        refine ⟨?_, hnodup⟩
        intro hmem
        obtain ⟨q, hq, heq⟩ := List.mem_map.mp hmem
        exact hnew q hq (Finmap.mem_insert.mpr (Or.inl heq))
      · intro q hq
        rcases List.mem_cons.mp hq with rfl | hq
        · exact ensure_ok.mp hfresh
        · exact fun hmem => hnew q hq (Finmap.mem_insert.mpr (Or.inr hmem))
    · intro ⟨pairs, hpairs, hnodup, hfresh, hform⟩
      rw [List.map_cons] at hpairs
      cases hpairs with
      | cons hpair hrest =>
        rename_i pair pairs
        rw [List.map_cons, List.nodup_cons] at hnodup
        refine bind_ok.mpr ⟨pair.1, percentDecode_iff.mpr hpair.1,
          bind_ok.mpr ⟨pair.2, percentDecode_iff.mpr hpair.2,
            bind_ok.mpr ⟨(), ensure_ok.mpr (hfresh pair List.mem_cons_self), ?_⟩⟩⟩
        refine ih.mpr ⟨pairs, hrest, hnodup.2, ?_, hform⟩
        intro q hq hmem
        rcases Finmap.mem_insert.mp hmem with heq | hmem
        · exact hnodup.1 (heq ▸ List.mem_map_of_mem hq)
        · exact hfresh q (List.mem_cons_of_mem _ hq) hmem

theorem parseForm_iff {body : Bytes} {form : Map String} :
    parseForm body = .ok form ↔ ∃ text, fromUtf8 body = some text ∧
      ∃ pairs, List.Forall₂ ReadsPair (writtenPairs text) pairs ∧
        (pairs.map Prod.fst).Nodup ∧ ofMembers pairs = form := by
  constructor
  · intro h
    obtain ⟨text, htext, h⟩ := bind_ok.mp h
    obtain ⟨pairs, hpairs, hnodup, -, hform⟩ := parsePairs_iff.mp h
    exact ⟨text, okOr_ok.mp htext, pairs, hpairs, hnodup, hform⟩
  · intro ⟨text, htext, pairs, hpairs, hnodup, hform⟩
    refine bind_ok.mpr
      ⟨text, okOr_ok.mpr htext, parsePairs_iff.mpr ⟨pairs, hpairs, hnodup, ?_, hform⟩⟩
    exact fun q _ => Finmap.notMem_empty

/-! ## Reading a spelling -/

theorem Spells.standsFor {reserved : List UInt8} {bytes t : Bytes} (hpercent : 37 ∈ reserved)
    (hplus : 43 ∈ reserved) (h : Spells reserved bytes t) : StandsFor t bytes := by
  induction h with
  | nil => exact .nil
  | literal hb _ ih =>
    exact .literal (fun heq => hb (heq ▸ hpercent)) (fun heq => hb (heq ▸ hplus)) ih
  | plus _ ih => exact .plus ih
  | escape hhigh hlow _ ih => exact .escape hhigh hlow ih

/-- A separator that is reserved is not written. -/
theorem Spells.notMem {reserved : List UInt8} {bytes t : Bytes} {separator : UInt8}
    (hseparator : separator ∈ [(38 : UInt8), 61]) (hreserved : separator ∈ reserved)
    (h : Spells reserved bytes t) : separator ∉ t := by
  have hhex : ∀ {b : UInt8} {n : Nat}, HexDigit b n → separator ≠ b := by
    intro b n hb heq
    rw [heq] at hseparator
    rcases List.mem_cons.mp hseparator with hmem | hmem
    · exact hb.ne.2.1 hmem
    · exact hb.ne.2.2 (List.mem_singleton.mp hmem)
  have hmarks : separator ≠ 37 ∧ separator ≠ 43 := by
    rcases List.mem_cons.mp hseparator with rfl | hmem
    · decide
    · rw [List.mem_singleton.mp hmem]
      decide
  induction h with
  | nil => exact List.not_mem_nil
  | literal hb _ ih =>
    rw [List.mem_cons, not_or]
    exact ⟨fun heq => hb (heq ▸ hreserved), ih⟩
  | plus _ ih =>
    rw [List.mem_cons, not_or]
    exact ⟨hmarks.2, ih⟩
  | escape hhigh hlow _ ih =>
    rw [List.mem_cons, List.mem_cons, List.mem_cons, not_or, not_or, not_or]
    exact ⟨hmarks.1, hhex hhigh, hhex hlow, ih⟩

/-- A piece that spells a pair is cut where it was joined, and stands for the pair. -/
theorem SpellsPair.cut {pair : String × String} {piece : String} (h : SpellsPair pair piece) :
    piece ≠ "" ∧ '&' ∉ piece.toList ∧
      ReadsPair ((splitOnce '=' piece).getD (piece, "")) pair := by
  obtain ⟨name, value, rfl, hname, hvalue⟩ := h
  have hequals : (61 : UInt8) ∉ utf8 name := hname.notMem (by decide) (by decide)
  have hand : (38 : UInt8) ∉ utf8 name := hname.notMem (by decide) (by decide)
  have hand' : (38 : UInt8) ∉ utf8 value := hvalue.notMem (by decide) (by decide)
  have hequals : '=' ∉ name.toList := notMem_of_byte_notMem (by decide) hequals
  have hand : '&' ∉ name.toList := notMem_of_byte_notMem (by decide) hand
  have hand' : '&' ∉ value.toList := notMem_of_byte_notMem (by decide) hand'
  refine ⟨?_, ?_, ?_⟩
  · intro hempty
    have hlength := congrArg (fun s : String => s.toList.length) hempty
    simp at hlength
  · simp [String.toList_append, hand, hand']
  · rw [splitOnce_append hequals value rfl, Option.getD_some]
    exact ⟨hname.standsFor (by decide) (by decide), hvalue.standsFor (by decide) (by decide)⟩

theorem exists_of_forall₂ {α β : Type} {R : α → β → Prop} {l : List α} {l' : List β} {a : α}
    (h : List.Forall₂ R l l') (ha : a ∈ l) : ∃ b ∈ l', R a b := by
  induction h with
  | nil => cases ha
  | cons hab _ ih =>
    rcases List.mem_cons.mp ha with rfl | ha
    · exact ⟨_, List.mem_cons_self, hab⟩
    · obtain ⟨b, hb, hrel⟩ := ih ha
      exact ⟨b, List.mem_cons_of_mem _ hb, hrel⟩

/-- Pieces that are joined are cut again. -/
theorem writtenPairs_joinWith {pieces : List String}
    (h : ∀ piece ∈ pieces, piece ≠ "" ∧ '&' ∉ piece.toList) :
    writtenPairs (joinWith "&" pieces) =
      pieces.map fun piece => (splitOnce '=' piece).getD (piece, "") := by
  have hpieces : (split '&' (joinWith "&" pieces)).filter (fun pair => !pair.isEmpty) = pieces := by
    cases pieces with
    | nil => rfl
    | cons piece rest =>
      have hsplit : split '&' (joinWith "&" (piece :: rest)) = piece :: rest :=
        split_eq_iff.mpr ⟨rfl, fun p hp => (h p hp).2⟩
      rw [hsplit, List.filter_eq_self]
      intro p hp
      rw [Bool.not_eq_true']
      exact Bool.eq_false_iff.mpr fun hempty => (h p hp).1 (String.isEmpty_iff.mp hempty)
  rw [writtenPairs, hpieces]

theorem parseForm_serialised {form : Map String} {text : String} (h : Serialises form text) :
    parseForm (utf8 text) = .ok form := by
  obtain ⟨pairs, pieces, hnodup, hform, hspells, rfl⟩ := h
  refine parseForm_iff.mpr ⟨_, fromUtf8_utf8 _, pairs, ?_, hnodup, hform⟩
  have hcut : ∀ piece ∈ pieces, piece ≠ "" ∧ '&' ∉ piece.toList := by
    intro piece hpiece
    obtain ⟨pair, -, hpair⟩ : ∃ pair ∈ pairs, SpellsPair pair piece :=
      exists_of_forall₂ hspells.flip hpiece
    exact ⟨hpair.cut.1, hpair.cut.2.1⟩
  rw [writtenPairs_joinWith hcut, List.forall₂_map_left_iff]
  exact (hspells.imp fun pair piece hpair => hpair.cut.2.2).flip

/-! ## What is refused -/

/-- A field that is not read has an escape that is none, or is not text. -/
theorem not_read_iff {field : String} :
    (¬∃ t : String, StandsFor (utf8 field) (utf8 t)) ↔ BadEscape (utf8 field) ∨
      ∃ bytes, StandsFor (utf8 field) bytes ∧ fromUtf8 bytes = none := by
  constructor
  · intro h
    by_cases hbad : BadEscape (utf8 field)
    · exact Or.inl hbad
    · obtain ⟨bytes, hbytes⟩ := exists_decoded_iff.mpr hbad
      refine Or.inr ⟨bytes, hbytes, ?_⟩
      cases htext : fromUtf8 bytes with
      | none => rfl
      | some t => exact absurd ⟨t, utf8_of_fromUtf8 htext ▸ hbytes⟩ h
  · intro h ⟨t, ht⟩
    rcases h with hbad | ⟨bytes, hbytes, hnone⟩
    · exact exists_decoded_iff.mp ⟨_, ht⟩ hbad
    · rw [hbytes.unique ht, fromUtf8_utf8] at hnone
      cases hnone

/-- Written pairs that are all read stand for some parameters. -/
theorem exists_pairs {written : List (String × String)}
    (h : ∀ p ∈ written, ∀ field, (field = p.1 ∨ field = p.2) →
      ∃ t : String, StandsFor (utf8 field) (utf8 t)) :
    ∃ pairs, List.Forall₂ ReadsPair written pairs := by
  induction written with
  | nil => exact ⟨[], .nil⟩
  | cons p rest ih =>
    obtain ⟨name, hname⟩ := h p List.mem_cons_self p.1 (Or.inl rfl)
    obtain ⟨value, hvalue⟩ := h p List.mem_cons_self p.2 (Or.inr rfl)
    obtain ⟨pairs, hpairs⟩ := ih fun q hq => h q (List.mem_cons_of_mem _ hq)
    exact ⟨(name, value) :: pairs, .cons ⟨hname, hvalue⟩ hpairs⟩

theorem nodup_iff {written pairs : List (String × String)}
    (h : List.Forall₂ ReadsPair written pairs) :
    (pairs.map Prod.fst).Nodup ↔ written.Pairwise fun p q =>
      ¬∃ name, StandsFor (utf8 p.1) name ∧ StandsFor (utf8 q.1) name := by
  induction h with
  | nil => simp
  | @cons p pair written pairs hpair hrest ih =>
    rw [List.map_cons, List.nodup_cons, List.pairwise_cons, ih]
    refine and_congr_left fun _ => ?_
    constructor
    · intro hfresh q hq ⟨name, hp, hq'⟩
      obtain ⟨r, hr, hread⟩ := exists_of_forall₂ hrest hq
      have hname : pair.1 = r.1 :=
        utf8_injective ((hpair.1.unique hp).trans (hread.1.unique hq').symm)
      exact hfresh (hname ▸ List.mem_map_of_mem hr)
    · intro hdiffer hmem
      obtain ⟨r, hr, heq⟩ := List.mem_map.mp hmem
      obtain ⟨q, hq, hread⟩ := exists_of_forall₂ hrest.flip hr
      exact hdiffer q hq ⟨utf8 pair.1, hpair.1, heq ▸ hread.1⟩

/-- **Forms are read back, and nothing else is.** A form that is serialised, its parameters in any
order and each byte as it is, escaped, or a space as `+`, is read as that form; and a body is
refused exactly when it is not UTF-8, has two pairs of one name, has a `%` without two hex digits,
or has a name or a value that does not decode to UTF-8. -/
theorem form_read_back :
    (∀ form text, Serialises form text → parseForm (utf8 text) = .ok form) ∧
    ∀ body, (∃ e, parseForm body = .error e) ↔
      fromUtf8 body = none ∨ ∃ text, fromUtf8 body = some text ∧
        (NamedTwice text ∨ BadEscape body ∨ NotText text) := by
  refine ⟨fun form text => parseForm_serialised, ?_⟩
  intro body
  have hrefused : (∃ e, parseForm body = .error e) ↔ ¬∃ form, parseForm body = .ok form := by
    cases h : parseForm body with
    | ok form => simp
    | error e => simp
  rw [hrefused]
  cases htext : fromUtf8 body with
  | none =>
    refine iff_of_true ?_ (Or.inl rfl)
    intro ⟨form, h⟩
    obtain ⟨text, hsome, -⟩ := parseForm_iff.mp h
    cases htext.symm.trans hsome
  | some text =>
    have hbody : body = utf8 text := (utf8_of_fromUtf8 htext).symm
    constructor
    · intro h
      by_cases hread : ∀ p ∈ writtenPairs text, ∀ field, (field = p.1 ∨ field = p.2) →
          ∃ t : String, StandsFor (utf8 field) (utf8 t)
      · -- Every part is read, so two names are the same.
        obtain ⟨pairs, hpairs⟩ := exists_pairs hread
        have htwice : ¬(pairs.map Prod.fst).Nodup := fun hnodup =>
          h ⟨_, parseForm_iff.mpr ⟨text, htext, pairs, hpairs, hnodup, rfl⟩⟩
        rw [nodup_iff hpairs, List.pairwise_iff_forall_sublist] at htwice
        push Not at htwice
        obtain ⟨p, q, hsub, hname⟩ := htwice
        exact Or.inr ⟨text, rfl, Or.inl ⟨p, q, hsub, hname⟩⟩
      · push Not at hread
        obtain ⟨p, hp, field, hfield, hnone⟩ := hread
        refine Or.inr ⟨text, rfl, Or.inr ?_⟩
        rcases not_read_iff.mp fun ⟨t, ht⟩ => hnone t ht with hbad | hbytes
        · left
          rw [hbody, badEscape_iff]
          rcases hfield with rfl | rfl
          · exact ⟨p, hp, Or.inl hbad⟩
          · exact ⟨p, hp, Or.inr hbad⟩
        · exact Or.inr ⟨p, hp, field, hfield, hbytes⟩
    · intro h ⟨form, hform⟩
      obtain ⟨text', hsome, pairs, hpairs, hnodup, -⟩ := parseForm_iff.mp hform
      cases htext.symm.trans hsome
      -- Whatever part of a pair is asked about was read.
      have hread : ∀ p ∈ writtenPairs text, ∀ field, (field = p.1 ∨ field = p.2) →
          ∃ t : String, StandsFor (utf8 field) (utf8 t) := by
        intro p hp field hfield
        obtain ⟨pair, -, hpair⟩ := exists_of_forall₂ hpairs hp
        rcases hfield with rfl | rfl
        · exact ⟨pair.1, hpair.1⟩
        · exact ⟨pair.2, hpair.2⟩
      rcases h with hnone | ⟨text', hsome, htwice | hbad | ⟨p, hp, field, hfield, hbytes⟩⟩
      · cases hnone
      · cases hsome
        obtain ⟨p, q, hsub, hname⟩ := htwice
        exact List.pairwise_iff_forall_sublist.mp ((nodup_iff hpairs).mp hnodup) hsub hname
      · rw [hbody, badEscape_iff] at hbad
        obtain ⟨p, hp, hbad | hbad⟩ := hbad
        · exact not_read_iff.mpr (Or.inl hbad) (hread p hp p.1 (Or.inl rfl))
        · exact not_read_iff.mpr (Or.inl hbad) (hread p hp p.2 (Or.inr rfl))
      · cases hsome
        exact not_read_iff.mpr (Or.inr hbytes) (hread p hp field hfield)

/-- A spelling with a space and an escape. -/
example : Serialises (ofMembers [("a b", "c&d")]) "a+b=c%26d" := by
  refine ⟨[("a b", "c&d")], ["a+b=c%26d"], by decide, rfl, .cons ⟨"a+b", "c%26d", rfl, ?_, ?_⟩ .nil,
    rfl⟩
  · show Spells nameReserved [97, 32, 98] [97, 43, 98]
    exact .literal (by decide) (.plus (.literal (by decide) .nil))
  · show Spells valueReserved [99, 38, 100] [99, 37, 50, 54, 100]
    exact .literal (by decide) (.escape (by decide) (by decide) (.literal (by decide) .nil))

end PicX.Realm
