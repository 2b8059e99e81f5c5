import Mathlib.Logic.Function.Basic
import PicX.Audit.Civil
import PicX.Audit.Event
import PicX.Keys.Core

/-!
# Records and seals (`audit/file.rs`)

A line of the trail is a record: a body and the digest of that body, which the next record names
as its predecessor. A seal attests to how many records the whole trail held at some point and to
the digest of the last of them.

`serde_json` and `sha2` are not part of the repository. What the sink takes from them is the
structure `Crates`, and what it relies on is `Crates.Lawful`. Serialising one of these structures
cannot fail (they hold strings, numbers and options only), so those fields are total.
-/

namespace PicX.Audit

open PicX

/-- What a file of records is called, either side of the date. -/
def PREFIX : String := "audit-"

def SUFFIX : String := ".jsonl"

/-- What a seal is called, beside the day it closes. -/
def SEAL_SUFFIX : String := ".seal"

/-- The digest the first record of a trail names as its predecessor. -/
def GENESIS : String := "0000000000000000000000000000000000000000000000000000000000000000"

/-- Everything a record says, and the only thing the digest covers. `time` is the source's `at`. -/
structure Body where
  seq : Nat
  time : String
  prev : String
  action : String
  subject : String
  subjectKind : String
  subjectSensitivity : String
  target : Option String
  continuityId : Option String
  continuityPosition : Option Nat
  service : String
  version : String
  deriving DecidableEq, Repr

/-- One line of the trail. -/
structure Record where
  body : Body
  digest : String
  deriving DecidableEq, Repr

/-- What a seal attests to. -/
structure SealBody where
  day : String
  time : String
  records : Nat
  head : String
  deriving DecidableEq, Repr

/-- A statement about the trail that can leave the machine and still be checked. -/
structure Seal where
  body : SealBody
  kid : Option String
  algorithm : Option String
  signature : Option String
  deriving DecidableEq, Repr

/-- What the trail takes from `serde_json` and `sha2`. -/
structure Crates where
  bodyToVec : Body → Bytes
  recordToString : Record → String
  recordFromStr : String → Except String Record
  sealBodyToVec : SealBody → Bytes
  sealToStringPretty : Seal → String
  sealFromStr : String → Except String Seal
  sha256 : Bytes → Bytes

/-- What the sink relies on: what is written reads back, a compact text is one line that opens
with a brace, and a parser accepts one value and nothing after it. -/
structure Crates.Lawful (c : Crates) : Prop where
  recordFromStr_recordToString : ∀ r, c.recordFromStr (c.recordToString r) = .ok r
  recordToString_oneLine : ∀ r, OneLine (c.recordToString r)
  recordToString_head : ∀ r, ∃ rest, c.recordToString r = "\x7b" ++ rest
  recordFromStr_trailing : ∀ r s, blank s = false → ∃ e,
    c.recordFromStr (c.recordToString r ++ s) = .error e
  sealFromStr_sealToStringPretty : ∀ s, c.sealFromStr (c.sealToStringPretty s) = .ok s

variable (c : Crates)

/-- The digest `body` should have. -/
def expectedDigest (body : Body) : String := hex (c.sha256 (c.bodyToVec body))

/-- The exact bytes a signature covers. -/
def Seal.signedBytes (s : Seal) : Bytes := c.sealBodyToVec s.body

variable {c}

/-- When hashing and serialising are injective, the digest of a body determines it. -/
theorem expectedDigest_injective (hsha : Function.Injective c.sha256)
    (hvec : Function.Injective c.bodyToVec) : Function.Injective (expectedDigest c) :=
  hex_injective.comp (hsha.comp hvec)

/-! ## File names -/

/-- The name of the file that holds the records of a day. -/
def fileName (day : Int) : String := PREFIX ++ (Civil.dateOf day).toIso ++ SUFFIX

/-- The name of the seal of a day. -/
def sealName (day : Int) : String := PREFIX ++ (Civil.dateOf day).toIso ++ SEAL_SUFFIX

/-- Which day a file holds records for, or nothing when it is not one of ours. -/
def dayOfFile (name : String) : Option Int := do
  let date ← stripPrefix PREFIX name
  let date ← stripSuffix SUFFIX date
  (Civil.Date.fromIso date).map Civil.daysOf

/-- The days a clock can read: from the epoch on, and within `i64` seconds. -/
def Readable (day : Int) : Prop := 0 ≤ day ∧ day < 2 ^ 47

theorem Readable.fits {day : Int} (h : Readable day) : Civil.Fits day := by
  obtain ⟨h0, h1⟩ := h
  have : Civil.EPOCH_SHIFT = 719468 := rfl
  constructor <;> omega

theorem fromIso_dateOf {day : Int} (h : Readable day) :
    Civil.Date.fromIso (Civil.dateOf day).toIso = some (Civil.dateOf day) := by
  obtain ⟨h0, h1⟩ := Civil.dateOf_year_bounds h.fits h.1
  obtain ⟨hmonth, hday⟩ := Civil.dateOf_range h.fits
  have hlt : (Civil.dateOf day).year < 2 ^ 63 := by
    have := h.2
    have : Civil.EPOCH_SHIFT = 719468 := rfl
    omega
  exact Civil.fromIso_toIso h0 hlt hmonth hday

/-- **The name of a day's file reads back as that day.** -/
theorem dayOfFile_fileName {day : Int} (h : Readable day) :
    dayOfFile (fileName day) = some day := by
  have hname : fileName day = PREFIX ++ ((Civil.dateOf day).toIso ++ SUFFIX) := String.append_assoc
  simp only [dayOfFile, hname, stripPrefix_append, stripSuffix_append, Option.bind_eq_bind,
    Option.bind_some, fromIso_dateOf h, Option.map_some, Civil.daysOf_dateOf h.fits]

theorem fileName_injOn {d d' : Int} (h : Readable d) (h' : Readable d')
    (heq : fileName d = fileName d') : d = d' := by
  have := dayOfFile_fileName h
  rw [heq, dayOfFile_fileName h'] at this
  exact (Option.some.inj this).symm

/-- A seal is not a file of records. -/
theorem dayOfFile_sealName (day : Int) : dayOfFile (sealName day) = none := by
  have hname : sealName day = PREFIX ++ ((Civil.dateOf day).toIso ++ SEAL_SUFFIX) :=
    String.append_assoc
  have hsuffix : ∀ s : String, stripSuffix SUFFIX (s ++ SEAL_SUFFIX) = none := by
    intro s
    rw [stripSuffix, if_neg]
    rw [List.isSuffixOf_iff_suffix, String.toList_append, ← List.reverse_prefix,
      List.reverse_append]
    simp [SUFFIX, SEAL_SUFFIX]
  simp only [dayOfFile, hname, stripPrefix_append, hsuffix, Option.bind_eq_bind,
    Option.bind_some, Option.bind_none]

theorem fileName_ne_sealName {d : Int} (h : Readable d) (d' : Int) : fileName d ≠ sealName d' :=
  fun heq => by simpa [heq, dayOfFile_sealName] using dayOfFile_fileName h

theorem sealName_injOn {d d' : Int} (heq : sealName d = sealName d') (h : Readable d)
    (h' : Readable d') : d = d' := by
  refine fileName_injOn h h' ?_
  have : (Civil.dateOf d).toIso = (Civil.dateOf d').toIso := by
    have hl := congrArg String.toList heq
    simp only [sealName, String.toList_append, List.append_cancel_right_eq,
      List.append_cancel_left_eq] at hl
    exact String.toList_injective hl
  rw [fileName, fileName, this]

end PicX.Audit
