import PicX.Audit.Record
import PicX.Base.Chain
import PicX.Base.Json

/-!
# The texts `serde_json` writes for records and seals

A concrete `Crates`: records compact and in the order of their fields, an absent option left out;
seals pretty, two spaces a level. The readers accept exactly these texts. The hash is a parameter.

* `serde_lawful` — this instance does what the sink relies on, whatever the hash.
* `serde_sealsWhole` — a seal cut short does not read as another one.
* `bodyToVec_injective` — two bodies never serialise to the same bytes.
* `firstRecord` — a record with its SHA-256 digest, for the concrete runs of other modules.
-/

namespace PicX.Audit

open PicX Json

/-! ## Bodies and records -/

/-- What stands between two values of an object: a comma, the key and a colon. -/
def member (name : String) : List Char := ',' :: '"' :: name.toList ++ ['"', ':']

/-- What stands before the first value of an object. -/
def firstMember (name : String) : List Char := '{' :: '"' :: name.toList ++ ['"', ':']

def writeBody (b : Body) : List Char :=
  List.flatten
    [firstMember "seq", writeNat b.seq, member "at", writeString b.time,
      member "prev", writeString b.prev, member "action", writeString b.action,
      member "subject", writeString b.subject, member "subject_kind", writeString b.subjectKind,
      member "subject_sensitivity", writeString b.subjectSensitivity,
      writeOptional (member "target") writeString b.target,
      writeOptional (member "continuity_id") writeString b.continuityId,
      writeOptional (member "continuity_position") writeNat b.continuityPosition,
      member "service", writeString b.service, member "version", writeString b.version, ['}']]

def readBody (s : List Char) : Option (Body × List Char) := do
  let s ← expect (firstMember "seq") s
  let (seq, s) ← readNat s
  let s ← expect (member "at") s
  let (time, s) ← readString s
  let s ← expect (member "prev") s
  let (prev, s) ← readString s
  let s ← expect (member "action") s
  let (action, s) ← readString s
  let s ← expect (member "subject") s
  let (subject, s) ← readString s
  let s ← expect (member "subject_kind") s
  let (subjectKind, s) ← readString s
  let s ← expect (member "subject_sensitivity") s
  let (subjectSensitivity, s) ← readString s
  let (target, s) ← readOptional (member "target") readString s
  let (continuityId, s) ← readOptional (member "continuity_id") readString s
  let (continuityPosition, s) ← readOptional (member "continuity_position") readNat s
  let s ← expect (member "service") s
  let (service, s) ← readString s
  let s ← expect (member "version") s
  let (version, s) ← readString s
  let s ← expect ['}'] s
  return ({ seq, time, prev, action, subject, subjectKind, subjectSensitivity, target,
            continuityId, continuityPosition, service, version }, s)

def writeRecord (r : Record) : List Char :=
  List.flatten
    [firstMember "body", writeBody r.body, member "digest", writeString r.digest, ['}']]

def readRecord (s : List Char) : Option (Record × List Char) := do
  let s ← expect (firstMember "body") s
  let (body, s) ← readBody s
  let s ← expect (member "digest") s
  let (digest, s) ← readString s
  let s ← expect ['}'] s
  return ({ body, digest }, s)

theorem readNat_member (n : Nat) (name : String) (s : List Char) :
    readNat (writeNat n ++ (member name ++ s)) = some (n, member name ++ s) :=
  readNat_writeNat n ',' _ rfl

/-! The members that may be missing, each told apart from every one that can follow. -/

theorem readOptional_position (p : Option Nat) (s : List Char) :
    readOptional (member "continuity_position") readNat
      (writeOptional (member "continuity_position") writeNat p ++ (member "service" ++ s)) =
      some (p, member "service" ++ s) :=
  readOptional_writeOptional (fun a => readNat_member a _ _) (expect_of_diverge (by decide) _) p

theorem readOptional_id (i : Option String) (p : Option Nat) (s : List Char) :
    readOptional (member "continuity_id") readString
      (writeOptional (member "continuity_id") writeString i ++
        (writeOptional (member "continuity_position") writeNat p ++ (member "service" ++ s))) =
      some (i, writeOptional (member "continuity_position") writeNat p ++
        (member "service" ++ s)) :=
  readOptional_writeOptional (fun a => readString_writeString a _)
    (expect_writeOptional (by decide) (expect_of_diverge (by decide) _) p) i

theorem readOptional_target (t i : Option String) (p : Option Nat) (s : List Char) :
    readOptional (member "target") readString
      (writeOptional (member "target") writeString t ++
        (writeOptional (member "continuity_id") writeString i ++
          (writeOptional (member "continuity_position") writeNat p ++ (member "service" ++ s)))) =
      some (t, writeOptional (member "continuity_id") writeString i ++
        (writeOptional (member "continuity_position") writeNat p ++ (member "service" ++ s))) :=
  readOptional_writeOptional (fun a => readString_writeString a _)
    (expect_writeOptional (by decide)
      (expect_writeOptional (by decide) (expect_of_diverge (by decide) _) p) i) t

theorem readBody_writeBody (b : Body) (s : List Char) :
    readBody (writeBody b ++ s) = some (b, s) := by
  simp only [readBody, writeBody, List.flatten_cons, List.flatten_nil, List.append_nil,
    List.append_assoc]
  rw [expect_bind, readNat_member, some_bind]
  iterate 6 rw [expect_bind, readString_bind]
  rw [readOptional_target, some_bind, readOptional_id, some_bind, readOptional_position, some_bind,
    expect_bind, readString_bind, expect_bind, readString_bind, expect_bind]
  rfl

theorem readRecord_writeRecord (r : Record) (s : List Char) :
    readRecord (writeRecord r ++ s) = some (r, s) := by
  simp only [readRecord, writeRecord, List.flatten_cons, List.flatten_nil, List.append_nil,
    List.append_assoc]
  rw [expect_bind, readBody_writeBody, some_bind, expect_bind, readString_bind, expect_bind]
  rfl

theorem printable_of_all {cs : List Char} (h : (cs.all fun ch => 0x20 ≤ ch.toNat) = true) :
    ∀ ch ∈ cs, 0x20 ≤ ch.toNat := by
  simpa using h

theorem oneLine_writeBody (b : Body) : ∀ ch ∈ writeBody b, 0x20 ≤ ch.toNat := by
  have hm (name : String) (h : ∀ ch ∈ name.toList, 0x20 ≤ ch.toNat) :
      ∀ ch ∈ member name, 0x20 ≤ ch.toNat := by
    simpa [member, or_imp, forall_and] using h
  have hs := oneLine_writeString
  have ho (name : String) (h : ∀ ch ∈ name.toList, 0x20 ≤ ch.toNat) (o : Option String) :
      ∀ ch ∈ writeOptional (member name) writeString o, 0x20 ≤ ch.toNat :=
    oneLine_writeOptional (hm name h) hs o
  intro ch hch
  simp only [writeBody, List.mem_flatten, List.mem_cons, List.not_mem_nil, or_false] at hch
  obtain ⟨piece, hpiece, hch⟩ := hch
  rcases hpiece with rfl | rfl | rfl | rfl | rfl | rfl | rfl | rfl | rfl | rfl | rfl | rfl | rfl |
    rfl | rfl | rfl | rfl | rfl | rfl | rfl | rfl | rfl
  case inl => exact printable_of_all (by decide) ch hch
  all_goals first
    | exact hs _ ch hch
    | exact oneLine_writeNat _ ch hch
    | exact ho _ (printable_of_all (by decide)) _ ch hch
    | exact oneLine_writeOptional (hm _ (printable_of_all (by decide))) oneLine_writeNat _ ch hch
    | exact hm _ (printable_of_all (by decide)) ch hch
    | simpa using List.mem_singleton.mp hch ▸ (by decide : 0x20 ≤ ('}').toNat)

theorem oneLine_writeRecord (r : Record) : ∀ ch ∈ writeRecord r, 0x20 ≤ ch.toNat := by
  simp only [writeRecord, List.flatten_cons, List.flatten_nil, List.append_nil,
    List.forall_mem_append]
  exact ⟨printable_of_all (by decide), oneLine_writeBody _, printable_of_all (by decide),
    oneLine_writeString _, printable_of_all (by decide)⟩

/-! ## Seals -/

/-- A key at the given depth of a pretty object, on a line of its own. -/
def prettyMember (opening : Char) (depth : Nat) (name : String) : List Char :=
  opening :: '\n' :: List.replicate (2 * depth) ' ' ++ '"' :: name.toList ++ ['"', ':', ' ']

def writeSealBody (b : SealBody) : List Char :=
  List.flatten
    [firstMember "day", writeString b.day, member "at", writeString b.time,
      member "records", writeNat b.records, member "head", writeString b.head, ['}']]

def writeSeal (s : Seal) : List Char :=
  List.flatten
    [prettyMember '{' 1 "body", prettyMember '{' 2 "day", writeString s.body.day,
      prettyMember ',' 2 "at", writeString s.body.time,
      prettyMember ',' 2 "records", writeNat s.body.records,
      prettyMember ',' 2 "head", writeString s.body.head, "\n  \x7d".toList,
      writeOptional (prettyMember ',' 1 "kid") writeString s.kid,
      writeOptional (prettyMember ',' 1 "algorithm") writeString s.algorithm,
      writeOptional (prettyMember ',' 1 "signature") writeString s.signature, "\n\x7d".toList]

def readSealText (s : List Char) : Option (Seal × List Char) := do
  let s ← expect (prettyMember '{' 1 "body") s
  let s ← expect (prettyMember '{' 2 "day") s
  let (day, s) ← readString s
  let s ← expect (prettyMember ',' 2 "at") s
  let (time, s) ← readString s
  let s ← expect (prettyMember ',' 2 "records") s
  let (records, s) ← readNat s
  let s ← expect (prettyMember ',' 2 "head") s
  let (head, s) ← readString s
  let s ← expect "\n  \x7d".toList s
  let (kid, s) ← readOptional (prettyMember ',' 1 "kid") readString s
  let (algorithm, s) ← readOptional (prettyMember ',' 1 "algorithm") readString s
  let (signature, s) ← readOptional (prettyMember ',' 1 "signature") readString s
  let s ← expect "\n\x7d".toList s
  return ({ body := { day, time, records, head }, kid, algorithm, signature }, s)

theorem readOptional_signature (g : Option String) (s : List Char) :
    readOptional (prettyMember ',' 1 "signature") readString
      (writeOptional (prettyMember ',' 1 "signature") writeString g ++ ("\n\x7d".toList ++ s)) =
      some (g, "\n\x7d".toList ++ s) :=
  readOptional_writeOptional (fun a => readString_writeString a _)
    (expect_of_diverge (by decide) _) g

theorem readOptional_algorithm (a g : Option String) (s : List Char) :
    readOptional (prettyMember ',' 1 "algorithm") readString
      (writeOptional (prettyMember ',' 1 "algorithm") writeString a ++
        (writeOptional (prettyMember ',' 1 "signature") writeString g ++ ("\n\x7d".toList ++ s))) =
      some (a, writeOptional (prettyMember ',' 1 "signature") writeString g ++
        ("\n\x7d".toList ++ s)) :=
  readOptional_writeOptional (fun a => readString_writeString a _)
    (expect_writeOptional (by decide) (expect_of_diverge (by decide) _) g) a

theorem readOptional_kid (k a g : Option String) (s : List Char) :
    readOptional (prettyMember ',' 1 "kid") readString
      (writeOptional (prettyMember ',' 1 "kid") writeString k ++
        (writeOptional (prettyMember ',' 1 "algorithm") writeString a ++
          (writeOptional (prettyMember ',' 1 "signature") writeString g ++
            ("\n\x7d".toList ++ s)))) =
      some (k, writeOptional (prettyMember ',' 1 "algorithm") writeString a ++
        (writeOptional (prettyMember ',' 1 "signature") writeString g ++ ("\n\x7d".toList ++ s))) :=
  readOptional_writeOptional (fun a => readString_writeString a _)
    (expect_writeOptional (by decide)
      (expect_writeOptional (by decide) (expect_of_diverge (by decide) _) g) a) k

theorem readSealText_writeSeal (sl : Seal) (s : List Char) :
    readSealText (writeSeal sl ++ s) = some (sl, s) := by
  have hrecords (rest : List Char) :
      readNat (writeNat sl.body.records ++ (prettyMember ',' 2 "head" ++ rest)) =
        some (sl.body.records, prettyMember ',' 2 "head" ++ rest) :=
    readNat_writeNat _ ',' _ rfl
  simp only [readSealText, writeSeal, List.flatten_cons, List.flatten_nil, List.append_nil,
    List.append_assoc]
  rw [expect_bind, expect_bind, readString_bind, expect_bind, readString_bind, expect_bind,
    hrecords, some_bind, expect_bind, readString_bind, expect_bind, readOptional_kid, some_bind,
    readOptional_algorithm, some_bind, readOptional_signature, some_bind, expect_bind]
  rfl

/-- A seal that was read is read as the same one when the text goes on. -/
theorem readSealText_more : Settled readSealText := by
  intro s sl rest h t
  simp only [readSealText, Option.bind_eq_bind, Option.bind_eq_some_iff, Prod.exists] at h
  obtain ⟨s₁, h₁, s₂, h₂, day, s₃, h₃, s₄, h₄, time, s₅, h₅, s₆, h₆, records, s₇, h₇, s₈, h₈,
    head, s₉, h₉, s₁₀, h₁₀, kid, s₁₁, h₁₁, algorithm, s₁₂, h₁₂, signature, s₁₃, h₁₃, s₁₄, h₁₄,
    h⟩ := h
  obtain ⟨rfl, rfl⟩ := Prod.mk.inj (Option.some.inj h)
  obtain ⟨ch, s₇', hs₇⟩ : ∃ ch s', s₇ = ch :: s' := ⟨_, _, expect_eq_some h₈⟩
  have hsignature := opens_of_expect h₁₄
  have halgorithm := readOptional_opens h₁₃ hsignature
  have hkid := readOptional_opens h₁₂ halgorithm
  rw [hs₇] at h₇
  have h₇' := readNat_more h₇ t
  rw [← hs₇] at h₇'
  simp only [readSealText, some_bind, expect_more h₁, expect_more h₂, readString_more h₃,
    expect_more h₄, readString_more h₅, expect_more h₆, h₇', expect_more h₈, readString_more h₉,
    expect_more h₁₀, readOptional_more readString_more h₁₁ hkid (by decide),
    readOptional_more readString_more h₁₂ halgorithm (by decide),
    readOptional_more readString_more h₁₃ hsignature (by decide), expect_more h₁₄]
  rfl

/-! ## The instance -/

/-- What may stand after a JSON value. -/
def isJsonWhitespace (ch : Char) : Bool := ch == ' ' || ch == '\n' || ch == '\t' || ch == '\r'

/-- `from_str`: one value, and nothing after it but white space. -/
def fromStr {α : Type} (read : List Char → Option (α × List Char)) (text : String) :
    Except String α :=
  match read text.toList with
  | none => .error "expected value"
  | some (a, rest) => if rest.all isJsonWhitespace then .ok a else .error "trailing characters"

/-- What `serde_json` does for the structures of the trail, with `sha256` to hash. -/
def serde (sha256 : Bytes → Bytes) : Crates where
  bodyToVec b := utf8 (String.ofList (writeBody b))
  recordToString r := String.ofList (writeRecord r)
  recordFromStr := fromStr readRecord
  sealBodyToVec b := utf8 (String.ofList (writeSealBody b))
  sealToStringPretty s := String.ofList (writeSeal s)
  sealFromStr := fromStr readSealText
  sha256 := sha256

theorem isWhitespace_of_isJsonWhitespace {ch : Char} (h : isJsonWhitespace ch) :
    isWhitespace ch := by
  simp only [isJsonWhitespace, Bool.or_eq_true, beq_iff_eq] at h
  rcases h with ((rfl | rfl) | rfl) | rfl <;> decide

/-- **The concrete texts do what the sink relies on**, whatever the hash. -/
theorem serde_lawful (sha256 : Bytes → Bytes) : (serde sha256).Lawful where
  recordFromStr_recordToString r := by
    have h := readRecord_writeRecord r []
    rw [List.append_nil] at h
    simp [serde, fromStr, h]
  recordToString_oneLine r := by
    intro ch hch
    exact oneLine_writeRecord r ch (by simpa [serde] using hch)
  recordToString_head r := by
    refine ⟨String.ofList (writeRecord r).tail, ?_⟩
    apply String.toList_injective
    simp [serde, writeRecord, firstMember]
  recordFromStr_trailing r s hs := by
    refine ⟨"trailing characters", ?_⟩
    have hnot : s.toList.all isJsonWhitespace = false := by
      rw [← Bool.not_eq_true, List.all_eq_true]
      intro hall
      rw [blank, ← Bool.not_eq_true, List.all_eq_true] at hs
      exact hs fun ch hch => isWhitespace_of_isJsonWhitespace (hall ch hch)
    simp [serde, fromStr, readRecord_writeRecord, hnot]
  sealFromStr_sealToStringPretty s := by
    have h := readSealText_writeSeal s []
    rw [List.append_nil] at h
    simp [serde, fromStr, h]

/-- A seal cut short, as a write that did not come to its end leaves it, does not read as another
one. -/
def SealsWhole (c : Crates) : Prop :=
  ∀ s n text s', fromUtf8 ((utf8 (c.sealToStringPretty s)).take n) = some text →
    c.sealFromStr text = .ok s' → s' = s

theorem serde_sealsWhole (sha256 : Bytes → Bytes) : SealsWhole (serde sha256) := by
  intro s n text s' htext hread
  have hsplit : utf8 (String.ofList (writeSeal s)) = utf8 text ++
      (utf8 (String.ofList (writeSeal s))).drop n := by
    rw [utf8_of_fromUtf8 htext]
    exact (List.take_append_drop n _).symm
  obtain ⟨u, hu⟩ := exists_append_of_utf8 hsplit
  have hwritten : writeSeal s = text.toList ++ u.toList := by
    simpa using congrArg String.toList hu
  cases hfound : readSealText text.toList with
  | none => simp [serde, fromStr, hfound] at hread
  | some found =>
    have hmore := readSealText_more (s := text.toList) hfound u.toList
    have hwhole := readSealText_writeSeal s []
    rw [List.append_nil, hwritten, hmore] at hwhole
    have hs' : found.1 = s' := by
      simp only [serde, fromStr, hfound] at hread
      split_ifs at hread
      exact Except.ok.inj hread
    rw [← hs']
    exact (Prod.mk.inj (Option.some.inj hwhole)).1

theorem bodyToVec_injective (sha256 : Bytes → Bytes) :
    Function.Injective (serde sha256).bodyToVec := by
  intro b b' h
  have hw : writeBody b = writeBody b' :=
    String.ofList_injective (utf8_injective (show utf8 _ = utf8 _ from h))
  have hb := readBody_writeBody b []
  rw [hw, readBody_writeBody] at hb
  simpa using hb.symm

/-! ## A first record

The hash of one body, and an injective function that agrees with SHA-256 there. -/

/-- The first record of a trail. -/
def firstBody : Body where
  seq := 1
  time := "2026-08-09T00:00:00Z"
  prev := GENESIS
  action := "server.start"
  subject := "default"
  subjectKind := "system"
  subjectSensitivity := "public"
  target := none
  continuityId := none
  continuityPosition := none
  service := "pic-x"
  version := "0.1.0"

/-- The SHA-256 digest of `firstBody`. -/
def firstDigest : Bytes :=
  [164, 19, 140, 23, 45, 29, 13, 169, 51, 106, 13, 51, 207, 116, 39, 167, 23, 163, 0, 114, 70, 218,
    178, 133, 165, 30, 48, 32, 116, 246, 199, 195]

/-- SHA-256 on `firstBody`, and longer than any digest elsewhere. -/
def firstSha (b : Bytes) : Bytes :=
  if b = utf8 (String.ofList (writeBody firstBody)) then firstDigest else List.replicate 33 0 ++ b

theorem firstSha_injective : Function.Injective firstSha := by
  have hlen : firstDigest.length = 32 := rfl
  intro b b' h
  unfold firstSha at h
  split_ifs at h with hb hb' hb'
  · rw [hb, hb']
  · have := congrArg List.length h
    simp [hlen] at this
  · have := congrArg List.length h
    simp [hlen] at this
  · exact List.append_cancel_left h

/-- The record of `firstBody`. -/
def firstRecord : Record :=
  { body := firstBody, digest := expectedDigest (serde firstSha) firstBody }

theorem chained_firstRecord : Chained Record.digest (fun r => r.body.prev) (fun r => r.body.seq)
    GENESIS 1 [firstRecord] := ⟨rfl, rfl, trivial⟩

end PicX.Audit
