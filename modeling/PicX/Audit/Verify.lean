import Mathlib.Data.List.AList
import Mathlib.Data.List.Sort
import Mathlib.Order.Lattice
import PicX.Audit.Record
import PicX.Base.Chain

/-!
# Checking a trail (`verify`, `read_seals`)

`verify` reads every day of records in order, checks each record against its own digest, against
the record before it and against its number, and compares the head with every seal it has indexed
as it passes the point the seal attests to.

* `trail` — the records of a directory, in day order, with nothing checked.
* `Attested` — what `verify` has to find: digests, chain and seals.
* `verify_ok_iff` — **`verify` succeeds exactly on a readable trail that is attested**, and reports
  its length, its head and the seals it met.
-/

namespace PicX.Audit

open PicX

/-! ## Directories -/

/-- What a directory entry is. -/
inductive Node where
  | file (content : Bytes)
  | directory
  deriving DecidableEq, Repr

/-- A directory: entries under distinct names. -/
abbrev Directory := AList (fun _ : String => Node)

/-- Days in ascending order. -/
def sortUnstable (days : List Int) : List Int := days.insertionSort (· ≤ ·)

/-- The days a directory holds records for, oldest first. -/
def daysOf (names : List String) : List Int := sortUnstable (names.filterMap dayOfFile)

/-! ## The algorithm -/

/-- Why a trail is refused. -/
inductive VerifyError where
  | reading (path : String)
  | opening (path : String)
  | parsing (place : String)
  | altered (place : String)
  | broken (place : String)
  | misnumbered (place : String) (found expected : Nat)
  | rewritten (found : Seal) (records : Nat) (head : String)
  | truncated (found : Seal) (records : Nat)
  deriving DecidableEq, Repr

def VerifyError.message : VerifyError → String
  | .reading path => "reading " ++ path
  | .opening path => "opening " ++ path
  | .parsing place => "parsing " ++ place
  | .altered place => place ++ " has been altered: it does not match its own digest"
  | .broken place => place ++ " does not follow the record before it: the chain is broken, " ++
      "which means something between them was changed or removed"
  | .misnumbered place found expected => place ++ " is numbered " ++ toString found ++ " where " ++
      toString expected ++ " was expected: " ++ toString (found - expected) ++
      " record(s) are missing"
  | .rewritten found records head => "the seal for " ++ found.body.day ++ " attests that record " ++
      toString records ++ " was " ++ found.body.head ++ ", and the trail now has " ++ head ++
      ": the records have been rewritten since they were sealed"
  | .truncated found records => "the seal for " ++ found.body.day ++ " attests to " ++
      toString found.body.records ++ " record(s) and the trail holds " ++ toString records ++
      ": " ++ toString (found.body.records - records) ++
      " record(s) have been removed from the end"

/-- What checking a trail found. -/
structure Verification where
  records : Nat
  days : Nat
  head : String
  seals : List Seal
  deriving DecidableEq, Repr

/-- The seals beside the trail, indexed by the point in it each one attests to. -/
abbrev Seals := Std.TreeMap Nat Seal

/-- The variables of the loop. -/
structure Progress where
  expectedPrevious : String
  expectedSeq : Nat
  records : Nat
  checked : List Seal

def Progress.start : Progress := ⟨GENESIS, 1, 0, []⟩

variable (c : Crates)

/-- The seal of one day, read into the index. A day without a seal file is passed over. -/
def readSeal (path : String) (d : Directory) (seals : Seals) (day : Int) :
    Except VerifyError Seals :=
  let name := sealName day
  match d.lookup name with
  | none | some .directory => .ok seals
  | some (.file content) =>
    match fromUtf8 content with
    | none => .error (.reading (join path name))
    | some text =>
      match c.sealFromStr text with
      | .error _ => .error (.parsing (join path name))
      | .ok s => .ok (seals.insert s.body.records s)

/-- Reads the seal of every day, a later one replacing an earlier one of the same point. -/
def readSeals (path : String) (d : Directory) (days : List Int) : Except VerifyError Seals :=
  days.foldlM (readSeal c path d) ∅

/-- One record against what is expected at this point. -/
def checkRecord (seals : Seals) (place : String) (record : Record) (p : Progress) :
    Except VerifyError Progress :=
  if expectedDigest c record.body ≠ record.digest then .error (.altered place)
  else if record.body.prev ≠ p.expectedPrevious then .error (.broken place)
  else if record.body.seq ≠ p.expectedSeq then
    .error (.misnumbered place record.body.seq p.expectedSeq)
  else
    let p := { p with
      expectedPrevious := record.digest
      expectedSeq := p.expectedSeq + 1
      records := p.records + 1 }
    match seals[p.records]? with
    | none => .ok p
    | some s =>
      if s.body.head ≠ p.expectedPrevious then
        .error (.rewritten s p.records p.expectedPrevious)
      else .ok { p with checked := p.checked ++ [s] }

/-- The lines of one file, from the line number `index` on. -/
def checkLines (seals : Seals) (path : String) :
    Nat → List (Option String) → Progress → Except VerifyError Progress
  | _, [], p => .ok p
  | _, none :: _, _ => .error (.reading path)
  | index, some line :: rest, p =>
    if blank line then checkLines seals path (index + 1) rest p
    else
      let place := path ++ ":" ++ toString (index + 1)
      match c.recordFromStr line with
      | .error _ => .error (.parsing place)
      | .ok record => do
        let p ← checkRecord c seals place record p
        checkLines seals path (index + 1) rest p

/-- One day of records. -/
def checkDay (path : String) (d : Directory) (seals : Seals) (p : Progress) (day : Int) :
    Except VerifyError Progress :=
  let path := join path (fileName day)
  match d.lookup (fileName day) with
  | none => .error (.opening path)
  | some .directory => .error (.reading path)
  | some (.file content) => checkLines c seals path 0 (lines content) p

/-- Reads a whole trail and checks that nothing in it has been altered. -/
def verify (path : String) (directory : Option Directory) : Except VerifyError Verification := do
  match directory with
  | none => .error (.reading path)
  | some d =>
    let days := daysOf d.keys
    let seals ← readSeals c path d days
    let p ← days.foldlM (checkDay c path d seals) Progress.start
    match seals.toList.find? (fun entry => p.records < entry.1) with
    | some (_, s) => .error (.truncated s p.records)
    | none => .ok ⟨p.records, days.length, p.expectedPrevious, p.checked⟩

/-! ## The records of a directory -/

/-- The records on the lines of a file, blank lines passed over; `none` when one does not read. -/
def parseLines : List (Option String) → Option (List Record)
  | [] => some []
  | none :: _ => none
  | some line :: rest =>
    if blank line then parseLines rest
    else match c.recordFromStr line with
      | .error _ => none
      | .ok record => (parseLines rest).map (record :: ·)

/-- The records of one day. -/
def dayRecords (d : Directory) (day : Int) : Option (List Record) :=
  match d.lookup (fileName day) with
  | some (.file content) => parseLines c (lines content)
  | _ => none

/-- The records of some days, one day after the other. -/
def recordsOf (d : Directory) : List Int → Option (List Record)
  | [] => some []
  | day :: rest => (dayRecords c d day).bind fun rs => (recordsOf d rest).map (rs ++ ·)

/-- **The trail**: every record of a directory, in day order. -/
def trail (d : Directory) : Option (List Record) := recordsOf c d (daysOf d.keys)

/-- The bodies of the trail. -/
def bodies (d : Directory) : Option (List Body) := (trail c d).map (·.map Record.body)

/-- Records that follow each other, from a digest and a number on. -/
abbrev RecordChain (h : String) (n : Nat) (rs : List Record) : Prop :=
  Chained Record.digest (fun r => r.body.prev) (fun r => r.body.seq) h n rs

/-- The digest the last record of a trail carries. -/
abbrev headOf (h : String) (rs : List Record) : String := chainHead Record.digest h rs

theorem recordChain_concat {h : String} {n : Nat} {rs : List Record} {r : Record} :
    RecordChain h n (rs ++ [r]) ↔
      RecordChain h n rs ∧ r.body.prev = headOf h rs ∧ r.body.seq = n + rs.length :=
  chained_concat_iff

@[simp] theorem headOf_concat (h : String) (rs : List Record) (r : Record) :
    headOf h (rs ++ [r]) = r.digest :=
  chainHead_concat h rs r

/-- What `verify` has to find of the records and the seals it indexed. -/
structure Attested (seals : Seals) (rs : List Record) : Prop where
  digests : ∀ r ∈ rs, expectedDigest c r.body = r.digest
  chained : RecordChain GENESIS 1 rs
  agree : ∀ n s, seals[n]? = some s → n = 0 ∨ ∃ r, rs[n - 1]? = some r ∧ s.body.head = r.digest

/-! ## One record -/

variable {c}

/-- What the loop asks of a record at a point of the trail. -/
def Fits (c : Crates) (seals : Seals) (r : Record) (p : Progress) : Prop :=
  expectedDigest c r.body = r.digest ∧ r.body.prev = p.expectedPrevious ∧
    r.body.seq = p.expectedSeq ∧ ∀ s, seals[p.records + 1]? = some s → s.body.head = r.digest

/-- Where the loop stands after a record it accepted. -/
def Progress.next (seals : Seals) (p : Progress) (r : Record) : Progress :=
  ⟨r.digest, p.expectedSeq + 1, p.records + 1, p.checked ++ seals[p.records + 1]?.toList⟩

theorem checkRecord_ok_iff {seals : Seals} {place : String} {r : Record} {p p' : Progress} :
    checkRecord c seals place r p = .ok p' ↔ Fits c seals r p ∧ p' = p.next seals r := by
  unfold checkRecord Fits Progress.next
  dsimp only
  split_ifs with hdigest hprev hseq
  · simp [hdigest]
  · simp [hprev]
  · simp [hseq]
  · rw [not_not] at hdigest hprev hseq
    cases hseal : seals[p.records + 1]? with
    | none => simp [hdigest, hprev, hseq, eq_comm]
    | some s =>
      dsimp only
      split_ifs with hhead
      · simp [hhead]
      · rw [not_not] at hhead
        simp [hdigest, hprev, hseq, hhead, eq_comm]

/-! ## All the records -/

/-- Every record fits where the ones before it leave the loop. -/
def FitsAll (c : Crates) (seals : Seals) : List Record → Progress → Prop
  | [], _ => True
  | r :: rs, p => Fits c seals r p ∧ FitsAll c seals rs (p.next seals r)

theorem fitsAll_append {seals : Seals} {rs rs' : List Record} {p : Progress} :
    FitsAll c seals (rs ++ rs') p ↔
      FitsAll c seals rs p ∧ FitsAll c seals rs' (rs.foldl (Progress.next seals) p) := by
  induction rs generalizing p with
  | nil => simp [FitsAll]
  | cons r rs ih => simp [FitsAll, ih, and_assoc]

theorem checkLines_ok_iff {seals : Seals} {path : String} {index : Nat}
    {ls : List (Option String)} {p p' : Progress} :
    checkLines c seals path index ls p = .ok p' ↔
      ∃ rs, parseLines c ls = some rs ∧ FitsAll c seals rs p ∧
        p' = rs.foldl (Progress.next seals) p := by
  induction ls generalizing index p with
  | nil => simp [checkLines, parseLines, FitsAll, eq_comm]
  | cons l ls ih =>
    cases l with
    | none => simp [checkLines, parseLines]
    | some line =>
      unfold checkLines parseLines
      split_ifs with hblank
      · exact ih
      · cases hparse : c.recordFromStr line with
        | error e => simp
        | ok r =>
          dsimp only
          cases hcheck : checkRecord c seals (path ++ ":" ++ toString (index + 1)) r p with
          | error e =>
            have hnot : ¬Fits c seals r p := fun hfit => by
              simp [checkRecord_ok_iff.mpr ⟨hfit, rfl⟩] at hcheck
            simp only [bind, Except.bind, reduceCtorEq, Option.map_eq_some_iff, false_iff]
            rintro ⟨rs, ⟨rs', -, rfl⟩, hfits, -⟩
            exact hnot hfits.1
          | ok q =>
            obtain ⟨hfit, rfl⟩ := checkRecord_ok_iff.mp hcheck
            simp only [bind, Except.bind, ih, Option.map_eq_some_iff]
            constructor
            · rintro ⟨rs, hrs, hfits, rfl⟩
              exact ⟨r :: rs, ⟨rs, hrs, rfl⟩, ⟨hfit, hfits⟩, rfl⟩
            · rintro ⟨_, ⟨rs, hrs, rfl⟩, hfits, rfl⟩
              exact ⟨rs, hrs, hfits.2, rfl⟩

theorem checkDay_ok_iff {path : String} {d : Directory} {seals : Seals} {p p' : Progress}
    {day : Int} :
    checkDay c path d seals p day = .ok p' ↔
      ∃ rs, dayRecords c d day = some rs ∧ FitsAll c seals rs p ∧
        p' = rs.foldl (Progress.next seals) p := by
  unfold checkDay dayRecords
  cases d.lookup (fileName day) with
  | none => simp
  | some node => cases node with
    | directory => simp
    | file content => exact checkLines_ok_iff

theorem checkDays_ok_iff {path : String} {d : Directory} {seals : Seals} {days : List Int}
    {p p' : Progress} :
    days.foldlM (checkDay c path d seals) p = .ok p' ↔
      ∃ rs, recordsOf c d days = some rs ∧ FitsAll c seals rs p ∧
        p' = rs.foldl (Progress.next seals) p := by
  induction days generalizing p with
  | nil => simp [recordsOf, FitsAll, pure, Except.pure, eq_comm]
  | cons day days ih =>
    rw [List.foldlM_cons]
    constructor
    · intro h
      cases hday : checkDay c path d seals p day with
      | error e => simp [hday, bind, Except.bind] at h
      | ok q =>
        rw [hday] at h
        obtain ⟨rs, hrs, hfits, rfl⟩ := checkDay_ok_iff.mp hday
        obtain ⟨rs', hrs', hfits', rfl⟩ := ih.mp h
        exact ⟨rs ++ rs', by simp [recordsOf, hrs, hrs'], fitsAll_append.mpr ⟨hfits, hfits'⟩,
          (List.foldl_append ..).symm⟩
    · rintro ⟨_, hrs, hfits, rfl⟩
      simp only [recordsOf, Option.bind_eq_some_iff, Option.map_eq_some_iff] at hrs
      obtain ⟨rs, hrs, rs', hrs', rfl⟩ := hrs
      rw [fitsAll_append] at hfits
      rw [checkDay_ok_iff.mpr ⟨rs, hrs, hfits.1, rfl⟩]
      exact ih.mpr ⟨rs', hrs', hfits.2, List.foldl_append ..⟩

/-! ## Where the loop ends -/

theorem foldl_next (seals : Seals) (rs : List Record) (p : Progress) :
    rs.foldl (Progress.next seals) p =
      ⟨headOf p.expectedPrevious rs, p.expectedSeq + rs.length, p.records + rs.length,
        p.checked ++ (List.range' (p.records + 1) rs.length).filterMap (seals[·]?)⟩ := by
  induction rs generalizing p with
  | nil => simp [chainHead]
  | cons r rs ih =>
    rw [List.foldl_cons, ih]
    simp only [Progress.next, List.length_cons, List.range'_succ, chainHead, Progress.mk.injEq,
      true_and]
    refine ⟨by omega, by omega, ?_⟩
    cases h : seals[p.records + 1]? <;> simp [h]

theorem fitsAll_iff {seals : Seals} {rs : List Record} {p : Progress} :
    FitsAll c seals rs p ↔
      (∀ r ∈ rs, expectedDigest c r.body = r.digest) ∧
        RecordChain p.expectedPrevious p.expectedSeq rs ∧
        ∀ i r s, rs[i]? = some r → seals[p.records + i + 1]? = some s → s.body.head = r.digest := by
  induction rs generalizing p with
  | nil => simp [FitsAll, Chained]
  | cons r rs ih =>
    simp only [FitsAll, ih, Fits, Progress.next, Chained, List.mem_cons, forall_eq_or_imp]
    constructor
    · rintro ⟨⟨hd, hp, hn, hs⟩, hds, hc, hss⟩
      refine ⟨⟨hd, hds⟩, ⟨hp, hn, hn ▸ hc⟩, fun i r' s hr' hs' => ?_⟩
      cases i with
      | zero =>
        obtain rfl : r = r' := by simpa using hr'
        exact hs s hs'
      | succ i =>
        refine hss i r' s (by simpa using hr') ?_
        rwa [show p.records + 1 + i + 1 = p.records + (i + 1) + 1 by omega]
    · rintro ⟨⟨hd, hds⟩, ⟨hp, hn, hc⟩, hss⟩
      refine ⟨⟨hd, hp, hn, fun s hs => hss 0 r s (by simp) hs⟩, hds,
        hn ▸ hc, fun i r' s hr' hs' => ?_⟩
      refine hss (i + 1) r' s (by simpa using hr') ?_
      rwa [show p.records + (i + 1) + 1 = p.records + 1 + i + 1 by omega]

/-- The loop and the check for seals past the end together ask for an attested trail. -/
theorem attested_iff {seals : Seals} {rs : List Record} :
    Attested c seals rs ↔ FitsAll c seals rs Progress.start ∧
      seals.toList.find? (fun entry => rs.length < entry.1) = none := by
  have hfind : seals.toList.find? (fun entry => rs.length < entry.1) = none ↔
      ∀ n s, seals[n]? = some s → n ≤ rs.length := by
    simp [List.find?_eq_none, Std.TreeMap.mem_toList_iff_getElem?_eq_some]
  rw [fitsAll_iff, hfind]
  constructor
  · rintro ⟨hd, hc, ha⟩
    refine ⟨⟨hd, hc, fun i r s hr hs => ?_⟩, fun n s hs => ?_⟩
    · rcases ha _ s hs with h0 | ⟨r', hr', hhead⟩
      · exact absurd h0 (by omega)
      · have hi : Progress.start.records + i + 1 - 1 = i := by simp [Progress.start]
        rw [hi, hr] at hr'
        rw [hhead, Option.some.inj hr']
    · rcases ha n s hs with rfl | ⟨r, hr, -⟩
      · exact Nat.zero_le _
      · have := (List.getElem?_eq_some_iff.mp hr).1
        omega
  · rintro ⟨⟨hd, hc, ha⟩, hle⟩
    refine ⟨hd, hc, fun n s hs => ?_⟩
    cases n with
    | zero => exact Or.inl rfl
    | succ n =>
      have hlt : n < rs.length := hle _ s hs
      refine Or.inr ⟨rs[n], by simp [hlt], ha n rs[n] s (by simp [hlt]) ?_⟩
      simpa [Progress.start] using hs

/-- **`verify` succeeds exactly on a trail that reads and is attested.** -/
theorem verify_ok_iff {path : String} {directory : Option Directory} {v : Verification} :
    verify c path directory = .ok v ↔ ∃ d seals rs, directory = some d ∧
      readSeals c path d (daysOf d.keys) = .ok seals ∧ trail c d = some rs ∧
      Attested c seals rs ∧
      v = ⟨rs.length, (daysOf d.keys).length, headOf GENESIS rs,
        (List.range' 1 rs.length).filterMap (seals[·]?)⟩ := by
  have hstart (seals : Seals) (rs : List Record) :
      rs.foldl (Progress.next seals) Progress.start =
        ⟨headOf GENESIS rs, 1 + rs.length, rs.length,
          (List.range' 1 rs.length).filterMap (seals[·]?)⟩ := by
    simp [foldl_next, Progress.start]
  cases directory with
  | none => simp [verify]
  | some d =>
    simp only [verify]
    constructor
    · intro h
      cases hseals : readSeals c path d (daysOf d.keys) with
      | error e => simp [hseals, bind, Except.bind] at h
      | ok seals =>
        cases hloop : (daysOf d.keys).foldlM (checkDay c path d seals) Progress.start with
        | error e => simp [hseals, hloop, bind, Except.bind] at h
        | ok q =>
          obtain ⟨rs, hrs, hfits, rfl⟩ := checkDays_ok_iff.mp hloop
          simp only [hseals, hloop, bind, Except.bind, hstart] at h
          cases hfind : seals.toList.find? (fun entry => rs.length < entry.1) with
          | some entry => simp [hfind] at h
          | none =>
            simp only [hfind, Except.ok.injEq] at h
            exact ⟨d, seals, rs, rfl, hseals, hrs, attested_iff.mpr ⟨hfits, hfind⟩, h.symm⟩
    · rintro ⟨_, seals, rs, ⟨rfl⟩, hseals, hrs, hatt, rfl⟩
      obtain ⟨hfits, hfind⟩ := attested_iff.mp hatt
      have hloop : (daysOf d.keys).foldlM (checkDay c path d seals) Progress.start = .ok _ :=
        checkDays_ok_iff.mpr ⟨rs, hrs, hfits, rfl⟩
      simp only [hseals, hloop, bind, Except.bind, hstart, hfind]

end PicX.Audit
