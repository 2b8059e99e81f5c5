import PicX.Audit.Layout
import PicX.Audit.Serde

/-!
# What a verified trail proves

`verify` compares every record with its own digest and with the record before it, so the head it
reports stands for the whole trail; and it compares the trail with the seals it indexed.

* `verify_determines_bodies` — two trails that verify with one head and one count carry the same
  bodies.
* `every_seal_vouched_iff` — exactly when every seal in the directory has been held against the
  trail. Seals are looked for beside the days that have a record file, and two of them for one
  point of the trail leave one.
-/

namespace PicX.Audit

open PicX

variable {c : Crates} {path path' : String} {d d' : Directory} {v v' : Verification}

/-! ## Tamper evidence -/

/-- Records that match their digests chain as their bodies do. -/
theorem RecordChain.bodies {rs : List Record} (hd : ∀ r ∈ rs, expectedDigest c r.body = r.digest)
    {h : String} {n : Nat} (hc : RecordChain h n rs) :
    Chained (expectedDigest c) Body.prev Body.seq h n (rs.map Record.body) ∧
      chainHead (expectedDigest c) h (rs.map Record.body) = headOf h rs := by
  induction rs generalizing h n with
  | nil => exact ⟨trivial, rfl⟩
  | cons r rs ih =>
    have hr := hd r List.mem_cons_self
    obtain ⟨hprev, hseq, hrest⟩ := hc
    obtain ⟨hchain, hhead⟩ := ih (fun r' hr' => hd r' (List.mem_cons_of_mem r hr')) hrest
    simp only [List.map_cons, Chained, chainHead, hr]
    exact ⟨⟨hprev, hseq, hchain⟩, hhead⟩

/-- **The head and the count of a trail that verifies determine its bodies.** -/
theorem verify_determines_bodies (hsha : Function.Injective c.sha256)
    (hvec : Function.Injective c.bodyToVec) (h : verify c path (some d) = .ok v)
    (h' : verify c path' (some d') = .ok v') (hhead : v.head = v'.head)
    (hcount : v.records = v'.records) :
    ∃ bs, bodies c d = some bs ∧ bodies c d' = some bs := by
  obtain ⟨_, seals, rs, ⟨rfl⟩, -, hrs, hatt, rfl⟩ := verify_ok_iff.mp h
  obtain ⟨_, seals', rs', ⟨rfl⟩, -, hrs', hatt', rfl⟩ := verify_ok_iff.mp h'
  obtain ⟨hchain, hend⟩ := hatt.chained.bodies hatt.digests
  obtain ⟨hchain', hend'⟩ := hatt'.chained.bodies hatt'.digests
  have heq : rs.map Record.body = rs'.map Record.body :=
    eq_of_head_eq (expectedDigest_injective hsha hvec) hchain hchain'
      (hend.trans (hhead.trans hend'.symm)) (by simpa using hcount)
  exact ⟨rs.map Record.body, by simp [bodies, hrs], by simp [bodies, hrs', heq]⟩

/-! ### One record in two places -/

/-- `firstRecord` alone, in the file of a day. -/
def oneRecord (day : Int) : Directory :=
  (∅ : Directory).insert (fileName day) (.file (textOf (serde firstSha) [firstRecord]))

theorem oneRecord_holds {day : Int} (h : Readable day) :
    Holds (serde firstSha) (oneRecord day) [(day, [firstRecord])] := by
  have hnew := (Holds.empty (c := serde firstSha)).create h (by simp [Log.days])
  have hreplaced : Holds (serde firstSha) _ ([] ++ [(day, [firstRecord])]) :=
    Holds.replace hnew [firstRecord]
  simpa [oneRecord, AList.insert_insert] using hreplaced

theorem verify_oneRecord {day : Int} (h : Readable day) (path : String) :
    verify (serde firstSha) path (some (oneRecord day)) =
      .ok ⟨1, 1, firstRecord.digest, []⟩ := by
  have hlookup : (oneRecord day).lookup (sealName day) = none := by
    rw [oneRecord, AList.lookup_insert_ne (fileName_ne_sealName h day).symm, AList.lookup_empty]
  have hdays : daysOf (oneRecord day).keys = [day] := (oneRecord_holds h).daysOf_eq
  refine verify_ok_iff.mpr ⟨oneRecord day, ∅, [firstRecord], rfl, ?_,
    (oneRecord_holds h).trail_eq (serde_lawful _), ⟨?_, chained_firstRecord, by simp⟩, ?_⟩
  · simp [hdays, readSeals, readSeal, hlookup]
  · simp [firstRecord]
  · simp [hdays, chainHead]

/-- The same record filed under two days. -/
theorem verify_determines_bodies_moved :
    ∃ bs, bodies (serde firstSha) (oneRecord 20674) = some bs ∧
      bodies (serde firstSha) (oneRecord 20675) = some bs :=
  verify_determines_bodies firstSha_injective (bodyToVec_injective firstSha)
    (verify_oneRecord ⟨by decide, by decide⟩ "trail")
    (verify_oneRecord ⟨by decide, by decide⟩ "trail") rfl rfl

/-! ## Truncation evidence -/

/-- The seal in a file, when the file reads as one. -/
def sealIn (c : Crates) (d : Directory) (name : String) : Option Seal :=
  match d.lookup name with
  | some (.file content) => (fromUtf8 content).bind fun text => (c.sealFromStr text).toOption
  | _ => none

theorem sealIn_of_lookup {c : Crates} (hc : c.Lawful) {d : Directory} {name : String} {s : Seal}
    (h : d.lookup name = some (.file (utf8 (c.sealToStringPretty s)))) :
    sealIn c d name = some s := by
  unfold sealIn
  rw [h]
  simp [fromUtf8_utf8, hc.sealFromStr_sealToStringPretty, Except.toOption]

/-- A file `audit-<date>.seal` of the directory, and the seal it holds. -/
def SealFile (c : Crates) (d : Directory) (name : String) (s : Seal) : Prop :=
  (∃ date, (Civil.Date.fromIso date).isSome ∧ name = PREFIX ++ date ++ SEAL_SUFFIX) ∧
    sealIn c d name = some s

/-- The trail holds the records a seal attests to, up to the head it names, and the seal is
listed. -/
def Vouched (c : Crates) (d : Directory) (v : Verification) (s : Seal) : Prop :=
  s.body.records ≤ v.records ∧
    (∃ rs r, trail c d = some rs ∧ rs[s.body.records - 1]? = some r ∧ r.digest = s.body.head) ∧
    s ∈ v.seals

/-- The seal of one of these days that a later one of them does not replace by another for the
same point of the trail. -/
def Indexed (c : Crates) (d : Directory) (days : List Int) (s : Seal) : Prop :=
  ∃ day ∈ days, sealIn c d (sealName day) = some s ∧
    ∀ day' ∈ days, day < day' → ∀ s', sealIn c d (sealName day') = some s' →
      s'.body.records = s.body.records → s' = s

theorem readSeal_ok {seals seals' : Seals} {day : Int}
    (h : readSeal c path d seals day = .ok seals') :
    (sealIn c d (sealName day) = none ∧ seals' = seals) ∨
      ∃ s, sealIn c d (sealName day) = some s ∧ seals' = seals.insert s.body.records s := by
  unfold readSeal at h
  unfold sealIn
  dsimp only at h
  cases hnode : d.lookup (sealName day) with
  | none =>
    rw [hnode] at h
    exact Or.inl ⟨rfl, (Except.ok.inj h).symm⟩
  | some node => cases node with
    | directory =>
      rw [hnode] at h
      exact Or.inl ⟨rfl, (Except.ok.inj h).symm⟩
    | file content =>
      rw [hnode] at h
      cases htext : fromUtf8 content with
      | none => simp [htext] at h
      | some text =>
        cases hparse : c.sealFromStr text with
        | error e => simp [htext, hparse] at h
        | ok s =>
          simp only [htext, hparse, Except.ok.injEq] at h
          exact Or.inr ⟨s, by simp [htext, hparse, Except.toOption], h.symm⟩

/-- The index holds, for each point, the seal of the last day that has one for it. -/
theorem readSeals_getElem? {days : List Int} (hsorted : days.Pairwise (· ≤ ·)) {seals : Seals}
    (h : readSeals c path d days = .ok seals) (n : Nat) (s : Seal) :
    seals[n]? = some s ↔ s.body.records = n ∧ Indexed c d days s := by
  induction days using List.reverseRecOn generalizing seals with
  | nil =>
    obtain rfl : ∅ = seals := Except.ok.inj h
    simp [Indexed]
  | append_singleton days last ih =>
    rw [List.pairwise_append] at hsorted
    have hle : ∀ day ∈ days, day ≤ last := fun day hday => hsorted.2.2 day hday last (by simp)
    rw [readSeals, List.foldlM_append] at h
    cases hinit : List.foldlM (readSeal c path d) ∅ days with
    | error e => simp [hinit, bind, Except.bind] at h
    | ok seals₀ =>
      have hlast : readSeal c path d seals₀ last = .ok seals := by
        rw [hinit] at h
        change (readSeal c path d seals₀ last >>= pure) = _ at h
        rwa [bind_pure] at h
      have ih := ih hsorted.1 hinit
      rcases readSeal_ok hlast with ⟨hnone, rfl⟩ | ⟨s₀, hs₀, rfl⟩
      · rw [ih]
        refine and_congr_right fun _ => ⟨?_, ?_⟩
        · rintro ⟨day, hday, hseal, hlater⟩
          refine ⟨day, List.mem_append_left _ hday, hseal, fun day' hday' hlt s' hs' => ?_⟩
          rcases List.mem_append.mp hday' with hday' | hday'
          · exact hlater day' hday' hlt s' hs'
          · rw [List.mem_singleton.mp hday', hnone] at hs'
            exact absurd hs' (by simp)
        · rintro ⟨day, hday, hseal, hlater⟩
          rcases List.mem_append.mp hday with hday | hday
          · exact ⟨day, hday, hseal, fun day' hday' => hlater day' (List.mem_append_left _ hday')⟩
          · rw [List.mem_singleton.mp hday, hnone] at hseal
            exact absurd hseal (by simp)
      · rw [Std.TreeMap.getElem?_insert]
        split_ifs with hcmp
        · rw [compare_eq_iff_eq] at hcmp
          constructor
          · rintro ⟨rfl⟩
            refine ⟨hcmp, last, by simp, hs₀, fun day' hday' hlt => ?_⟩
            rcases List.mem_append.mp hday' with hday' | hday'
            · exact absurd (hle day' hday') (not_le.mpr hlt)
            · exact absurd (List.mem_singleton.mp hday') hlt.ne'
          · rintro ⟨hn, day, hday, hseal, hlater⟩
            congr 1
            by_cases hd : day = last
            · rw [hd, hs₀] at hseal
              exact Option.some.inj hseal
            · have hmem : day ∈ days := by simpa [hd] using hday
              exact hlater last (by simp) (lt_of_le_of_ne (hle day hmem) hd) s₀ hs₀
                (hcmp.trans hn.symm)
        · have hne : s₀.body.records ≠ n := fun heq => hcmp (compare_eq_iff_eq.mpr heq)
          rw [ih]
          refine and_congr_right fun hn => ⟨?_, ?_⟩
          · rintro ⟨day, hday, hseal, hlater⟩
            refine ⟨day, List.mem_append_left _ hday, hseal, fun day' hday' hlt s' hs' hsame => ?_⟩
            rcases List.mem_append.mp hday' with hday' | hday'
            · exact hlater day' hday' hlt s' hs' hsame
            · rw [List.mem_singleton.mp hday', hs₀] at hs'
              exact absurd (Option.some.inj hs' ▸ hsame.trans hn) hne
          · rintro ⟨day, hday, hseal, hlater⟩
            rcases List.mem_append.mp hday with hday | hday
            · exact ⟨day, hday, hseal, fun day' hday' => hlater day' (List.mem_append_left _ hday')⟩
            · rw [List.mem_singleton.mp hday, hs₀] at hseal
              exact absurd (Option.some.inj hseal ▸ hn) hne

/-- Once a trail has verified, a seal past its first record is vouched for exactly when it was
indexed. -/
theorem vouched_iff_indexed (h : verify c path (some d) = .ok v) {s : Seal}
    (hs : 1 ≤ s.body.records) : Vouched c d v s ↔ Indexed c d (daysOf d.keys) s := by
  obtain ⟨_, seals, rs, ⟨rfl⟩, hseals, hrs, hatt, rfl⟩ := verify_ok_iff.mp h
  have hindex := readSeals_getElem? (List.pairwise_insertionSort _ _) hseals
  constructor
  · rintro ⟨-, -, hmem⟩
    obtain ⟨n, -, hn⟩ := List.mem_filterMap.mp hmem
    exact ((hindex n s).mp hn).2
  · intro hin
    have hget := (hindex _ s).mpr ⟨rfl, hin⟩
    rcases hatt.agree _ s hget with h0 | ⟨r, hr, hhead⟩
    · omega
    · have hlt := (List.getElem?_eq_some_iff.mp hr).1
      refine ⟨show s.body.records ≤ rs.length by omega, ⟨rs, r, hrs, hr, hhead.symm⟩, ?_⟩
      exact List.mem_filterMap.mpr ⟨s.body.records, by simp; omega, hget⟩

/-- **A verified trail answers for every seal in its directory exactly when each of them is the
seal of a day that has a record file, or a copy of one, and no later such seal is for the same
point with another content.** -/
theorem every_seal_vouched_iff (h : verify c path (some d) = .ok v) :
    (∀ name s, SealFile c d name s → 1 ≤ s.body.records → Vouched c d v s) ↔
      ∀ name s, SealFile c d name s → 1 ≤ s.body.records → Indexed c d (daysOf d.keys) s := by
  constructor <;> intro hall name s hfile hs
  · exact (vouched_iff_indexed h hs).mp (hall name s hfile hs)
  · exact (vouched_iff_indexed h hs).mpr (hall name s hfile hs)

/-! ### A whole day removed -/

/-- A seal over two records, the second of them written on the day after `firstRecord`. -/
def secondSeal : Seal where
  body :=
    { day := "2026-08-10"
      time := "2026-08-11T00:00:00Z"
      records := 2
      head := "f72089fb5593e5ad47219d126b57b3ff139175537e45d9358812be818c1ad4c9" }
  kid := none
  algorithm := none
  signature := none

/-- The trail of `secondSeal` after the record file of its day was removed and the seal left. -/
def dayRemoved : Directory :=
  (oneRecord 20674).insert (sealName 20675)
    (.file (utf8 ((serde firstSha).sealToStringPretty secondSeal)))

theorem sealFile_dayRemoved : SealFile (serde firstSha) dayRemoved (sealName 20675) secondSeal := by
  refine ⟨⟨(Civil.dateOf 20675).toIso, ?_, rfl⟩, ?_⟩
  · rw [Civil.fromIso_toIso (by decide) (by decide) (by decide) (by decide)]
    rfl
  · exact sealIn_of_lookup (serde_lawful firstSha) (AList.lookup_insert _)

theorem verify_dayRemoved : verify (serde firstSha) "trail" (some dayRemoved) =
    .ok ⟨1, 1, firstRecord.digest, []⟩ := by
  have hday : Readable 20674 := ⟨by decide, by decide⟩
  have hholds : Holds (serde firstSha) dayRemoved [(20674, [firstRecord])] :=
    (oneRecord_holds hday).insert_other (dayOfFile_sealName _) _
  have hne : sealName 20674 ≠ sealName 20675 := fun heq => by
    have := sealName_injOn heq hday ⟨by decide, by decide⟩
    omega
  have hlookup : dayRemoved.lookup (sealName 20674) = none := by
    rw [dayRemoved, AList.lookup_insert_ne hne, oneRecord,
      AList.lookup_insert_ne (fileName_ne_sealName hday 20674).symm, AList.lookup_empty]
  have hdays : daysOf dayRemoved.keys = [20674] := hholds.daysOf_eq
  refine verify_ok_iff.mpr ⟨dayRemoved, ∅, [firstRecord], rfl, ?_,
    hholds.trail_eq (serde_lawful _), ⟨?_, chained_firstRecord, by simp⟩, ?_⟩
  · simp [hdays, readSeals, readSeal, hlookup]
  · simp [firstRecord]
  · simp [hdays, chainHead]

/-- The record file of the last day can go without a word: `verify` succeeds on what is left,
with one record, beside a seal that attests to two. -/
theorem dayRemoved_unnoticed : ∃ v, verify (serde firstSha) "trail" (some dayRemoved) = .ok v ∧
    ¬∀ name s, SealFile (serde firstSha) dayRemoved name s → 1 ≤ s.body.records →
      Vouched (serde firstSha) dayRemoved v s :=
  ⟨_, verify_dayRemoved, fun hall =>
    absurd (hall _ _ sealFile_dayRemoved (by decide)).1 (by decide)⟩

/-- The condition on the directory of `verify_dayRemoved`, where it fails. -/
theorem every_seal_vouched_iff_dayRemoved :
    (∀ name s, SealFile (serde firstSha) dayRemoved name s → 1 ≤ s.body.records →
      Vouched (serde firstSha) dayRemoved ⟨1, 1, firstRecord.digest, []⟩ s) ↔
    ∀ name s, SealFile (serde firstSha) dayRemoved name s → 1 ≤ s.body.records →
      Indexed (serde firstSha) dayRemoved (daysOf dayRemoved.keys) s :=
  every_seal_vouched_iff verify_dayRemoved

end PicX.Audit
