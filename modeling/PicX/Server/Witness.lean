import Mathlib.Data.List.Nodup
import PicX.Base.Trim

/-!
# What a key version stands for (`pic-x-server/src/witness.rs`, `pic-x-std/src/pseudonym.rs`)

A volume remembers, for each key version a server has started with, what the key produced for one
fixed input. The memory is a text file, one version and its witness on a line with a tab between
them. A start whose version is known with another witness is refused. Reading and writing the file
succeed; a start that is refused leaves the file alone.

* `read_rendered` — lines of versions on one line and without a tab read back as they were written.
* `Volume.Remembers` — the invariant: the file says of each version what its first start produced.
* `key_version_witness` — under such versions, starts that pass agree on the witness of a version.
-/

namespace PicX.Server

/-! ## Pseudonyms -/

/-- The number of MAC bytes a token keeps. -/
def TOKEN_BYTES : Nat := 16

/-- A pseudonymiser over a key, whose tokens name the version of the key. -/
structure HmacPseudonymizer where
  key : Bytes
  keyVersion : String
  deriving DecidableEq, Repr

/-- The input every key is asked to pseudonymise. -/
def WITNESS_INPUT : String := "pic-x:audit-pseudonym-key-witness"

variable (hmac : Bytes → Bytes → Bytes)

def HmacPseudonymizer.pseudonymize (p : HmacPseudonymizer) (value : String) : String :=
  p.keyVersion ++ ":" ++ hex ((hmac p.key (utf8 value)).take TOKEN_BYTES)

/-- What a key version produces for the fixed input. -/
def HmacPseudonymizer.witness (p : HmacPseudonymizer) : String := p.pseudonymize hmac WITNESS_INPUT

/-! ## The file -/

/-- The versions the volume has already recorded under, `none` standing for no file. -/
def read (file : Option String) : List (String × String) :=
  match file with
  | none => []
  | some text => (textLines text).filterMap (splitOnce '\t')

/-- One line of the file. -/
def lineFor (version witness : String) : String := version ++ "\t" ++ witness ++ "\n"

/-- Records that a version has been seen. -/
def append (file : Option String) (version witness : String) : String :=
  let text := file.getD ""
  let text := if text ≠ "" ∧ text.toList.getLast? ≠ some '\n' then text ++ "\n" else text
  text ++ lineFor version witness

/-- Refuses to start when a key version now means a different key than it did; otherwise, the file
afterwards. -/
def checkAt (path : String) (pseudonymizer : Option HmacPseudonymizer) (file : Option String) :
    Except String (Option String) :=
  match pseudonymizer with
  | none => .ok file
  | some p =>
    match (read file).find? fun entry => entry.1 = p.keyVersion with
    | some (_, previous) =>
      if previous = p.witness hmac then .ok file
      else .error ("the audit pseudonymisation key changed but its version did not: version `" ++
        p.keyVersion ++ "` has already produced records under a different key, and writing more " ++
        "under the same version would make the two indistinguishable. Give the new key a new " ++
        "`audit.pseudonym.key_version`, or restore the previous key. If this has genuinely " ++
        "never written a record under `" ++ p.keyVersion ++ "`, remove " ++ path ++
        " and start again.")
    | none => .ok (some (append file p.keyVersion (p.witness hmac)))

/-! ## Starts over one volume -/

/-- A volume: its file, and the starts with pseudonymisation that passed. -/
structure Volume where
  file : Option String
  passed : List HmacPseudonymizer

/-- A volume nothing was started on. -/
def Volume.fresh : Volume := { file := none, passed := [] }

variable (path : String)

/-- One start. -/
def Volume.start (v : Volume) (pseudonymizer : Option HmacPseudonymizer) : Volume :=
  match checkAt hmac path pseudonymizer v.file with
  | .ok file => { file, passed := v.passed ++ pseudonymizer.toList }
  | .error _ => v

/-- A sequence of starts over a fresh volume. -/
def starts (sequence : List (Option HmacPseudonymizer)) : Volume :=
  sequence.foldl (Volume.start hmac path) .fresh

/-! ## What the file reads back as -/

/-- A version that stays in its column: no tab, and on one line. -/
def InColumn (version : String) : Prop := '\t' ∉ version.toList ∧ '\n' ∉ version.toList

instance (version : String) : Decidable (InColumn version) := by
  unfold InColumn
  infer_instance

/-- The file of these entries. -/
def rendered : List (String × String) → String
  | [] => ""
  | (version, witness) :: rest => lineFor version witness ++ rendered rest

theorem rendered_append (l l' : List (String × String)) :
    rendered (l ++ l') = rendered l ++ rendered l' := by
  induction l with
  | nil => simp [rendered]
  | cons entry l ih =>
    obtain ⟨version, witness⟩ := entry
    simp only [List.cons_append, rendered]
    rw [ih, String.append_assoc]

theorem getLast_rendered (l : List (String × String)) :
    rendered l = "" ∨ (rendered l).toList.getLast? = some '\n' := by
  induction l with
  | nil => exact Or.inl rfl
  | cons entry l ih =>
    obtain ⟨version, witness⟩ := entry
    refine Or.inr ?_
    rcases ih with hnil | hlast
    · rw [rendered, hnil, String.append_empty, lineFor, String.toList_append]
      exact List.getLast?_concat
    · simp only [rendered, String.toList_append]
      rw [List.getLast?_append, hlast]
      rfl

theorem append_rendered (l : List (String × String)) (version witness : String) :
    append (some (rendered l)) version witness = rendered (l ++ [(version, witness)]) := by
  have hkeep : ¬(rendered l ≠ "" ∧ (rendered l).toList.getLast? ≠ some '\n') := by
    rintro ⟨hne, hlast⟩
    exact (getLast_rendered l).elim hne hlast
  simp only [append, Option.getD_some, if_neg hkeep, rendered_append, rendered, String.append_empty]

/-- A line that does not end in a carriage return loses its line feed and nothing else. -/
theorem dropLineEnding_concat {l : List Char} {c : Char} (hc : c ≠ '\r') :
    dropLineEnding (String.ofList (l ++ [c] ++ ['\n'])) = String.ofList (l ++ [c]) := by
  have hs : (String.ofList (l ++ [c] ++ ['\n'])).toList.reverse = '\n' :: c :: l.reverse := by simp
  unfold dropLineEnding
  rw [hs]
  split
  · next cs heq => exact absurd (List.cons.inj (List.cons.inj heq).2).1 hc
  · next cs _ heq =>
    rw [← (List.cons.inj heq).2]
    simp
  · next h₁ h₂ => exact absurd rfl (h₂ (c :: l.reverse))

/-- A witness that stays on its line. -/
def OnLine (witness : String) : Prop :=
  '\n' ∉ witness.toList ∧ ∃ l c, witness.toList = l ++ [c] ∧ c ≠ '\r'

theorem textLines_line {version witness : String} (hversion : InColumn version)
    (hwitness : OnLine witness) (rest : String) :
    textLines (lineFor version witness ++ rest) =
      (version ++ "\t" ++ witness) :: textLines rest := by
  obtain ⟨hone, l, c, hlast, hc⟩ := hwitness
  have hnone : '\n' ∉ (version ++ "\t" ++ witness).toList := by
    simp [hversion.2, hone]
  have htext : (lineFor version witness ++ rest).toList =
      (version ++ "\t" ++ witness).toList ++ '\n' :: rest.toList := by
    simp [lineFor]
  have hpiece : (version ++ "\t" ++ witness).toList ++ ['\n'] =
      (version.toList ++ ['\t'] ++ l) ++ [c] ++ ['\n'] := by
    simp [hlast]
  unfold textLines
  rw [htext, textPieces_append hnone, List.map_cons, hpiece, dropLineEnding_concat hc]
  refine congrArg (· :: _) ?_
  rw [← String.toList_inj, String.toList_ofList]
  simp [hlast]

/-- **Versions that stay in their column read back as they were written.** -/
theorem read_rendered {l : List (String × String)}
    (h : ∀ entry ∈ l, InColumn entry.1 ∧ OnLine entry.2) : read (some (rendered l)) = l := by
  show (textLines (rendered l)).filterMap (splitOnce '\t') = l
  induction l with
  | nil => rfl
  | cons entry l ih =>
    obtain ⟨version, witness⟩ := entry
    obtain ⟨hversion, hwitness⟩ := h _ List.mem_cons_self
    rw [rendered, textLines_line hversion hwitness, List.filterMap_cons,
      splitOnce_append hversion.1 _ rfl, ih fun e he => h e (List.mem_cons_of_mem _ he)]

theorem mem_hex {bytes : Bytes} {c : Char} (h : c ∈ (hex bytes).toList) :
    ∃ n < 16, c = Nat.digitChar n := by
  rw [hex, String.toList_ofList] at h
  obtain ⟨b, -, hb⟩ := List.mem_flatMap.mp h
  have hlt := b.toNat_lt
  rcases List.mem_cons.mp hb with rfl | hb
  · exact ⟨b.toNat / 16, by omega, rfl⟩
  · exact ⟨b.toNat % 16, by omega, List.mem_singleton.mp hb⟩

theorem digitChar_visible : ∀ n < 16, Nat.digitChar n ≠ '\n' ∧ Nat.digitChar n ≠ '\r' := by
  decide

variable {hmac path}
variable {p q : HmacPseudonymizer} {v : Volume} {sequence : List (Option HmacPseudonymizer)}

/-- A witness stays on its line when its version does. -/
theorem onLine_witness (h : '\n' ∉ p.keyVersion.toList) : OnLine (p.witness hmac) := by
  obtain ⟨token, htoken⟩ : ∃ token, p.witness hmac = p.keyVersion ++ ":" ++ hex token := ⟨_, rfl⟩
  have hvisible : ∀ c ∈ (hex token).toList, c ≠ '\n' ∧ c ≠ '\r' := by
    intro c hc
    obtain ⟨n, hn, rfl⟩ := mem_hex hc
    exact digitChar_visible n hn
  rw [htoken]
  refine ⟨?_, ?_⟩
  · simp only [String.toList_append, List.mem_append, not_or]
    exact ⟨⟨h, by decide⟩, fun hmem => (hvisible _ hmem).1 rfl⟩
  · rcases List.eq_nil_or_concat (hex token).toList with hnil | ⟨l, c, hconcat⟩
    · exact ⟨p.keyVersion.toList, ':', by simp [hnil], by decide⟩
    · rw [List.concat_eq_append] at hconcat
      refine ⟨(p.keyVersion ++ ":").toList ++ l, c, ?_, ?_⟩
      · rw [String.toList_append, hconcat, List.append_assoc]
      · exact (hvisible c (by rw [hconcat]; exact List.mem_append_right _ List.mem_cons_self)).2

/-! ## What the volume remembers -/

/-- The file says of each version what its first start produced, and every start that passed agrees
with it. -/
structure Volume.Remembers (hmac : Bytes → Bytes → Bytes) (v : Volume)
    (entries : List (String × String)) : Prop where
  file : read v.file = entries ∧ v.file.getD "" = rendered entries
  clean : ∀ entry ∈ entries, InColumn entry.1 ∧ OnLine entry.2
  nodup : (entries.map Prod.fst).Nodup
  passed : ∀ p ∈ v.passed, (p.keyVersion, p.witness hmac) ∈ entries
  used : ∀ entry ∈ entries, ∃ p ∈ v.passed, p.keyVersion = entry.1

theorem Volume.Remembers.fresh : Volume.fresh.Remembers hmac [] where
  file := ⟨rfl, rfl⟩
  clean := by simp
  nodup := by simp
  passed := by simp [Volume.fresh]
  used := by simp

theorem find_entry {entries : List (String × String)} {version : String} {found : String × String}
    (h : (entries.find? fun entry => entry.1 = version) = some found) :
    found ∈ entries ∧ found.1 = version :=
  ⟨List.mem_of_find?_eq_some h, by simpa using List.find?_some h⟩

/-- A start with a known version passes exactly when it produces what was recorded. -/
theorem checkAt_known (path : String) {entries : List (String × String)}
    (h : v.Remembers hmac entries)
    {previous : String} (hknown : (p.keyVersion, previous) ∈ entries) :
    (checkAt hmac path (some p) v.file).toOption =
      if previous = p.witness hmac then some v.file else none := by
  have hfind : ((read v.file).find? fun entry => entry.1 = p.keyVersion) =
      some (p.keyVersion, previous) := by
    rw [h.file.1]
    cases hfound : entries.find? fun entry => entry.1 = p.keyVersion with
    | none =>
      have := List.find?_eq_none.mp hfound _ hknown
      simp at this
    | some found =>
      obtain ⟨hmem, hversion⟩ := find_entry hfound
      rw [List.inj_on_of_nodup_map h.nodup hmem hknown hversion]
  simp only [checkAt, hfind]
  split_ifs
  · rfl
  · rfl

/-- A start with a version that was never recorded passes, and is recorded. -/
theorem checkAt_new {entries : List (String × String)} (h : v.Remembers hmac entries)
    (hnew : ∀ entry ∈ entries, entry.1 ≠ p.keyVersion) :
    checkAt hmac path (some p) v.file =
      .ok (some (rendered (entries ++ [(p.keyVersion, p.witness hmac)]))) := by
  have hfind : ((read v.file).find? fun entry => entry.1 = p.keyVersion) = none := by
    rw [h.file.1]
    exact List.find?_eq_none.mpr fun entry hentry => by simpa using hnew entry hentry
  have happend : append v.file p.keyVersion (p.witness hmac) =
      append (some (rendered entries)) p.keyVersion (p.witness hmac) := by
    unfold append
    rw [h.file.2, Option.getD_some]
  simp only [checkAt, hfind, happend, append_rendered]

/-- **One start keeps the memory**, when its version stays in its column. -/
theorem Volume.Remembers.start {entries : List (String × String)} (h : v.Remembers hmac entries)
    (hversion : InColumn p.keyVersion) :
    ∃ entries', (v.start hmac path (some p)).Remembers hmac entries' := by
  by_cases hknown : ∃ previous, (p.keyVersion, previous) ∈ entries
  · obtain ⟨previous, hprevious⟩ := hknown
    refine ⟨entries, ?_⟩
    have hcheck := checkAt_known path h hprevious
    unfold Volume.start
    cases hend : checkAt hmac path (some p) v.file with
    | error e => exact h
    | ok file =>
      rw [hend] at hcheck
      split_ifs at hcheck with hsame
      · cases Option.some.inj hcheck
        refine ⟨h.file, h.clean, h.nodup, ?_, ?_⟩
        · intro q hq
          rcases List.mem_append.mp hq with hold | hnew
          · exact h.passed q hold
          · cases List.mem_singleton.mp hnew
            exact hsame ▸ hprevious
        · intro entry hentry
          obtain ⟨q, hq, heq⟩ := h.used entry hentry
          exact ⟨q, List.mem_append_left _ hq, heq⟩
      · cases hcheck
  · have hnew : ∀ entry ∈ entries, entry.1 ≠ p.keyVersion := by
      intro entry hentry heq
      exact hknown ⟨entry.2, heq ▸ hentry⟩
    refine ⟨entries ++ [(p.keyVersion, p.witness hmac)], ?_⟩
    have hclean : ∀ entry ∈ entries ++ [(p.keyVersion, p.witness hmac)],
        InColumn entry.1 ∧ OnLine entry.2 := by
      intro entry hentry
      rcases List.mem_append.mp hentry with hold | hlast
      · exact h.clean entry hold
      · cases List.mem_singleton.mp hlast
        exact ⟨hversion, onLine_witness hversion.2⟩
    unfold Volume.start
    rw [checkAt_new h hnew]
    refine ⟨⟨read_rendered hclean, rfl⟩, hclean, ?_, ?_, ?_⟩
    · rw [List.map_append, List.map_singleton, List.nodup_append]
      refine ⟨h.nodup, List.nodup_singleton _, ?_⟩
      intro version hin version' hlast
      obtain ⟨entry, hentry, rfl⟩ := List.mem_map.mp hin
      rw [List.mem_singleton.mp hlast]
      exact hnew entry hentry
    · intro q hq
      rcases List.mem_append.mp hq with hold | hlast
      · exact List.mem_append_left _ (h.passed q hold)
      · cases List.mem_singleton.mp hlast
        exact List.mem_append_right _ List.mem_cons_self
    · intro entry hentry
      rcases List.mem_append.mp hentry with hold | hlast
      · obtain ⟨q, hq, heq⟩ := h.used entry hold
        exact ⟨q, List.mem_append_left _ hq, heq⟩
      · cases List.mem_singleton.mp hlast
        exact ⟨p, List.mem_append_right _ List.mem_cons_self, rfl⟩

/-! ## Whole histories -/

/-- Every start of the sequence that pseudonymises has a version that stays in its column. -/
def Columns (sequence : List (Option HmacPseudonymizer)) : Prop :=
  ∀ p, some p ∈ sequence → InColumn p.keyVersion

theorem starts_concat (pseudonymizer : Option HmacPseudonymizer) :
    starts hmac path (sequence ++ [pseudonymizer]) =
      (starts hmac path sequence).start hmac path pseudonymizer := by
  unfold starts
  rw [List.foldl_append]
  rfl

theorem start_none (v : Volume) : v.start hmac path none = v := by
  cases v
  simp [Volume.start, checkAt]

theorem starts_remembers (hmac : Bytes → Bytes → Bytes) (path : String)
    (hcolumns : Columns sequence) :
    ∃ entries, (starts hmac path sequence).Remembers hmac entries := by
  induction sequence using List.reverseRecOn with
  | nil => exact ⟨[], .fresh⟩
  | append_singleton sequence pseudonymizer ih =>
    obtain ⟨entries, h⟩ := ih fun p hp => hcolumns p (List.mem_append_left _ hp)
    rw [starts_concat]
    cases pseudonymizer with
    | none =>
      rw [start_none]
      exact ⟨entries, h⟩
    | some p => exact h.start (hcolumns p (List.mem_append_right _ List.mem_cons_self))

theorem mem_of_mem_passed (h : p ∈ (starts hmac path sequence).passed) : some p ∈ sequence := by
  induction sequence using List.reverseRecOn with
  | nil => simp [starts, Volume.fresh] at h
  | append_singleton sequence pseudonymizer ih =>
    rw [starts_concat] at h
    unfold Volume.start at h
    split at h
    · rcases List.mem_append.mp h with hold | hnew
      · exact List.mem_append_left _ (ih hold)
      · rw [Option.mem_toList] at hnew
        exact List.mem_append_right _ (List.mem_singleton.mpr hnew.symm)
    · exact List.mem_append_left _ (ih h)

/-- **Key-version witness.** In every sequence of starts whose versions have no tab and no line
feed: two starts that passed with the same version produce the same witness, a start whose version
was not used before is not refused, and, where the keys that were started with give distinct
witnesses when they are distinct, one version never stands for two keys. -/
theorem key_version_witness (hmac : Bytes → Bytes → Bytes) (path : String)
    (sequence : List (Option HmacPseudonymizer)) (hcolumns : Columns sequence) :
    (∀ p ∈ (starts hmac path sequence).passed, ∀ q ∈ (starts hmac path sequence).passed,
      p.keyVersion = q.keyVersion → p.witness hmac = q.witness hmac) ∧
    (∀ before after p, sequence = before ++ some p :: after →
      (∀ q, some q ∈ before → q.keyVersion ≠ p.keyVersion) →
      ∃ file, checkAt hmac path (some p) (starts hmac path before).file = .ok file) ∧
    ((∀ p ∈ (starts hmac path sequence).passed, ∀ q ∈ (starts hmac path sequence).passed,
        p.key ≠ q.key → p.witness hmac ≠ q.witness hmac) →
      ∀ p ∈ (starts hmac path sequence).passed, ∀ q ∈ (starts hmac path sequence).passed,
        p.keyVersion = q.keyVersion → p.key = q.key) := by
  have hagree : ∀ p ∈ (starts hmac path sequence).passed,
      ∀ q ∈ (starts hmac path sequence).passed,
        p.keyVersion = q.keyVersion → p.witness hmac = q.witness hmac := by
    obtain ⟨entries, h⟩ := starts_remembers hmac path hcolumns
    intro p hp q hq heq
    have hsame := List.inj_on_of_nodup_map h.nodup (h.passed p hp) (h.passed q hq) heq
    exact congrArg Prod.snd hsame
  refine ⟨hagree, ?_, ?_⟩
  · rintro before after p rfl hunused
    have hbefore : Columns before := fun q hq => hcolumns q (List.mem_append_left _ hq)
    obtain ⟨entries, h⟩ := starts_remembers hmac path hbefore
    refine ⟨_, checkAt_new h fun entry hentry heq => ?_⟩
    obtain ⟨q, hq, hversion⟩ := h.used entry hentry
    exact hunused q (mem_of_mem_passed hq) (hversion.trans heq)
  · intro hdistinct p hp q hq heq
    by_contra hne
    exact hdistinct p hp q hq hne (hagree p hp q hq heq)

/-! ### A version with a tab -/

/-- HMAC-SHA256 of the witness input under two keys. -/
def testHmac (key : Bytes) (_ : Bytes) : Bytes :=
  if key = (List.range 32).map UInt8.ofNat then
    [60, 75, 230, 100, 45, 204, 0, 140, 62, 142, 124, 47, 127, 54, 73, 251, 42, 144, 239, 208, 25,
      193, 55, 138, 171, 241, 236, 159, 127, 168, 47, 44]
  else if key = (List.range' 32 32).map UInt8.ofNat then
    [130, 28, 42, 252, 106, 83, 190, 194, 50, 60, 94, 116, 18, 135, 209, 205, 184, 92, 233, 149, 30,
      55, 234, 237, 209, 82, 112, 33, 5, 142, 53, 88]
  else []

/-- The first of the two keys, and the second, under a version. -/
def firstUnder (version : String) : HmacPseudonymizer := ⟨(List.range 32).map UInt8.ofNat, version⟩

def secondUnder (version : String) : HmacPseudonymizer :=
  ⟨(List.range' 32 32).map UInt8.ofNat, version⟩

/-- The starts under a version of its own for each key pass, and no version stands for two keys. -/
theorem key_version_witness_plain :
    let sequence := [some (firstUnder "v1"), none, some (secondUnder "v1"),
      some (secondUnder "v2"), some (firstUnder "v1")]
    (starts testHmac "state" sequence).passed =
        [firstUnder "v1", secondUnder "v2", firstUnder "v1"] ∧
      (∀ p ∈ (starts testHmac "state" sequence).passed,
        ∀ q ∈ (starts testHmac "state" sequence).passed,
          p.keyVersion = q.keyVersion → p.witness testHmac = q.witness testHmac) ∧
      (∃ file, checkAt testHmac "state" (some (secondUnder "v2"))
        (starts testHmac "state" [some (firstUnder "v1"), none, some (secondUnder "v1")]).file =
          .ok file) ∧
      ∀ p ∈ (starts testHmac "state" sequence).passed,
        ∀ q ∈ (starts testHmac "state" sequence).passed,
          p.keyVersion = q.keyVersion → p.key = q.key := by
  have hpassed : (starts testHmac "state" [some (firstUnder "v1"), none, some (secondUnder "v1"),
      some (secondUnder "v2"), some (firstUnder "v1")]).passed =
        [firstUnder "v1", secondUnder "v2", firstUnder "v1"] := by
    decide +kernel
  have hcolumns : Columns [some (firstUnder "v1"), none, some (secondUnder "v1"),
      some (secondUnder "v2"), some (firstUnder "v1")] := by
    intro p hp
    have hversion : p.keyVersion = "v1" ∨ p.keyVersion = "v2" := by
      simp only [List.mem_cons, Option.some.injEq, reduceCtorEq, false_or, List.not_mem_nil,
        or_false] at hp
      rcases hp with rfl | rfl | rfl | rfl <;> simp [firstUnder, secondUnder]
    rcases hversion with h | h <;> rw [h] <;> decide
  obtain ⟨hagree, hnew, hkeys⟩ := key_version_witness testHmac "state" _ hcolumns
  refine ⟨hpassed, hagree, hnew _ [some (firstUnder "v1")] (secondUnder "v2") rfl ?_, hkeys ?_⟩
  · intro q hq
    simp only [List.mem_cons, Option.some.injEq, reduceCtorEq, false_or, List.not_mem_nil,
      or_false] at hq
    rcases hq with rfl | rfl <;> decide
  · rw [hpassed]
    decide +kernel

/-- A version with a tab in it reads back as another version: a second key passes under it. -/
theorem tab_hides_a_version :
    trim "2026\tQ1" ≠ "" ∧
    (starts testHmac "state" [some (firstUnder "2026\tQ1"), some (secondUnder "2026\tQ1")]).passed =
      [firstUnder "2026\tQ1", secondUnder "2026\tQ1"] ∧
    (firstUnder "2026\tQ1").witness testHmac ≠ (secondUnder "2026\tQ1").witness testHmac ∧
    (starts testHmac "state" [some (firstUnder "2026\tQ1"), some (firstUnder "2026")]).passed =
      [firstUnder "2026\tQ1"] := by
  decide +kernel

end PicX.Server
