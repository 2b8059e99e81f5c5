import PicX.Audit.Verify

/-!
# Logs and the directories that hold them

A log is the trail cut into days: for each day, in order, the records of its file. `Holds c d log`
says that the record files of the directory `d` are those of `log` and nothing else, line for
line; seals and other files are free.

* `Holds.trail_eq` — the trail of such a directory is the log, day after day.
* `Holds.create`, `Holds.replace` — a new day, and a change to one day, follow the log.
-/

namespace PicX.Audit

open PicX

variable {c : Crates}

/-! ## Lines -/

/-- The content of a file that holds some records: one line each. -/
def textOf (c : Crates) (rs : List Record) : Bytes :=
  rs.flatMap fun r => utf8 (c.recordToString r) ++ [10]

theorem textOf_concat (rs : List Record) (r : Record) :
    textOf c (rs ++ [r]) = textOf c rs ++ utf8 (c.recordToString r) ++ [10] := by
  simp [textOf]

/-- The text of a record has something on it, whatever follows. -/
theorem blank_recordToString (hc : c.Lawful) (r : Record) (s : String) :
    blank (c.recordToString r ++ s) = false := by
  obtain ⟨rest, hrest⟩ := hc.recordToString_head r
  rw [hrest]
  simp [blank, show isWhitespace '{' = false by decide]

theorem lines_textOf (hc : c.Lawful) (rs : List Record) (rest : Bytes) :
    lines (textOf c rs ++ rest) = rs.map (fun r => some (c.recordToString r)) ++ lines rest := by
  induction rs with
  | nil => rfl
  | cons r rs ih =>
    have hcut : textOf c (r :: rs) ++ rest =
        utf8 (c.recordToString r) ++ 10 :: (textOf c rs ++ rest) := by
      simp [textOf]
    rw [hcut, lines_text (hc.recordToString_oneLine r), ih]
    rfl

/-- **What the sink lays out reads back.** -/
theorem parseLines_textOf (hc : c.Lawful) (rs : List Record) :
    parseLines c (lines (textOf c rs)) = some rs := by
  have hlines := lines_textOf hc rs []
  rw [List.append_nil] at hlines
  rw [hlines, show lines [] = [] from rfl, List.append_nil]
  induction rs with
  | nil => rfl
  | cons r rs ih =>
    have hblank : blank (c.recordToString r) = false := by
      simpa using blank_recordToString hc r ""
    have hrest := ih (by simpa using lines_textOf hc rs [])
    simp [parseLines, hblank, hc.recordFromStr_recordToString, hrest]

theorem getLast?_filterMap_lines (hc : c.Lawful) (rs : List Record) :
    ((rs.map fun r => some (c.recordToString r)).filterMap fun line =>
      line.filter fun text => !blank text).getLast? = rs.getLast?.map c.recordToString := by
  have hkeep : ∀ r, (some (c.recordToString r)).filter (fun text => !blank text) =
      some (c.recordToString r) := fun r => by
    have := blank_recordToString hc r ""
    simp_all
  rw [List.filterMap_map]
  simp [hkeep, List.getLast?_map]

/-! ## Days -/

/-- Days listed in any order are sorted back. -/
theorem daysOf_eq_of_perm {names : List String} {days : List Int} (hsorted : days.Pairwise (· < ·))
    (hperm : (names.filterMap dayOfFile).Perm days) : daysOf names = days := by
  have hle : days.Pairwise (· ≤ ·) := hsorted.imp Int.le_of_lt
  exact ((List.perm_insertionSort _ _).trans hperm).eq_of_pairwise'
    (List.pairwise_insertionSort _ _) hle

theorem mem_daysOf {names : List String} {day : Int} :
    day ∈ daysOf names ↔ ∃ name ∈ names, dayOfFile name = some day := by
  rw [daysOf, sortUnstable, (List.perm_insertionSort _ _).mem_iff, List.mem_filterMap]

theorem keys_insert_of_mem {d : Directory} {name : String} (h : name ∈ d) (node : Node) :
    (d.insert name node).keys.Perm d.keys := by
  rw [AList.keys_insert]
  exact (List.perm_cons_erase (AList.mem_keys.mp h)).symm

theorem keys_insert_of_notMem {d : Directory} {name : String} (h : name ∉ d) (node : Node) :
    (d.insert name node).keys = name :: d.keys := by
  rw [AList.keys_insert, List.erase_of_not_mem (fun hm => h (AList.mem_keys.mpr hm))]

theorem eq_of_nodup_filterMap {α β : Type} {g : α → Option β} {l : List α}
    (h : (l.filterMap g).Nodup) {a a' : α} {b : β} (ha : a ∈ l) (ha' : a' ∈ l) (hg : g a = some b)
    (hg' : g a' = some b) : a = a' := by
  induction l with
  | nil => simp at ha
  | cons x l ih =>
    have hmem : ∀ {y}, y ∈ l → g y = some b → b ∈ l.filterMap g := fun hy hgy =>
      List.mem_filterMap.mpr ⟨_, hy, hgy⟩
    rcases List.mem_cons.mp ha with rfl | hin <;> rcases List.mem_cons.mp ha' with rfl | hin'
    · rfl
    · rw [List.filterMap_cons, hg, List.nodup_cons] at h
      exact absurd (hmem hin' hg') h.1
    · rw [List.filterMap_cons, hg', List.nodup_cons] at h
      exact absurd (hmem hin hg) h.1
    · refine ih ?_ hin hin'
      rw [List.filterMap_cons] at h
      split at h
      · exact h
      · exact (List.nodup_cons.mp h).2

/-! ## Logs -/

/-- The trail cut into days. -/
abbrev Log := List (Int × List Record)

def Log.days (log : Log) : List Int := log.map Prod.fst

def Log.records (log : Log) : List Record := log.flatMap Prod.snd

@[simp] theorem Log.days_append (log log' : Log) : Log.days (log ++ log') = log.days ++ log'.days :=
  List.map_append

@[simp] theorem Log.records_append (log log' : Log) :
    Log.records (log ++ log') = log.records ++ log'.records :=
  List.flatMap_append

@[simp] theorem Log.days_singleton (day : Int) (rs : List Record) :
    Log.days [(day, rs)] = [day] := rfl

@[simp] theorem Log.records_singleton (day : Int) (rs : List Record) :
    Log.records [(day, rs)] = rs := by
  simp [Log.records]

/-- A day of a log that no other day is after is its last. -/
theorem Log.eq_concat_of_mem {log : Log} (hsorted : log.days.Pairwise (· < ·)) {day : Int}
    (hmem : day ∈ log.days) (hle : ∀ day' ∈ log.days, day' ≤ day) :
    ∃ log₀ rs, log = log₀ ++ [(day, rs)] := by
  rcases List.eq_nil_or_concat log with rfl | ⟨log₀, e, rfl⟩
  · simp [Log.days] at hmem
  · rw [List.concat_eq_append] at *
    refine ⟨log₀, e.2, ?_⟩
    have hlast : e.1 ≤ day := hle e.1 (by simp [Log.days])
    rw [Log.days_append, List.mem_append] at hmem
    rcases hmem with hold | hnew
    · rw [Log.days_append, List.pairwise_append] at hsorted
      have := hsorted.2.2 day hold e.1 (by simp [Log.days])
      omega
    · have : day = e.1 := by simpa [Log.days] using hnew
      rw [this]

/-- The record files of a directory are those of a log. -/
structure Holds (c : Crates) (d : Directory) (log : Log) : Prop where
  sorted : log.days.Pairwise (· < ·)
  readable : ∀ day ∈ log.days, Readable day
  names : (d.keys.filterMap dayOfFile).Perm log.days
  content : ∀ e ∈ log, d.lookup (fileName e.1) = some (.file (textOf c e.2))

namespace Holds

variable {d : Directory} {log : Log}

theorem empty : Holds c ∅ [] where
  sorted := List.Pairwise.nil
  readable := by simp [Log.days]
  names := by simp [Log.days]
  content := by simp

theorem daysOf_eq (h : Holds c d log) : daysOf d.keys = log.days :=
  daysOf_eq_of_perm h.sorted h.names

/-- **The trail of a directory is the log it holds**, one day after the other. -/
theorem trail_eq (hc : c.Lawful) (h : Holds c d log) : trail c d = some log.records := by
  have key : ∀ log' : Log, (∀ e ∈ log', d.lookup (fileName e.1) = some (.file (textOf c e.2))) →
      recordsOf c d log'.days = some log'.records := by
    intro log' hcontent
    induction log' with
    | nil => rfl
    | cons e log' ih =>
      have hday : dayRecords c d e.1 = some e.2 := by
        simp [dayRecords, hcontent e List.mem_cons_self, parseLines_textOf hc]
      have hrest := ih fun e' he' => hcontent e' (List.mem_cons_of_mem e he')
      simp only [Log.days, Log.records] at hrest
      simp [Log.days, Log.records, recordsOf, hday, hrest]
  rw [trail, h.daysOf_eq]
  exact key log h.content

/-- A day has a file exactly when the log has it. -/
theorem mem_iff (h : Holds c d log) {day : Int} (hday : Readable day) :
    fileName day ∈ d ↔ day ∈ log.days := by
  rw [← h.names.mem_iff, List.mem_filterMap]
  constructor
  · exact fun hm => ⟨fileName day, AList.mem_keys.mp hm, dayOfFile_fileName hday⟩
  · rintro ⟨name, hname, hof⟩
    have hin : day ∈ log.days :=
      h.names.mem_iff.mp (List.mem_filterMap.mpr ⟨name, hname, hof⟩)
    obtain ⟨e, he, rfl⟩ := List.mem_map.mp hin
    rw [← AList.lookup_isSome, h.content e he]
    rfl

/-- A file of records has the name of its day. -/
theorem name_eq (h : Holds c d log) {name : String} {day : Int} (hname : name ∈ d)
    (hof : dayOfFile name = some day) : name = fileName day := by
  have hin : day ∈ log.days :=
    h.names.mem_iff.mp (List.mem_filterMap.mpr ⟨name, AList.mem_keys.mp hname, hof⟩)
  have hread := h.readable day hin
  have hfile := (h.mem_iff hread).mpr hin
  have hnodup : (d.keys.filterMap dayOfFile).Nodup :=
    h.names.nodup_iff.mpr (h.sorted.imp ne_of_lt)
  exact eq_of_nodup_filterMap hnodup (AList.mem_keys.mp hname) (AList.mem_keys.mp hfile) hof
    (dayOfFile_fileName hread)

theorem content_of_name (h : Holds c d log) {name : String} {day : Int} (hname : name ∈ d.keys)
    (hof : dayOfFile name = some day) : ∃ content, d.lookup name = some (.file content) := by
  obtain ⟨e, he, rfl⟩ :=
    List.mem_map.mp (h.names.mem_iff.mp (List.mem_filterMap.mpr ⟨name, hname, hof⟩))
  rw [h.name_eq (AList.mem_keys.mpr hname) hof]
  exact ⟨_, h.content e he⟩

/-- The names of the record files, in any order, are those of the days of the log. -/
theorem of_names (hsorted : log.days.Pairwise (· < ·)) (hread : ∀ day ∈ log.days, Readable day)
    (hnames : ∀ name ∈ d, ∀ day, dayOfFile name = some day → name = fileName day ∧ day ∈ log.days)
    (hcontent : ∀ e ∈ log, d.lookup (fileName e.1) = some (.file (textOf c e.2))) :
    Holds c d log where
  sorted := hsorted
  readable := hread
  names := by
    have hne : d.keys.Pairwise fun name name' => name ≠ name' ∧ name ∈ d ∧ name' ∈ d :=
      d.keys_nodup.imp_of_mem fun hname hname' hne =>
        ⟨hne, AList.mem_keys.mpr hname, AList.mem_keys.mpr hname'⟩
    have hinj : (d.keys.filterMap dayOfFile).Nodup := by
      refine hne.filterMap dayOfFile fun name name' ⟨hne, hin, hin'⟩ day hof day' hof' heq => hne ?_
      rw [(hnames name hin day hof).1, (hnames name' hin' day' hof').1, heq]
    refine (List.perm_ext_iff_of_nodup hinj (hsorted.imp ne_of_lt)).mpr fun day => ?_
    rw [List.mem_filterMap]
    constructor
    · rintro ⟨name, hname, hof⟩
      exact (hnames name (AList.mem_keys.mpr hname) day hof).2
    · intro hday
      obtain ⟨e, he, rfl⟩ := List.mem_map.mp hday
      have hmem : fileName e.1 ∈ d := by
        rw [← AList.lookup_isSome, hcontent e he]
        rfl
      exact ⟨fileName e.1, AList.mem_keys.mp hmem, dayOfFile_fileName (hread _ hday)⟩
  content := hcontent

/-- A file that holds no records, such as a seal, can change. -/
theorem insert_other (h : Holds c d log) {name : String} (hname : dayOfFile name = none)
    (node : Node) : Holds c (d.insert name node) log where
  sorted := h.sorted
  readable := h.readable
  names := by
    by_cases hm : name ∈ d
    · exact ((keys_insert_of_mem hm node).filterMap _).trans h.names
    · rw [keys_insert_of_notMem hm, List.filterMap_cons, hname]
      exact h.names
  content e he := by
    have hne : fileName e.1 ≠ name := fun heq => by
      have := dayOfFile_fileName (h.readable e.1 (List.mem_map_of_mem he))
      simp [heq, hname] at this
    rw [AList.lookup_insert_ne hne]
    exact h.content e he

/-- A new day, in its place among the days of the log. -/
theorem createBetween {log₁ log₂ : Log} (h : Holds c d (log₁ ++ log₂)) {day : Int}
    (hday : Readable day) (hbefore : ∀ day' ∈ log₁.days, day' < day)
    (hafter : ∀ day' ∈ log₂.days, day < day') :
    Holds c (d.insert (fileName day) (.file [])) (log₁ ++ (day, []) :: log₂) where
  sorted := by
    have hsorted := h.sorted
    simp only [Log.days, List.map_append, List.map_cons, List.pairwise_append,
      List.pairwise_cons] at hsorted ⊢
    refine ⟨hsorted.1, ⟨hafter, hsorted.2.1⟩, fun a ha b hb => ?_⟩
    rcases List.mem_cons.mp hb with rfl | hb
    · exact hbefore a ha
    · exact hsorted.2.2 a ha b hb
  readable day' hday' := by
    simp only [Log.days, List.map_append, List.map_cons, List.mem_append, List.mem_cons] at hday'
    rcases hday' with hold | rfl | hold
    · exact h.readable day' (by simp only [Log.days_append, List.mem_append]; exact .inl hold)
    · exact hday
    · exact h.readable day' (by simp only [Log.days_append, List.mem_append]; exact .inr hold)
  names := by
    have hnew : fileName day ∉ d := by
      intro hm
      have hin := (h.mem_iff hday).mp hm
      rw [Log.days_append, List.mem_append] at hin
      rcases hin with hin | hin
      · exact lt_irrefl day (hbefore day hin)
      · exact lt_irrefl day (hafter day hin)
    have hperm : (Log.days (log₁ ++ (day, []) :: log₂)).Perm (day :: Log.days (log₁ ++ log₂)) := by
      simp only [Log.days, List.map_append, List.map_cons]
      exact List.perm_middle
    rw [keys_insert_of_notMem hnew, List.filterMap_cons, dayOfFile_fileName hday]
    exact (h.names.cons day).trans hperm.symm
  content e he := by
    rcases List.mem_append.mp he with hold | hnew
    · have hmem : e.1 ∈ log₁.days := List.mem_map_of_mem hold
      have hne : fileName e.1 ≠ fileName day := fun heq => (hbefore _ hmem).ne
        (fileName_injOn (h.readable _ (by simp [hmem])) hday heq)
      rw [AList.lookup_insert_ne hne]
      exact h.content e (List.mem_append_left _ hold)
    rcases List.mem_cons.mp hnew with rfl | hold
    · rw [AList.lookup_insert]
      rfl
    · have hmem : e.1 ∈ log₂.days := List.mem_map_of_mem hold
      have hne : fileName e.1 ≠ fileName day := fun heq => (hafter _ hmem).ne'
        (fileName_injOn (h.readable _ (by simp [hmem])) hday heq)
      rw [AList.lookup_insert_ne hne]
      exact h.content e (List.mem_append_right _ hold)

/-- A new day, after every day of the log. -/
theorem create (h : Holds c d log) {day : Int} (hday : Readable day)
    (hlast : ∀ day' ∈ log.days, day' < day) :
    Holds c (d.insert (fileName day) (.file [])) (log ++ [(day, [])]) := by
  rw [← List.append_nil log] at h
  exact h.createBetween hday hlast (by simp [Log.days])

/-- One day with other records. -/
theorem replace {log₁ log₂ : Log} {day : Int} {rs : List Record}
    (h : Holds c d (log₁ ++ (day, rs) :: log₂)) (rs' : List Record) :
    Holds c (d.insert (fileName day) (.file (textOf c rs'))) (log₁ ++ (day, rs') :: log₂) := by
  have hdays : Log.days (log₁ ++ (day, rs') :: log₂) = Log.days (log₁ ++ (day, rs) :: log₂) := by
    simp [Log.days]
  have hday : day ∈ Log.days (log₁ ++ (day, rs) :: log₂) := by simp [Log.days]
  refine ⟨hdays ▸ h.sorted, hdays ▸ h.readable, ?_, fun e he => ?_⟩
  · have hm := (h.mem_iff (h.readable day hday)).mpr hday
    rw [hdays]
    exact ((keys_insert_of_mem hm (.file (textOf c rs'))).filterMap dayOfFile).trans h.names
  · have hsorted := h.sorted
    simp only [Log.days, List.map_append, List.map_cons, List.pairwise_append,
      List.pairwise_cons] at hsorted
    -- The other days have other files.
    have hother : ∀ e ∈ log₁ ++ (day, rs) :: log₂, e.1 ≠ day →
        (d.insert (fileName day) (.file (textOf c rs'))).lookup (fileName e.1) =
          some (.file (textOf c e.2)) := by
      intro e he hne
      have hnames : fileName e.1 ≠ fileName day := fun heq => hne
        (fileName_injOn (h.readable _ (List.mem_map_of_mem he)) (h.readable _ hday) heq)
      rw [AList.lookup_insert_ne hnames]
      exact h.content e he
    rcases List.mem_append.mp he with hold | hnew
    · refine hother e (List.mem_append_left _ hold) ?_
      exact (hsorted.2.2 e.1 (List.mem_map_of_mem hold) day List.mem_cons_self).ne
    rcases List.mem_cons.mp hnew with rfl | hold
    · rw [AList.lookup_insert]
    · refine hother e (List.mem_append_right _ (List.mem_cons_of_mem _ hold)) ?_
      exact (hsorted.2.1.1 e.1 (List.mem_map_of_mem hold)).ne'

end Holds

end PicX.Audit
