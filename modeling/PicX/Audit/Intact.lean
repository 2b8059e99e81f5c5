import Mathlib.Data.List.TakeWhile
import PicX.Audit.Effects

/-!
# The invariant of a trail nobody touched

`Intact c today w log`: the directory holds exactly the log, the log is a chain from `GENESIS`
whose records match their digests, every seal is of a day of the log and agrees with it, what is
open in memory says where the chain stands, and no day is later than `today`.

* `Intact.verifies` — `verify` succeeds on such a directory.
* `record_intact` — recording keeps the invariant, as long as nothing on disk is due to expire and
  no operation fails in one of the ways `Harmless` excludes.
* `prepare_intact`, `shutdown_intact` — so do the other calls.
-/

namespace PicX.Audit

open PicX Program

variable {c : Crates} {f : Op → Outcome} {w w' : World} {today : Int} {log : Log}

/-- What a seal says is true of these records. -/
def Agrees (s : Seal) (rs : List Record) : Prop :=
  s.body.records = 0 ∨ ∃ r, rs[s.body.records - 1]? = some r ∧ s.body.head = r.digest

theorem Agrees.append {s : Seal} {rs : List Record} (h : Agrees s rs) (rs' : List Record) :
    Agrees s (rs ++ rs') := by
  rcases h with h0 | ⟨r, hr, hhead⟩
  · exact Or.inl h0
  · exact Or.inr
      ⟨r, by rw [List.getElem?_append_left (List.getElem?_eq_some_iff.mp hr).1, hr], hhead⟩

structure Intact (c : Crates) (today : Int) (w : World) (log : Log) : Prop where
  holds : Holds c w.files log
  digests : ∀ r ∈ log.records, expectedDigest c r.body = r.digest
  chained : RecordChain GENESIS 1 log.records
  seals : ∀ day, Readable day → ∀ node, w.lookup (sealName day) = some node →
    day ∈ log.days ∧ ∃ s, node = .file (utf8 (c.sealToStringPretty s)) ∧ Agrees s log.records
  opened : ∀ o, w.opened = some o → o.day ∈ log.days ∧ o.seq = log.records.length ∧
    o.previous = headOf GENESIS log.records
  past : ∀ day ∈ log.days, day ≤ today

/-! ## Intact trails verify -/

theorem readSeals_ok (hc : c.Lawful) {P : Seal → Prop} {d : Directory} (path : String)
    {days : List Int} (h : ∀ day ∈ days, d.lookup (sealName day) = none ∨
      ∃ s, d.lookup (sealName day) = some (.file (utf8 (c.sealToStringPretty s))) ∧ P s)
    (seals : Seals) (hseals : ∀ n s, seals[n]? = some s → s.body.records = n ∧ P s) :
    ∃ seals', days.foldlM (readSeal c path d) seals = .ok seals' ∧
      ∀ n s, seals'[n]? = some s → s.body.records = n ∧ P s := by
  induction days generalizing seals with
  | nil => exact ⟨seals, rfl, hseals⟩
  | cons day days ih =>
    have hrest := fun day' hday' => h day' (List.mem_cons_of_mem day hday')
    rw [List.foldlM_cons]
    rcases h day List.mem_cons_self with hnone | ⟨s, hs, hP⟩
    · have hread : readSeal c path d seals day = .ok seals := by simp [readSeal, hnone]
      rw [hread]
      exact ih hrest seals hseals
    · have hread : readSeal c path d seals day = .ok (seals.insert s.body.records s) := by
        simp [readSeal, hs, fromUtf8_utf8, hc.sealFromStr_sealToStringPretty]
      rw [hread]
      refine ih hrest _ fun n s' hs' => ?_
      rw [Std.TreeMap.getElem?_insert] at hs'
      split_ifs at hs' with hcmp
      · obtain rfl := Option.some.inj hs'
        exact ⟨compare_eq_iff_eq.mp hcmp, hP⟩
      · exact hseals n s' hs'

/-- **An intact trail verifies**, and its records are counted. -/
theorem Intact.verified (hc : c.Lawful) (h : Intact c today w log) {d : Directory}
    (hd : w.directory = some d) (path : String) :
    ∃ v, verify c path (some d) = .ok v ∧ v.records = log.records.length := by
  have hfiles : w.files = d := by simp [World.files, hd]
  have hholds : Holds c d log := hfiles ▸ h.holds
  have hdays : ∀ day ∈ daysOf d.keys, d.lookup (sealName day) = none ∨ ∃ s,
      d.lookup (sealName day) = some (.file (utf8 (c.sealToStringPretty s))) ∧
        Agrees s log.records := by
    intro day hday
    rw [hholds.daysOf_eq] at hday
    cases hnode : d.lookup (sealName day) with
    | none => exact Or.inl rfl
    | some node =>
      rw [← hfiles, ← World.lookup_eq] at hnode
      obtain ⟨-, s, rfl, hs⟩ := h.seals day (hholds.readable day hday) node hnode
      exact Or.inr ⟨s, rfl, hs⟩
  obtain ⟨seals, hseals, hagree⟩ := readSeals_ok hc path hdays ∅ (by simp)
  refine ⟨_, verify_ok_iff.mpr ⟨d, seals, log.records, rfl, hseals, hholds.trail_eq hc,
    ⟨h.digests, h.chained, fun n s hs => ?_⟩, rfl⟩, rfl⟩
  obtain ⟨rfl, hagrees⟩ := hagree n s hs
  exact hagrees

theorem Intact.verifies (hc : c.Lawful) (h : Intact c today w log) {d : Directory}
    (hd : w.directory = some d) (path : String) : ∃ v, verify c path (some d) = .ok v := by
  obtain ⟨v, hv, -⟩ := h.verified hc hd path
  exact ⟨v, hv⟩

/-! ## One effect at a time -/

theorem Intact.later (h : Intact c today w log) {today' : Int} (hle : today ≤ today') :
    Intact c today' w log :=
  { h with past := fun day hday => (h.past day hday).trans hle }

/-- Forgetting what is open. -/
theorem Intact.closed (h : Intact c today w log) : Intact c today { w with opened := none } log :=
  { h with opened := by simp }

/-- A seal that says what is true can be written. -/
theorem Intact.sealTouched (h : Intact c today w log) {day : Int} {s : Seal}
    (hseal : SealTouched f day (c.sealToStringPretty s) w w') (hday : day ∈ log.days)
    (hs : Agrees s log.records) (hwrite : f .createSeal = .done → f .writeSeal = .done) :
    Intact c today w' log ∧ w'.opened = w.opened ∧
      w'.directory.isSome = w.directory.isSome := by
  rcases hseal with rfl | ⟨hsome, hcreate, content, rfl, hcontent⟩
  · exact ⟨h, rfl, rfl⟩
  · obtain rfl := hcontent (hwrite hcreate)
    refine ⟨{ h with holds := ?_, seals := fun day' hread node hnode => ?_ }, rfl,
      World.onDirectory_isSome _⟩
    · rw [World.files_onDirectory hsome]
      exact h.holds.insert_other (dayOfFile_sealName day) _
    · rw [World.lookup_insert hsome] at hnode
      split_ifs at hnode with heq
      · obtain rfl := sealName_injOn heq hread (h.holds.readable day hday)
        exact ⟨hday, s, (Option.some.inj hnode).symm, hs⟩
      · exact h.seals day' hread node hnode

/-- The seal of what is open says what is true. -/
theorem Intact.agrees_sealOf (h : Intact c today w log) {o : Open} (ho : w.opened = some o)
    (m : Moment) : Agrees (sealOf c m o.day o.seq o.previous) log.records := by
  obtain ⟨-, hseq, hprev⟩ := h.opened o ho
  rcases List.eq_nil_or_concat log.records with hnil | ⟨rs, r, hrs⟩
  · refine Or.inl ?_
    simp [sealOf, hseq, hnil]
  · rw [List.concat_eq_append] at hrs
    refine Or.inr ⟨r, ?_, ?_⟩
    · simp [sealOf, hseq, hrs]
    · simp [sealOf, hprev, hrs]

theorem Intact.createdDir (h : Intact c today w log) :
    Intact c today { w with directory := some w.files } log :=
  { h with
    holds := h.holds
    seals := fun day hday node hnode => h.seals day hday node (by
      rw [World.lookup_eq] at hnode ⊢
      exact hnode) }

/-- Opening the file of a day that is not before any other. -/
theorem Intact.dayOpened (h : Intact c today w log) {day : Int} (hday : Readable day)
    (hle : today ≤ day) (hopen : DayOpened day w w') :
    ∃ log', (log' = log ∨ log' = log ++ [(day, [])]) ∧ day ∈ log'.days ∧
      Intact c day w' log' ∧ w'.opened = w.opened := by
  rcases hopen with ⟨⟨content, hfile⟩, rfl⟩ | ⟨hnone, hsome, rfl⟩
  · have hmem : day ∈ log.days := by
      rw [← h.holds.mem_iff hday, ← AList.lookup_isSome, ← World.lookup_eq, hfile]
      rfl
    exact ⟨log, Or.inl rfl, hmem, h.later hle, rfl⟩
  · have hnew : day ∉ log.days := by
      rw [← h.holds.mem_iff hday, ← AList.lookup_eq_none, ← World.lookup_eq, hnone]
    have hlt : ∀ day' ∈ log.days, day' < day := fun day' hday' =>
      lt_of_le_of_ne ((h.past day' hday').trans hle) fun heq => hnew (heq ▸ hday')
    have hrecords : Log.records (log ++ [(day, [])]) = log.records := by simp
    have hmem : ∀ day' ∈ log.days, day' ∈ Log.days (log ++ [(day, [])]) := by simp +contextual
    refine ⟨log ++ [(day, [])], Or.inr rfl, by simp, ?_, rfl⟩
    exact {
      holds := by
        rw [World.files_onDirectory hsome]
        exact h.holds.create hday hlt
      digests := by rw [hrecords]; exact h.digests
      chained := by rw [hrecords]; exact h.chained
      seals := fun day' hread node hnode => by
        rw [World.lookup_insert hsome, if_neg (fileName_ne_sealName hday day').symm] at hnode
        obtain ⟨hin, s, hs, hagree⟩ := h.seals day' hread node hnode
        exact ⟨hmem day' hin, s, hs, by rw [hrecords]; exact hagree⟩
      opened := fun o ho => by
        obtain ⟨hin, hseq, hprev⟩ := h.opened o ho
        rw [hrecords]
        exact ⟨hmem o.day hin, hseq, hprev⟩
      past := fun day' hday' => by
        rw [Log.days_append, List.mem_append, Log.days_singleton, List.mem_singleton] at hday'
        rcases hday' with hold | rfl
        · exact (hlt day' hold).le
        · exact le_rfl }

theorem RecordChain.last {rs : List Record} {r : Record} (h : RecordChain GENESIS 1 (rs ++ [r])) :
    r.body.seq = (rs ++ [r]).length := by
  rw [recordChain_concat] at h
  rw [h.2.2, List.length_append, List.length_singleton, Nat.add_comm]

/-- A sink that starts cold goes on where the chain stands, unless the newest day has a file and
no record while an older day has one. -/
def ColdStart (c : Crates) (w : World) : Prop :=
  trail c w.files = some [] ∨ ∀ latest, (daysOf w.files.keys).getLast? = some latest →
    dayRecords c w.files latest ≠ some []

theorem Intact.tailOf_ok (hc : c.Lawful) (h : Intact c today w log) (hcold : ColdStart c w) :
    ∃ found, tailOf c w.files = .ok found ∧
      found.getD (0, GENESIS) = (log.records.length, headOf GENESIS log.records) := by
  rw [ColdStart, h.holds.trail_eq hc, h.holds.daysOf_eq] at hcold
  unfold tailOf
  rw [h.holds.daysOf_eq]
  rcases List.eq_nil_or_concat log with rfl | ⟨log₀, e, rfl⟩
  · exact ⟨none, rfl, rfl⟩
  · rw [List.concat_eq_append] at *
    have hlast : Log.days (log₀ ++ [e]) = Log.days log₀ ++ [e.1] := by simp [Log.days]
    have hrecords : Log.records (log₀ ++ [e]) = Log.records log₀ ++ e.2 := by simp [Log.records]
    have hcontent := h.holds.content e (by simp)
    rw [hlast, List.getLast?_concat] at hcold ⊢
    have hlines : lines (textOf c e.2) = e.2.map fun r => some (c.recordToString r) := by
      simpa [show lines [] = [] from rfl] using lines_textOf hc e.2 []
    have hline : lastLine (textOf c e.2) (lines (textOf c e.2)).length =
        e.2.getLast?.map c.recordToString := by
      rw [lastLine, List.take_length, hlines, List.takeWhile_eq_self_iff.mpr (by simp),
        getLast?_filterMap_lines hc]
    simp only [hcontent, hline]
    rcases List.eq_nil_or_concat e.2 with hnil | ⟨rs, r, hrs⟩
    · have hempty : Log.records log₀ ++ e.2 = [] := by
        rcases hcold with hnone | hlatest
        · rw [← hrecords]
          exact Option.some.inj hnone
        · refine absurd ?_ (hlatest e.1 rfl)
          simp [dayRecords, hcontent, parseLines_textOf hc, hnil]
      exact ⟨none, by simp [hnil], by rw [hrecords, hempty]; rfl⟩
    · rw [List.concat_eq_append] at hrs
      refine ⟨some (r.body.seq, r.digest), by simp [hrs, hc.recordFromStr_recordToString], ?_⟩
      have hchain := h.chained
      rw [hrecords, hrs, ← List.append_assoc] at hchain ⊢
      rw [Option.getD_some, hchain.last, headOf_concat]

/-! ## Recording -/

/-- The file being written is the last of the log. -/
theorem Intact.current_file (h : Intact c today w log) {o : Open} (ho : w.opened = some o)
    (hday : o.day = today) : ∃ log₀ rs, log = log₀ ++ [(today, rs)] ∧
      w.lookup (fileName today) = some (.file (textOf c rs)) := by
  have hmem : today ∈ log.days := hday ▸ (h.opened o ho).1
  obtain ⟨log₀, rs, rfl⟩ := Log.eq_concat_of_mem h.holds.sorted hmem h.past
  refine ⟨log₀, rs, rfl, ?_⟩
  rw [World.lookup_eq]
  exact h.holds.content (today, rs) (by simp)

/-- Rewriting the file of the last day as it was. -/
theorem Intact.rewritten {log₀ : Log} {rs : List Record}
    (h : Intact c today w (log₀ ++ [(today, rs)])) (hsome : w.directory.isSome) :
    Intact c today (w.onDirectory (·.insert (fileName today) (.file (textOf c rs))))
      (log₀ ++ [(today, rs)]) :=
  { h with
    holds := by
      rw [World.files_onDirectory hsome]
      exact h.holds.replace rs
    seals := fun day hread node hnode => by
      have hread' := h.holds.readable today (by simp)
      rw [World.lookup_insert hsome, if_neg (fileName_ne_sealName hread' day).symm] at hnode
      exact h.seals day hread node hnode }

/-- **A record that follows what is open extends the log.** -/
theorem Intact.appended {log₀ : Log} {rs : List Record} {o : Open} {r : Record}
    (h : Intact c today w (log₀ ++ [(today, rs)])) (hsome : w.directory.isSome)
    (ho : w.opened = some o) (hday : o.day = today) (hseq : r.body.seq = o.seq + 1)
    (hprev : r.body.prev = o.previous) (hdigest : r.digest = expectedDigest c r.body) :
    Intact c today
      { w.appended today (textOf c rs ++ utf8 (c.recordToString r) ++ [10]) r with
        opened := some { o with seq := o.seq + 1, previous := r.digest } }
      (log₀ ++ [(today, rs ++ [r])]) := by
  have hread := h.holds.readable today (by simp)
  have hrecords : Log.records (log₀ ++ [(today, rs ++ [r])]) =
      Log.records (log₀ ++ [(today, rs)]) ++ [r] := by simp
  have hdays : Log.days (log₀ ++ [(today, rs ++ [r])]) = Log.days (log₀ ++ [(today, rs)]) := by simp
  obtain ⟨-, hlen, hhead⟩ := h.opened o ho
  exact {
    holds := h.holds.appended hsome r
    digests := by
      rw [hrecords]
      intro r' hr'
      rcases List.mem_append.mp hr' with hold | hnew
      · exact h.digests r' hold
      · rw [List.mem_singleton.mp hnew, hdigest]
    chained := by
      rw [hrecords, recordChain_concat]
      exact ⟨h.chained, hprev.trans hhead, by omega⟩
    seals := fun day hreadable node hnode => by
      have hlookup := World.appended_lookup hsome today
        (textOf c rs ++ utf8 (c.recordToString r) ++ [10]) r (sealName day)
      rw [if_neg (fileName_ne_sealName hread day).symm] at hlookup
      have hnode : w.lookup (sealName day) = some node := hlookup.symm.trans hnode
      obtain ⟨hin, s, hs, hagree⟩ := h.seals day hreadable node hnode
      exact ⟨hdays ▸ hin, s, hs, hrecords ▸ hagree.append [r]⟩
    opened := fun o' ho' => by
      obtain rfl := Option.some.inj ho'
      rw [hrecords, headOf_concat]
      exact ⟨by simp [hday], by rw [List.length_append, ← hlen]; rfl, rfl⟩
    past := hdays ▸ h.past }

theorem Moment.readable_day (m : Moment) : Readable m.day := by
  have h := m.now.property
  unfold Readable Moment.day Civil.dayOf Civil.DAY
  omega

/-- What a record step may meet without harm to the trail: nothing on disk is due to expire when
it rolls over, a seal it makes is written whole or not at all, a sink that starts cold sees the
newest day and its last record, and a line is written whole and flushed or not at all. -/
structure Harmless (c : Crates) (sink : FileAuditSink) (m : Moment) (f : Op → Outcome) (w : World) :
    Prop where
  alive : ¬Cut f
  kept : current w.opened m.day = false → NothingDue sink m.day w
  sealWhole : w.opened ≠ none → current w.opened m.day = false →
    f .createSeal = .done → f .writeSeal = .done
  cold : w.opened = none → ColdStart c w ∧
    (∀ name n reason, f (.listDaysEntry name) ≠ .failed n reason) ∧
    ∀ n reason, f .readTail ≠ .failed n reason
  lineWhole : ∀ n reason, f .writeLine = .failed n reason → n = 0
  flushed : f .writeLine = .done → f .writeNewline = .done ∧ f .syncData = .done

theorem current_eq_true {opened : Option Open} {day : Int} :
    current opened day = true ↔ ∃ o, opened = some o ∧ o.day = day := by
  cases opened <;> simp [current]

/-- The file of a day is never a directory. -/
theorem Holds.not_directory (h : Holds c w.files log) {day : Int} (hday : Readable day) :
    w.lookup (fileName day) ≠ some .directory := by
  intro hdir
  rw [World.lookup_eq] at hdir
  have hmem : day ∈ log.days := by
    rw [← h.mem_iff hday, ← AList.lookup_isSome]
    exact Option.isSome_iff_exists.mpr ⟨_, hdir⟩
  obtain ⟨e, he, rfl⟩ := List.mem_map.mp hmem
  have hfile := h.content e he
  rw [hdir] at hfile
  cases hfile

/-- Where the chain stands is in memory, or at the end of the newest day. -/
theorem continueFrom_intact (hc : c.Lawful) {m : Moment} (h : Intact c today w log)
    (hcold : w.opened = none → ColdStart c w ∧
      (∀ name n reason, f (.listDaysEntry name) ≠ .failed n reason) ∧
      ∀ n reason, f .readTail ≠ .failed n reason) :
    WP (continueFrom c m w.opened) f
      (fun found w' => w' = w ∧
        found.getD (0, GENESIS) = (log.records.length, headOf GENESIS log.records))
      (fun _ w' => w' = w ∧ Refused f) (fun _ => Cut f) w := by
  cases ho : w.opened with
  | some o =>
    obtain ⟨-, hseq, hprev⟩ := h.opened o ho
    exact ⟨rfl, by simp [hseq, hprev]⟩
  | none =>
    obtain ⟨hstart, hlist, hread⟩ := hcold ho
    obtain ⟨found, hfound, hgetD⟩ := h.tailOf_ok hc hstart
    refine (tail_spec hlist hread).mono ?_ ?_ (fun _ hcut => hcut.2)
    · rintro found' w' ⟨rfl, hfound'⟩
      obtain rfl := Except.ok.inj (hfound.symm.trans hfound')
      exact ⟨rfl, hgetD⟩
    · rintro e w' ⟨rfl, hrefused | herror⟩
      · exact ⟨rfl, hrefused⟩
      · simp [hfound] at herror

theorem openFor_intact (hc : c.Lawful) {sink : FileAuditSink} {m : Moment}
    (h : Intact c today w log) (hle : today ≤ m.day)
    (hcold : w.opened = none → ColdStart c w ∧
      (∀ name n reason, f (.listDaysEntry name) ≠ .failed n reason) ∧
      ∀ n reason, f .readTail ≠ .failed n reason) :
    WP (openFor c sink m m.day) f
      (fun _ w' => ∃ log' o, (log' = log ∨ log' = log ++ [(m.day, [])]) ∧
        Intact c m.day w' log' ∧ w'.opened = some o ∧ o.day = m.day)
      (fun _ w' => ∃ log', Intact c m.day w' log' ∧ Refused f) (fun _ => Cut f) w := by
  unfold openFor
  rw [wp_bind, wp_get]
  split_ifs with hcurrent
  · obtain ⟨o, ho, hday⟩ := current_eq_true.mp hcurrent
    exact ⟨log, o, Or.inl rfl, h.later hle, ho, hday⟩
  refine WP.bind ((continueFrom_intact hc h hcold).mono (fun _ _ h' => h')
    (fun _ _ h' => ⟨log, h'.1 ▸ h.later hle, h'.2⟩) (fun _ hcut => hcut)) ?_
  rintro found w' ⟨rfl, hfound⟩
  refine WP.bind (createDirAll_spec.mono (fun _ _ h' => h')
    (fun _ _ h' => ⟨log, h'.1 ▸ h.later hle, h'.2⟩) (fun _ hcut => hcut.2)) ?_
  rintro _ _ rfl
  refine WP.bind ((openDay_spec rfl).mono (fun _ _ h' => h') ?_ (fun _ hcut => hcut.2)) ?_
  · rintro _ _ ⟨rfl, hrefused | hdir⟩
    · exact ⟨log, h.createdDir.later hle, hrefused⟩
    · exact absurd hdir (h.createdDir.holds.not_directory m.readable_day)
  rintro _ w₁ hopened
  obtain ⟨log', hlog', hmem, hintact, hmemory⟩ := h.createdDir.dayOpened m.readable_day hle hopened
  refine WP.bind (wp_check.mono (fun _ _ h' => h') (fun _ _ h' => ⟨log', h'.1 ▸ hintact, h'.2⟩)
    (fun _ hcut => hcut.2)) ?_
  rintro _ w₂ rfl
  have hrecords : log'.records = log.records := by rcases hlog' with rfl | rfl <;> simp
  rw [wp_modify]
  refine ⟨log', _, hlog', { hintact with opened := fun o ho => ?_ }, rfl, rfl⟩
  obtain rfl := Option.some.inj ho
  rw [hrecords, ← Prod.mk.injEq, ← hfound]
  exact ⟨hmem, rfl⟩

theorem sealClosing_intact {sink : FileAuditSink} {m : Moment} (h : Intact c today w log)
    {rolled : Bool} (hwhole : w.opened ≠ none → rolled = true → f .createSeal = .done →
      f .writeSeal = .done) :
    WP (sealClosing c sink m rolled w.opened) f
      (fun _ w' => Intact c today w' log ∧ w'.opened = w.opened ∧ (w.opened = none → w' = w))
      (fun _ _ => False) (fun _ => Cut f) w := by
  unfold sealClosing
  cases ho : w.opened with
  | none => exact ⟨h, ho, fun _ => rfl⟩
  | some o =>
    dsimp only
    split_ifs with hrolled
    · have hdone := hwhole (by simp [ho]) hrolled
      have hday := (h.opened o ho).1
      have hagree := h.agrees_sealOf ho m
      refine WP.bind (Q := fun _ w' => Intact c today w' log ∧ w'.opened = w.opened ∧
        w'.directory.isSome = w.directory.isSome) ?_
          (fun _ _ h' => ⟨h'.1, h'.2.1.trans ho, by simp⟩)
      rw [wp_attempt]
      exact seal_spec.mono (fun _ _ h' => h.sealTouched h' hday hagree hdone)
        (fun _ _ h' => h.sealTouched h' hday hagree hdone) (fun _ hcut => hcut.2)
    · exact ⟨h, ho, by simp⟩

theorem Intact.nothingDue_iff (h : Intact c today w log) {sink : FileAuditSink} {day : Int} :
    NothingDue sink day w ↔ ∀ day' ∈ log.days, oldestKept sink day ≤ day' := by
  constructor
  · intro hdue day' hday'
    obtain ⟨name, hname, hof⟩ := List.mem_filterMap.mp (h.holds.names.mem_iff.mpr hday')
    exact hdue name hname day' hof
  · intro hall name hname day' hof
    exact hall day' (h.holds.names.mem_iff.mp (List.mem_filterMap.mpr ⟨name, hname, hof⟩))

/-- The next record of a trail. -/
def nextRecord (c : Crates) (sink : FileAuditSink) (m : Moment) (event : AuditEvent)
    (policy : Option (String → String)) (o : Open) : Record :=
  { body := bodyOf sink m event policy o
    digest := expectedDigest c (bodyOf sink m event policy o) }

theorem writeNext_intact {sink : FileAuditSink} {m : Moment} {event : AuditEvent}
    {policy : Option (String → String)} {o : Open} (h : Intact c today w log)
    (ho : w.opened = some o) (hday : o.day = today)
    (hline : ∀ n reason, f .writeLine = .failed n reason → n = 0)
    (hflushed : f .writeLine = .done → f .writeNewline = .done ∧ f .syncData = .done) :
    WP (writeNext c sink m event policy w.opened) f
      (fun _ w' => ∃ log₀ rs, log = log₀ ++ [(today, rs)] ∧
        Intact c today w' (log₀ ++ [(today, rs ++ [nextRecord c sink m event policy o])]) ∧
        current w'.opened today)
      (fun _ w' => Intact c today w' log ∧ Refused f) (fun _ => Cut f) w := by
  obtain ⟨log₀, rs, rfl, hfile⟩ := h.current_file ho hday
  have hsome := World.isSome_of_lookup hfile
  subst hday
  unfold writeNext
  rw [ho]
  dsimp only
  refine WP.bind ((appendRecord_spec hfile).mono (fun _ _ h' => h') ?_ (fun _ hcut => hcut.1)) ?_
  · rintro _ w'
      (⟨n, reason, hfailed, rfl⟩ | ⟨hdone, ⟨n, reason, hfailed⟩ | ⟨⟨n, reason, hfailed⟩, -⟩⟩)
    · -- Nothing of the line came through.
      obtain rfl := hline n reason hfailed
      rw [World.append_eq hfile, List.take_zero, List.append_nil]
      exact ⟨h.rewritten hsome, _, _, reason, hfailed⟩
    · simp [(hflushed hdone).1] at hfailed
    · simp [(hflushed hdone).2] at hfailed
  · rintro _ _ ⟨-, rfl⟩
    rw [wp_modify]
    exact ⟨log₀, rs, rfl, h.appended hsome ho rfl rfl rfl rfl, current_eq_true.mpr ⟨_, rfl, rfl⟩⟩

/-- The log after a record was written on `day`. -/
def Extends (log : Log) (day : Int) (log' : Log) : Prop :=
  ∃ log₀ rs r, log' = log₀ ++ [(day, rs ++ [r])] ∧
    (log₀ ++ [(day, rs)] = log ∨ log₀ ++ [(day, rs)] = log ++ [(day, [])])

/-- The log after `r` was written on `day`. -/
def Adds (log : Log) (day : Int) (r : Record) (log' : Log) : Prop :=
  ∃ log₀ rs, log' = log₀ ++ [(day, rs ++ [r])] ∧
    (log₀ ++ [(day, rs)] = log ∨ log₀ ++ [(day, rs)] = log ++ [(day, [])])

theorem Adds.extends {log' : Log} {day : Int} {r : Record} (h : Adds log day r log') :
    Extends log day log' := by
  obtain ⟨log₀, rs, heq, hlog⟩ := h
  exact ⟨log₀, rs, r, heq, hlog⟩

theorem Adds.records {log' : Log} {day : Int} {r : Record} (h : Adds log day r log') :
    log'.records = log.records ++ [r] := by
  obtain ⟨log₀, rs, rfl, hlog⟩ := h
  have hrecords : (log₀ ++ [(day, rs)]).records = log.records := by
    rcases hlog with hlog | hlog <;> simp [hlog]
  rw [← hrecords]
  simp

/-- **Recording adds the next record to a trail**; a failure of an operation leaves it the records
it had. -/
theorem record_adds (hc : c.Lawful) {sink : FileAuditSink} {m : Moment} {event : AuditEvent}
    {policy : Option (String → String)} (h : Intact c today w log) (hle : today ≤ m.day)
    (hharmless : Harmless c sink m f w) :
    WP (record c sink m event policy) f
      (fun _ w' => ∃ log' o, Intact c m.day w' log' ∧
        Adds log m.day (nextRecord c sink m event policy o) log' ∧ current w'.opened m.day)
      (fun _ w' => ∃ log', Intact c m.day w' log' ∧ Refused f) (fun _ => Cut f) w := by
  unfold record
  rw [wp_bind, wp_get]
  refine WP.bind ((sealClosing_intact h fun hne hrolled =>
    hharmless.sealWhole hne (by simpa using hrolled)).mono (fun _ _ h' => h')
    (fun _ _ h' => h'.elim) (fun _ hcut => hcut)) ?_
  rintro _ w₁ ⟨h₁, ho₁, hsame⟩
  refine WP.bind ((openFor_intact hc h₁ hle fun hnone => ?_).mono (fun _ _ h' => h')
    (fun _ _ h' => h') (fun _ hcut => hcut)) ?_
  · have hnone : w.opened = none := ho₁.symm.trans hnone
    rw [hsame hnone]
    exact hharmless.cold hnone
  rintro _ w₂ ⟨log₂, o, hlog₂, h₂, ho₂, hday⟩
  -- What is open now is the file of the day, so nothing that is due has appeared.
  refine WP.bind (Q := fun _ w' => w' = w₂) ?_ ?_
  · unfold expireRolled
    split_ifs with hrolled
    · have hkept := hharmless.kept (by simpa using hrolled)
      have hdue : NothingDue sink m.day w₂ := by
        rw [h₂.nothingDue_iff]
        rw [h.nothingDue_iff] at hkept
        rcases hlog₂ with rfl | rfl
        · exact hkept
        · intro day' hday'
          rw [Log.days_append, List.mem_append, Log.days_singleton, List.mem_singleton] at hday'
          rcases hday' with hold | rfl
          · exact hkept day' hold
          · unfold oldestKept
            omega
      exact WP.bind ((expire_nothing hdue).mono (fun _ _ h' => h')
        (fun _ _ h' => ⟨log₂, h'.1 ▸ h₂, h'.2⟩) (fun _ hcut => hcut.2)) fun _ _ h' => h'
    · rfl
  rintro _ _ rfl
  rw [wp_bind, wp_get]
  refine (writeNext_intact h₂ ho₂ hday hharmless.lineWhole hharmless.flushed).mono ?_
    (fun _ _ h' => ⟨log₂, h'⟩) (fun _ hcut => hcut)
  rintro _ w₃ ⟨log₀, rs, rfl, h₃, hcurrent⟩
  exact ⟨_, o, h₃, ⟨log₀, rs, rfl, hlog₂⟩, hcurrent⟩

/-- **Recording keeps a trail intact**: on success with a record more, on a failure of an
operation with the records it had. -/
theorem record_intact (hc : c.Lawful) {sink : FileAuditSink} {m : Moment} {event : AuditEvent}
    {policy : Option (String → String)} (h : Intact c today w log) (hle : today ≤ m.day)
    (hharmless : Harmless c sink m f w) :
    WP (record c sink m event policy) f
      (fun _ w' => ∃ log', Intact c m.day w' log' ∧ Extends log m.day log' ∧
        current w'.opened m.day)
      (fun _ w' => ∃ log', Intact c m.day w' log' ∧ Refused f) (fun _ => Cut f) w := by
  refine (record_adds hc h hle hharmless).mono ?_ (fun _ _ h' => h') (fun _ h' => h')
  rintro _ w' ⟨log', o, h', hadds, hcurrent⟩
  exact ⟨log', h', hadds.extends, hcurrent⟩

/-- No day of the log is empty. -/
def Log.Full (log : Log) : Prop := ∀ e ∈ log, e.2 ≠ []

theorem Extends.full {log' : Log} {day : Int} (h : Extends log day log') (hfull : log.Full) :
    log'.Full := by
  obtain ⟨log₀, rs, r, rfl, hlog⟩ := h
  intro e he
  rcases List.mem_append.mp he with hold | hnew
  · rcases hlog with hsame | hnew
    · exact hfull e (hsame ▸ List.mem_append_left _ hold)
    · exact hfull e ((List.append_inj' hnew rfl).1 ▸ hold)
  · simp [List.mem_singleton.mp hnew]

theorem Extends.isSome {log' : Log} {day : Int} (h : Extends log day log')
    (hintact : Intact c today w log') : w.directory.isSome := by
  obtain ⟨log₀, rs, r, rfl, -⟩ := h
  have := hintact.holds.content (day, rs ++ [r]) (by simp)
  rw [← World.lookup_eq] at this
  exact World.isSome_of_lookup this

theorem Intact.coldStart (hc : c.Lawful) (h : Intact c today w log) (hfull : log.Full) :
    ColdStart c w := by
  rw [ColdStart, h.holds.trail_eq hc, h.holds.daysOf_eq]
  rcases List.eq_nil_or_concat log with rfl | ⟨log₀, e, rfl⟩
  · exact Or.inl rfl
  · rw [List.concat_eq_append] at *
    refine Or.inr fun latest hlatest => ?_
    obtain rfl : e.1 = latest := by simpa [Log.days] using hlatest
    have := h.holds.content e (by simp)
    simpa [dayRecords, this, parseLines_textOf hc] using hfull e (by simp)

/-! ## The other calls -/

theorem shutdown_intact {sink : FileAuditSink} {m : Moment} (h : Intact c today w log)
    (hwhole : f .createSeal = .done → f .writeSeal = .done) :
    WP (shutdown c sink m) f
      (fun _ w' => Intact c today w' log ∧ w'.directory.isSome = w.directory.isSome)
      (fun _ w' => Intact c today w' log ∧ Refused f) (fun _ => Cut f) w := by
  unfold shutdown
  rw [wp_bind, wp_get]
  refine WP.bind (Q := fun _ w' => Intact c today w' log ∧
    w'.directory.isSome = w.directory.isSome) ?_ fun _ w' h' => ⟨h'.1.closed, h'.2⟩
  unfold closeOpen
  cases ho : w.opened with
  | none => exact ⟨h, rfl⟩
  | some o =>
    refine WP.bind (wp_check.mono (fun _ _ h' => h') (fun _ _ h' => ⟨h'.1 ▸ h, h'.2⟩)
      (fun _ hcut => hcut.2)) ?_
    rintro _ _ rfl
    have hseal {w'} (htouched : SealTouched f _ _ _ w') :
        Intact c today w' log ∧ w'.opened = _ ∧ w'.directory.isSome = _ :=
      h.sealTouched htouched (h.opened o ho).1 (h.agrees_sealOf ho m) hwhole
    refine WP.bind (Q := fun _ w'' => Intact c today w'' log ∧
      w''.directory.isSome = _) ?_ (fun _ _ h' => h')
    rw [wp_attempt]
    exact seal_spec.mono (fun _ _ h' => ⟨(hseal h').1, (hseal h').2.2⟩)
      (fun _ _ h' => ⟨(hseal h').1, (hseal h').2.2⟩) (fun _ hcut => hcut.2)

/-- Every day on disk is past its retention. -/
def EverythingDue (sink : FileAuditSink) (today : Int) (w : World) : Prop :=
  ∀ name ∈ w.files.keys, ∀ day, dayOfFile name = some day → day < oldestKept sink today

/-- When every day has gone, with its seal, a sink that holds nothing open can start afresh. -/
theorem Intact.emptied (h : Intact c today w log) {oldest : Int} (hshrunk : Shrunk oldest w w')
    (hclosed : w.opened = none)
    (hgone : ∀ name ∈ w.files.keys, ∀ day, dayOfFile name = some day →
      w'.lookup name = none ∧ ∀ content, w'.lookup (sealName day) ≠ some (.file content)) :
    Intact c today w' [] where
  holds := by
    have hnames : w'.files.keys.filterMap dayOfFile = [] := by
      rw [List.filterMap_eq_nil_iff]
      intro name hname
      by_contra hday
      obtain ⟨day, hof⟩ := Option.ne_none_iff_exists'.mp hday
      have hin : w'.lookup name ≠ none := World.mem_keys_iff_ne.mp hname
      exact hin (hgone name (hshrunk.mem_keys hin) day hof).1
    exact { sorted := .nil, readable := by simp [Log.days], names := by rw [hnames]; rfl,
            content := by simp }
  digests := by simp [Log.records]
  chained := trivial
  seals day hread node hnode := by
    have hbefore : w.lookup (sealName day) = some node := by
      rcases hshrunk.lookup (sealName day) with heq | ⟨hnone, -⟩
      · rw [← heq, hnode]
      · simp [hnode] at hnone
    obtain ⟨hin, s, rfl, -⟩ := h.seals day hread node hbefore
    have hname : fileName day ∈ w.files.keys :=
      AList.mem_keys.mp ((h.holds.mem_iff hread).mpr hin)
    exact absurd hnode ((hgone _ hname day (dayOfFile_fileName hread)).2 _)
  opened o ho := by simp [hshrunk.opened, hclosed] at ho
  past := by simp [Log.days]

/-- Preparing makes the directory, and then only expires what is due. -/
theorem prepare_expires {sink : FileAuditSink} {m : Moment} (hf : ∀ o, f o = .done)
    {Q : World → Prop} (hexpire : WP (expire sink m m.day) f (fun _ => Q) (fun _ _ => False)
      (fun _ => False) { w with directory := some w.files }) :
    WP (prepare sink m) f (fun _ => Q) (fun _ _ => False) (fun _ => False) w := by
  have hcut : ¬Cut f := fun ⟨o, h⟩ => by simp [hf o] at h
  have hrefused : ¬Refused f := fun ⟨o, n, r, h⟩ => by simp [hf o] at h
  unfold prepare
  refine WP.bind (createDirAll_spec.mono (fun _ _ h' => h') (fun _ _ h' => hrefused h'.2)
    (fun _ h' => hcut h'.2)) ?_
  rintro _ _ rfl
  refine WP.bind (wp_check.mono (fun _ _ h' => h') (fun _ _ h' => hrefused h'.2)
    (fun _ h' => hcut h'.2)) ?_
  rintro _ _ rfl
  exact WP.bind hexpire fun _ _ h' => h'

/-- With nothing due, preparing leaves the trail as it is. -/
theorem prepare_nothing {sink : FileAuditSink} {m : Moment} (h : Intact c today w log)
    (hf : ∀ o, f o = .done) (hnothing : NothingDue sink m.day w) :
    WP (prepare sink m) f (fun _ w' => Intact c today w' log ∧ w'.directory.isSome)
      (fun _ _ => False) (fun _ => False) w := by
  have hcut : ¬Cut f := fun ⟨o, h⟩ => by simp [hf o] at h
  have hrefused : ¬Refused f := fun ⟨o, n, r, h⟩ => by simp [hf o] at h
  have hnothing : NothingDue sink m.day { w with directory := some w.files } := hnothing
  refine prepare_expires hf ((expire_nothing hnothing).mono (fun _ _ h' => ?_)
    (fun _ _ h' => hrefused h'.2) (fun _ h' => hcut h'.2))
  exact ⟨h' ▸ h.createdDir, by rw [h']; rfl⟩

/-- Preparing removes nothing, or starts the trail afresh. -/
theorem prepare_intact {sink : FileAuditSink} {m : Moment} (h : Intact c today w log)
    (hf : ∀ o, f o = .done)
    (hdue : NothingDue sink m.day w ∨ w.opened = none ∧ EverythingDue sink m.day w) :
    WP (prepare sink m) f
      (fun _ w' => ∃ log', (log' = log ∨ log' = []) ∧ Intact c today w' log' ∧
        w'.directory.isSome)
      (fun _ _ => False) (fun _ => False) w := by
  rcases hdue with hnothing | ⟨hclosed, hevery⟩
  · exact (prepare_nothing h hf hnothing).mono (fun _ _ h' => ⟨log, Or.inl rfl, h'⟩)
      (fun _ _ h' => h') (fun _ h' => h')
  · have h₁ := h.createdDir
    refine prepare_expires hf ((expire_done hf fun name hname day hof hlt => ?_).mono
      (fun _ w' h' => ?_) (fun _ _ h' => h') (fun _ h' => h'))
    · rw [World.lookup_eq]
      exact h₁.holds.content_of_name hname hof
    · refine ⟨[], Or.inr rfl, h₁.emptied h'.1 hclosed fun name hname day hof => ?_, ?_⟩
      · exact h'.2 name hname day hof (hevery name hname day hof)
      · rw [h'.1.isSome]
        rfl

end PicX.Audit
