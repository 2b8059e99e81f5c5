import PicX.Audit.Honest

/-!
# Crashes and restarts

A process can die between any two operations, and a new sink goes on over the same directory. It
reads where the chain left off from the newest day on disk. That is the last record ever written
as long as the newest file is the one it went to: a file created for a new day before its first
line, or an expiry that took the day of the last record, hide it.

* `Resumable` — the invariant: the files are lines of records, perhaps run together at the end
  where a crash came between a line and its line feed, and the memory knows the last record written.
* `resumable_step` — every call keeps it, under any crash.
* `restarted_sink_continues` — the next record follows the last one ever written.
-/

namespace PicX.Audit

open PicX Program

variable {c : Crates} {f : Op → Outcome} {w w' : World} {today : Int}

/-! ## Lines that may have run together -/

/-- A line of a file: the text of a record, and perhaps more that ran into it. -/
def Piece (c : Crates) (t : String) : Prop :=
  OneLine t ∧ ∃ r s, t = c.recordToString r ++ s ∧ (s = "" ∨ blank s = false)

theorem piece_recordToString (hc : c.Lawful) (r : Record) : Piece c (c.recordToString r) :=
  ⟨hc.recordToString_oneLine r, r, "", by simp, Or.inl rfl⟩

theorem Piece.not_blank (hc : c.Lawful) {t : String} (h : Piece c t) : blank t = false := by
  obtain ⟨-, r, s, rfl, -⟩ := h
  exact blank_recordToString hc r s

/-- A record that runs into an unfinished line makes it a line that does not parse. -/
theorem Piece.run_together (hc : c.Lawful) {t : String} (h : Piece c t) (r : Record) :
    Piece c (t ++ c.recordToString r) ∧
      ∃ e, c.recordFromStr (t ++ c.recordToString r) = .error e := by
  obtain ⟨hone, r₀, s, rfl, -⟩ := h
  have hblank : blank (s ++ c.recordToString r) = false := by
    have := blank_recordToString hc r ""
    simp only [String.append_empty, blank, ← Bool.not_eq_true, List.all_eq_true,
      String.toList_append, List.mem_append] at this ⊢
    exact fun hall => this fun ch hch => hall ch (Or.inr hch)
  rw [String.append_assoc]
  refine ⟨⟨?_, r₀, _, rfl, Or.inr hblank⟩, hc.recordFromStr_trailing r₀ _ hblank⟩
  intro ch hch
  simp only [← String.append_assoc, String.toList_append, List.mem_append] at hch
  rcases hch with hch | hch
  · exact hone ch (by simpa using hch)
  · exact hc.recordToString_oneLine r ch hch

/-- The content of a file: finished lines, and an unfinished one. -/
def Laid (c : Crates) (ls : List String) (u : String) (content : Bytes) : Prop :=
  content = (ls.flatMap fun t => utf8 t ++ [10]) ++ utf8 u ∧ (∀ t ∈ ls, Piece c t) ∧
    (u = "" ∨ Piece c u)

/-- The last line with something on it. -/
def lastPiece (ls : List String) (u : String) : Option String :=
  if u = "" then ls.getLast? else some u

theorem lines_of_laid {ls : List String} {u : String} {content : Bytes}
    (h : Laid c ls u content) :
    lines content = ls.map some ++ if u = "" then [] else [some u] := by
  obtain ⟨rfl, hls, hu⟩ := h
  induction ls with
  | nil =>
    split_ifs with hempty
    · subst hempty
      rfl
    · simpa using lines_unterminated (hu.resolve_left hempty).1 hempty
  | cons t ls ih =>
    have hrest := ih fun t' ht' => hls t' (List.mem_cons_of_mem t ht')
    rw [List.flatMap_cons, List.append_assoc, List.append_assoc, List.singleton_append,
      lines_text (hls t List.mem_cons_self).1, hrest]
    rfl

theorem lastLine_of_laid (hc : c.Lawful) {ls : List String} {u : String} {content : Bytes}
    (h : Laid c ls u content) : lastLine content (lines content).length = lastPiece ls u := by
  have hpieces : ∀ t ∈ ls ++ (if u = "" then [] else [u]), blank t = false := by
    intro t ht
    rcases List.mem_append.mp ht with ht | ht
    · exact (h.2.1 t ht).not_blank hc
    · split_ifs at ht with hempty
      · simp at ht
      · rw [List.mem_singleton.mp ht]
        exact (h.2.2.resolve_left hempty).not_blank hc
  have hlines : lines content = (ls ++ if u = "" then [] else [u]).map some := by
    rw [lines_of_laid h]
    split_ifs <;> simp
  have hkeep : ∀ ts : List String, (∀ t ∈ ts, blank t = false) →
      (ts.map some).filterMap (fun line => line.filter fun text => !blank text) = ts := by
    intro ts hts
    induction ts with
    | nil => rfl
    | cons t ts ih =>
      have hrest := ih fun t' ht' => hts t' (List.mem_cons_of_mem t ht')
      have ht : (some t).filter (fun text => !blank text) = some t := by
        simp [hts t List.mem_cons_self]
      rw [List.map_cons, List.filterMap_cons, ht, hrest]
  have hsome : ∀ ts : List String, (ts.map some).takeWhile Option.isSome = ts.map some := fun ts =>
    List.takeWhile_eq_self_iff.mpr (by simp)
  rw [lastLine, List.take_length, hlines, hsome, hkeep _ hpieces, lastPiece]
  split_ifs <;> simp

/-- A record more, on a line of its own or at the end of an unfinished one. -/
theorem Laid.append (hc : c.Lawful) {ls : List String} {u : String} {content : Bytes}
    (h : Laid c ls u content) (r : Record) :
    Laid c ls (u ++ c.recordToString r) (content ++ utf8 (c.recordToString r)) ∧
      Laid c (ls ++ [u ++ c.recordToString r]) ""
        (content ++ utf8 (c.recordToString r) ++ [10]) ∧
      (u = "" ∨ ∃ e, c.recordFromStr (u ++ c.recordToString r) = .error e) := by
  obtain ⟨rfl, hls, hu⟩ := h
  have hpiece : Piece c (u ++ c.recordToString r) := by
    rcases hu with rfl | hu
    · simpa using piece_recordToString hc r
    · exact (hu.run_together hc r).1
  refine ⟨⟨by simp, hls, Or.inr hpiece⟩, ⟨?_, ?_, Or.inl rfl⟩, hu.imp id fun hu => ?_⟩
  · simp [show utf8 "" = [] from rfl]
  · intro t ht
    rcases List.mem_append.mp ht with ht | ht
    · exact hls t ht
    · exact List.mem_singleton.mp ht ▸ hpiece
  · exact (hu.run_together hc r).2

theorem ne_empty_append_recordToString (hc : c.Lawful) (u : String) (r : Record) :
    u ++ c.recordToString r ≠ "" := by
  obtain ⟨rest, hrest⟩ := hc.recordToString_head r
  intro h
  have := congrArg String.toList h
  simp [hrest] at this

/-! ## The invariant -/

/-- A day not after today, whose file is there if it is today. -/
def Held (today : Int) (w : World) (day : Int) : Prop :=
  Readable day ∧ day ≤ today ∧
    (day = today → ∃ content, w.lookup (fileName day) = some (.file content))

/-- The records ever written, in order. -/
def World.history (w : World) : List Record := w.written.map Prod.snd

structure Resumable (c : Crates) (today : Int) (w : World) : Prop where
  names : ∀ name node, w.lookup name = some node → ∀ day, dayOfFile name = some day →
    name = fileName day ∧ Readable day ∧ day ≤ today ∧ ∃ content, node = .file content
  laid : ∀ day content, Readable day → w.lookup (fileName day) = some (.file content) →
    ∃ ls u, Laid c ls u content ∧
      (∀ r, w.written.getLast? = some (day, r) → ∃ t, lastPiece ls u = some t ∧
        (t = c.recordToString r ∨ ∃ e, c.recordFromStr t = .error e)) ∧
      (w.written = [] → ls = [] ∧ u = "")
  chained : RecordChain GENESIS 1 w.history
  opened : ∀ o, w.opened = some o → o.seq = w.history.length ∧
    o.previous = headOf GENESIS w.history ∧ Held today w o.day
  last : ∀ day r, w.written.getLast? = some (day, r) → Held today w day

theorem Held.later {day today' : Int} (h : Held today w day) (hle : today ≤ today') :
    Held today' w day := by
  obtain ⟨hread, hday, hfile⟩ := h
  exact ⟨hread, hday.trans hle, fun heq => hfile (le_antisymm hday (heq ▸ hle))⟩

theorem Held.congr {day : Int} (h : Held today w day)
    (hlookup : day = today → w'.lookup (fileName day) = w.lookup (fileName day)) :
    Held today w' day :=
  ⟨h.1, h.2.1, fun heq => by
    rw [hlookup heq]
    exact h.2.2 heq⟩

namespace Resumable

theorem later (h : Resumable c today w) {today' : Int} (hle : today ≤ today') :
    Resumable c today' w where
  names name node hnode day hof := by
    obtain ⟨hname, hread, hday, hfile⟩ := h.names name node hnode day hof
    exact ⟨hname, hread, hday.trans hle, hfile⟩
  laid := h.laid
  chained := h.chained
  opened o ho := by
    obtain ⟨hseq, hprev, hheld⟩ := h.opened o ho
    exact ⟨hseq, hprev, hheld.later hle⟩
  last day r hlast := (h.last day r hlast).later hle

theorem closed (h : Resumable c today w) : Resumable c today { w with opened := none } :=
  { h with opened := by simp }

/-- Only days before today, and files that hold no records, may change, and the days only go. -/
theorem shrunk (h : Resumable c today w) (hopened : w'.opened = w.opened)
    (hwritten : w'.written = w.written)
    (hlookup : ∀ name day, dayOfFile name = some day →
      w'.lookup name = w.lookup name ∨ w'.lookup name = none ∧ day < today) :
    Resumable c today w' := by
  have hheld : ∀ day, Held today w day → Held today w' day := fun day hday =>
    hday.congr fun heq => by
      rcases hlookup _ day (dayOfFile_fileName hday.1) with hsame | ⟨-, hlt⟩
      · exact hsame
      · omega
  have hback : ∀ name day node, dayOfFile name = some day → w'.lookup name = some node →
      w.lookup name = some node := fun name day node hof hnode => by
    rcases hlookup name day hof with hsame | ⟨hnone, -⟩
    · rw [← hsame, hnode]
    · simp [hnode] at hnone
  exact {
    names := fun name node hnode day hof =>
      h.names name node (hback name day node hof hnode) day hof
    laid := fun day content hread hfile => by
      rw [hwritten]
      exact h.laid day content hread (hback _ day _ (dayOfFile_fileName hread) hfile)
    chained := by
      unfold World.history
      rw [hwritten]
      exact h.chained
    opened := fun o ho => by
      obtain ⟨hseq, hprev, hday⟩ := h.opened o (hopened ▸ ho)
      unfold World.history
      rw [hwritten]
      exact ⟨hseq, hprev, hheld _ hday⟩
    last := fun day r hlast => hheld _ (h.last day r (hwritten ▸ hlast)) }

theorem sealTouched (h : Resumable c today w) {day : Int} {text : String}
    (hseal : SealTouched f day text w w') : Resumable c today w' := by
  rcases hseal with rfl | ⟨hsome, -, content, rfl, -⟩
  · exact h
  · refine h.shrunk rfl rfl fun name day' hof => Or.inl ?_
    rw [World.lookup_insert hsome, if_neg]
    rintro rfl
    simp [dayOfFile_sealName] at hof

theorem expired (h : Resumable c today w) {oldest : Int} (hshrunk : Shrunk oldest w w')
    (hle : oldest ≤ today) : Resumable c today w' := by
  refine h.shrunk hshrunk.opened hshrunk.written fun name day hof => ?_
  rcases hshrunk.lookup name with hsame | ⟨hnone, ⟨day', hof', hlt⟩ | ⟨day', rfl⟩⟩
  · exact Or.inl hsame
  · obtain rfl := Option.some.inj (hof.symm.trans hof')
    exact Or.inr ⟨hnone, by omega⟩
  · simp [dayOfFile_sealName] at hof

theorem createdDir (h : Resumable c today w) :
    Resumable c today { w with directory := some w.files } :=
  h.shrunk rfl rfl fun name _ _ => Or.inl (by rw [World.lookup_eq, World.lookup_eq]; rfl)

/-- The file of today may be created, when it is not there. -/
theorem dayOpened (h : Resumable c today w) (hread : Readable today)
    (hopen : DayOpened today w w') :
    Resumable c today w' ∧ w'.opened = w.opened ∧ w'.written = w.written ∧
      ∃ content, w'.lookup (fileName today) = some (.file content) := by
  rcases hopen with ⟨hfile, rfl⟩ | ⟨hnone, hsome, rfl⟩
  · exact ⟨h, rfl, rfl, hfile⟩
  · have hother : ∀ name, name ≠ fileName today →
        (w.onDirectory (·.insert (fileName today) (.file []))).lookup name = w.lookup name :=
      fun name hne => by rw [World.lookup_insert hsome, if_neg hne]
    have hnew : (w.onDirectory (·.insert (fileName today) (.file []))).lookup (fileName today) =
        some (.file []) := by rw [World.lookup_insert hsome, if_pos rfl]
    -- A day that is held is not today, since the file of today was not there.
    have hheld : ∀ day, Held today w day →
        Held today (w.onDirectory (·.insert (fileName today) (.file []))) day := fun day hday =>
      hday.congr fun heq => by
        obtain ⟨content, hcontent⟩ := hday.2.2 heq
        rw [heq, hnone] at hcontent
        simp at hcontent
    refine ⟨?_, rfl, rfl, [], hnew⟩
    exact {
      names := fun name node hnode day hof => by
        by_cases hname : name = fileName today
        · rw [hname, dayOfFile_fileName hread] at hof
          obtain rfl := Option.some.inj hof
          rw [hname, hnew] at hnode
          exact ⟨hname, hread, le_rfl, [], (Option.some.inj hnode).symm⟩
        · exact h.names name node (hother name hname ▸ hnode) day hof
      laid := fun day content hday hfile => by
        by_cases hname : fileName day = fileName today
        · rw [hname, hnew] at hfile
          obtain rfl : [] = content := by simpa using hfile
          refine ⟨[], "", ⟨rfl, by simp, Or.inl rfl⟩, fun r hlast => ?_, fun _ => ⟨rfl, rfl⟩⟩
          obtain ⟨content, hcontent⟩ :=
            (h.last day r hlast).2.2 (fileName_injOn hday hread hname)
          rw [hname, hnone] at hcontent
          simp at hcontent
        · exact h.laid day content hday (hother _ hname ▸ hfile)
      chained := h.chained
      opened := fun o ho => by
        obtain ⟨hseq, hprev, hday⟩ := h.opened o ho
        exact ⟨hseq, hprev, hheld _ hday⟩
      last := fun day r hlast => hheld _ (h.last day r hlast) }

/-- A record more in the file of today, whether or not its line feed is there yet. -/
theorem appended (hc : c.Lawful) (h : Resumable c today w) {content : Bytes} {r : Record}
    (hread : Readable today) (hfile : w.lookup (fileName today) = some (.file content))
    (hseq : r.body.seq = w.history.length + 1) (hprev : r.body.prev = headOf GENESIS w.history)
    {content' : Bytes} (hcontent' : content' = content ++ utf8 (c.recordToString r) ∨
      content' = content ++ utf8 (c.recordToString r) ++ [10])
    {opened : Option Open} (hopened : ∀ o, opened = some o → o.seq = w.history.length + 1 ∧
      o.previous = r.digest ∧ o.day = today) :
    Resumable c today { w.appended today content' r with opened := opened } := by
  have hsome := World.isSome_of_lookup hfile
  have hlookup : ∀ name, World.lookup { w.appended today content' r with opened := opened } name =
      if name = fileName today then some (.file content') else w.lookup name :=
    World.appended_lookup hsome today content' r
  have hhistory : World.history { w.appended today content' r with opened := opened } =
      w.history ++ [r] := by simp [World.history, World.appended]
  have hlast : ∀ day r', (w.written ++ [(today, r)]).getLast? = some (day, r') →
      today = day ∧ r = r' := fun day r' h' => by simpa using h'
  have hheld : Held today { w.appended today content' r with opened := opened } today :=
    ⟨hread, le_rfl, fun _ => ⟨content', by rw [hlookup, if_pos rfl]⟩⟩
  obtain ⟨ls, u, hlaid, -, -⟩ := h.laid today content hread hfile
  obtain ⟨hunfinished, hfinished, hparse⟩ := hlaid.append hc r
  have hend : u ++ c.recordToString r = c.recordToString r ∨
      ∃ e, c.recordFromStr (u ++ c.recordToString r) = .error e := by
    rcases hparse with rfl | hparse
    · exact Or.inl (by simp)
    · exact Or.inr hparse
  exact {
    names := fun name node hnode day hof => by
      rw [hlookup] at hnode
      split_ifs at hnode with hname
      · rw [hname, dayOfFile_fileName hread] at hof
        obtain rfl := Option.some.inj hof
        exact ⟨hname, hread, le_rfl, content', (Option.some.inj hnode).symm⟩
      · exact h.names name node hnode day hof
    laid := fun day content₁ hday hfile₁ => by
      rw [hlookup] at hfile₁
      split_ifs at hfile₁ with hname
      · obtain rfl := fileName_injOn hday hread hname
        obtain rfl : content' = content₁ := by simpa using hfile₁
        rcases hcontent' with rfl | rfl
        · refine ⟨ls, _, hunfinished, fun r' hr' => ?_, by simp [World.appended]⟩
          obtain ⟨-, rfl⟩ := hlast _ _ hr'
          exact ⟨_, by simp [lastPiece, ne_empty_append_recordToString hc], hend⟩
        · refine ⟨_, "", hfinished, fun r' hr' => ?_, by simp [World.appended]⟩
          obtain ⟨-, rfl⟩ := hlast _ _ hr'
          exact ⟨_, by simp [lastPiece], hend⟩
      · obtain ⟨ls₁, u₁, hlaid₁, -, -⟩ := h.laid day content₁ hday hfile₁
        refine ⟨ls₁, u₁, hlaid₁, fun r' hr' => ?_, by simp [World.appended]⟩
        exact absurd (congrArg fileName (hlast _ _ hr').1.symm) hname
    chained := by
      rw [hhistory, recordChain_concat]
      exact ⟨h.chained, hprev, by omega⟩
    opened := fun o ho => by
      obtain ⟨hoseq, hoprev, hoday⟩ := hopened o ho
      rw [hhistory, headOf_concat, hoday]
      exact ⟨by simp [hoseq], hoprev, hheld⟩
    last := fun day r' hr' => by
      obtain ⟨rfl, -⟩ := hlast _ _ hr'
      exact hheld }

/-- **A cold start finds the last record ever written**, when the newest day on disk is the day
of that record. -/
theorem tailOf_eq (hc : c.Lawful) (h : Resumable c today w)
    (hnewest : ∀ day r, w.written.getLast? = some (day, r) →
      (daysOf w.files.keys).getLast? = some day)
    {found : Option (Nat × String)} (hfound : tailOf c w.files = .ok found) :
    found.getD (0, GENESIS) = (w.history.length, headOf GENESIS w.history) := by
  unfold tailOf at hfound
  rcases List.eq_nil_or_concat w.written with hnil | ⟨before, ⟨day, r⟩, hwritten⟩
  · -- Nothing was ever written, so every file is empty.
    have hnone : found = none := by
      cases hlast : (daysOf w.files.keys).getLast? with
      | none => simpa [hlast, eq_comm] using hfound
      | some latest =>
        rw [hlast] at hfound
        cases hnode : w.files.lookup (fileName latest) with
        | none => simp [hnode] at hfound
        | some node =>
          have hmem := mem_daysOf.mp (List.mem_of_getLast? hlast)
          obtain ⟨name, hname, hof⟩ := hmem
          obtain ⟨node', hnode'⟩ := World.mem_keys.mp hname
          obtain ⟨-, hread, -, -⟩ := h.names name node' hnode' latest hof
          cases node with
          | directory => simpa [hnode, eq_comm] using hfound
          | file content =>
            rw [← World.lookup_eq] at hnode
            obtain ⟨ls, u, hlaid, -, hempty⟩ := h.laid latest content hread hnode
            obtain ⟨rfl, rfl⟩ := hempty hnil
            rw [World.lookup_eq] at hnode
            simpa [hnode, lastLine_of_laid hc hlaid, lastPiece, eq_comm] using hfound
    rw [hnone]
    simp [World.history, hnil, chainHead]
  · rw [List.concat_eq_append] at hwritten
    have hlast : w.written.getLast? = some (day, r) := by simp [hwritten]
    rw [hnewest day r hlast] at hfound
    have hread := (h.last day r hlast).1
    cases hnode : w.files.lookup (fileName day) with
    | none => simp [hnode] at hfound
    | some node =>
      rw [← World.lookup_eq] at hnode
      obtain ⟨-, -, -, content, rfl⟩ :=
        h.names _ node hnode day (dayOfFile_fileName hread)
      obtain ⟨ls, u, hlaid, hend, -⟩ := h.laid day content hread hnode
      obtain ⟨t, ht, rfl | ⟨e, he⟩⟩ := hend r hlast
      · rw [World.lookup_eq] at hnode
        simp only [hnode, lastLine_of_laid hc hlaid, ht, hc.recordFromStr_recordToString,
          Except.ok.injEq] at hfound
        have hchain := h.chained
        simp only [World.history, hwritten, List.map_append, List.map_singleton] at hchain ⊢
        rw [← hfound, Option.getD_some, hchain.last, headOf_concat]
      · rw [World.lookup_eq] at hnode
        simp [hnode, lastLine_of_laid hc hlaid, ht, he] at hfound

end Resumable

/-! ## Every call keeps it -/

theorem openFor_resumable (hc : c.Lawful) {sink : FileAuditSink} {m : Moment}
    (h : Resumable c m.day w) (hfaults : ¬Refused f)
    (hnewest : w.opened = none → ∀ day r, w.written.getLast? = some (day, r) →
      (daysOf w.files.keys).getLast? = some day) :
    WP (openFor c sink m m.day) f
      (fun _ w' => Resumable c m.day w' ∧ current w'.opened m.day)
      (fun _ => Resumable c m.day) (Resumable c m.day) w := by
  unfold openFor
  rw [wp_bind, wp_get]
  split_ifs with hcurrent
  · exact ⟨h, hcurrent⟩
  refine WP.bind (Q := fun (found : Option (Nat × String)) w' => w' = w ∧
    found.getD (0, GENESIS) = (w.history.length, headOf GENESIS w.history)) ?_ ?_
  · unfold continueFrom
    cases ho : w.opened with
    | some o =>
      obtain ⟨hseq, hprev, -⟩ := h.opened o ho
      exact ⟨rfl, by simp [hseq, hprev]⟩
    | none =>
      refine (tail_spec (fun name n r hf => hfaults ⟨_, n, r, hf⟩)
        (fun n r hf => hfaults ⟨_, n, r, hf⟩)).mono ?_ (fun _ _ h' => h'.1 ▸ h)
        (fun _ h' => h'.1 ▸ h)
      rintro found w' ⟨rfl, hfound⟩
      exact ⟨rfl, h.tailOf_eq hc (hnewest ho) hfound⟩
  rintro found w₁ ⟨rfl, hfound⟩
  refine WP.bind (createDirAll_spec.mono (fun _ _ h' => h') (fun _ _ h' => h'.1 ▸ h)
    (fun _ h' => h'.1 ▸ h)) ?_
  rintro _ _ rfl
  refine WP.bind ((openDay_spec rfl).mono (fun _ _ h' => h') (fun _ _ h' => h'.1 ▸ h.createdDir)
    (fun _ h' => h'.1 ▸ h.createdDir)) ?_
  rintro _ w₂ hopen
  obtain ⟨h₂, -, hwritten, hfile⟩ := h.createdDir.dayOpened m.readable_day hopen
  refine WP.bind (wp_check.mono (fun _ _ h' => h') (fun _ _ h' => h'.1 ▸ h₂)
    (fun _ h' => h'.1 ▸ h₂)) ?_
  rintro _ w₃ rfl
  rw [wp_modify]
  have hhistory : w₃.history = w₁.history := by
    unfold World.history
    rw [hwritten]
  refine ⟨{ h₂ with opened := fun o ho => ?_ }, current_eq_true.mpr ⟨_, rfl, rfl⟩⟩
  obtain rfl := Option.some.inj ho
  show _ = w₃.history.length ∧ _ = headOf GENESIS w₃.history ∧ _
  rw [hhistory, hfound]
  exact ⟨rfl, rfl, m.readable_day, le_rfl, fun _ => hfile⟩

theorem writeNext_resumable (hc : c.Lawful) {sink : FileAuditSink} {m : Moment} {event : AuditEvent}
    {policy : Option (String → String)} (h : Resumable c m.day w) (hfaults : ¬Refused f)
    (hcurrent : current w.opened m.day) :
    WP (writeNext c sink m event policy w.opened) f (fun _ => Resumable c m.day)
      (fun _ => Resumable c m.day) (fun w' => Resumable c m.day { w' with opened := none }) w := by
  obtain ⟨⟨day, seq, previous⟩, ho, rfl⟩ := current_eq_true.mp hcurrent
  obtain ⟨hseq, hprev, -, -, hheld⟩ := h.opened _ ho
  obtain ⟨content, hfile⟩ := hheld rfl
  have hnumber : seq + 1 = w.history.length + 1 := congrArg (· + 1) hseq
  unfold writeNext
  rw [ho]
  refine WP.bind ((appendRecord_spec hfile).mono (fun _ _ h' => h') ?_ ?_) ?_
  · rintro _ _ (⟨n, reason, hf, -⟩ | ⟨-, ⟨n, reason, hf⟩ | ⟨⟨n, reason, hf⟩, -⟩⟩)
    all_goals exact absurd ⟨_, n, reason, hf⟩ hfaults
  · rintro w' ⟨-, rfl | rfl | rfl⟩
    · exact h.closed
    · exact h.appended hc m.readable_day hfile hnumber hprev (Or.inl rfl) (by simp)
    · exact h.appended hc m.readable_day hfile hnumber hprev (Or.inr rfl) (by simp)
  · rintro _ _ ⟨-, rfl⟩
    rw [wp_modify]
    refine h.appended hc m.readable_day hfile hnumber hprev (Or.inr rfl) fun o' ho' => ?_
    obtain rfl := Option.some.inj ho'
    exact ⟨hnumber, rfl, rfl⟩

theorem expire_resumable {sink : FileAuditSink} {m : Moment} (h : Resumable c m.day w) :
    WP (expire sink m m.day) f
      (fun _ w' => Resumable c m.day w' ∧ w'.opened = w.opened)
      (fun _ => Resumable c m.day) (Resumable c m.day) w := by
  have hle : oldestKept sink m.day ≤ m.day := by
    unfold oldestKept
    omega
  exact expire_spec.mono (fun _ _ h' => ⟨h.expired h' hle, h'.opened⟩)
    (fun _ _ h' => h.expired h' hle) (fun _ h' => h.expired h'.1 hle)

theorem seal_resumable {sink : FileAuditSink} {m : Moment} {day : Int} {records : Nat}
    {head : String} (h : Resumable c today w) :
    WP (attempt (FileAuditSink.seal c sink m day records head) : Action _) f
      (fun _ => Resumable c today) (fun _ _ => False) (Resumable c today) w := by
  rw [wp_attempt]
  exact seal_spec.mono (fun _ _ h' => h.sealTouched h') (fun _ _ h' => h.sealTouched h')
    (fun _ h' => h.sealTouched h'.1)

theorem sealClosing_resumable {sink : FileAuditSink} {m : Moment} {rolled : Bool}
    (h : Resumable c today w) :
    WP (sealClosing c sink m rolled w.opened) f
      (fun _ w' => Resumable c today w' ∧ (w'.opened = none → w' = w))
      (fun _ _ => False) (Resumable c today) w := by
  unfold sealClosing
  cases ho : w.opened with
  | none => exact ⟨h, fun _ => rfl⟩
  | some o =>
    dsimp only
    split_ifs with hrolled
    · refine WP.bind (Q := fun _ w' => Resumable c today w' ∧ w'.opened = w.opened) ?_
        fun _ w' h' => ⟨h'.1, fun hnone => ?_⟩
      · rw [wp_attempt]
        exact seal_spec.mono (fun _ _ h' => ⟨h.sealTouched h', SealTouched.opened h'⟩)
          (fun _ _ h' => ⟨h.sealTouched h', SealTouched.opened h'⟩)
          (fun _ h' => h.sealTouched h'.1)
      · rw [h'.2, ho] at hnone
        simp at hnone
    · exact ⟨h, fun _ => rfl⟩

/-- **Recording keeps it, whatever operation the process dies at.** -/
theorem record_resumable (hc : c.Lawful) {sink : FileAuditSink} {m : Moment} {event : AuditEvent}
    {policy : Option (String → String)} (h : Resumable c m.day w) (hfaults : ¬Refused f)
    (hnewest : w.opened = none → ∀ day r, w.written.getLast? = some (day, r) →
      (daysOf w.files.keys).getLast? = some day) :
    WP (record c sink m event policy) f (fun _ => Resumable c m.day)
      (fun _ => Resumable c m.day) (fun w' => Resumable c m.day { w' with opened := none }) w := by
  unfold record
  rw [wp_bind, wp_get]
  refine WP.bind ((sealClosing_resumable h).mono (fun _ _ h' => h') (fun _ _ h' => h'.elim)
    (fun _ h' => h'.closed)) ?_
  rintro _ w₁ ⟨h₁, hsame⟩
  refine WP.bind ((openFor_resumable hc h₁ hfaults fun hnone => ?_).mono (fun _ _ h' => h')
    (fun _ _ h' => h') (fun _ h' => h'.closed)) ?_
  · obtain rfl := hsame hnone
    exact hnewest hnone
  rintro _ w₂ ⟨h₂, hcurrent⟩
  refine WP.bind (Q := fun _ w' => Resumable c m.day w' ∧ w'.opened = w₂.opened) ?_ ?_
  · unfold expireRolled
    split_ifs
    · exact WP.bind ((expire_resumable h₂).mono (fun _ _ h' => h') (fun _ _ h' => h')
        (fun _ h' => h'.closed)) fun _ _ h' => h'
    · exact ⟨h₂, rfl⟩
  rintro _ w₃ ⟨h₃, hopened⟩
  rw [wp_bind, wp_get]
  exact writeNext_resumable hc h₃ hfaults (hopened ▸ hcurrent)

theorem prepare_resumable {sink : FileAuditSink} {m : Moment} (h : Resumable c m.day w) :
    WP (prepare sink m) f (fun _ => Resumable c m.day) (fun _ => Resumable c m.day)
      (Resumable c m.day) w := by
  unfold prepare
  refine WP.bind (createDirAll_spec.mono (fun _ _ h' => h') (fun _ _ h' => h'.1 ▸ h)
    (fun _ h' => h'.1 ▸ h)) ?_
  rintro _ _ rfl
  refine WP.bind (wp_check.mono (fun _ _ h' => h') (fun _ _ h' => h'.1 ▸ h.createdDir)
    (fun _ h' => h'.1 ▸ h.createdDir)) ?_
  rintro _ _ rfl
  exact WP.bind ((expire_resumable h.createdDir).mono (fun _ _ h' => h') (fun _ _ h' => h')
    (fun _ h' => h')) fun _ _ h' => h'.1

theorem shutdown_resumable {sink : FileAuditSink} {m : Moment} (h : Resumable c today w) :
    WP (shutdown c sink m) f (fun _ => Resumable c today) (fun _ => Resumable c today)
      (Resumable c today) w := by
  unfold shutdown
  rw [wp_bind, wp_get]
  refine WP.bind (Q := fun _ => Resumable c today) ?_ fun _ _ h' => h'.closed
  unfold closeOpen
  cases w.opened with
  | none => exact h
  | some o =>
    refine WP.bind (wp_check.mono (fun _ _ h' => h') (fun _ _ h' => h'.1 ▸ h)
      (fun _ h' => h'.1 ▸ h)) ?_
    rintro _ _ rfl
    exact WP.bind ((seal_resumable h).mono (fun _ _ h' => h') (fun _ _ h' => h'.elim)
      (fun _ h' => h')) fun _ _ h' => h'

/-! ## Runs with crashes -/

/-- A process may die at any operation, but none is refused, and a sink that has nothing open
finds, when it records, the file of the last record as the newest one. -/
def Resumes (w : World) (s : Step) : Prop :=
  ¬Refused s.outcome ∧ match s.call with
    | .record _ _ => w.opened = none → ∀ day r, w.written.getLast? = some (day, r) →
        (daysOf w.files.keys).getLast? = some day
    | .prepare | .shutdown | .restart => True

theorem resumable_step (hc : c.Lawful) {s : Step} (h : Resumable c today w)
    (hle : today ≤ s.moment.day) (hok : Resumes w s) :
    Resumable c s.moment.day (s.run c w) := by
  obtain ⟨hfaults, hnewest⟩ := hok
  have h := h.later hle
  apply Step.run_of_wp
  unfold Step.action
  cases hcall : s.call with
  | prepare =>
    exact (prepare_resumable h).mono (fun _ _ h' => h') (fun _ _ h' => h') (fun _ h' => h'.closed)
  | record event policy =>
    rw [hcall] at hnewest
    exact record_resumable hc h hfaults hnewest
  | shutdown =>
    exact (shutdown_resumable h).mono (fun _ _ h' => h') (fun _ _ h' => h') (fun _ h' => h'.closed)
  | restart => exact h.closed

theorem Resumable.fresh (hfiles : w.files = ∅) (hopened : w.opened = none)
    (hwritten : w.written = []) : Resumable c 0 w where
  names name node hnode := by simp [World.lookup_eq, hfiles] at hnode
  laid day content _ hfile := by simp [World.lookup_eq, hfiles] at hfile
  chained := by
    rw [World.history, hwritten]
    trivial
  opened o ho := by simp [hopened] at ho
  last day r hlast := by simp [hwritten] at hlast

theorem Run.resumable (hc : c.Lawful) {start : World} (hfiles : start.files = ∅)
    (hopened : start.opened = none) (hwritten : start.written = []) {t : Int}
    (h : Run c Resumes start t w) : Resumable c (Civil.dayOf t) w := by
  induction h with
  | start => exact Resumable.fresh hfiles hopened hwritten
  | step s hrun hle hok ih => exact resumable_step hc ih (day_mono hle) hok

/-- **Numbers go on across crashes and restarts**: a record that is written, by a restarted sink
or not, has the number after the last record ever completely written, and names its digest. -/
theorem restarted_sink_continues (hc : c.Lawful) {start : World} (hfiles : start.files = ∅)
    (hopened : start.opened = none) (hwritten : start.written = []) {t : Int}
    (hrun : Run c Resumes start t w) {s : Step} (hle : t ≤ s.moment.now.val) (hok : Resumes w s)
    {day day' : Int} {r r' : Record} (hlast : w.written.getLast? = some (day, r))
    (hnext : (s.run c w).written = w.written ++ [(day', r')]) :
    r'.body.seq = r.body.seq + 1 ∧ r'.body.prev = r.digest := by
  have hchain := (Run.step s hrun hle hok).resumable hc hfiles hopened hwritten |>.chained
  obtain ⟨before, hbefore⟩ := List.getLast?_eq_some_iff.mp hlast
  rw [World.history, hnext, hbefore] at hchain
  simp only [List.map_append, List.map_singleton] at hchain
  have hr := ((recordChain_concat ..).mp ((recordChain_concat ..).mp hchain).1).2.2
  obtain ⟨-, hprev, hseq⟩ := (recordChain_concat ..).mp hchain
  rw [headOf_concat] at hprev
  simp only [List.length_append, List.length_singleton] at hseq
  exact ⟨by omega, hprev⟩

/-! ### A process that dies between creating a file and its first line -/

/-- **A cold start goes on from whatever the newest day says**, with every operation done. -/
theorem record_cold {sink : FileAuditSink} {m : Moment} {event : AuditEvent}
    {policy : Option (String → String)} {found : Option (Nat × String)} (hf : ∀ o, f o = .done)
    (hopened : w.opened = none) (hfound : tailOf c w.files = .ok found)
    (hfiles : ∀ name node day, w.lookup name = some node → dayOfFile name = some day →
      ∃ content, node = .file content) :
    WP (record c sink m event policy) f
      (fun _ w' => ∃ r, w'.written = w.written ++ [(m.day, r)] ∧
        r.body.seq = (found.getD (0, GENESIS)).1 + 1 ∧
        r.body.prev = (found.getD (0, GENESIS)).2)
      (fun _ _ => False) (fun _ => False) w := by
  have hcut := not_cut hf
  have hrefused := not_refused hf
  have hcurrent : current w.opened m.day = false := by simp [current, hopened]
  unfold record
  rw [wp_bind, wp_get, hcurrent, hopened]
  refine WP.bind (Q := fun _ w' => w' = w) rfl ?_
  rintro _ w₁ rfl
  refine WP.bind (Q := fun _ w' => w'.written = w₁.written ∧
    w'.opened = some ⟨m.day, (found.getD (0, GENESIS)).1, (found.getD (0, GENESIS)).2⟩ ∧
    (∃ content, w'.lookup (fileName m.day) = some (.file content)) ∧
    ∀ name, w'.lookup name = w₁.lookup name ∨ ∃ content, w'.lookup name = some (.file content))
    ?_ ?_
  · unfold openFor
    rw [wp_bind, wp_get, if_neg (by simp [hcurrent]), hopened]
    refine WP.bind ((tail_spec (fun name n r h => by simp [hf] at h)
      (fun n r h => by simp [hf] at h)).mono (fun _ _ h => h) ?_ (fun _ h => hcut h.2)) ?_
    · rintro e _ ⟨-, h | h⟩
      · exact hrefused h
      · simp [hfound] at h
    rintro found' w₂ ⟨rfl, hfound'⟩
    obtain rfl := Except.ok.inj (hfound.symm.trans hfound')
    refine WP.bind (createDirAll_spec.mono (fun _ _ h => h) (fun _ _ h => hrefused h.2)
      (fun _ h => hcut h.2)) ?_
    rintro _ _ rfl
    have hsame : ∀ name, World.lookup { w₂ with directory := some w₂.files } name =
        w₂.lookup name := fun name => by
      rw [World.lookup_eq, World.lookup_eq]
      rfl
    refine WP.bind ((openDay_spec rfl).mono (fun _ _ h => h) ?_ (fun _ h => hcut h.2)) ?_
    · rintro _ _ ⟨-, h | h⟩
      · exact hrefused h
      · rw [hsame] at h
        obtain ⟨content, hcontent⟩ := hfiles _ _ _ h (dayOfFile_fileName m.readable_day)
        simp at hcontent
    rintro _ w₃ hday
    refine WP.bind (wp_check.mono (fun _ _ h => h) (fun _ _ h => hrefused h.2)
      (fun _ h => hcut h.2)) ?_
    rintro _ _ rfl
    rw [wp_modify]
    rcases hday with ⟨⟨content, hcontent⟩, rfl⟩ | ⟨-, hsome, rfl⟩
    · exact ⟨rfl, rfl, ⟨content, hcontent⟩, fun name => Or.inl (hsame name)⟩
    · have hlookup := World.lookup_insert hsome (fileName m.day) (.file [])
      refine ⟨rfl, rfl, ⟨[], (hlookup _).trans (if_pos rfl)⟩, fun name => ?_⟩
      by_cases hname : name = fileName m.day
      · exact Or.inr ⟨[], (hlookup name).trans (if_pos hname)⟩
      · exact Or.inl ((hlookup name).trans ((if_neg hname).trans (hsame name)))
  rintro _ w₂ ⟨hwritten, ho, ⟨content, hcontent⟩, hlookup⟩
  refine WP.bind (Q := fun _ => Shrunk (oldestKept sink m.day) w₂) ?_ ?_
  · refine WP.bind ((expire_done hf fun name hname day hof _ => ?_).mono (fun _ _ h => h)
      (fun _ _ h => h) (fun _ h => h)) fun _ _ h => h.1
    rcases hlookup name with hsame | hnew
    · obtain ⟨node, hnode⟩ := World.mem_keys.mp hname
      obtain ⟨content, rfl⟩ := hfiles name node day (hsame ▸ hnode) hof
      exact ⟨content, hnode⟩
    · exact hnew
  rintro _ w₃ hshrunk
  have hkept : oldestKept sink m.day ≤ m.day := by
    unfold oldestKept
    omega
  rw [wp_bind, wp_get, hshrunk.opened, ho]
  have hcontent₃ := (hshrunk.fileName m.readable_day hkept).trans hcontent
  refine WP.bind ((appendRecord_spec hcontent₃).mono (fun _ _ h => h) ?_ (fun _ h => hcut h.1)) ?_
  · rintro _ _ (⟨n, r, hfailed, -⟩ | ⟨-, ⟨n, r, hfailed⟩ | ⟨⟨n, r, hfailed⟩, -⟩⟩)
    all_goals exact hrefused ⟨_, n, r, hfailed⟩
  rintro _ _ ⟨-, rfl⟩
  rw [wp_modify]
  refine ⟨_, congrArg (· ++ [_]) (hshrunk.written.trans hwritten), rfl, rfl⟩

/-- Everything is done up to the moment the file of the day has been created, and no more. -/
def cutAfterOpening : Op → Outcome := fun o => if o = .restrictDay then .crashed else .done

theorem cutAfterOpening_of_ne {o : Op} (h : o ≠ .restrictDay) : cutAfterOpening o = .done :=
  if_neg h

theorem listEntries_asks (names : List String) : Asks (listEntries names) (· ≠ .restrictDay) := by
  induction names with
  | nil => exact asks_pure _
  | cons name rest ih =>
    refine Asks.bind (asks_perform (by simp) _ _) fun more => ?_
    split_ifs
    · exact Asks.bind ih fun _ => asks_pure _
    · exact asks_pure _

theorem tail_asks (m : Moment) : Asks (tail c m) (· ≠ .restrictDay) := by
  have hdays : Asks (days m) (· ≠ .restrictDay) := by
    refine Asks.bind (asks_perform (by simp) _ _) fun _ => Asks.bind asks_get fun w => ?_
    cases w.directory with
    | none => exact asks_pure _
    | some d => exact Asks.bind (listEntries_asks _) fun _ => asks_pure _
  refine Asks.bind hdays fun ds => ?_
  cases ds.getLast? with
  | none => exact asks_pure _
  | some latest =>
    refine Asks.bind (Asks.bind (asks_perform (by simp) _ _) fun _ => asks_perform (by simp) _ _)
      fun last => ?_
    cases last with
    | none => exact asks_pure _
    | some text =>
      dsimp only
      cases c.recordFromStr text with
      | error e => exact asks_throw _
      | ok record => exact asks_pure _

/-- A process that dies there leaves a new day with nothing in it. -/
theorem record_cutAfterOpening (hc : c.Lawful) {sink : FileAuditSink} {m : Moment}
    {event : AuditEvent} {policy : Option (String → String)} {log : Log}
    (h : Intact c today w log) (hfull : log.Full) (hopened : w.opened = none)
    (hlt : today < m.day) :
    WP (record c sink m event policy) cutAfterOpening (fun _ _ => False) (fun _ _ => False)
      (fun w' => Intact c m.day w' (log ++ [(m.day, [])]) ∧ w'.written = w.written) w := by
  have hcurrent : current w.opened m.day = false := by simp [current, hopened]
  have hcut := not_cut (f := fun _ : Op => Outcome.done) fun _ => rfl
  have hrefused := not_refused (f := fun _ : Op => Outcome.done) fun _ => rfl
  unfold record
  rw [wp_bind, wp_get, hcurrent, hopened]
  refine WP.bind (Q := fun _ w' => w' = w) rfl ?_
  rintro _ w₁ rfl
  refine WP.bind (Q := fun _ _ => False) ?_ (fun _ _ h => h.elim)
  unfold openFor
  rw [wp_bind, wp_get, if_neg (by simp [hcurrent]), hopened]
  obtain ⟨found, hfound, -⟩ := h.tailOf_ok hc (h.coldStart hc hfull)
  refine WP.bind (Q := fun _ w' => w' = w₁) ((tail_asks m).wp
    (fun o ho => cutAfterOpening_of_ne ho) ((tail_spec (by simp) (by simp)).mono
      (fun _ _ h' => h'.1) ?_ (fun _ h' => (hcut h'.2).elim))) ?_
  · rintro e _ ⟨-, h' | h'⟩
    · exact hrefused h'
    · simp [hfound] at h'
  rintro _ w₂ rfl
  have hstep {α : Type} {p : Action α} {Q : α → World → Prop} {E : AuditError → World → Prop}
      {C : World → Prop} {w : World} (hp : Asks p (· ≠ .restrictDay))
      (h' : WP p (fun _ => .done) Q E C w) : WP p cutAfterOpening Q E C w :=
    hp.wp (fun o ho => cutAfterOpening_of_ne ho) h'
  refine WP.bind (hstep (asks_perform (by simp) _ _) (createDirAll_spec.mono (fun _ _ h' => h')
    (fun _ _ h' => hrefused h'.2) (fun _ h' => (hcut h'.2).elim))) ?_
  rintro _ _ rfl
  have hnew : m.day ∉ log.days := fun hin => (h.past _ hin).not_gt hlt
  refine WP.bind (hstep (asks_perform (by simp) _ _) ((openDay_spec rfl).mono (fun _ _ h' => h') ?_
    (fun _ h' => (hcut h'.2).elim))) ?_
  · rintro _ _ ⟨-, h' | h'⟩
    · exact hrefused h'
    · refine hnew ((h.holds.mem_iff m.readable_day).mp (AList.lookup_isSome.mp ?_))
      rw [World.lookup_eq] at h'
      exact Option.isSome_iff_exists.mpr ⟨_, h'⟩
  rintro _ w₃ hday
  obtain ⟨log', rfl | rfl, hmem, hintact, -⟩ :=
    h.createdDir.dayOpened m.readable_day hlt.le hday
  · exact absurd hmem hnew
  have hwritten : w₃.written = w₂.written := by
    rcases hday with ⟨-, rfl⟩ | ⟨-, -, rfl⟩
    · rfl
    · rfl
  exact WP.bind (WP.perform (fun h' => by simp [cutAfterOpening] at h')
    (fun n r h' => by simp [cutAfterOpening] at h') fun _ => ⟨hintact, hwritten⟩)
    (Q := fun _ _ => False) fun _ _ h' => h'.elim

/-- Midnight of 2026-08-10. -/
def monday : Reading := ⟨20675 * 86400, by decide⟩

/-- A new sink over the same directory. -/
def restartAt (seconds : Reading) : Step := { recordAt seconds with call := .restart }

theorem restartAt_run (seconds : Reading) :
    (restartAt seconds).run c w = { w with opened := none } := rfl

/-- One record, then a restart on the next day that dies right after it created the new file. -/
def cutTrail (c : Crates) : World :=
  ({ recordAt monday with outcome := cutAfterOpening } : Step).run c
    ((restartAt sunday).run c ((recordAt sunday).run c emptyTrail))

theorem Intact.file_of_day {log : Log} (h : Intact c today w log) {name : String} {node : Node}
    {day : Int} (hnode : w.lookup name = some node) (hof : dayOfFile name = some day) :
    ∃ content, node = .file content := by
  obtain ⟨content, hcontent⟩ := h.holds.content_of_name (World.mem_keys.mpr ⟨node, hnode⟩) hof
  rw [← World.lookup_eq, hnode] at hcontent
  exact ⟨content, Option.some.inj hcontent⟩

/-- A newest day with nothing in it hides the records before it. -/
theorem Intact.tailOf_none {log : Log} {day : Int} (h : Intact c today w (log ++ [(day, [])])) :
    tailOf c w.files = .ok none := by
  have hcontent := h.holds.content (day, []) (by simp)
  have hnewest : (daysOf w.files.keys).getLast? = some day := by
    rw [h.holds.daysOf_eq]
    simp
  simp only [tailOf, hnewest, hcontent]
  rfl

/-- What a cold start with every operation done writes. -/
theorem recordAt_cold {log : Log} (h : Intact c today w log) (hopened : w.opened = none)
    {found : Option (Nat × String)} (hfound : tailOf c w.files = .ok found) (seconds : Reading) :
    ∃ r, ((recordAt seconds).run c w).written = w.written ++ [((at_ seconds).day, r)] ∧
      r.body.seq = (found.getD (0, GENESIS)).1 + 1 := by
  refine Step.run_of_wp (I := fun w' => ∃ r, w'.written = w.written ++ [((at_ seconds).day, r)] ∧
    r.body.seq = (found.getD (0, GENESIS)).1 + 1) ?_
  rw [Step.action_record rfl]
  refine (record_cold (fun _ => rfl) hopened hfound fun name node day hnode hof =>
    h.file_of_day hnode hof).mono ?_ (fun _ _ h => h.elim) (fun _ h => h.elim)
  rintro _ w' ⟨r, hwritten, hseq, -⟩
  exact ⟨r, hwritten, hseq⟩

/-- The first record of an empty directory. -/
theorem recordAt_empty (hc : c.Lawful) (seconds : Reading) :
    ∃ log r, Intact c (at_ seconds).day ((recordAt seconds).run c emptyTrail) log ∧ log.Full ∧
      log.days = [(at_ seconds).day] ∧
      ((recordAt seconds).run c emptyTrail).written = [((at_ seconds).day, r)] ∧
        r.body.seq = 1 := by
  obtain ⟨r₁, h₁, -⟩ := record_first (w := emptyTrail) hc rfl rfl seconds
  have hfresh : Intact c 0 emptyTrail [] := Intact.fresh rfl rfl
  obtain ⟨r, hwritten, hseq⟩ :=
    recordAt_cold hfresh rfl (show tailOf c ∅ = .ok none from rfl) seconds
  exact ⟨_, r, h₁, by simp [Log.Full], by simp, hwritten, hseq⟩

/-- **The next sink starts again with number 1**, though a record was written before. -/
theorem number_reused_after_crash :
    (∀ s ∈ [recordAt sunday, restartAt sunday, { recordAt monday with outcome := cutAfterOpening },
      recordAt monday], ¬Refused s.outcome) ∧
    ∃ day r day' r', (cutTrail (serde firstSha)).written.getLast? = some (day, r) ∧
      ((recordAt monday).run (serde firstSha) (cutTrail (serde firstSha))).written =
        (cutTrail (serde firstSha)).written ++ [(day', r')] ∧
      ¬(r'.body.seq = r.body.seq + 1 ∧ r'.body.prev = r.digest) := by
  have hdone : ¬Refused fun _ : Op => Outcome.done := not_refused fun _ => rfl
  have hcut : ¬Refused cutAfterOpening := by
    rintro ⟨o, n, r, h⟩
    unfold cutAfterOpening at h
    split_ifs at h
  refine ⟨by simpa [recordAt, restartAt] using ⟨hdone, hcut, hdone⟩, ?_⟩
  have hc := serde_lawful firstSha
  obtain ⟨log, r, h₁, hfull, -, hwritten, hseq⟩ := recordAt_empty hc sunday
  unfold cutTrail
  rw [restartAt_run]
  generalize (recordAt sunday).run (serde firstSha) emptyTrail = w₁ at h₁ hwritten ⊢
  -- The crash leaves the file of the next day, and nothing in memory.
  have hcrash : Intact (serde firstSha) (at_ monday).day
      (Step.run (serde firstSha) { recordAt monday with outcome := cutAfterOpening }
        { w₁ with opened := none }) (log ++ [((at_ monday).day, [])]) ∧
      (Step.run (serde firstSha) { recordAt monday with outcome := cutAfterOpening }
        { w₁ with opened := none }).written = w₁.written ∧
      (Step.run (serde firstSha) { recordAt monday with outcome := cutAfterOpening }
        { w₁ with opened := none }).opened = none := by
    refine Step.run_of_wp (I := fun w' => Intact (serde firstSha) (at_ monday).day w'
      (log ++ [((at_ monday).day, [])]) ∧ w'.written = w₁.written ∧ w'.opened = none) ?_
    rw [Step.action_record rfl]
    exact (record_cutAfterOpening hc h₁.closed hfull rfl (by decide)).mono
      (fun _ _ h => h.elim) (fun _ _ h => h.elim) (fun _ h => ⟨h.1.closed, h.2, rfl⟩)
  generalize Step.run (serde firstSha) { recordAt monday with outcome := cutAfterOpening }
    { w₁ with opened := none } = w₂ at hcrash ⊢
  obtain ⟨h₂, hwritten₂, hopened₂⟩ := hcrash
  obtain ⟨r', hnext, hseq'⟩ := recordAt_cold h₂ hopened₂ h₂.tailOf_none monday
  refine ⟨_, r, _, r', by rw [hwritten₂, hwritten]; rfl, hnext, fun h => ?_⟩
  have := h.1
  rw [hseq, hseq'] at this
  simp at this

/-- A record, a restart and a record on the same day: the numbers go on. -/
theorem restarted_sink_continues_sunday :
    ∃ r r', ((restartAt sunday).run (serde firstSha)
        ((recordAt sunday).run (serde firstSha) emptyTrail)).written.getLast? =
          some ((at_ sunday).day, r) ∧
      ((recordAt sunday).run (serde firstSha) ((restartAt sunday).run (serde firstSha)
        ((recordAt sunday).run (serde firstSha) emptyTrail))).written =
          ((restartAt sunday).run (serde firstSha)
            ((recordAt sunday).run (serde firstSha) emptyTrail)).written ++
              [((at_ sunday).day, r')] ∧
      r'.body.seq = r.body.seq + 1 ∧ r'.body.prev = r.digest := by
  have hc := serde_lawful firstSha
  have hdone : ¬Refused fun _ : Op => Outcome.done := not_refused fun _ => rfl
  obtain ⟨log, r, h₁, hfull, hdays, hwritten, -⟩ := recordAt_empty hc sunday
  have hrun : Run (serde firstSha) Resumes emptyTrail sunday.val
      ((restartAt sunday).run (serde firstSha)
        ((recordAt sunday).run (serde firstSha) emptyTrail)) :=
    .step (restartAt sunday) (.step (recordAt sunday) .start (by decide)
      ⟨hdone, fun _ day r h => by simp [emptyTrail] at h⟩) (by decide) ⟨hdone, trivial⟩
  rw [restartAt_run] at hrun ⊢
  have hlast : ((recordAt sunday).run (serde firstSha) emptyTrail).written.getLast? =
      some ((at_ sunday).day, r) := by simp [hwritten]
  obtain ⟨found, hfound, -⟩ := h₁.closed.tailOf_ok hc (h₁.closed.coldStart hc hfull)
  obtain ⟨r', hnext, -⟩ := recordAt_cold h₁.closed rfl hfound sunday
  refine ⟨r, r', hlast, hnext, restarted_sink_continues hc rfl rfl rfl hrun le_rfl
    ⟨hdone, fun _ day r₀ hr₀ => ?_⟩ hlast hnext⟩
  obtain ⟨rfl, -⟩ : (at_ sunday).day = day ∧ r = r₀ := by simpa [hlast] using hr₀
  rw [h₁.closed.holds.daysOf_eq, hdays]
  rfl

end PicX.Audit
