import PicX.Audit.Restart

/-!
# What is on disk stays there

A sink adds to the end of a file of records, and removes one whole when its day is past retention.
It does nothing else to such a file, whatever fails and whenever the process dies.

* `Outlives` — the files of the days that are kept are there, as they were or longer.
* `Anchored` — the file that is open today is in the directory.
* `append_only` — every run leaves the files of the days it keeps so, from any directory.
* `recorded_lasts` — a record that was acknowledged is on disk as long as its day is kept.
-/

namespace PicX.Audit

open PicX Program

variable {c : Crates} {f : Op → Outcome} {w w₀ w' w'' : World} {oldest today : Int}

/-! ## Files that only grow -/

/-- The files of records of the days from `oldest` on are there, as they were or longer. -/
def Outlives (oldest : Int) (w w' : World) : Prop :=
  ∀ day, Readable day → oldest ≤ day → ∀ content,
    w.lookup (fileName day) = some (.file content) →
      ∃ rest, w'.lookup (fileName day) = some (.file (content ++ rest))

theorem Outlives.trans (h : Outlives oldest w w') (h' : Outlives oldest w' w'') :
    Outlives oldest w w'' := by
  intro day hday hkept content hfile
  obtain ⟨rest, hfile'⟩ := h day hday hkept content hfile
  obtain ⟨rest', hfile''⟩ := h' day hday hkept _ hfile'
  exact ⟨rest ++ rest', by rw [hfile'', List.append_assoc]⟩

theorem Outlives.mono {oldest' : Int} (h : Outlives oldest w w') (hle : oldest ≤ oldest') :
    Outlives oldest' w w' :=
  fun day hday hkept => h day hday (hle.trans hkept)

/-- Nothing happens to the files that are there. -/
theorem Outlives.of_lookup (h : ∀ day, Readable day → oldest ≤ day →
    w.lookup (fileName day) ≠ none → w'.lookup (fileName day) = w.lookup (fileName day)) :
    Outlives oldest w w' := by
  intro day hday hkept content hfile
  exact ⟨[], by rw [h day hday hkept (by simp [hfile]), hfile, List.append_nil]⟩

theorem Outlives.refl (oldest : Int) (w : World) : Outlives oldest w w :=
  .of_lookup fun _ _ _ _ => rfl

theorem World.lookup_insert_of_ne {name name' : String} (hne : name' ≠ name) (node : Node) :
    (w.onDirectory (·.insert name node)).lookup name' = w.lookup name' := by
  unfold World.lookup World.onDirectory
  cases w.directory with
  | none => rfl
  | some d => simp [AList.lookup_insert_ne hne]

/-- A file of another name is written. -/
theorem Outlives.insert {name : String} (hname : ∀ day, Readable day →
    w.lookup (fileName day) ≠ none → fileName day ≠ name) (node : Node) :
    Outlives oldest w (w.onDirectory (·.insert name node)) :=
  .of_lookup fun day hday _ hin => World.lookup_insert_of_ne (hname day hday hin) node

/-- A file of another name goes. -/
theorem Outlives.erase {name : String}
    (hname : ∀ day, Readable day → oldest ≤ day → fileName day ≠ name) :
    Outlives oldest w (w.onDirectory (·.erase name)) :=
  .of_lookup fun day hday hkept _ => by rw [World.lookup_erase, if_neg (hname day hday hkept)]

/-- Bytes are appended to one file. -/
theorem Outlives.append (day : Int) (bytes : Bytes) : Outlives oldest w (w.append day bytes) := by
  intro day' hday' _ content hfile
  unfold World.append
  split
  · rename_i content' hfile'
    by_cases hsame : fileName day' = fileName day
    · rw [hsame, hfile', Option.some.injEq, Node.file.injEq] at hfile
      rw [hsame, World.lookup_insert (World.isSome_of_lookup hfile'), if_pos rfl, hfile]
      exact ⟨bytes, rfl⟩
    · rw [World.lookup_insert_of_ne hsame, hfile]
      exact ⟨[], by simp⟩
  · exact ⟨[], by simp [hfile]⟩

/-- Remembering a line that was written touches no file. -/
theorem Outlives.wrote (day : Int) (record : Record) : Outlives oldest w (w.wrote day record) := by
  refine .of_lookup fun day' _ _ _ => ?_
  unfold World.wrote
  split <;> rfl

/-! ## Every operation leaves them -/

/-- The files were only added to, and what is open is what it was. -/
structure Grown (oldest : Int) (w w' : World) : Prop where
  files : Outlives oldest w w'
  opened : w'.opened = w.opened

theorem Grown.refl (oldest : Int) (w : World) : Grown oldest w w := ⟨.refl oldest w, rfl⟩

theorem Grown.trans (h : Grown oldest w w') (h' : Grown oldest w' w'') : Grown oldest w w'' :=
  ⟨h.files.trans h'.files, h'.opened.trans h.opened⟩

/-- A program that does nothing to the files of the days from `oldest` on but add to them. -/
abbrev Lengthens {α : Type} (oldest : Int) (p : Action α) : Prop := ∀ w, Keeps p (Grown oldest w)

theorem lengthens_perform {α : Type} {o : Op} {act : World → Ending World AuditError α}
    {refuse : Nat → String → World → Ending World AuditError α}
    (hact : ∀ w, Grown oldest w (act w).world)
    (hrefuse : ∀ n reason w, Grown oldest w (refuse n reason w).world) :
    Lengthens oldest (perform o act refuse) :=
  fun _ => keeps_perform (fun w h => h.trans (hact w)) fun n reason w h =>
    h.trans (hrefuse n reason w)

theorem Lengthens.bind {α β : Type} {p : Action α} {k : α → Action β} (hp : Lengthens oldest p)
    (hk : ∀ a, Lengthens oldest (k a)) : Lengthens oldest (p >>= k) :=
  fun w => Keeps.bind (hp w) fun a => hk a w

theorem Lengthens.attempt {α : Type} {p : Action α} (hp : Lengthens oldest p) :
    Lengthens oldest (attempt p : Action (Except AuditError α)) :=
  fun w f w₁ h => (wp_attempt p).mpr (hp w f w₁ h)

/-- However such a program ends, it leaves more than it found. -/
theorem Lengthens.wp {α : Type} {p : Action α} (hp : Lengthens oldest p) (f : Op → Outcome)
    (w : World) : WP p f (fun _ => Grown oldest w) (fun _ => Grown oldest w) (Grown oldest w) w :=
  hp w f w (.refl oldest w)

theorem lengthens_pure {α : Type} (a : α) : Lengthens oldest (pure a : Action α) :=
  fun _ => keeps_pure a

theorem lengthens_get : Lengthens oldest (get : Action World) := fun _ => keeps_get

theorem lengthens_check (o : Op) (refuse : String → AuditError) :
    Lengthens oldest (check o refuse) :=
  lengthens_perform (fun w => .refl _ w) fun _ _ w => .refl _ w

theorem lengthens_createDirAll (sink : FileAuditSink) : Lengthens oldest (createDirAll sink) := by
  refine lengthens_perform (fun w => ⟨.of_lookup fun day _ _ _ => ?_, rfl⟩) fun _ _ w => .refl _ w
  rw [World.lookup_eq, World.lookup_eq]
  rfl

/-- The file of a day that is not kept goes. -/
theorem lengthens_removeDay {sink : FileAuditSink} {name : String} {day : Int}
    (hof : dayOfFile name = some day) (hlt : day < oldest) :
    Lengthens oldest (removeDay sink name) := by
  have hname : ∀ day', Readable day' → oldest ≤ day' → fileName day' ≠ name := by
    intro day' hday' hkept heq
    rw [← heq, dayOfFile_fileName hday', Option.some.injEq] at hof
    omega
  refine lengthens_perform (fun w => ?_) fun _ _ w => .refl _ w
  split
  · exact ⟨.erase hname, rfl⟩
  · exact .refl _ w
  · exact .refl _ w

theorem lengthens_removeSeal (name : String) (day : Int) :
    Lengthens oldest (removeSeal name day) := by
  refine lengthens_perform (fun w => ?_) fun _ _ w => .refl _ w
  split
  · exact ⟨.erase fun day' hday' _ => fileName_ne_sealName hday' day, rfl⟩
  · exact .refl _ w

theorem lengthens_expireEntries {sink : FileAuditSink} (names : List String) (removed : Nat) :
    Lengthens oldest (expireEntries sink oldest names removed) := by
  induction names generalizing removed with
  | nil => exact lengthens_pure removed
  | cons name rest ih =>
    unfold expireEntries
    refine Lengthens.bind (lengthens_perform (fun w => .refl _ w) fun _ _ w => .refl _ w)
      fun more => ?_
    split_ifs
    · cases hof : dayOfFile name with
      | none => exact ih removed
      | some day =>
        dsimp only
        split_ifs with hkept
        · exact ih removed
        · exact (lengthens_removeDay hof (not_le.mp hkept)).bind fun _ =>
            (lengthens_removeSeal name day).bind fun _ => ih (removed + 1)
    · exact lengthens_pure removed

theorem lengthens_expire (sink : FileAuditSink) (m : Moment) (today : Int) :
    Lengthens (oldestKept sink today) (expire sink m today) := by
  refine (lengthens_check .readDir .unavailable).bind fun _ => lengthens_get.bind fun w => ?_
  cases w.directory with
  | none => exact lengthens_pure 0
  | some d => exact lengthens_expireEntries _ 0

theorem lengthens_seal (sink : FileAuditSink) (m : Moment) (day : Int) (records : Nat)
    (head : String) : Lengthens oldest (FileAuditSink.seal c sink m day records head) := by
  have hname : ∀ w day', Readable day' → World.lookup w (fileName day') ≠ none →
      fileName day' ≠ sealName day := fun _ _ hday' _ => fileName_ne_sealName hday' day
  unfold FileAuditSink.seal writeSealFile
  refine Lengthens.bind ?_ fun _ => lengthens_check _ _
  refine Lengthens.bind (lengthens_perform (fun w => ?_) fun _ _ w => .refl _ w) fun _ =>
    lengthens_perform (fun w => ⟨.insert (hname w) _, rfl⟩) fun _ _ w => ⟨.insert (hname w) _, rfl⟩
  split
  · exact .refl _ w
  · exact .refl _ w
  · exact ⟨.insert (hname w) _, rfl⟩

/-- The file of a day is made only when it is not there. -/
theorem lengthens_openDay (sink : FileAuditSink) (day : Int) :
    Lengthens oldest (openDay sink day) := by
  refine lengthens_perform (fun w => ?_) fun _ _ w => .refl _ w
  split
  · exact .refl _ w
  · exact .refl _ w
  · exact .refl _ w
  · rename_i hnone _
    refine ⟨.insert (fun day' _ hin heq => ?_) _, rfl⟩
    rw [heq, hnone] at hin
    exact hin rfl

theorem lengthens_listEntries (names : List String) : Lengthens oldest (listEntries names) := by
  induction names with
  | nil => exact lengthens_pure []
  | cons name rest ih =>
    unfold listEntries
    refine Lengthens.bind (lengthens_perform (fun w => .refl _ w) fun _ _ w => .refl _ w)
      fun more => ?_
    split_ifs
    · exact ih.bind fun _ => lengthens_pure _
    · exact lengthens_pure []

theorem lengthens_days (m : Moment) : Lengthens oldest (days m) := by
  refine (lengthens_check .listDays .unavailable).bind fun _ => lengthens_get.bind fun w => ?_
  cases w.directory with
  | none => exact lengthens_pure []
  | some d => exact (lengthens_listEntries _).bind fun _ => lengthens_pure _

theorem lengthens_readLast (day : Int) : Lengthens oldest (readLast day) := by
  refine Lengthens.bind (lengthens_perform (fun w => ?_) fun _ _ w => .refl _ w) fun _ => ?_
  · split <;> exact .refl _ w
  · refine lengthens_perform (fun w => ?_) fun _ _ w => ?_
    · split <;> exact .refl _ w
    · split <;> exact .refl _ w

theorem lengthens_tail (m : Moment) : Lengthens oldest (tail c m) := by
  refine (lengthens_days m).bind fun days => ?_
  cases days.getLast? with
  | none => exact lengthens_pure none
  | some latest =>
    refine (lengthens_readLast latest).bind fun last => ?_
    cases last with
    | none => exact lengthens_pure none
    | some text =>
      dsimp only
      split
      · exact fun _ => keeps_throw _
      · exact lengthens_pure _

theorem lengthens_continueFrom (m : Moment) (opened : Option Open) :
    Lengthens oldest (continueFrom c m opened) := by
  cases opened with
  | some o => exact lengthens_pure _
  | none => exact lengthens_tail m

theorem lengthens_sealClosing (sink : FileAuditSink) (m : Moment) (rolled : Bool)
    (opened : Option Open) : Lengthens oldest (sealClosing c sink m rolled opened) := by
  cases opened with
  | none => exact lengthens_pure ()
  | some o =>
    unfold sealClosing
    dsimp only
    split_ifs
    · exact (lengthens_seal sink m _ _ _).attempt.bind fun _ => lengthens_pure ()
    · exact lengthens_pure ()

theorem lengthens_expireRolled (sink : FileAuditSink) (m : Moment) (rolled : Bool) :
    Lengthens (oldestKept sink m.day) (expireRolled sink m rolled) := by
  unfold expireRolled
  split_ifs
  · exact (lengthens_expire sink m m.day).bind fun _ => lengthens_pure ()
  · exact lengthens_pure ()

theorem World.append_opened (day : Int) (bytes : Bytes) :
    (w.append day bytes).opened = w.opened := by
  unfold World.append
  split <;> rfl

theorem World.wrote_opened (day : Int) (record : Record) :
    (w.wrote day record).opened = w.opened := by
  unfold World.wrote
  split <;> rfl

theorem lengthens_appendRecord (day : Int) (record : Record) :
    Lengthens oldest (appendRecord c day record) := by
  have hbytes : ∀ (bytes : Bytes) (w : World), Grown oldest w (w.append day bytes) :=
    fun bytes _ => ⟨.append day bytes, World.append_opened day bytes⟩
  refine Lengthens.bind (lengthens_perform (fun w => ?_) fun _ _ w => hbytes _ w) fun _ =>
    (lengthens_perform (fun w => hbytes _ w) fun _ _ w => hbytes _ w).bind fun _ =>
      lengthens_check _ _
  exact (hbytes _ w).trans ⟨.wrote day record, World.wrote_opened day record⟩

/-! ## What is open -/

/-- The day of what is open is not after today, and its file is there if it is today. -/
def Anchored (today : Int) (w : World) : Prop := ∀ o, w.opened = some o → Held today w o.day

theorem Anchored.later {today' : Int} (h : Anchored today w) (hle : today ≤ today') :
    Anchored today' w :=
  fun o ho => (h o ho).later hle

theorem Anchored.grown (h : Anchored today w) (hgrown : Grown oldest w w') (hle : oldest ≤ today) :
    Anchored today w' := by
  intro o ho
  obtain ⟨hread, hday, hfile⟩ := h o (hgrown.opened ▸ ho)
  refine ⟨hread, hday, fun heq => ?_⟩
  obtain ⟨content, hcontent⟩ := hfile heq
  obtain ⟨rest, hrest⟩ := hgrown.files o.day hread (heq ▸ hle) content hcontent
  exact ⟨content ++ rest, hrest⟩

theorem Anchored.closed : Anchored today { w with opened := none } := by
  intro o ho
  cases ho

/-- The file of the day that was opened is there. -/
theorem openDay_there {sink : FileAuditSink} {day : Int} (hsome : w.directory.isSome) :
    WP (openDay sink day) f
      (fun _ w' => ∃ content, w'.lookup (fileName day) = some (.file content))
      (fun _ _ => True) (fun _ => True) w := by
  refine (openDay_spec hsome).mono (fun _ w' h => ?_) (fun _ _ _ => trivial) (fun _ _ => trivial)
  rcases h with ⟨hfile, rfl⟩ | ⟨-, hin, rfl⟩
  · exact hfile
  · exact ⟨[], by rw [World.lookup_insert hin, if_pos rfl]⟩

theorem openFor_anchored {sink : FileAuditSink} {m : Moment} (h : Anchored m.day w) :
    WP (openFor c sink m m.day) f
      (fun _ w' => Anchored m.day w' ∧ current w'.opened m.day)
      (fun _ => Anchored m.day) (fun _ => True) w := by
  unfold openFor
  rw [wp_bind, wp_get]
  split_ifs with hcurrent
  · exact ⟨h, hcurrent⟩
  refine WP.bind (((lengthens_continueFrom m w.opened).wp f w).mono (fun _ _ h' => h')
    (fun _ _ h' => h.grown h' le_rfl) (fun _ _ => trivial)) ?_
  intro found w₁ h₁
  refine WP.bind ((((lengthens_createDirAll sink).wp f w₁).and createDirAll_spec).mono
    (fun _ _ h' => h') (fun _ _ h' => h.grown (h₁.trans h'.1) le_rfl) (fun _ _ => trivial)) ?_
  rintro _ w₂ ⟨h₂, rfl⟩
  refine WP.bind ((((lengthens_openDay sink m.day).wp f _).and (openDay_there rfl)).mono
    (fun _ _ h' => h') (fun _ _ h' => h.grown ((h₁.trans h₂).trans h'.1) le_rfl)
    (fun _ _ => trivial)) ?_
  rintro _ w₃ ⟨h₃, hfile⟩
  refine WP.bind (wp_check.mono (fun _ _ h' => h')
    (fun _ _ h' => h'.1 ▸ h.grown ((h₁.trans h₂).trans h₃) le_rfl) (fun _ _ => trivial)) ?_
  rintro _ w₄ rfl
  rw [wp_modify]
  refine ⟨fun o ho => ?_, current_eq_true.mpr ⟨_, rfl, rfl⟩⟩
  obtain rfl := Option.some.inj ho
  exact ⟨m.readable_day, le_rfl, fun _ => hfile⟩

/-- The whole line of a record of this event is in the file of its day. -/
def OnDisk (c : Crates) (sink : FileAuditSink) (m : Moment) (event : AuditEvent)
    (policy : Option (String → String)) (w : World) : Prop :=
  ∃ o before after, w.lookup (fileName m.day) = some (.file
    (before ++ utf8 (c.recordToString (nextRecord c sink m event policy o)) ++ [10] ++ after))

theorem OnDisk.outlives {sink : FileAuditSink} {m : Moment} {event : AuditEvent}
    {policy : Option (String → String)} (h : OnDisk c sink m event policy w)
    (houtlives : Outlives oldest w w') (hkept : oldest ≤ m.day) :
    OnDisk c sink m event policy w' := by
  obtain ⟨o, before, after, hfile⟩ := h
  obtain ⟨rest, hfile'⟩ := houtlives m.day m.readable_day hkept _ hfile
  exact ⟨o, before, after ++ rest, by rw [hfile', List.append_assoc]⟩

theorem writeNext_onDisk {sink : FileAuditSink} {m : Moment} {event : AuditEvent}
    {policy : Option (String → String)} (h : Anchored m.day w)
    (hcurrent : current w.opened m.day) :
    WP (writeNext c sink m event policy w.opened) f
      (fun _ w' => Anchored m.day w' ∧ OnDisk c sink m event policy w')
      (fun _ => Anchored m.day) (fun _ => True) w := by
  obtain ⟨o, ho, hday⟩ := current_eq_true.mp hcurrent
  obtain ⟨-, -, hfile⟩ := h o ho
  obtain ⟨content, hcontent⟩ := hfile hday
  rw [hday] at hcontent
  have hsome := World.isSome_of_lookup hcontent
  unfold writeNext
  rw [ho]
  dsimp only
  rw [hday]
  refine WP.bind ((((lengthens_appendRecord m.day _).wp f w).and (appendRecord_spec hcontent)).mono
    (fun _ _ h' => h') (fun _ _ h' => h.grown h'.1 le_rfl) (fun _ _ => trivial)) ?_
  rintro _ w' ⟨-, -, rfl⟩
  rw [wp_modify]
  have hwritten := (World.appended_lookup hsome m.day
    (content ++ utf8 (c.recordToString (nextRecord c sink m event policy o)) ++ [10])
    (nextRecord c sink m event policy o) _).trans (if_pos rfl)
  refine ⟨fun o' ho' => ?_, o, content, [], ?_⟩
  · obtain rfl := Option.some.inj ho'
    exact ⟨m.readable_day, le_rfl, fun _ => ⟨_, hwritten⟩⟩
  · rw [List.append_nil]
    exact hwritten

theorem oldestKept_le {R : Nat} {sink : FileAuditSink} (h : R ≤ sink.retention) (today : Int) :
    oldestKept sink today ≤ today - (R / 86400 : Nat) := by
  have : R / 86400 ≤ sink.retention / 86400 := Nat.div_le_div_right h
  unfold oldestKept
  omega

theorem oldestKept_le_today (sink : FileAuditSink) (today : Int) :
    oldestKept sink today ≤ today := by
  simpa using oldestKept_le (Nat.zero_le sink.retention) today

/-- A record that succeeds is on disk. -/
theorem record_onDisk {sink : FileAuditSink} {m : Moment} {event : AuditEvent}
    {policy : Option (String → String)} (h : Anchored m.day w) :
    WP (record c sink m event policy) f
      (fun _ w' => Anchored m.day w' ∧ OnDisk c sink m event policy w')
      (fun _ => Anchored m.day) (fun _ => True) w := by
  unfold record
  rw [wp_bind, wp_get]
  refine WP.bind (((lengthens_sealClosing sink m _ w.opened).wp f w).mono (fun _ _ h' => h')
    (fun _ _ h' => h.grown h' le_rfl) (fun _ _ => trivial)) ?_
  intro _ w₁ h₁
  refine WP.bind (openFor_anchored (h.grown h₁ le_rfl)) ?_
  rintro _ w₂ ⟨h₂, hcurrent⟩
  have hle := oldestKept_le_today sink m.day
  refine WP.bind (((lengthens_expireRolled sink m _).wp f w₂).mono (fun _ _ h' => h')
    (fun _ _ h' => h₂.grown h' hle) (fun _ _ => trivial)) ?_
  intro _ w₃ h₃
  rw [wp_bind, wp_get]
  exact writeNext_onDisk (h₂.grown h₃ hle) (h₃.opened ▸ hcurrent)

/-! ## Every call -/

theorem Lengthens.keeps {α : Type} {p : Action α} (hp : Lengthens oldest p) (w₀ : World) :
    Keeps p (Outlives oldest w₀) :=
  fun f w h => (hp.wp f w).mono (fun _ _ h' => h.trans h'.files) (fun _ _ h' => h.trans h'.files)
    fun _ h' => h.trans h'.files

/-- An assignment to what is open. -/
theorem keeps_open (opened : World → Option Open) (w₀ : World) :
    Keeps (modify fun w => { w with opened := opened w } : Action Unit) (Outlives oldest w₀) :=
  fun _ _ h => h

theorem openFor_keeps (sink : FileAuditSink) (m : Moment) (w₀ : World) :
    Keeps (openFor c sink m m.day) (Outlives oldest w₀) := by
  refine Keeps.bind keeps_get fun w => ?_
  split_ifs
  · exact keeps_pure ()
  · exact ((lengthens_continueFrom m w.opened).keeps w₀).bind fun _ =>
      ((lengthens_createDirAll sink).keeps w₀).bind fun _ =>
        ((lengthens_openDay sink m.day).keeps w₀).bind fun _ =>
          ((lengthens_check _ _).keeps w₀).bind fun _ => keeps_open _ w₀

theorem record_keeps (sink : FileAuditSink) (m : Moment) (event : AuditEvent)
    (policy : Option (String → String)) (w₀ : World) :
    Keeps (record c sink m event policy) (Outlives (oldestKept sink m.day) w₀) := by
  refine Keeps.bind keeps_get fun w => ((lengthens_sealClosing sink m _ w.opened).keeps w₀).bind
    fun _ => (openFor_keeps sink m w₀).bind fun _ =>
      ((lengthens_expireRolled sink m _).keeps w₀).bind fun _ => Keeps.bind keeps_get fun w' => ?_
  cases w'.opened with
  | none => exact keeps_throw _
  | some o => exact ((lengthens_appendRecord o.day _).keeps w₀).bind fun _ => keeps_open _ w₀

theorem lengthens_closeOpen (sink : FileAuditSink) (m : Moment) (opened : Option Open) :
    Lengthens oldest (closeOpen c sink m opened) := by
  cases opened with
  | none => exact lengthens_pure ()
  | some o =>
    exact (lengthens_check _ _).bind fun _ =>
      (lengthens_seal sink m _ _ _).attempt.bind fun _ => lengthens_pure ()

theorem lengthens_prepare (sink : FileAuditSink) (m : Moment) :
    Lengthens (oldestKept sink m.day) (prepare sink m) :=
  (lengthens_createDirAll sink).bind fun _ => (lengthens_check _ _).bind fun _ =>
    (lengthens_expire sink m m.day).bind fun _ => lengthens_pure ()

/-- Every call only adds to the files of the days it keeps, however it ends. -/
theorem Step.outlives (s : Step) (w : World) :
    Outlives (oldestKept s.sink s.moment.day) w (s.run c w) := by
  have haction : Keeps (s.action c) (Outlives (oldestKept s.sink s.moment.day) w) := by
    unfold Step.action
    cases s.call with
    | prepare => exact (lengthens_prepare s.sink s.moment).keeps w
    | record event policy => exact record_keeps s.sink s.moment event policy w
    | shutdown =>
      exact Keeps.bind keeps_get fun w' =>
        ((lengthens_closeOpen s.sink s.moment w'.opened).keeps w).bind fun _ => keeps_open _ w
    | restart => exact keeps_open _ w
  exact Step.run_of_wp ((haction s.outcome w (.refl _ w)).mono (fun _ _ h => h) (fun _ _ h => h)
    fun _ h => h)

/-- What is open stays anchored, however a call ends. -/
theorem Step.anchored (s : Step) (h : Anchored s.moment.day w) :
    Anchored s.moment.day (s.run c w) := by
  apply Step.run_of_wp
  unfold Step.action
  cases s.call with
  | prepare =>
    have hgrown : ∀ w', Grown (oldestKept s.sink s.moment.day) w w' → Anchored s.moment.day w' :=
      fun w' h' => h.grown h' (oldestKept_le_today _ _)
    exact ((lengthens_prepare s.sink s.moment).wp s.outcome w).mono (fun _ => hgrown)
      (fun _ => hgrown) fun _ _ => .closed
  | record event policy =>
    exact (record_onDisk h).mono (fun _ _ h' => h'.1) (fun _ _ h' => h') fun _ _ => .closed
  | shutdown =>
    dsimp only
    unfold shutdown
    rw [wp_bind, wp_get]
    exact WP.bind (((lengthens_closeOpen s.sink s.moment w.opened).wp s.outcome w).mono
      (fun _ _ h' => h') (fun _ _ h' => h.grown h' le_rfl) fun _ _ => .closed) fun _ _ _ => .closed
  | restart => exact .closed

/-! ## Runs -/

/-- Runs of sinks that are to keep records for at least `R` seconds. -/
abbrev Retaining (R : Nat) (_ : World) (s : Step) : Prop := R ≤ s.sink.retention

/-- **The trail is append-only.** In every run, from whatever directory and whatever memory, with
any operation failing or cutting the process short: a file of records whose day is still kept is
there at the end, and begins with all it held at the start. -/
theorem append_only {R : Nat} {start : World} {t : Int} (h : Run c (Retaining R) start t w) :
    Outlives (Civil.dayOf t - (R / 86400 : Nat)) start w := by
  induction h with
  | start => exact .refl _ _
  | step s hrun hle hok ih =>
    refine (ih.mono ?_).trans ((s.outlives _).mono (oldestKept_le hok _))
    exact Int.sub_le_sub_right (day_mono hle) _

/-- The file of Sunday is as it was or longer, after a sink that died on Monday. -/
theorem append_only_died : Outlives (Civil.dayOf monday.val - 1)
    ((recordAt sunday).run (serde firstSha) emptyTrail)
    (({ recordAt monday with outcome := cutAfterOpening } : Step).run (serde firstSha)
      ((recordAt sunday).run (serde firstSha) emptyTrail)) :=
  append_only (R := 86400) (t := monday.val)
    (.step { recordAt monday with outcome := cutAfterOpening } .start (by decide) le_rfl)

theorem Run.anchored {ok : World → Step → Prop} {start : World} (hopened : start.opened = none)
    {t : Int} (h : Run c ok start t w) : Anchored (Civil.dayOf t) w := by
  induction h with
  | start =>
    intro o ho
    rw [hopened] at ho
    cases ho
  | step s hrun hle hok ih => exact s.anchored (ih.later (day_mono hle))

/-- **A record that was acknowledged lasts.** A sink that began with nothing open has come to `w`
through any calls, with any operation failing or cutting the process short. When a record then
succeeds, its whole line is in the file of its day after every run that follows, whatever fails in
it, for as long as that day is within the retention. -/
theorem recorded_lasts {R : Nat} {start : World} (hopened : start.opened = none) {t : Int}
    (hrun : Run c (fun _ _ => True) start t w) {s : Step} {event : AuditEvent}
    {policy : Option (String → String)} (hcall : s.call = .record event policy)
    (hle : t ≤ s.moment.now.val) (hok : (s.action c s.outcome w).isOk) {t' : Int}
    (hlater : Run c (Retaining R) (s.run c w) t' w')
    (hkept : Civil.dayOf t' - (R / 86400 : Nat) ≤ s.moment.day) :
    OnDisk c s.sink s.moment event policy w' := by
  have hanchored : Anchored s.moment.day w := (hrun.anchored hopened).later (day_mono hle)
  have hwritten : OnDisk c s.sink s.moment event policy (s.run c w) := by
    rw [Step.action_record hcall] at hok
    have hspec : WP (record c s.sink s.moment event policy) s.outcome
        (fun _ w' => Anchored s.moment.day w' ∧ OnDisk c s.sink s.moment event policy w')
        (fun _ => Anchored s.moment.day) (fun _ => True) w := record_onDisk hanchored
    unfold Step.run
    rw [Step.action_record hcall]
    cases hend : record c s.sink s.moment event policy s.outcome w with
    | ok _ w₁ => exact (hspec.ok hend).2
    | error e w₁ => simp [hend, Ending.isOk] at hok
    | crash w₁ => simp [hend, Ending.isOk] at hok
  induction hlater with
  | start => exact hwritten
  | step s' hrun' hle' hok' ih =>
    have hday := day_mono hle'
    exact (ih (by omega)).outlives ((s'.outlives _).mono (oldestKept_le hok' _)) hkept

theorem recordAt_isOk (hc : c.Lawful) (hfiles : w.files = ∅) (hopened : w.opened = none)
    (seconds : Reading) : ((recordAt seconds).action c (recordAt seconds).outcome w).isOk := by
  have hspec : WP ((recordAt seconds).action c) (recordAt seconds).outcome (fun _ _ => True)
      (fun _ _ => False) (fun _ => False) w := by
    rw [Step.action_record rfl]
    exact (record_fresh hc hfiles hopened fun _ => rfl).mono (fun _ _ _ => trivial)
      (fun _ _ h => h) fun _ h => h
  obtain ⟨_, _, hend, -⟩ := hspec.exists_ok
  exact hend ▸ rfl

/-- A record of Sunday is on disk after a sink that died on Monday. -/
theorem recorded_lasts_sunday : OnDisk (serde firstSha) oneDay (at_ sunday)
    (AuditEvent.new "server.start" (.system "default")) none
    (({ recordAt monday with outcome := cutAfterOpening } : Step).run (serde firstSha)
      ((recordAt sunday).run (serde firstSha) emptyTrail)) :=
  recorded_lasts (R := 86400) (s := recordAt sunday) rfl .start rfl (by decide)
    (recordAt_isOk (serde_lawful firstSha) rfl rfl sunday) (.step _ .start (by decide) le_rfl)
    (by decide)

end PicX.Audit
