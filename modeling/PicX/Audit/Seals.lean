import PicX.Audit.Evidence
import PicX.Audit.Honest
import PicX.Base.Fallible

/-!
# The seals a call leaves behind

Whatever a call does, and however its operations turn out, every file it leaves was there before,
is a day of records, or is a seal made at that moment, in full or cut short. A seal cut short does
not read as another one (`SealsWhole`), so every seal that can be read afterwards was there before
or was just made.

* `Carried` — the files of one world are accounted for by another and by one moment.
* `action_carried` — every call accounts for its files.
* `SealFile.carried` — where a seal that can be read comes from.
* `shutdown_seals` — a shutdown with every operation done leaves the seal of the day.
-/

namespace PicX.Audit

open PicX Program

variable {c : Crates} {f : Op → Outcome} {w w' w₀ : World} {m : Moment} {sink : FileAuditSink}

/-! ## Where a file comes from -/

/-- Every file of `w'` is a file of `w`, a day of records, or a seal made at the moment `m`, as far
as it was written. -/
def Carried (c : Crates) (m : Moment) (w w' : World) : Prop :=
  ∀ name content, w'.lookup name = some (.file content) →
    w.lookup name = some (.file content) ∨ (∃ day, name = fileName day) ∨
      ∃ day records head n,
        content = (utf8 (c.sealToStringPretty (sealOf c m day records head))).take n

theorem Carried.refl (c : Crates) (m : Moment) (w : World) : Carried c m w w :=
  fun _ _ h => Or.inl h

/-- A change that adds no file. -/
theorem Carried.less (h : Carried c m w₀ w)
    (hless : ∀ name node, w'.lookup name = some node → w.lookup name = some node) :
    Carried c m w₀ w' :=
  fun name content hfile => h name content (hless name _ hfile)

theorem World.lookup_insert_cases {name name' : String} {node node' : Node}
    (h : (w.onDirectory (·.insert name node)).lookup name' = some node') :
    name' = name ∧ node' = node ∨ w.lookup name' = some node' := by
  unfold World.lookup World.onDirectory at h
  cases hd : w.directory with
  | none => simp [hd] at h
  | some d =>
    by_cases hname : name' = name
    · subst hname
      simp only [hd, Option.map_some, Option.bind_some, AList.lookup_insert, Option.some.injEq] at h
      exact Or.inl ⟨rfl, h.symm⟩
    · refine Or.inr ?_
      simpa [World.lookup, hd, AList.lookup_insert_ne hname] using h

theorem Carried.day (h : Carried c m w₀ w) (day : Int) (content : Bytes) :
    Carried c m w₀ (w.onDirectory (·.insert (fileName day) (.file content))) := by
  intro name content' hfile
  rcases World.lookup_insert_cases hfile with ⟨hname, -⟩ | hold
  · exact Or.inr (Or.inl ⟨day, hname⟩)
  · exact h name content' hold

theorem Carried.seal (h : Carried c m w₀ w) (name : String) (day : Int) (records : Nat)
    (head : String) (n : Nat) : Carried c m w₀ (w.onDirectory (·.insert name
      (.file ((utf8 (c.sealToStringPretty (sealOf c m day records head))).take n)))) := by
  intro name' content hfile
  rcases World.lookup_insert_cases hfile with ⟨-, hnode⟩ | hold
  · exact Or.inr (Or.inr ⟨day, records, head, n, Node.file.inj hnode⟩)
  · exact h name' content hold

theorem Carried.erase (h : Carried c m w₀ w) (name : String) :
    Carried c m w₀ (w.onDirectory (·.erase name)) := by
  refine h.less fun name' node hnode => ?_
  rw [World.lookup_erase] at hnode
  split_ifs at hnode
  exact hnode

theorem Carried.append (h : Carried c m w₀ w) (day : Int) (bytes : Bytes) :
    Carried c m w₀ (w.append day bytes) := by
  unfold World.append
  split
  · exact h.day day _
  · exact h

theorem Carried.wrote (h : Carried c m w₀ w) (day : Int) (record : Record) :
    Carried c m w₀ (w.wrote day record) := by
  unfold World.wrote
  split
  · exact h
  · exact h

/-! ## What each function leaves -/

theorem check_carried {o : Op} {refuse : String → AuditError} :
    Keeps (check o refuse) (Carried c m w₀) :=
  keeps_perform (fun _ h => h) (fun _ _ _ h => h)

theorem modify_opened_carried (g : World → Option Open) :
    Keeps (modify fun w => { w with opened := g w } : Action Unit) (Carried c m w₀) :=
  fun _ _ h => h

theorem createDirAll_carried : Keeps (createDirAll sink) (Carried c m w₀) := by
  refine keeps_perform (fun w h => ?_) (fun _ _ _ h => h)
  refine h.less fun name node hnode => ?_
  rw [World.lookup_eq] at hnode ⊢
  exact hnode

theorem expireEntries_carried (oldest : Int) (names : List String) (removed : Nat) :
    Keeps (expireEntries sink oldest names removed) (Carried c m w₀) := by
  induction names generalizing removed with
  | nil => exact keeps_pure _
  | cons name rest ih =>
    unfold expireEntries
    refine Keeps.bind (keeps_perform (fun _ h => h) (fun _ _ _ h => h)) fun more => ?_
    split_ifs
    swap
    · exact keeps_pure _
    split
    · exact ih removed
    split_ifs
    · exact ih removed
    refine Keeps.bind (keeps_perform (fun w h => ?_) (fun _ _ _ h => h)) fun _ => ?_
    · split
      · exact h.erase name
      · exact h
      · exact h
    refine Keeps.bind (keeps_perform (fun w h => ?_) (fun _ _ _ h => h)) fun _ => ih (removed + 1)
    split
    · exact h.erase _
    · exact h

theorem expire_carried (today : Int) : Keeps (expire sink m today) (Carried c m w₀) := by
  refine Keeps.bind check_carried fun _ => Keeps.bind keeps_get fun w => ?_
  split
  · exact keeps_pure _
  · exact expireEntries_carried _ _ _

theorem prepare_carried : Keeps (prepare sink m) (Carried c m w₀) :=
  Keeps.bind createDirAll_carried fun _ => Keeps.bind check_carried fun _ =>
    Keeps.bind (expire_carried _) fun _ => keeps_pure _

theorem seal_carried (day : Int) (records : Nat) (head : String) :
    Keeps (FileAuditSink.seal c sink m day records head) (Carried c m w₀) := by
  have hseal := fun (w : World) (h : Carried c m w₀ w) n => h.seal (sealName day) day records head n
  refine Keeps.bind (Keeps.bind (keeps_perform (fun w h => ?_) (fun _ _ _ h => h)) fun _ =>
    keeps_perform (fun w h => ?_) fun n _ w h => hseal w h n) fun _ => check_carried
  · dsimp only
    split
    · exact h
    · exact h
    · exact hseal w h 0
  · have := hseal w h (utf8 (c.sealToStringPretty (sealOf c m day records head))).length
    rwa [List.take_length] at this

theorem attempt_carried {α : Type} {p : Action α} (h : Keeps p (Carried c m w₀)) :
    Keeps (do let _ ← (attempt p : Action _)) (Carried c m w₀) := by
  refine Keeps.bind (fun f w hw => ?_) fun _ => keeps_pure _
  rw [wp_attempt]
  exact h f w hw

theorem listEntries_carried (names : List String) :
    Keeps (listEntries names) (Carried c m w₀) := by
  induction names with
  | nil => exact keeps_pure _
  | cons name rest ih =>
    unfold listEntries
    refine Keeps.bind (keeps_perform (fun _ h => h) (fun _ _ _ h => h)) fun more => ?_
    split_ifs
    · exact Keeps.bind ih fun _ => keeps_pure _
    · exact keeps_pure _

theorem readLast_carried (day : Int) : Keeps (readLast day) (Carried c m w₀) := by
  refine Keeps.bind (keeps_perform (fun w h => ?_) (fun _ _ _ h => h)) fun _ =>
    keeps_perform (fun w h => ?_) fun n reason w h => ?_
  all_goals split <;> exact h

theorem tail_carried : Keeps (tail c m) (Carried c m w₀) := by
  refine Keeps.bind
    (Keeps.bind check_carried fun _ => Keeps.bind keeps_get fun w => ?_) fun days => ?_
  · split
    · exact keeps_pure _
    · exact Keeps.bind (listEntries_carried _) fun _ => keeps_pure _
  · split
    · exact keeps_pure _
    refine Keeps.bind (readLast_carried _) fun last => ?_
    split
    · exact keeps_pure _
    · split
      · exact keeps_throw _
      · exact keeps_pure _

theorem openDay_carried (day : Int) : Keeps (openDay sink day) (Carried c m w₀) := by
  refine keeps_perform (fun w h => ?_) (fun _ _ _ h => h)
  dsimp only
  split
  · exact h
  · exact h
  · exact h
  · exact h.day day []

theorem openFor_carried (day : Int) : Keeps (openFor c sink m day) (Carried c m w₀) := by
  refine Keeps.bind keeps_get fun w => ?_
  split_ifs
  · exact keeps_pure _
  refine Keeps.bind ?_ fun tail => Keeps.bind createDirAll_carried fun _ =>
    Keeps.bind (openDay_carried day) fun _ => Keeps.bind check_carried fun _ =>
      modify_opened_carried _
  unfold continueFrom
  split
  · exact keeps_pure _
  · exact tail_carried

theorem writeNext_carried (event : AuditEvent) (policy : Option (String → String))
    (opened : Option Open) : Keeps (writeNext c sink m event policy opened) (Carried c m w₀) := by
  unfold writeNext
  split
  · exact keeps_throw _
  refine Keeps.bind (Keeps.bind (keeps_perform (fun w h => ?_) fun n _ w h => h.append _ _) fun _ =>
    Keeps.bind (keeps_perform (fun w h => h.append _ _) fun n _ w h => h.append _ _) fun _ =>
      check_carried) fun _ => modify_opened_carried _
  exact (h.append _ _).wrote _ _

theorem record_carried (event : AuditEvent) (policy : Option (String → String)) :
    Keeps (record c sink m event policy) (Carried c m w₀) := by
  refine Keeps.bind keeps_get fun w => ?_
  refine Keeps.bind ?_ fun _ => Keeps.bind (openFor_carried _) fun _ => Keeps.bind ?_ fun _ =>
    Keeps.bind keeps_get fun w => writeNext_carried event policy _
  · unfold sealClosing
    split
    · split_ifs
      · exact attempt_carried (seal_carried _ _ _)
      · exact keeps_pure _
    · exact keeps_pure _
  · unfold expireRolled
    split_ifs
    · exact Keeps.bind (expire_carried _) fun _ => keeps_pure _
    · exact keeps_pure _

theorem shutdown_carried : Keeps (shutdown c sink m) (Carried c m w₀) := by
  refine Keeps.bind keeps_get fun w => Keeps.bind ?_ fun _ => modify_opened_carried _
  unfold closeOpen
  split
  · exact Keeps.bind check_carried fun _ => attempt_carried (seal_carried _ _ _)
  · exact keeps_pure _

/-- **Every call accounts for its files.** -/
theorem action_carried (s : Step) : Keeps (s.action c) (Carried c s.moment w₀) := by
  unfold Step.action
  split
  · exact prepare_carried
  · exact record_carried _ _
  · exact shutdown_carried
  · exact modify_opened_carried _

/-! ## Seals that can be read -/

theorem sealFile_ne_fileName {name : String} {s : Seal} {d : Directory} (h : SealFile c d name s)
    (day : Int) : name ≠ fileName day := by
  obtain ⟨⟨date, -, rfl⟩, -⟩ := h
  intro heq
  have hlast := congrArg (fun t : String => t.toList.reverse[1]?) heq
  simp [fileName, SUFFIX, SEAL_SUFFIX] at hlast

theorem sealIn_eq_some {name : String} {s : Seal} {d : Directory} (h : sealIn c d name = some s) :
    ∃ content text, d.lookup name = some (.file content) ∧ fromUtf8 content = some text ∧
      c.sealFromStr text = .ok s := by
  unfold sealIn at h
  split at h
  · rename_i content hfile
    obtain ⟨text, htext, hread⟩ := Option.bind_eq_some_iff.mp h
    exact ⟨content, text, hfile, htext, toOption_eq_some.mp hread⟩
  · simp at h

/-- **A seal that can be read was there before, or is the one that was just made.** -/
theorem SealFile.carried (hwhole : SealsWhole c) (hcarried : Carried c m w w') {name : String}
    {s : Seal} (h : SealFile c w'.files name s) :
    SealFile c w.files name s ∨ ∃ day records head, s = sealOf c m day records head := by
  obtain ⟨content, text, hfile, htext, hread⟩ := sealIn_eq_some h.2
  rw [← World.lookup_eq] at hfile
  rcases hcarried name content hfile with hold | ⟨day, hname⟩ | ⟨day, records, head, n, rfl⟩
  · refine Or.inl ⟨h.1, ?_⟩
    rw [World.lookup_eq] at hold
    simp [sealIn, hold, htext, hread, Except.toOption]
  · exact absurd hname (sealFile_ne_fileName h day)
  · exact Or.inr ⟨day, records, head, hwhole _ n text s htext hread⟩

theorem sealFile_of_lookup (hc : c.Lawful) {day : Int} (hday : Readable day) {s : Seal}
    (h : w.lookup (sealName day) = some (.file (utf8 (c.sealToStringPretty s)))) :
    SealFile c w.files (sealName day) s := by
  refine ⟨⟨(Civil.dateOf day).toIso, ?_, rfl⟩, ?_⟩
  · rw [fromIso_dateOf hday]
    rfl
  · rw [World.lookup_eq] at h
    exact sealIn_of_lookup hc h

/-- **A shutdown with every operation done leaves the seal of the day that was open.** -/
theorem shutdown_seals (hf : ∀ o, f o = .done) {o : Open} (hopened : w.opened = some o)
    (hsome : w.directory.isSome) (hfree : w.lookup (sealName o.day) ≠ some .directory) :
    WP (shutdown c sink m) f
      (fun _ w' => w'.lookup (sealName o.day) =
        some (.file (utf8 (c.sealToStringPretty (sealOf c m o.day o.seq o.previous)))))
      (fun _ _ => False) (fun _ => False) w := by
  have hcheck : ∀ {op : Op} {refuse : String → AuditError} {w : World},
      WP (check op refuse) f (fun _ w' => w' = w) (fun _ _ => False) (fun _ => False) w :=
    wp_check.mono (fun _ _ h => h) (fun _ _ h => not_refused hf h.2) (fun _ h => not_cut hf h.2)
  unfold shutdown
  rw [wp_bind, wp_get, hopened]
  refine WP.bind (Q := fun _ w' => w'.lookup (sealName o.day) =
    some (.file (utf8 (c.sealToStringPretty (sealOf c m o.day o.seq o.previous))))) ?_
    fun _ _ h => (wp_modify _).mpr h
  refine WP.bind hcheck ?_
  rintro _ _ rfl
  refine WP.bind ?_ fun _ _ h => h
  rw [wp_attempt]
  refine WP.bind ?_ fun _ w₁ hw₁ => hcheck.mono (fun _ _ h => h ▸ hw₁) (fun _ _ h => h.elim)
    (fun _ h => h)
  obtain ⟨d, hd⟩ := Option.isSome_iff_exists.mp hsome
  refine WP.bind (Q := fun _ w₁ => w₁.directory.isSome) (WP.perform (fun _ => ?_)
    (fun n reason h => by simp [hf] at h) (fun h => by simp [hf] at h)) fun _ w₁ hsome₁ =>
      WP.perform (fun _ => ?_) (fun n reason h => by simp [hf] at h) (fun h => by simp [hf] at h)
  · unfold WP
    dsimp only
    rw [hd]
    cases hnode : World.lookup _ (sealName o.day) with
    | none => simp [hd]
    | some node => cases node with
      | directory => exact absurd hnode hfree
      | file content => simp [hd]
  · exact (World.lookup_insert hsome₁ _ _ _).trans (if_pos rfl)

end PicX.Audit
