import PicX.Audit.Honest

/-!
# A clock that goes back

The sink appends to the file of the day the clock reads, and `verify` reads the files in the order
of their days. The two orders agree as long as no record goes to a day before one that is already
there; whatever else the clock does, within a day or between two calls that record nothing, leaves
the trail verifiable.

* `Undisturbed` — every operation is done and nothing is due to expire.
* `InOrder` — a record goes to the newest day there is, or to a new one after it.
* `record_backward` — one that does not breaks the trail.
* `trail_verifies_in_order` — the trail verifies, record for record, exactly as long as records
  are in order.
-/

namespace PicX.Audit

open PicX Program

variable {c : Crates} {f : Op → Outcome} {w w' : World} {today : Int} {log : Log}

/-! ## Runs with any clock -/

/-- How many records a call writes. -/
def Step.records (s : Step) : Nat :=
  match s.call with
  | .record _ _ => 1
  | .prepare | .shutdown | .restart => 0

/-- The worlds reached from `start` by steps that all satisfy `ok`, whatever the clock reads, with
how many records were written on the way. -/
inductive Reached (c : Crates) (ok : World → Step → Prop) (start : World) : Nat → World → Prop
  | start : Reached c ok start 0 start
  | step {n : Nat} {w : World} (s : Step) : Reached c ok start n w → ok w s →
      Reached c ok start (n + s.records) (s.run c w)

/-- Every operation is done, and nothing is due to expire. -/
def Undisturbed (w : World) (s : Step) : Prop :=
  (∀ o, s.outcome o = .done) ∧ match s.call with
    | .record _ _ => current w.opened s.moment.day = false → NothingDue s.sink s.moment.day w
    | .prepare => NothingDue s.sink s.moment.day w
    | .shutdown | .restart => True

/-- A record is not made on a day before one that has a file. -/
def InOrder (w : World) (s : Step) : Prop :=
  match s.call with
  | .record _ _ => ∀ name ∈ w.files.keys, ∀ day, dayOfFile name = some day → day ≤ s.moment.day
  | .prepare | .shutdown | .restart => True

/-- What every call of such a run keeps. -/
def Counted (c : Crates) (n : Nat) (w : World) : Prop :=
  ∃ today log, Intact c today w log ∧ log.Full ∧ w.directory.isSome ∧ log.records.length = n

theorem Intact.days_le_iff (h : Intact c today w log) {day : Int} :
    (∀ name ∈ w.files.keys, ∀ day', dayOfFile name = some day' → day' ≤ day) ↔
      ∀ day' ∈ log.days, day' ≤ day := by
  constructor
  · intro hall day' hday'
    obtain ⟨name, hname, hof⟩ := List.mem_filterMap.mp (h.holds.names.mem_iff.mpr hday')
    exact hall name hname day' hof
  · intro hall name hname day' hof
    exact hall day' (h.holds.names.mem_iff.mp (List.mem_filterMap.mpr ⟨name, hname, hof⟩))

theorem Extends.length {log' : Log} {day : Int} (h : Extends log day log') :
    log'.records.length = log.records.length + 1 := by
  obtain ⟨log₀, rs, r, rfl, hlog⟩ := h
  have hrecords : Log.records (log₀ ++ [(day, rs)]) = log.records := by
    rcases hlog with hlog | hlog <;> simp [hlog]
  rw [← hrecords]
  simp [Nat.add_assoc]

theorem Counted.step (hc : c.Lawful) {s : Step} {n : Nat} (h : Counted c n w)
    (hdone : Undisturbed w s) (horder : InOrder w s) : Counted c (n + s.records) (s.run c w) := by
  obtain ⟨today, log, hintact, hfull, hsome, hlen⟩ := h
  obtain ⟨hf, hdue⟩ := hdone
  apply Step.run_of_wp (I := Counted c (n + s.records))
  unfold Step.action Step.records
  unfold InOrder at horder
  cases hcall : s.call with
  | prepare =>
    rw [hcall] at hdue
    refine (prepare_nothing hintact hf hdue).mono ?_ (fun _ _ h => h.elim) (fun _ h => h.elim)
    intro _ w' h'
    exact ⟨today, log, h'.1, hfull, h'.2, hlen⟩
  | record event policy =>
    rw [hcall] at hdue horder
    -- The days there are end with the one the clock reads.
    have hnow : Intact c s.moment.day w log :=
      { hintact with past := hintact.days_le_iff.mp horder }
    refine (record_intact hc hnow le_rfl (hnow.harmless hc hfull hf hdue)).mono ?_
      (fun _ _ h => (not_refused hf h.choose_spec.2).elim) (fun _ h => (not_cut hf h).elim)
    rintro _ w' ⟨log', h', hext, -⟩
    exact ⟨s.moment.day, log', h', hext.full hfull, hext.isSome h', by rw [hext.length, hlen]⟩
  | shutdown =>
    refine (shutdown_intact hintact fun _ => hf _).mono ?_
      (fun _ _ h => (not_refused hf h.2).elim) (fun _ h => (not_cut hf h).elim)
    rintro _ w' ⟨h', hsome'⟩
    exact ⟨today, log, h', hfull, hsome'.trans hsome, hlen⟩
  | restart => exact ⟨today, log, hintact.closed, hfull, hsome, hlen⟩

theorem Reached.counted (hc : c.Lawful) {start : World} (hdir : start.directory = some ∅)
    (hopened : start.opened = none) {n : Nat}
    (h : Reached c (fun w s => Undisturbed w s ∧ InOrder w s) start n w) : Counted c n w := by
  induction h with
  | start =>
    refine ⟨0, [], Intact.fresh (by simp [World.files, hdir]) hopened, ?_, by simp [hdir], rfl⟩
    simp [Log.Full]
  | step s hrun hok ih => exact ih.step hc hok.1 hok.2

/-! ## A record on an earlier day -/

/-- A log around a day, with its records if it has any. -/
theorem Log.around (hsorted : log.days.Pairwise (· < ·)) (day : Int) :
    (∃ log₁ rs log₂, log = log₁ ++ (day, rs) :: log₂) ∨
      ∃ log₁ log₂, log = log₁ ++ log₂ ∧ (∀ day' ∈ log₁.days, day' < day) ∧
        ∀ day' ∈ log₂.days, day < day' := by
  induction log with
  | nil => exact .inr ⟨[], [], rfl, by simp [Log.days], by simp [Log.days]⟩
  | cons e log ih =>
    obtain ⟨hfirst, hrest⟩ := List.pairwise_cons.mp hsorted
    rcases lt_trichotomy e.1 day with hlt | rfl | hgt
    · rcases ih hrest with ⟨log₁, rs, log₂, rfl⟩ | ⟨log₁, log₂, rfl, hbefore, hafter⟩
      · exact .inl ⟨e :: log₁, rs, log₂, rfl⟩
      · refine .inr ⟨e :: log₁, log₂, rfl, fun day' hday' => ?_, hafter⟩
        rcases List.mem_cons.mp hday' with rfl | hold
        · exact hlt
        · exact hbefore day' hold
    · exact .inl ⟨[], e.2, log, rfl⟩
    · refine .inr ⟨[], e :: log, rfl, by simp [Log.days], fun day' hday' => ?_⟩
      rcases List.mem_cons.mp hday' with rfl | hold
      · exact hgt
      · exact hgt.trans (hfirst day' hold)

/-- A log with a place for a day: the log as it is, or with a day more that has no records. -/
structure Placed (log : Log) (day : Int) (log₁ : Log) (rs : List Record) (log₂ : Log) : Prop where
  records : Log.records (log₁ ++ (day, rs) :: log₂) = log.records
  kept : ∀ e ∈ log, e ∈ log₁ ++ (day, rs) :: log₂
  days : ∀ day' ∈ Log.days (log₁ ++ (day, rs) :: log₂), day' = day ∨ day' ∈ log.days

theorem DayOpened.placed (h : Holds c w.files log) {day : Int} (hday : Readable day)
    (hopened : DayOpened day w w') : ∃ log₁ rs log₂, Placed log day log₁ rs log₂ ∧
      Holds c w'.files (log₁ ++ (day, rs) :: log₂) ∧ w'.opened = w.opened := by
  rcases Log.around h.sorted day with ⟨log₁, rs, log₂, rfl⟩ | ⟨log₁, log₂, rfl, hbefore, hafter⟩
  · have hsame : w' = w := by
      rcases hopened with ⟨-, rfl⟩ | ⟨hnone, -, -⟩
      · rfl
      · have hfile := h.content (day, rs) (by simp)
        rw [← World.lookup_eq, hnone] at hfile
        cases hfile
    subst hsame
    exact ⟨log₁, rs, log₂, ⟨rfl, fun e he => he, fun day' hday' => .inr hday'⟩, h, rfl⟩
  · rcases hopened with ⟨⟨content, hfile⟩, -⟩ | ⟨-, hsome, rfl⟩
    · -- A file of that day would be one of the log.
      have hmem : day ∈ Log.days (log₁ ++ log₂) := by
        rw [← h.mem_iff hday, ← AList.lookup_isSome, ← World.lookup_eq, hfile]
        rfl
      rw [Log.days_append, List.mem_append] at hmem
      rcases hmem with hmem | hmem
      · exact absurd (hbefore day hmem) (lt_irrefl day)
      · exact absurd (hafter day hmem) (lt_irrefl day)
    · refine ⟨log₁, [], log₂, ⟨by simp [Log.records], ?_, ?_⟩, ?_, rfl⟩
      · intro e he
        simp only [List.mem_append, List.mem_cons] at he ⊢
        tauto
      · intro day' hday'
        simp only [Log.days, List.map_append, List.map_cons, List.mem_append,
          List.mem_cons] at hday' ⊢
        tauto
      · rw [World.files_onDirectory hsome]
        exact h.createBetween hday hbefore hafter

/-- Opening the file of any day of a whole trail. -/
theorem openFor_placed (hc : c.Lawful) {sink : FileAuditSink} {m : Moment}
    (h : Intact c today w log) (hfull : log.Full) (hf : ∀ o, f o = .done) :
    WP (openFor c sink m m.day) f
      (fun _ w' => ∃ log₁ rs log₂ o, Placed log m.day log₁ rs log₂ ∧
        Holds c w'.files (log₁ ++ (m.day, rs) :: log₂) ∧ w'.opened = some o ∧ o.day = m.day ∧
        o.seq = log.records.length)
      (fun _ _ => False) (fun _ => False) w := by
  have hcut := not_cut hf
  have hrefused := not_refused hf
  unfold openFor
  rw [wp_bind, wp_get]
  split_ifs with hcurrent
  · obtain ⟨o, ho, hday⟩ := current_eq_true.mp hcurrent
    obtain ⟨hmem, hseq, -⟩ := h.opened o ho
    obtain ⟨e, he, heq⟩ := List.mem_map.mp hmem
    obtain ⟨log₁, log₂, rfl⟩ := List.append_of_mem he
    obtain ⟨day, rs⟩ := e
    obtain rfl : day = m.day := heq.trans hday
    exact ⟨log₁, rs, log₂, o, ⟨rfl, fun e he => he, fun day' hday' => .inr hday'⟩, h.holds,
      ho, hday, hseq⟩
  refine WP.bind ((continueFrom_intact hc h fun _ => ⟨h.coldStart hc hfull, by simp [hf],
    by simp [hf]⟩).mono (fun _ _ h' => h') (fun _ _ h' => hrefused h'.2) (fun _ h' => hcut h')) ?_
  rintro found w₀ ⟨rfl, hfound⟩
  refine WP.bind (createDirAll_spec.mono (fun _ _ h' => h') (fun _ _ h' => hrefused h'.2)
    (fun _ h' => hcut h'.2)) ?_
  rintro _ _ rfl
  refine WP.bind ((openDay_spec rfl).mono (fun _ _ h' => h') ?_ (fun _ h' => hcut h'.2)) ?_
  · rintro _ _ ⟨-, hfailed | hdir⟩
    · exact hrefused hfailed
    · exact h.createdDir.holds.not_directory m.readable_day hdir
  intro _ w₁ hopened
  obtain ⟨log₁, rs, log₂, hplaced, hholds, -⟩ := hopened.placed h.createdDir.holds m.readable_day
  refine WP.bind (wp_check.mono (fun _ _ h' => h') (fun _ _ h' => hrefused h'.2)
    (fun _ h' => hcut h'.2)) ?_
  rintro _ w₂ rfl
  rw [wp_modify]
  refine ⟨log₁, rs, log₂, _, hplaced, hholds, rfl, rfl, ?_⟩
  rw [hfound]

/-- A later day of the log still comes after, with its records. -/
theorem Placed.later {day day' : Int} {log₁ log₂ : Log} {rs : List Record}
    (h : Placed log day log₁ rs log₂)
    (hsorted : (Log.days (log₁ ++ (day, rs) :: log₂)).Pairwise (· < ·)) (hfull : log.Full)
    (hin : day' ∈ log.days) (hlt : day < day') : log₂.records ≠ [] := by
  obtain ⟨e, he, rfl⟩ := List.mem_map.mp hin
  simp only [Log.days, List.map_append, List.map_cons, List.pairwise_append,
    List.mem_cons] at hsorted
  have hafter : e ∈ log₂ := by
    rcases List.mem_append.mp (h.kept e he) with hbefore | hrest
    · have := hsorted.2.2 e.1 (List.mem_map_of_mem hbefore) day (Or.inl rfl)
      omega
    rcases List.mem_cons.mp hrest with rfl | hafter
    · exact absurd hlt (lt_irrefl _)
    · exact hafter
  intro hnil
  exact hfull e he (List.flatMap_eq_nil_iff.mp hnil e hafter)

theorem Placed.nothingDue {sink : FileAuditSink} {day : Int} {log₁ log₂ : Log} {rs : List Record}
    (h : Placed log day log₁ rs log₂) (hholds : Holds c w.files (log₁ ++ (day, rs) :: log₂))
    (hdue : ∀ day' ∈ log.days, oldestKept sink day ≤ day') : NothingDue sink day w := by
  intro name hname day' hof
  have hin := hholds.names.mem_iff.mp (List.mem_filterMap.mpr ⟨name, hname, hof⟩)
  rcases h.days day' hin with rfl | hold
  · unfold oldestKept
    omega
  · exact hdue day' hold

/-- A record with a number past its place does not verify, whatever follows it. -/
theorem Holds.misplaced (hc : c.Lawful) {log₁ log₂ : Log} {day : Int} {rs : List Record}
    {r : Record}
    (h : Holds c w.files (log₁ ++ (day, rs ++ [r]) :: log₂))
    (hseq : (log₁.records ++ rs).length + 1 < r.body.seq) (path : String) :
    ¬∃ v, verify c path w.directory = .ok v := by
  rintro ⟨v, hv⟩
  obtain ⟨d, seals, rs', hd, -, htrail, hatt, -⟩ := verify_ok_iff.mp hv
  have hfiles : w.files = d := by simp [World.files, hd]
  have hrecords : Log.records (log₁ ++ (day, rs ++ [r]) :: log₂) =
      (log₁.records ++ rs) ++ r :: log₂.records := by simp [Log.records]
  rw [← hfiles, h.trail_eq hc, hrecords, Option.some.injEq] at htrail
  obtain ⟨-, -, hplace, -⟩ := chained_append_iff.mp (htrail ▸ hatt.chained)
  have hplace : r.body.seq = 1 + (log₁.records ++ rs).length := hplace
  omega

/-- **A record on a day before one that is there leaves a trail that does not verify.** It has the
number after all the records there are, and stands before some of them. -/
theorem record_backward (hc : c.Lawful) {sink : FileAuditSink} {m : Moment} {event : AuditEvent}
    {policy : Option (String → String)} (h : Intact c today w log) (hfull : log.Full)
    (hf : ∀ o, f o = .done) (hdue : current w.opened m.day = false → NothingDue sink m.day w)
    (hlater : ∃ day ∈ log.days, m.day < day) (path : String) :
    WP (record c sink m event policy) f (fun _ w' => ¬∃ v, verify c path w'.directory = .ok v)
      (fun _ _ => False) (fun _ => False) w := by
  have hcut := not_cut hf
  have hrefused := not_refused hf
  unfold record
  rw [wp_bind, wp_get]
  refine WP.bind ((sealClosing_intact h fun _ _ _ => hf _).mono (fun _ _ h' => h')
    (fun _ _ h' => h') (fun _ h' => hcut h')) ?_
  rintro _ w₁ ⟨h₁, -, -⟩
  refine WP.bind (openFor_placed hc h₁ hfull hf) ?_
  rintro _ w₂ ⟨log₁, rs, log₂, o, hplaced, h₂, ho₂, hday, hseq⟩
  -- Nothing that is due has appeared.
  refine WP.bind (Q := fun _ w' => w' = w₂) ?_ ?_
  · unfold expireRolled
    split_ifs with hrolled
    · have hkept := hplaced.nothingDue h₂ (h.nothingDue_iff.mp (hdue (by simpa using hrolled)))
      exact WP.bind ((expire_nothing hkept).mono (fun _ _ h' => h') (fun _ _ h' => hrefused h'.2)
        (fun _ h' => hcut h'.2)) fun _ _ h' => h'
    · rfl
  rintro _ w₃ rfl
  obtain ⟨day, seq, previous⟩ := o
  obtain rfl : day = m.day := hday
  obtain rfl : seq = log.records.length := hseq
  rw [wp_bind, wp_get, ho₂]
  have hfile : w₃.lookup (fileName m.day) = some (.file (textOf c rs)) := by
    rw [World.lookup_eq]
    exact h₂.content (m.day, rs) (by simp)
  refine WP.bind ((appendRecord_spec hfile).mono (fun _ _ h' => h') ?_
    (fun _ h' => hcut h'.1)) ?_
  · rintro _ _ (⟨n, r, hfailed, -⟩ | ⟨-, ⟨n, r, hfailed⟩ | ⟨⟨n, r, hfailed⟩, -⟩⟩)
    all_goals exact hrefused ⟨_, n, r, hfailed⟩
  rintro _ _ ⟨-, rfl⟩
  rw [wp_modify]
  have h₃ := h₂.appended (World.isSome_of_lookup hfile)
  refine Holds.misplaced (w := { w₃.appended _ _ _ with opened := _ }) hc (h₃ _) ?_ path
  -- Some record comes after the place of this one.
  obtain ⟨day, hin, hlt⟩ := hlater
  have hpos := List.length_pos_of_ne_nil (hplaced.later h₂.sorted hfull hin hlt)
  have hlen := congrArg List.length hplaced.records
  simp only [Log.records, List.flatMap_append, List.flatMap_cons, List.length_append] at hlen hpos ⊢
  change _ < (List.flatMap Prod.snd log).length + 1
  omega

/-! ## Exactly when the trail verifies -/

/-- **The trail verifies as long as records are in order**, and reports as many records as were
written, whatever the clock does otherwise. The first record that is out of order ends it. -/
theorem trail_verifies_in_order (hc : c.Lawful) {start : World} (hdir : start.directory = some ∅)
    (hopened : start.opened = none) {n : Nat}
    (hrun : Reached c (fun w s => Undisturbed w s ∧ InOrder w s) start n w) (path : String) :
    (∃ v, verify c path w.directory = .ok v ∧ v.records = n) ∧
      ∀ s, Undisturbed w s →
        ((∃ v, verify c path (s.run c w).directory = .ok v ∧ v.records = n + s.records) ↔
          InOrder w s) := by
  have hverified : ∀ {n w}, Counted c n w →
      ∃ v, verify c path w.directory = .ok v ∧ v.records = n := by
    rintro n w ⟨today, log, hintact, -, hsome, rfl⟩
    obtain ⟨d, hd⟩ := Option.isSome_iff_exists.mp hsome
    rw [hd]
    exact hintact.verified hc hd path
  have hcounted := hrun.counted hc hdir hopened
  refine ⟨hverified hcounted, fun s hdone => ⟨fun hok => ?_, fun horder => ?_⟩⟩
  · by_contra horder
    obtain ⟨today, log, hintact, hfull, -, -⟩ := hcounted
    obtain ⟨hf, hdue⟩ := hdone
    unfold InOrder at horder
    cases hcall : s.call with
    | prepare => simp [hcall] at horder
    | shutdown => simp [hcall] at horder
    | restart => simp [hcall] at horder
    | record event policy =>
      rw [hcall] at hdue horder
      rw [hintact.days_le_iff] at horder
      push Not at horder
      have hbroken : ¬∃ v, verify c path (s.run c w).directory = .ok v := by
        refine Step.run_of_wp (I := fun w => ¬∃ v, verify c path w.directory = .ok v) ?_
        rw [Step.action_record hcall]
        exact (record_backward hc hintact hfull hf hdue horder path).mono (fun _ _ h => h)
          (fun _ _ h => h.elim) (fun _ h => h.elim)
      obtain ⟨v, hv, -⟩ := hok
      exact hbroken ⟨v, hv⟩
  · exact hverified (hcounted.step hc hdone horder)

/-- The second before midnight of 2026-08-09. -/
def saturday : Reading := ⟨20674 * 86400 - 1, by decide⟩

/-- An hour later. -/
def sundayMorning : Reading := ⟨20674 * 86400 + 3600, by decide⟩

theorem undisturbed_first (seconds : Reading) : Undisturbed emptyTrail (recordAt seconds) :=
  ⟨fun _ => rfl, fun _ => nothingDue_of_empty rfl _ _⟩

/-- After a first record, nothing is due the day before it or on the day itself. -/
theorem undisturbed_second {r : Record} {first second : Reading}
    (h : Intact c (at_ first).day w [((at_ first).day, [r])])
    (hle : (at_ second).day ≤ (at_ first).day + 1) : Undisturbed w (recordAt second) := by
  refine ⟨fun _ => rfl, fun _ => ?_⟩
  rw [h.nothingDue_iff]
  intro day hday
  rw [Log.days_singleton, List.mem_singleton] at hday
  subst hday
  have hkept : oldestKept oneDay (at_ second).day = (at_ second).day - 1 := by
    simp [oldestKept, oneDay]
  show oldestKept oneDay (at_ second).day ≤ (at_ first).day
  omega

/-- A record at midnight, and one after the clock was put back by a second: nothing failed,
nothing expired, and the trail does not verify. -/
theorem clock_put_back : ∃ w, Reached (serde firstSha) Undisturbed emptyTrail 2 w ∧
    ¬∃ v, verify (serde firstSha) "trail" w.directory = .ok v := by
  have hc := serde_lawful firstSha
  have hfirst : Reached (serde firstSha) Undisturbed emptyTrail 1
      ((recordAt sunday).run (serde firstSha) emptyTrail) :=
    .step (recordAt sunday) .start (undisturbed_first sunday)
  obtain ⟨r, hr, -⟩ := record_first (w := emptyTrail) hc rfl rfl sunday
  generalize (recordAt sunday).run (serde firstSha) emptyTrail = w₁ at hr hfirst
  have hsecond : Undisturbed w₁ (recordAt saturday) := undisturbed_second hr (by decide)
  refine ⟨_, hfirst.step _ hsecond, ?_⟩
  refine Step.run_of_wp (I := fun w => ¬∃ v, verify (serde firstSha) "trail" w.directory = .ok v) ?_
  rw [Step.action_record rfl]
  exact (record_backward hc hr (by simp [Log.Full]) (fun _ => rfl) hsecond.2
    ⟨(at_ sunday).day, by simp, by decide⟩ "trail").mono (fun _ _ h => h) (fun _ _ h => h.elim)
      (fun _ h => h.elim)

/-- The clock is put back by an hour within the day, and both records verify. -/
theorem trail_verifies_in_order_twice : ∃ w, Reached (serde firstSha)
      (fun w s => Undisturbed w s ∧ InOrder w s) emptyTrail 2 w ∧
    (∃ v, verify (serde firstSha) "trail" w.directory = .ok v ∧ v.records = 2) ∧
      ∀ s, Undisturbed w s → ((∃ v, verify (serde firstSha) "trail"
        (s.run (serde firstSha) w).directory = .ok v ∧ v.records = 2 + s.records) ↔
          InOrder w s) := by
  have hc := serde_lawful firstSha
  have hfirst : Reached (serde firstSha) (fun w s => Undisturbed w s ∧ InOrder w s) emptyTrail 1
      ((recordAt sundayMorning).run (serde firstSha) emptyTrail) :=
    .step (recordAt sundayMorning) .start ⟨undisturbed_first sundayMorning,
      fun name hname => by simp [emptyTrail, World.files] at hname⟩
  obtain ⟨r, hr, -⟩ := record_first (w := emptyTrail) hc rfl rfl sundayMorning
  generalize (recordAt sundayMorning).run (serde firstSha) emptyTrail = w₁ at hr hfirst
  have hsecond : Undisturbed w₁ (recordAt sunday) := undisturbed_second hr (by decide)
  have horder : InOrder w₁ (recordAt sunday) := by
    refine hr.days_le_iff.mpr fun day hday => ?_
    rw [Log.days_singleton, List.mem_singleton] at hday
    subst hday
    show (at_ sundayMorning).day ≤ (at_ sunday).day
    decide
  have hrun := hfirst.step _ ⟨hsecond, horder⟩
  exact ⟨_, hrun, trail_verifies_in_order hc rfl rfl hrun "trail"⟩

end PicX.Audit
