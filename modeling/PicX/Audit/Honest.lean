import PicX.Audit.Intact
import PicX.Audit.Serde

/-!
# Honest runs, and runs with failing operations

A trail that only the sink has written verifies after every call, whatever the clock, the key ring
and the restarts, as long as expiry never removes a part of it: `verify` expects the first record
of the first day to be number 1, and `expire` removes that day while later ones stay.

* `honest_trail_verifies` — runs with every operation done.
* `record_expired` — a record that makes an older day expire leaves a trail that does not verify.
* `failed_records_contained` — runs in which operations of `record` fail.
-/

namespace PicX.Audit

open PicX Program

variable {c : Crates} {f : Op → Outcome} {w w' : World} {today : Int} {log : Log}

/-! ## From calls to runs -/

theorem Step.run_of_wp {s : Step} {I : World → Prop}
    (h : WP (s.action c) s.outcome (fun _ => I) (fun _ => I)
      (fun w' => I { w' with opened := none }) w) : I (s.run c w) := by
  unfold Step.run
  unfold WP at h
  cases hend : s.action c s.outcome w with
  | ok a w' => simpa [afterwards, hend] using h
  | error e w' => simpa [afterwards, hend] using h
  | crash w' => simpa [afterwards, hend] using h

theorem Step.action_record {s : Step} {event : AuditEvent} {policy : Option (String → String)}
    (h : s.call = .record event policy) :
    s.action c = Audit.record c s.sink s.moment event policy := by
  rw [Step.action, h]

theorem not_cut (hf : ∀ o, f o = .done) : ¬Cut f := fun ⟨o, h⟩ => by simp [hf o] at h

theorem not_refused (hf : ∀ o, f o = .done) : ¬Refused f := fun ⟨o, n, r, h⟩ => by simp [hf o] at h

theorem day_mono {s s' : Int} (h : s ≤ s') : Civil.dayOf s ≤ Civil.dayOf s' :=
  Int.ediv_le_ediv (by decide) h

/-- A sink with nothing open over a directory with nothing in it is intact. -/
theorem Intact.fresh (hfiles : w.files = ∅) (hopened : w.opened = none) : Intact c 0 w [] where
  holds := hfiles ▸ Holds.empty
  digests := by simp [Log.records]
  chained := trivial
  seals day _ node hnode := by simp [World.lookup_eq, hfiles] at hnode
  opened o ho := by simp [hopened] at ho
  past := by simp [Log.days]

/-! ## Honest runs -/

/-- Every operation is done, and expiry takes nothing, or all there is from a sink that has
nothing open. -/
def Retains (w : World) (s : Step) : Prop :=
  (∀ o, s.outcome o = .done) ∧ match s.call with
    | .record _ _ => current w.opened s.moment.day = false → NothingDue s.sink s.moment.day w
    | .prepare => NothingDue s.sink s.moment.day w ∨
        w.opened = none ∧ EverythingDue s.sink s.moment.day w
    | .shutdown | .restart => True

/-- What every call of an honest run keeps. -/
def Kept (c : Crates) (today : Int) (w : World) : Prop :=
  ∃ log, Intact c today w log ∧ log.Full ∧ w.directory.isSome

/-- Nothing goes wrong in an undisturbed record of a whole trail. -/
theorem Intact.harmless (hc : c.Lawful) (h : Intact c today w log) (hfull : log.Full)
    {sink : FileAuditSink} {m : Moment} (hf : ∀ o, f o = .done)
    (hdue : current w.opened m.day = false → NothingDue sink m.day w) : Harmless c sink m f w where
  alive := not_cut hf
  kept := hdue
  sealWhole := fun _ _ _ => hf _
  cold := fun _ => ⟨h.coldStart hc hfull, fun name n r h => by simp [hf] at h,
    fun n r h => by simp [hf] at h⟩
  lineWhole := fun n r h => by simp [hf] at h
  flushed := fun _ => ⟨hf _, hf _⟩

theorem Kept.step (hc : c.Lawful) {s : Step} (h : Kept c today w) (hle : today ≤ s.moment.day)
    (hok : Retains w s) : Kept c s.moment.day (s.run c w) := by
  obtain ⟨log, hintact, hfull, hsome⟩ := h
  obtain ⟨hf, hdue⟩ := hok
  apply Step.run_of_wp
  unfold Step.action
  cases hcall : s.call with
  | prepare =>
    rw [hcall] at hdue
    refine (prepare_intact hintact hf hdue).mono ?_ (fun _ _ h => h.elim) (fun _ h => h.elim)
    rintro _ w' ⟨log', hlog', h', hsome'⟩
    refine ⟨log', h'.later hle, ?_, hsome'⟩
    rcases hlog' with rfl | rfl
    · exact hfull
    · simp [Log.Full]
  | record event policy =>
    rw [hcall] at hdue
    have hharmless := hintact.harmless hc hfull hf hdue
    refine (record_intact hc hintact hle hharmless).mono ?_
      (fun _ _ h => (not_refused hf h.choose_spec.2).elim) (fun _ h => (not_cut hf h).elim)
    rintro _ w' ⟨log', h', hext, -⟩
    exact ⟨log', h', hext.full hfull, hext.isSome h'⟩
  | shutdown =>
    refine (shutdown_intact hintact fun _ => hf _).mono ?_
      (fun _ _ h => (not_refused hf h.2).elim) (fun _ h => (not_cut hf h).elim)
    rintro _ w' ⟨h', hsome'⟩
    exact ⟨log, h'.later hle, hfull, hsome'.trans hsome⟩
  | restart => exact ⟨log, (hintact.later hle).closed, hfull, hsome⟩

theorem Run.kept (hc : c.Lawful) {start : World} (hdir : start.directory = some ∅)
    (hopened : start.opened = none) {t : Int} (h : Run c Retains start t w) :
    Kept c (Civil.dayOf t) w := by
  induction h with
  | start =>
    refine ⟨[], Intact.fresh (by simp [World.files, hdir]) hopened, ?_, by simp [hdir]⟩
    simp [Log.Full]
  | step s hrun hle hok ih => exact ih.step hc (day_mono hle) hok

/-- **An honest trail verifies after every call**, from an empty directory on, through any number
of restarts and rollovers, while expiry spares it. -/
theorem honest_trail_verifies (hc : c.Lawful) {start : World} (hdir : start.directory = some ∅)
    (hopened : start.opened = none) {t : Int} (hrun : Run c Retains start t w) (path : String) :
    ∃ v, verify c path w.directory = .ok v := by
  obtain ⟨log, hintact, -, hsome⟩ := hrun.kept hc hdir hopened
  obtain ⟨d, hd⟩ := Option.isSome_iff_exists.mp hsome
  rw [hd]
  exact hintact.verifies hc hd path

/-! ## Expiry breaks the trail -/

theorem Log.length_records_filter_le (p : Int × List Record → Bool) (log : Log) :
    (Log.records (log.filter p)).length ≤ log.records.length := by
  induction log with
  | nil => simp
  | cons e log ih =>
    simp only [Log.records, List.length_flatMap] at ih
    rw [List.filter_cons]
    split_ifs <;> simp [Log.records, List.length_flatMap] <;> omega

theorem Log.length_records_filter_lt {p : Int × List Record → Bool} {log : Log}
    {e : Int × List Record} (he : e ∈ log) (hp : p e = false) (hne : e.2 ≠ []) :
    (Log.records (log.filter p)).length < log.records.length := by
  obtain ⟨l₁, l₂, rfl⟩ := List.append_of_mem he
  have h₁ := Log.length_records_filter_le p l₁
  have h₂ := Log.length_records_filter_le p l₂
  have hpos := List.length_pos_of_ne_nil hne
  have hcons : Log.records (e :: l₂) = e.2 ++ Log.records l₂ := by simp [Log.records]
  rw [List.filter_append, List.filter_cons, if_neg (by simp [hp]), Log.records_append,
    Log.records_append, hcons, List.length_append, List.length_append, List.length_append]
  omega

/-- The days that expiry leaves of a log. -/
def Log.since (log : Log) (oldest : Int) : Log := log.filter fun e => oldest ≤ e.1

theorem Holds.shrunk {oldest : Int} (h : Holds c w.files log) (hshrunk : Shrunk oldest w w')
    (hgone : ∀ name ∈ w.files.keys, ∀ day, dayOfFile name = some day → day < oldest →
      w'.lookup name = none) : Holds c w'.files (log.since oldest) := by
  have hsub : (log.since oldest).days.Sublist log.days := List.filter_sublist.map _
  refine Holds.of_names (h.sorted.sublist hsub) (fun day hday => h.readable day (hsub.subset hday))
    (fun name hname day hof => ?_) (fun e he => ?_)
  · have hin : w'.lookup name ≠ none := World.mem_keys_iff_ne.mp (AList.mem_keys.mp hname)
    have hbefore := hshrunk.mem_keys hin
    refine ⟨h.name_eq (AList.mem_keys.mpr hbefore) hof, ?_⟩
    have hday : day ∈ log.days := h.names.mem_iff.mp (List.mem_filterMap.mpr ⟨name, hbefore, hof⟩)
    obtain ⟨e, he, rfl⟩ := List.mem_map.mp hday
    refine List.mem_map_of_mem (List.mem_filter.mpr ⟨he, ?_⟩)
    by_contra hlt
    exact hin (hgone name hbefore e.1 hof (by simpa using hlt))
  · obtain ⟨he, hkept⟩ := List.mem_filter.mp he
    have hread := h.readable e.1 (List.mem_map_of_mem he)
    rw [← World.lookup_eq, hshrunk.fileName hread (by simpa using hkept), World.lookup_eq]
    exact h.content e he

/-- A trail whose last record is numbered past its length does not verify. -/
theorem Holds.not_verified (hc : c.Lawful) {rs : List Record} {r : Record}
    (h : Holds c w.files log) (hrecords : log.records = rs ++ [r])
    (hseq : rs.length + 1 < r.body.seq) (path : String) :
    ¬∃ v, verify c path w.directory = .ok v := by
  rintro ⟨v, hv⟩
  obtain ⟨d, seals, rs', hd, -, htrail, hatt, -⟩ := verify_ok_iff.mp hv
  have hfiles : w.files = d := by simp [World.files, hd]
  rw [← hfiles, h.trail_eq hc, hrecords, Option.some.injEq] at htrail
  have hlast := (htrail ▸ hatt.chained).last
  rw [hlast, List.length_append, List.length_singleton] at hseq
  exact lt_irrefl _ hseq

/-- Expiry of a day that has a record leaves fewer of them. -/
theorem Log.length_records_since {oldest day : Int} (hfull : log.Full) (hin : day ∈ log.days)
    (hlt : day < oldest) : (log.since oldest).records.length < log.records.length := by
  obtain ⟨e, he, rfl⟩ := List.mem_map.mp hin
  exact Log.length_records_filter_lt he (by simpa using hlt) (hfull e he)

/-- **A record that makes an older day expire leaves a trail that does not verify.** The new
record has the number after all the records there were, and fewer are left. -/
theorem record_expired (hc : c.Lawful) {sink : FileAuditSink} {m : Moment} {event : AuditEvent}
    {policy : Option (String → String)} (h : Intact c today w log) (hfull : log.Full)
    (hle : today ≤ m.day) (hf : ∀ o, f o = .done) (hrolled : current w.opened m.day = false)
    (hdue : ∃ day ∈ log.days, day < oldestKept sink m.day) (path : String) :
    WP (record c sink m event policy) f (fun _ w' => ¬∃ v, verify c path w'.directory = .ok v)
      (fun _ _ => False) (fun _ => False) w := by
  have hcut := not_cut hf
  have hrefused := not_refused hf
  unfold record
  rw [wp_bind, wp_get]
  refine WP.bind ((sealClosing_intact h fun _ _ _ => hf _).mono (fun _ _ h' => h')
    (fun _ _ h' => h') (fun _ h' => hcut h')) ?_
  rintro _ w₁ ⟨h₁, ho₁, hsame⟩
  refine WP.bind ((openFor_intact hc h₁ hle fun hnone => ?_).mono (fun _ _ h' => h')
    (fun _ _ h' => hrefused h'.choose_spec.2) (fun _ h' => hcut h')) ?_
  · rw [hsame (ho₁.symm.trans hnone)]
    exact ⟨h.coldStart hc hfull, fun name n r hr => by simp [hf] at hr,
      fun n r hr => by simp [hf] at hr⟩
  rintro _ w₂ ⟨log₂, o, hlog₂, h₂, ho₂, hday⟩
  obtain ⟨log₀, rs, rfl, hfile⟩ := h₂.current_file ho₂ hday
  obtain ⟨-, hseq, -⟩ := h₂.opened o ho₂
  obtain ⟨day, seq, previous⟩ := o
  obtain rfl : day = m.day := hday
  have hkept : oldestKept sink m.day ≤ m.day := by
    unfold oldestKept
    omega
  refine WP.bind (Q := fun _ w₃ => Shrunk (oldestKept sink m.day) w₂ w₃ ∧
    Holds c w₃.files (Log.since (log₀ ++ [(m.day, rs)]) (oldestKept sink m.day))) ?_ ?_
  · unfold expireRolled
    rw [hrolled]
    refine WP.bind ((expire_done hf fun name hname _ hof _ => ?_).mono
      (fun _ _ h' => h') (fun _ _ h' => h') (fun _ h' => h')) fun _ w₃ h₃ => ⟨h₃.1, ?_⟩
    · rw [World.lookup_eq]
      exact h₂.holds.content_of_name hname hof
    exact h₂.holds.shrunk h₃.1 fun name hname day hof hlt => (h₃.2 name hname day hof hlt).1
  rintro _ w₃ ⟨hshrunk, h₃⟩
  rw [wp_bind, wp_get, hshrunk.opened, ho₂]
  have hfile₃ : w₃.lookup (fileName m.day) = some (.file (textOf c rs)) := by
    rw [hshrunk.fileName m.readable_day hkept, hfile]
  refine WP.bind ((appendRecord_spec hfile₃).mono (fun _ _ h' => h') ?_
    (fun _ h' => hcut h'.1)) ?_
  · rintro _ _ (⟨n, r, hfailed, -⟩ | ⟨-, ⟨n, r, hfailed⟩ | ⟨⟨n, r, hfailed⟩, -⟩⟩)
    all_goals exact hrefused ⟨_, n, r, hfailed⟩
  rintro _ _ ⟨-, rfl⟩
  rw [wp_modify]
  -- The directory now holds what was kept, and the new record.
  have hsince : Log.since (log₀ ++ [(m.day, rs)]) (oldestKept sink m.day) =
      Log.since log₀ (oldestKept sink m.day) ++ [(m.day, rs)] := by
    simp [Log.since, List.filter_append, hkept]
  set r : Record :=
    { body := bodyOf sink m event policy ⟨m.day, seq, previous⟩
      digest := expectedDigest c (bodyOf sink m event policy ⟨m.day, seq, previous⟩) } with hr
  have hrecords : Log.records (Log.since log₀ (oldestKept sink m.day) ++ [(m.day, rs ++ [r])]) =
      (Log.since (log₀ ++ [(m.day, rs)]) (oldestKept sink m.day)).records ++ [r] := by
    rw [hsince]
    simp
  rw [hsince] at h₃
  have h₄ := h₃.appended (World.isSome_of_lookup hfile₃) r
  refine Holds.not_verified (w := { w₃.appended _ _ r with opened := _ }) hc h₄ hrecords ?_ path
  obtain ⟨day, hin, hlt⟩ := hdue
  have hfewer := Log.length_records_since hfull hin hlt
  have hlog : Log.records (log₀ ++ [(m.day, rs)]) = log.records ∧
      (Log.since (log₀ ++ [(m.day, rs)]) (oldestKept sink m.day)).records =
        (log.since (oldestKept sink m.day)).records := by
    rcases hlog₂ with hlog | hlog <;> rw [hlog] <;> simp [Log.since, List.filter_append, hkept]
  rw [hlog.2]
  rw [hlog.1] at hseq
  change seq = _ at hseq
  show _ < seq + 1
  omega

/-! ### Two records three days apart -/

/-- A call at a given second, with no key ring. -/
def at_ (seconds : Reading) : Moment :=
  { now := seconds, sealedAt := seconds, sign := none, order := id, order_perm := fun _ => .refl _ }

/-- A sink that keeps one day. -/
def oneDay : FileAuditSink :=
  { directory := "trail", serviceName := "pic-x", serviceVersion := "0.1.0", retention := 86400 }

/-- A record with every operation done. -/
def recordAt (seconds : Reading) : Step :=
  { sink := oneDay
    moment := at_ seconds
    call := .record (AuditEvent.new "server.start" (.system "default")) none
    outcome := fun _ => .done }

/-- A new sink over an empty directory. -/
def emptyTrail : World := { directory := some ∅, opened := none, written := [] }

/-- Midnight of 2026-08-09. -/
def sunday : Reading := ⟨20674 * 86400, by decide⟩

/-- Midnight of 2026-08-12. -/
def wednesday : Reading := ⟨20677 * 86400, by decide⟩

theorem nothingDue_of_empty (hfiles : w.files = ∅) (sink : FileAuditSink) (day : Int) :
    NothingDue sink day w := by
  intro name hname
  simp [hfiles] at hname

/-- The first record of a trail, with every operation done. -/
theorem record_fresh (hc : c.Lawful) {sink : FileAuditSink} {m : Moment} {event : AuditEvent}
    {policy : Option (String → String)} (hfiles : w.files = ∅) (hopened : w.opened = none)
    (hf : ∀ o, f o = .done) : WP (record c sink m event policy) f
      (fun _ w' => ∃ r, Intact c m.day w' [(m.day, [r])] ∧ current w'.opened m.day)
      (fun _ _ => False) (fun _ => False) w := by
  have hfresh : Intact c 0 w [] := Intact.fresh hfiles hopened
  have hle : 0 ≤ m.day := Int.ediv_nonneg m.now.property.1 (by decide)
  have hharmless : Harmless c sink m f w :=
    { alive := not_cut hf
      kept := fun _ => nothingDue_of_empty hfiles _ _
      sealWhole := fun h => absurd hopened h
      cold := fun _ => ⟨hfresh.coldStart hc (by simp [Log.Full]), by simp [hf], by simp [hf]⟩
      lineWhole := by simp [hf]
      flushed := fun _ => ⟨hf _, hf _⟩ }
  refine (record_intact hc hfresh hle hharmless).mono ?_
    (fun _ _ h => (not_refused hf h.choose_spec.2).elim) (fun _ h => (not_cut hf h).elim)
  rintro _ w' ⟨log', h', ⟨log₀, rs, r, rfl, hlog | hlog⟩, hcurrent⟩
  · simp at hlog
  · obtain ⟨rfl, h⟩ := List.append_inj' hlog rfl
    obtain rfl : rs = [] := by simpa using h
    exact ⟨r, h', hcurrent⟩

theorem record_first (hc : c.Lawful) (hfiles : w.files = ∅) (hopened : w.opened = none)
    (seconds : Reading) : ∃ r, Intact c (at_ seconds).day ((recordAt seconds).run c w)
      [((at_ seconds).day, [r])] ∧
        current ((recordAt seconds).run c w).opened (at_ seconds).day := by
  refine Step.run_of_wp (I := fun w => ∃ r, Intact c (at_ seconds).day w
    [((at_ seconds).day, [r])] ∧ current w.opened (at_ seconds).day) ?_
  rw [Step.action_record rfl]
  exact (record_fresh hc hfiles hopened fun _ => rfl).mono (fun _ _ h => h) (fun _ _ h => h.elim)
    (fun _ h => h.elim)

/-- Three days after the first record, with a retention of one day: the first day is gone and the
trail does not verify any more. -/
theorem expired_trail_refused :
    (∀ s ∈ [recordAt sunday, recordAt wednesday], 86400 ≤ s.sink.retention ∧
      ∀ o, s.outcome o = .done) ∧
    ¬∃ v, verify (serde firstSha) "trail"
      ((recordAt wednesday).run (serde firstSha)
        ((recordAt sunday).run (serde firstSha) emptyTrail)).directory = .ok v := by
  refine ⟨by simp [recordAt, oneDay], ?_⟩
  have hc := serde_lawful firstSha
  obtain ⟨r, hr, -⟩ := record_first (w := emptyTrail) hc rfl rfl sunday
  generalize (recordAt sunday).run (serde firstSha) emptyTrail = w₁ at hr ⊢
  refine Step.run_of_wp (I := fun w => ¬∃ v, verify (serde firstSha) "trail" w.directory = .ok v) ?_
  rw [Step.action_record rfl]
  refine (record_expired hc hr (by simp [Log.Full]) (by decide) (fun _ => rfl) ?_ ?_ "trail").mono
    (fun _ _ h => h) (fun _ _ h => h.elim) (fun _ h => h.elim)
  · -- What is open is the file of the first day.
    rw [← Bool.not_eq_true, current_eq_true]
    rintro ⟨o, ho, hday⟩
    have := (hr.opened o ho).1
    rw [hday, Log.days_singleton, List.mem_singleton] at this
    exact absurd this (by decide)
  · exact ⟨(at_ sunday).day, by simp, by decide⟩

/-- A record and a shutdown, and the trail verifies. -/
theorem honest_trail_verifies_twice :
    ∃ v, verify (serde firstSha) "trail"
      (({ recordAt wednesday with call := .shutdown } : Step).run (serde firstSha)
        ((recordAt sunday).run (serde firstSha) emptyTrail)).directory = .ok v :=
  honest_trail_verifies (serde_lawful firstSha) rfl rfl
    (.step _ (.step (recordAt sunday) .start (by decide)
      ⟨fun _ => rfl, fun _ => nothingDue_of_empty rfl _ _⟩) (by decide) ⟨fun _ => rfl, trivial⟩)
        "trail"

/-! ## Runs in which recording fails -/

/-- A run on one sink in which the operations of `record` may fail. -/
def Contained (c : Crates) (w : World) (s : Step) : Prop :=
  match s.call with
  | .record _ _ => Harmless c s.sink s.moment s.outcome w
  | .prepare => (∀ o, s.outcome o = .done) ∧
      (NothingDue s.sink s.moment.day w ∨ w.opened = none ∧ EverythingDue s.sink s.moment.day w)
  | .shutdown => ∀ o, s.outcome o = .done
  | .restart => False

theorem contained_step (hc : c.Lawful) {s : Step} (h : ∃ log, Intact c today w log)
    (hle : today ≤ s.moment.day) (hok : Contained c w s) :
    ∃ log, Intact c s.moment.day (s.run c w) log := by
  obtain ⟨log, hintact⟩ := h
  apply Step.run_of_wp (I := fun w => ∃ log, Intact c s.moment.day w log)
  unfold Step.action
  unfold Contained at hok
  cases hcall : s.call with
  | prepare =>
    rw [hcall] at hok
    refine (prepare_intact hintact hok.1 hok.2).mono ?_ (fun _ _ h => h.elim) (fun _ h => h.elim)
    rintro _ w' ⟨log', -, h', -⟩
    exact ⟨log', h'.later hle⟩
  | record event policy =>
    rw [hcall] at hok
    refine (record_intact hc hintact hle hok).mono ?_ ?_ (fun _ h => absurd h hok.alive)
    · rintro _ w' ⟨log', h', -⟩
      exact ⟨log', h'⟩
    · rintro _ w' ⟨log', h', -⟩
      exact ⟨log', h'⟩
  | shutdown =>
    rw [hcall] at hok
    refine (shutdown_intact hintact fun _ => hok _).mono ?_
      (fun _ _ h => (not_refused hok h.2).elim) (fun _ h => (not_cut hok h).elim)
    rintro _ w' ⟨h', -⟩
    exact ⟨log, h'.later hle⟩
  | restart => simp [hcall] at hok

theorem Run.contained (hc : c.Lawful) {start : World} (hfiles : start.files = ∅)
    (hopened : start.opened = none) {t : Int} (h : Run c (Contained c) start t w) :
    ∃ log, Intact c (Civil.dayOf t) w log := by
  induction h with
  | start => exact ⟨[], Intact.fresh hfiles hopened⟩
  | step s hrun hle hok ih => exact contained_step hc ih (day_mono hle) hok

/-- **A failed record does not break the chain**, as long as no failure leaves half a line, an
unflushed line or half a seal behind: no number is carried twice on disk, every record names the
digest of the one before it, and after a record that succeeds `verify` does. -/
theorem failed_records_contained (hc : c.Lawful) {start : World} (hfiles : start.files = ∅)
    (hopened : start.opened = none) {t : Int} (hrun : Run c (Contained c) start t w)
    (path : String) :
    (∃ rs, trail c w.files = some rs ∧ (rs.map fun r => r.body.seq).Nodup ∧
      ∀ i r r', rs[i]? = some r → rs[i + 1]? = some r' → r'.body.prev = r.digest) ∧
    ∀ s event policy, s.call = .record event policy → t ≤ s.moment.now.val → Contained c w s →
      (s.action c s.outcome w).isOk → ∃ v, verify c path (s.run c w).directory = .ok v := by
  obtain ⟨log, hintact⟩ := hrun.contained hc hfiles hopened
  refine ⟨⟨log.records, hintact.holds.trail_eq hc, hintact.chained.nodup_seq,
    fun i r r' hr hr' => hintact.chained.linked hr hr'⟩, fun s event policy hcall hle hok
      hdone => ?_⟩
  have hharmless : Harmless c s.sink s.moment s.outcome w := by
    simpa [Contained, hcall] using hok
  have hwp : WP (Audit.record c s.sink s.moment event policy) s.outcome _ _ _ w :=
    record_intact hc hintact (day_mono hle) hharmless
  unfold Step.run
  rw [Step.action, hcall] at hdone ⊢
  unfold WP at hwp
  cases hend : Audit.record c s.sink s.moment event policy s.outcome w with
  | ok a w' =>
    simp only [hend] at hwp
    obtain ⟨log', h', hext, -⟩ := hwp
    obtain ⟨d, hd⟩ := Option.isSome_iff_exists.mp (hext.isSome h')
    simp only [hend, afterwards, hd]
    exact h'.verifies hc hd path
  | error e w' => simp [hend, Ending.isOk] at hdone
  | crash w' => simp [hend, Ending.isOk] at hdone

/-! ### A record that could not be flushed -/

/-- On the day that is open, recording is writing the next line. -/
theorem record_current {sink : FileAuditSink} {m : Moment} {event : AuditEvent}
    {policy : Option (String → String)} {o : Open} (ho : w.opened = some o) (hday : o.day = m.day)
    {Q : Unit → World → Prop} {E : AuditError → World → Prop} {C : World → Prop}
    (h : WP (writeNext c sink m event policy (some o)) f Q E C w) :
    WP (record c sink m event policy) f Q E C w := by
  have hcurrent : current w.opened m.day = true := current_eq_true.mpr ⟨o, ho, hday⟩
  unfold record
  rw [wp_bind, wp_get, hcurrent]
  refine WP.bind (Q := fun _ w' => w' = w) (by simp [sealClosing, ho]) ?_
  rintro _ w₁ rfl
  refine WP.bind (Q := fun _ w' => w' = w₁) ?_ ?_
  · unfold openFor
    rw [wp_bind, wp_get, if_pos hcurrent]
    rfl
  rintro _ w₂ rfl
  refine WP.bind (Q := fun _ w' => w' = w₂) (by simp [expireRolled]) ?_
  rintro _ w₃ rfl
  rw [wp_bind, wp_get, ho]
  exact h

/-- A record at midnight of 2026-08-09 in which one operation fails. -/
def recordFailing (o : Op) : Step :=
  { recordAt sunday with
    outcome := fun o' => if o' = o then .failed 0 "Input/output error (os error 5)" else .done }

/-- On the day that is open, a record with the next number goes into the file, flushed or not;
when it is not, the memory does not know. -/
theorem record_appends {s : Step} {event : AuditEvent} {policy : Option (String → String)}
    {o : Open}
    {rs : List Record} (hcall : s.call = .record event policy) (ho : w.opened = some o)
    (hday : o.day = s.moment.day) (h : Holds c w.files [(o.day, rs)])
    (hf : ∀ o', o' ≠ .syncData → s.outcome o' = .done) (halive : ¬Cut s.outcome) :
    ∃ r, r.body.seq = o.seq + 1 ∧ Holds c (s.run c w).files [(o.day, rs ++ [r])] ∧
      (s.outcome .syncData = .done ∨ (s.run c w).opened = some o) := by
  have hfile : w.lookup (fileName o.day) = some (.file (textOf c rs)) := by
    rw [World.lookup_eq]
    exact h.content (o.day, rs) (by simp)
  have happended (r : Record) : Holds c (w.appended o.day _ r).files ([] ++ [(o.day, rs ++ [r])]) :=
    Holds.appended h (World.isSome_of_lookup hfile) r
  refine Step.run_of_wp (I := fun w' => ∃ r, r.body.seq = o.seq + 1 ∧
    Holds c w'.files [(o.day, rs ++ [r])] ∧ (s.outcome .syncData = .done ∨ w'.opened = some o)) ?_
  rw [Step.action_record hcall]
  refine record_current ho hday (WP.bind ((appendRecord_spec hfile).mono (fun _ _ h' => h') ?_
    (fun _ h' => absurd h'.1 halive)) ?_)
  · rintro _ _ (⟨n, reason, hfailed, -⟩ | ⟨-, ⟨n, reason, hfailed⟩ | ⟨-, rfl⟩⟩)
    · simp [hf .writeLine (by decide)] at hfailed
    · simp [hf .writeNewline (by decide)] at hfailed
    · exact ⟨_, rfl, happended _, Or.inr ho⟩
  · rintro _ _ ⟨hflushed, rfl⟩
    exact ⟨_, rfl, happended _, Or.inl hflushed⟩

/-- A record, one that cannot be flushed and one more: the last two carry the same number, and
the trail does not verify. -/
theorem unflushed_number_reused :
    ∃ rs, trail (serde firstSha) ((recordAt sunday).run (serde firstSha)
        ((recordFailing .syncData).run (serde firstSha)
          ((recordAt sunday).run (serde firstSha) emptyTrail))).files = some rs ∧
      ¬(rs.map fun r => r.body.seq).Nodup ∧
      ¬∃ v, verify (serde firstSha) "trail" ((recordAt sunday).run (serde firstSha)
        ((recordFailing .syncData).run (serde firstSha)
          ((recordAt sunday).run (serde firstSha) emptyTrail))).directory = .ok v := by
  have hc := serde_lawful firstSha
  obtain ⟨r₁, h₁, hcurrent⟩ := record_first (w := emptyTrail) hc rfl rfl sunday
  generalize (recordAt sunday).run (serde firstSha) emptyTrail = w₁ at h₁ hcurrent ⊢
  obtain ⟨o, ho, hday⟩ := current_eq_true.mp hcurrent
  have hdone : ∀ o', o' ≠ .syncData → (recordFailing .syncData).outcome o' = .done :=
    fun o' ho' => if_neg ho'
  have halive : ¬Cut (recordFailing .syncData).outcome := fun ⟨o', h⟩ => by
    simp only [recordFailing] at h
    split_ifs at h
  obtain ⟨r₂, hseq₂, h₂, hopened⟩ := record_appends (s := recordFailing .syncData) rfl ho hday
    (hday ▸ h₁.holds) hdone halive
  have ho₂ := hopened.resolve_left (by simp [recordFailing])
  generalize (recordFailing .syncData).run (serde firstSha) w₁ = w₂ at h₂ ho₂ ⊢
  obtain ⟨r₃, hseq₃, h₃, -⟩ := record_appends (s := recordAt sunday) rfl ho₂ hday h₂
    (fun _ _ => rfl) (not_cut fun _ => rfl)
  generalize (recordAt sunday).run (serde firstSha) w₂ = w₃ at h₃ ⊢
  have htwice : ¬(([r₁] ++ [r₂] ++ [r₃]).map fun r => r.body.seq).Nodup := by
    simp [hseq₂, hseq₃]
  refine ⟨_, h₃.trail_eq hc, by simpa using htwice, ?_⟩
  rintro ⟨v, hv⟩
  obtain ⟨d, seals, rs, hd, -, htrail, hatt, -⟩ := verify_ok_iff.mp hv
  have hfiles : w₃.files = d := by simp [World.files, hd]
  rw [← hfiles, h₃.trail_eq hc, Log.records_singleton, Option.some.injEq] at htrail
  exact htwice (htrail ▸ hatt.chained.nodup_seq)

/-- A record whose file could not be opened does no harm. -/
theorem failed_records_contained_once :
    (∃ rs, trail (serde firstSha)
        ((recordFailing .openDay).run (serde firstSha) emptyTrail).files = some rs ∧
      (rs.map fun r => r.body.seq).Nodup ∧
      ∀ i r r', rs[i]? = some r → rs[i + 1]? = some r' → r'.body.prev = r.digest) ∧
    ∀ s event policy, s.call = .record event policy → sunday.val ≤ s.moment.now.val →
      Contained (serde firstSha) ((recordFailing .openDay).run (serde firstSha) emptyTrail) s →
      (s.action (serde firstSha) s.outcome
        ((recordFailing .openDay).run (serde firstSha) emptyTrail)).isOk →
      ∃ v, verify (serde firstSha) "trail" (s.run (serde firstSha)
        ((recordFailing .openDay).run (serde firstSha) emptyTrail)).directory = .ok v :=
  failed_records_contained (serde_lawful firstSha) rfl rfl
    (.step (recordFailing .openDay) .start (by decide)
      { alive := fun ⟨o, h⟩ => by
          simp only [recordFailing] at h
          split_ifs at h
        kept := fun _ => nothingDue_of_empty rfl _ _
        sealWhole := fun h => absurd rfl h
        cold := fun _ => ⟨Or.inl rfl, by simp [recordFailing], by simp [recordFailing]⟩
        lineWhole := by simp [recordFailing]
        flushed := by simp [recordFailing] }) "trail"

end PicX.Audit
