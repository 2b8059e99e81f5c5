import Mathlib.Data.List.Count
import PicX.Server.Host

/-!
# A whole run of the host (`pic-x-server/src/host.rs`)

The host records that it starts, notes itself in the store, starts its services one after another
and records each, and only then says that it is ready. It waits for the signal, and puts everything
away. What comes back with an error on the way up ends the run there and then.

* `ServerContext.run` — the run, from the first record to its end.
* `run_orderly` — at every point of every run: the host says that it is ready only while everything
  is up, and nothing is stopped, or recorded as stopped, that was not started.
* `startup_stops_there` — what does not finish on the way up is the last thing the host does.
-/

namespace PicX.Server

open PicX.Core

/-! ## The run -/

/-- The storage key under which a run records the host that produced it. -/
def LAST_START_KEY : String := "server/last-start"

/-- What the host does over a whole run, seen from outside. -/
inductive Act where
  | storagePut (key value : String)
  | start (service : String)
  /-- It waits for the shutdown signal. -/
  | wait
  | event (e : Event)
  deriving DecidableEq, Repr

/-- A registered service, with how its start and the record of it turn out. -/
structure Registered extends Service where
  start : Work
  startRecord : Work
  deriving DecidableEq, Repr

/-- What a run finds: how everything the host awaits turns out. -/
structure ServerContext where
  /-- The record of `server.start`. -/
  startRecord : Work
  /-- The note in the store. -/
  put : Work
  services : List Registered
  /-- Whether the shutdown signal ever comes. -/
  signalled : Bool
  storageName : String
  storage : Work
  record : Work
  realms : List RealmTrail
  auditName : String
  audit : Work
  shutdownTimeout : Nat
  deriving DecidableEq, Repr

/-- What there is to put away. -/
def ServerContext.host (s : ServerContext) : Host where
  services := s.services.map Registered.toService
  storageName := s.storageName
  storage := s.storage
  record := s.record
  realms := s.realms
  auditName := s.auditName
  audit := s.audit
  shutdownTimeout := s.shutdownTimeout

/-- How a run ends, if it does, with what was done. -/
inductive Ran where
  | returns (acts : List Act) (result : Result Unit)
  | hangs (acts : List Act)
  deriving DecidableEq, Repr

def Ran.acts : Ran → List Act
  | .returns acts _ | .hangs acts => acts

/-- One thing that is awaited on the way up, and what is said about its error. -/
structure Awaited where
  act : Act
  work : Work
  context : String

/-- An awaited thing that does not finish ends the run. -/
def await (acts : List Act) (a : Awaited) : Except Ran (List Act) :=
  match a.work with
  | .finished => .ok (acts ++ [a.act])
  | .failed error => .error (.returns (acts ++ [a.act]) (.error [a.context, error]))
  | .exhausted => .error (.hangs (acts ++ [a.act]))

/-- One round of `start_services`. -/
def startService (acts : List Act) (s : Registered) : Except Ran (List Act) := do
  let acts ← await acts ⟨.start s.name, s.start, s!"starting the {s.name} service"⟩
  await acts ⟨.event (.recordAudit "service.start" s.name), s.startRecord,
    s!"recording the start of the {s.name} service"⟩

/-- Starts every registered service in registration order. -/
def startServices (services : List Registered) (acts : List Act) : Except Ran (List Act) :=
  services.foldlM startService acts

/-- The way up, before the host is ready. -/
def ServerContext.comeUp (s : ServerContext) : Except Ran (List Act) := do
  let acts ← await [] ⟨.event (.recordAudit "server.start" "default"), s.startRecord,
    "recording the server start event"⟩
  let acts ← await acts ⟨.storagePut LAST_START_KEY "default", s.put,
    "recording the host that started the server"⟩
  startServices s.services acts

/-- `DefaultServerHost::run`. -/
def ServerContext.run (s : ServerContext) : Ran :=
  match s.comeUp with
  | .error ran => ran
  | .ok acts =>
    let acts := acts ++ [.event (.setReady true), .wait]
    if s.signalled then
      match s.host.shutdown with
      | .returns trace result => .returns (acts ++ trace.map .event) result
      | .hangs trace => .hangs (acts ++ trace.map .event)
    else .hangs acts

/-! ## The way up -/

/-- What is awaited for a service. -/
def Registered.steps (s : Registered) : List Awaited :=
  [⟨.start s.name, s.start, s!"starting the {s.name} service"⟩,
    ⟨.event (.recordAudit "service.start" s.name), s.startRecord,
      s!"recording the start of the {s.name} service"⟩]

/-- What is awaited on the way up, in order. -/
def ServerContext.steps (s : ServerContext) : List Awaited :=
  ⟨.event (.recordAudit "server.start" "default"), s.startRecord,
      "recording the server start event"⟩ ::
    ⟨.storagePut LAST_START_KEY "default", s.put, "recording the host that started the server"⟩ ::
    s.services.flatMap Registered.steps

variable {s : ServerContext} {acts : List Act} {steps : List Awaited}

theorem startServices_eq (services : List Registered) (acts : List Act) :
    startServices services acts = (services.flatMap Registered.steps).foldlM await acts := by
  unfold startServices
  induction services generalizing acts with
  | nil => rfl
  | cons r rest ih =>
    rw [List.foldlM_cons, List.flatMap_cons, List.foldlM_append]
    have hround : startService acts r = r.steps.foldlM await acts := by
      unfold startService Registered.steps
      simp
    rw [hround]
    exact bind_congr ih

theorem comeUp_eq (s : ServerContext) : s.comeUp = s.steps.foldlM await [] := by
  unfold ServerContext.comeUp ServerContext.steps
  rw [List.foldlM_cons]
  refine bind_congr fun acts => ?_
  rw [List.foldlM_cons]
  exact bind_congr fun acts => startServices_eq s.services acts

/-- Everything that is awaited finishes. -/
theorem foldlM_await_ok (h : ∀ a ∈ steps, a.work = .finished) :
    steps.foldlM await acts = .ok (acts ++ steps.map Awaited.act) := by
  induction steps generalizing acts with
  | nil => simp [pure, Except.pure]
  | cons a rest ih =>
    rw [List.forall_mem_cons] at h
    rw [List.foldlM_cons, await, h.1]
    show rest.foldlM await _ = _
    rw [ih h.2, List.map_cons, List.append_assoc]
    rfl

/-- The first that does not finish ends the loop. -/
theorem foldlM_await_stops {done rest : List Awaited} {a : Awaited} {ran : Ran}
    (hdone : ∀ b ∈ done, b.work = .finished)
    (ha : await (acts ++ done.map Awaited.act) a = .error ran) :
    (done ++ a :: rest).foldlM await acts = .error ran := by
  rw [List.foldlM_append, foldlM_await_ok hdone]
  show (a :: rest).foldlM await _ = _
  rw [List.foldlM_cons, ha]
  rfl

/-- A list of things awaited finishes as a whole, or there is a first that does not. -/
theorem finished_or_first (steps : List Awaited) : (∀ a ∈ steps, a.work = .finished) ∨
    ∃ done a rest, steps = done ++ a :: rest ∧ (∀ b ∈ done, b.work = .finished) ∧
      a.work ≠ .finished := by
  induction steps with
  | nil => exact .inl (by simp)
  | cons a rest ih =>
    by_cases ha : a.work = .finished
    · rcases ih with hall | ⟨done, b, rest', rfl, hdone, hb⟩
      · exact .inl (List.forall_mem_cons.mpr ⟨ha, hall⟩)
      · exact .inr ⟨a :: done, b, rest', rfl, List.forall_mem_cons.mpr ⟨ha, hdone⟩, hb⟩
    · exact .inr ⟨[], a, rest, rfl, by simp, ha⟩

/-- What does not finish on the way up ends the run. -/
theorem run_stops {done rest : List Awaited} {a : Awaited} {ran : Ran}
    (hsteps : s.steps = done ++ a :: rest) (hdone : ∀ b ∈ done, b.work = .finished)
    (ha : await (done.map Awaited.act) a = .error ran) : s.run = ran := by
  rw [ServerContext.run, comeUp_eq, hsteps, foldlM_await_stops hdone ha]

/-- Neither a release nor a word about readiness. -/
def Act.isQuiet : Act → Bool
  | .event (.recordAudit _ _) => true
  | .event _ => false
  | .storagePut _ _ | .start _ | .wait => true

theorem steps_quiet (s : ServerContext) : ∀ a ∈ s.steps, a.act.isQuiet = true := by
  intro a ha
  simp only [ServerContext.steps, Registered.steps, List.mem_cons, List.mem_flatMap,
    List.not_mem_nil, or_false] at ha
  obtain rfl | rfl | ⟨r, -, rfl | rfl⟩ := ha <;> rfl

/-! ## The way down -/

def Ended.trace : Ended → List Event
  | .returns trace _ | .hangs trace => trace

/-- All there is to do once the signal has come. -/
def Host.whole (h : Host) : List Event :=
  h.opening ++ .recordAudit "server.stop" "default" :: h.sinks

theorem stopService_error {p : Progress} {r : Service} {ended : Ended}
    (h : stopService p r = .error ended) : ended = .hangs (p.trace ++ r.events) := by
  unfold stopService Service.events at *
  rw [within_eq] at h
  cases hstop : r.stop with
  | failed error => simp [hstop] at h
  | exhausted => simp [hstop] at h
  | finished =>
    cases hrecord : r.record with
    | finished => simp [hstop, hrecord] at h
    | failed error => simp [hstop, hrecord] at h
    | exhausted =>
      simp only [hstop, hrecord, Except.error.injEq] at h
      rw [← h]
      simp [Progress.did]

/-- Stopping the services breaks off at a record that does not come back, with nothing out of
order. -/
theorem stopServices_error {services : List Service} {p : Progress} {ended : Ended}
    (h : services.foldlM stopService p = .error ended) :
    ended.trace <+: p.trace ++ services.flatMap Service.events := by
  induction services generalizing p with
  | nil => cases h
  | cons r rest ih =>
    rw [List.foldlM_cons] at h
    rw [List.flatMap_cons, ← List.append_assoc]
    by_cases hback : r.ComesBack
    · rw [stopService_ok hback] at h
      exact ih h
    · obtain ⟨trace, hround⟩ := stopService_hangs (p := p) hback
      rw [hround] at h
      cases h
      cases stopService_error hround
      exact List.prefix_append _ _

theorem shutdown_along (h : Host) : h.shutdown.trace <+: h.whole := by
  by_cases hback : ∀ r ∈ h.services, r.ComesBack
  · obtain ⟨unfinished, -, hput⟩ := opening_eq hback
    cases hrecord : h.record with
    | finished =>
      rw [Host.shutdown, putAway_ok hrecord hback]
      dsimp only
      split <;> exact List.prefix_refl _
    | failed error =>
      rw [Host.shutdown, hput, hrecord]
      exact (List.prefix_append_right_inj h.opening).mpr (List.prefix_append [_] _)
    | exhausted =>
      rw [Host.shutdown, hput, hrecord]
      exact (List.prefix_append_right_inj h.opening).mpr (List.prefix_append [_] _)
  · have hback' : ¬∀ r ∈ h.services.reverse, r.ComesBack := by simpa using hback
    obtain ⟨trace, hstop⟩ := stopServices_hangs (p := ⟨[.setReady false], []⟩) hback'
    have hput : h.putAway = .error (.hangs trace) := by
      unfold Host.putAway stopServices
      dsimp only
      rw [hstop]
      rfl
    rw [Host.shutdown, hput]
    have htrace := stopServices_error hstop
    exact htrace.trans (by simp [Host.whole, Host.opening])

/-! ## The run as a whole -/

/-- All that a run can do, in order. -/
def ServerContext.script (s : ServerContext) : List Act :=
  s.steps.map Awaited.act ++ .event (.setReady true) :: .wait :: s.host.whole.map .event

/-- A run may break off anywhere, and does nothing out of order. -/
theorem run_along (s : ServerContext) : s.run.acts <+: s.script := by
  rcases finished_or_first s.steps with hall | ⟨done, a, rest, hsteps, hdone, ha⟩
  · have hup : s.comeUp = .ok (s.steps.map Awaited.act) := by
      rw [comeUp_eq, foldlM_await_ok hall, List.nil_append]
    have hdown : ∀ ended, s.host.shutdown = ended →
        s.steps.map Awaited.act ++ [.event (.setReady true), .wait] ++ ended.trace.map .event
          <+: s.script := by
      rintro ended rfl
      rw [List.append_assoc]
      refine (List.prefix_append_right_inj _).mpr ?_
      rw [List.cons_append, List.cons_append, List.nil_append, List.cons_prefix_cons,
        List.cons_prefix_cons]
      exact ⟨rfl, rfl, (shutdown_along s.host).map _⟩
    rw [ServerContext.run, hup]
    dsimp only
    split
    · split
      · exact hdown _ ‹_›
      · exact hdown _ ‹_›
    · exact (List.prefix_append_right_inj _).mpr (List.prefix_append [_, _] _)
  · have hstop : s.run.acts = done.map Awaited.act ++ [a.act] := by
      cases hwork : a.work with
      | finished => exact absurd hwork ha
      | failed error => rw [run_stops hsteps hdone (by rw [await, hwork])]; rfl
      | exhausted => rw [run_stops hsteps hdone (by rw [await, hwork])]; rfl
    rw [hstop, ServerContext.script, hsteps, List.map_append, List.map_cons, List.append_assoc]
    exact (List.prefix_append_right_inj _).mpr (List.prefix_append [_] _)

/-! ## In order at every point -/

def Act.isStart : Act → Bool
  | .start _ => true
  | .storagePut _ _ | .wait | .event _ => false

def Act.isRelease : Act → Bool
  | .event e => e.isRelease
  | .storagePut _ _ | .start _ | .wait => false

/-- What is known of its readiness after something is done. -/
def Act.tells (ready : Bool) : Act → Bool
  | .event (.setReady now) => now
  | _ => ready

/-- What the host last said about its readiness. -/
def saysReady (acts : List Act) : Bool := acts.foldl Act.tells false

/-- A point of a run at which everything is in order. -/
structure Orderly (s : ServerContext) (acts : List Act) : Prop where
  /-- The services are started in the order they were registered in. -/
  starts : acts.filter Act.isStart <+: s.services.map fun r => .start r.name
  /-- The services are stopped in the reverse order, then the store is released, then the sinks. -/
  releases : acts.filter Act.isRelease <+: s.host.releases.map .event
  /-- A stop is recorded once it was made. -/
  recorded : ∀ name, acts.count (.event (.recordAudit "service.stop" name)) ≤
    acts.count (.event (.stop name))
  /-- While the host says that it is ready, it has come all the way up and nothing is released. -/
  ready : saysReady acts = true → s.steps.map Awaited.act <+: acts ∧ ∀ a ∈ acts, a.isRelease = false
  /-- Before anything is released it has come all the way up, and says that it is not ready. -/
  released : ∀ a ∈ acts, a.isRelease = true →
    s.steps.map Awaited.act <+: acts ∧ saysReady acts = false

/-- Splitting a prefix of a concatenation. -/
theorem prefix_append_cases {α : Type} {p l₁ l₂ : List α} (h : p <+: l₁ ++ l₂) :
    p <+: l₁ ∨ ∃ q, p = l₁ ++ q ∧ q <+: l₂ := by
  rcases List.prefix_or_prefix_of_prefix h (List.prefix_append l₁ l₂) with h' | ⟨q, rfl⟩
  · exact .inl h'
  · exact .inr ⟨q, rfl, (List.prefix_append_right_inj l₁).mp h⟩

/-- A run is on its way up, or up, or on its way down. -/
theorem prefix_script {pre : List Act} (h : pre <+: s.script) :
    pre <+: s.steps.map Awaited.act ∨
      (∃ q, q <+: [.event (.setReady true), .wait] ∧ pre = s.steps.map Awaited.act ++ q) ∨
      ∃ down, down <+: s.host.whole.tail ∧ pre = s.steps.map Awaited.act ++
        .event (.setReady true) :: .wait :: .event (.setReady false) :: down.map .event := by
  rcases prefix_append_cases h with hup | ⟨q, rfl, hq⟩
  · exact .inl hup
  have hsplit : Act.event (.setReady true) :: .wait :: s.host.whole.map .event =
      [.event (.setReady true), .wait] ++
        .event (.setReady false) :: s.host.whole.tail.map .event := rfl
  rw [hsplit] at hq
  rcases prefix_append_cases hq with hready | ⟨q', rfl, hq'⟩
  · exact .inr (.inl ⟨q, hready, rfl⟩)
  rcases List.prefix_cons_iff.mp hq' with rfl | ⟨q, rfl, htail⟩
  · exact .inr (.inl ⟨_, List.prefix_rfl, by rw [List.append_nil]⟩)
  obtain ⟨down, hdown, rfl⟩ := List.prefix_map_iff.mp htail
  exact .inr (.inr ⟨down, hdown, rfl⟩)

theorem foldl_tells {ready : Bool} (h : ∀ a ∈ acts, ∀ ready, a.tells ready = ready) :
    acts.foldl Act.tells ready = ready := by
  induction acts with
  | nil => rfl
  | cons a rest ih =>
    rw [List.forall_mem_cons] at h
    rw [List.foldl_cons, h.1, ih h.2]

theorem tells_of_quiet {a : Act} (h : a.isQuiet = true) (ready : Bool) : a.tells ready = ready := by
  cases a with
  | event e => cases e <;> first | rfl | cases h
  | _ => rfl

theorem release_of_quiet {a : Act} (h : a.isQuiet = true) : a.isRelease = false := by
  cases a with
  | event e => cases e <;> first | rfl | cases h
  | _ => rfl

theorem mem_events {r : Service} {e : Event} (h : e ∈ r.events) :
    e = .stop r.name ∨ e = .recordAudit "service.stop" r.name := by
  unfold Service.events at h
  cases hstop : r.stop <;> simp_all

/-- Nothing is said about readiness on the way down. -/
theorem tells_tail {h : Host} {e : Event} (he : e ∈ h.whole.tail) (ready : Bool) :
    (Act.event e).tells ready = ready := by
  have htail : h.whole.tail = h.services.reverse.flatMap Service.events ++
      .storageShutdown :: .recordAudit "server.stop" "default" :: h.sinks := by
    simp [Host.whole, Host.opening]
  rw [htail] at he
  simp only [List.mem_append, List.mem_flatMap, List.mem_cons, Host.sinks, List.mem_map,
    List.not_mem_nil, or_false] at he
  rcases he with ⟨r, -, hr⟩ | rfl | rfl | ⟨realm, -, rfl⟩ | rfl
  · rcases mem_events hr with rfl | rfl <;> rfl
  all_goals rfl

theorem count_events {r : Service} {p : List Event} (h : p <+: r.events) (name : String) :
    p.count (.recordAudit "service.stop" name) ≤ p.count (.stop name) := by
  unfold Service.events at h
  rcases List.prefix_cons_iff.mp h with rfl | ⟨q, rfl, hq⟩
  · exact Nat.le_refl 0
  have hq' : q = [] ∨ q = [.recordAudit "service.stop" r.name] := by
    cases hstop : r.stop with
    | finished =>
      rw [hstop] at hq
      rcases List.prefix_cons_iff.mp hq with rfl | ⟨q', rfl, hnil⟩
      · exact .inl rfl
      · exact .inr (by rw [List.prefix_nil.mp hnil])
    | failed error =>
      rw [hstop] at hq
      exact .inl (List.prefix_nil.mp hq)
    | exhausted =>
      rw [hstop] at hq
      exact .inl (List.prefix_nil.mp hq)
  rcases hq' with rfl | rfl <;> simp [List.count_cons]

/-- A record of a stop comes after the stop. -/
theorem count_recorded {services : List Service} {name : String} {p : List Event}
    (h : p <+: services.flatMap Service.events) :
    p.count (.recordAudit "service.stop" name) ≤ p.count (.stop name) := by
  induction services generalizing p with
  | nil => simp_all
  | cons r rest ih =>
    rw [List.flatMap_cons] at h
    rcases prefix_append_cases h with h | ⟨q, rfl, hq⟩
    · exact count_events h name
    · rw [List.count_append, List.count_append]
      exact Nat.add_le_add (count_events List.prefix_rfl name) (ih hq)

theorem filter_whole (h : Host) : h.whole.filter Event.isRelease = h.releases := by
  rw [Host.whole, List.filter_append, filter_opening,
    List.filter_cons_of_neg (by simp [Event.isRelease]), filter_sinks]
  simp [Host.releases]

theorem filter_up_starts (s : ServerContext) :
    (s.steps.map Awaited.act).filter Act.isStart = s.services.map fun r => .start r.name := by
  unfold ServerContext.steps
  rw [List.map_cons, List.map_cons, List.filter_cons_of_neg (by simp [Act.isStart]),
    List.filter_cons_of_neg (by simp [Act.isStart])]
  induction s.services with
  | nil => rfl
  | cons r rest ih =>
    rw [List.flatMap_cons, List.map_append, List.filter_append, ih, List.map_cons]
    rfl

theorem filter_script_starts (s : ServerContext) :
    s.script.filter Act.isStart = s.services.map fun r => .start r.name := by
  rw [ServerContext.script, List.filter_append, filter_up_starts,
    List.filter_cons_of_neg (by simp [Act.isStart]),
    List.filter_cons_of_neg (by simp [Act.isStart]), List.filter_map]
  rw [List.filter_eq_nil_iff.mpr (by simp [Act.isStart]), List.map_nil, List.append_nil]

theorem filter_script_releases (s : ServerContext) :
    s.script.filter Act.isRelease = s.host.releases.map .event := by
  have hup : (s.steps.map Awaited.act).filter Act.isRelease = [] := by
    rw [List.filter_eq_nil_iff]
    intro act hact
    obtain ⟨a, ha, rfl⟩ := List.mem_map.mp hact
    rw [release_of_quiet (steps_quiet s a ha)]
    exact Bool.false_ne_true
  rw [ServerContext.script, List.filter_append, hup,
    List.filter_cons_of_neg (by simp [Act.isRelease, Event.isRelease]),
    List.filter_cons_of_neg (by simp [Act.isRelease]), List.filter_map, ← filter_whole]
  rfl

theorem up_quiet (s : ServerContext) : ∀ a ∈ s.steps.map Awaited.act, a.isQuiet = true := by
  intro act hact
  obtain ⟨a, ha, rfl⟩ := List.mem_map.mp hact
  exact steps_quiet s a ha

/-- No stop is recorded on the way up. -/
theorem up_no_stop (s : ServerContext) (name : String) :
    .event (.recordAudit "service.stop" name) ∉ s.steps.map Awaited.act := by
  intro hmem
  obtain ⟨a, ha, heq⟩ := List.mem_map.mp hmem
  simp only [ServerContext.steps, Registered.steps, List.mem_cons, List.mem_flatMap,
    List.not_mem_nil, or_false] at ha
  obtain rfl | rfl | ⟨r, -, rfl | rfl⟩ := ha <;> simp at heq

/-- On the way down, a record of a stop comes after the stop. -/
theorem count_down {h : Host} {down : List Event} (hdown : down <+: h.whole.tail) (name : String) :
    down.count (.recordAudit "service.stop" name) ≤ down.count (.stop name) := by
  have htail : h.whole.tail = h.services.reverse.flatMap Service.events ++
      .storageShutdown :: .recordAudit "server.stop" "default" :: h.sinks := by
    simp [Host.whole, Host.opening]
  rw [htail] at hdown
  rcases prefix_append_cases hdown with hstops | ⟨q, rfl, hq⟩
  · exact count_recorded hstops
  · have hnone : q.count (.recordAudit "service.stop" name) = 0 := by
      refine List.count_eq_zero.mpr fun hmem => ?_
      have := hq.subset hmem
      simp [Host.sinks] at this
    rw [List.count_append, List.count_append, hnone]
    exact Nat.add_le_add (count_recorded List.prefix_rfl) (Nat.zero_le _)

theorem script_recorded {pre : List Act} (h : pre <+: s.script) (name : String) :
    pre.count (.event (.recordAudit "service.stop" name)) ≤ pre.count (.event (.stop name)) := by
  have hinj : Function.Injective Act.event := fun _ _ heq => Act.event.inj heq
  have hnone : ∀ acts : List Act,
      acts ⊆ s.steps.map Awaited.act ++ [.event (.setReady true), .wait] →
      acts.count (.event (.recordAudit "service.stop" name)) = 0 := by
    intro acts hsub
    refine List.count_eq_zero.mpr fun hmem => ?_
    rcases List.mem_append.mp (hsub hmem) with hup | hready
    · exact up_no_stop s name hup
    · simp at hready
  rcases prefix_script h with hup | ⟨q, hq, rfl⟩ | ⟨down, hdown, rfl⟩
  · rw [hnone pre fun a ha => List.mem_append_left _ (hup.subset ha)]
    exact Nat.zero_le _
  · rw [hnone _ (List.append_subset.mpr ⟨List.subset_append_left _ _,
      fun a ha => List.mem_append_right _ (hq.subset ha)⟩)]
    exact Nat.zero_le _
  · have hdown' := count_down hdown name
    rw [List.count_append, List.count_append, hnone _ (List.subset_append_left _ _)]
    simp only [List.count_cons, List.count_map_of_injective _ _ hinj]
    simpa using hdown'.trans (Nat.le_add_left _ _)

/-- **In order at every point.** Wherever a run of the host is looked at, whatever fails or never
comes back in it: the services start in their order, and everything is released in one order, once;
the host says that it is ready only while everything is up; and nothing is released before
everything was up, or while it says so. -/
theorem run_orderly (s : ServerContext) {acts : List Act} (hacts : acts <+: s.run.acts) :
    Orderly s acts := by
  have hscript : acts <+: s.script := hacts.trans (run_along s)
  have hstarts := hscript.filter Act.isStart
  have hreleases := hscript.filter Act.isRelease
  rw [filter_script_starts] at hstarts
  rw [filter_script_releases] at hreleases
  have hup := up_quiet s
  have hsays : (s.steps.map Awaited.act).foldl Act.tells false = false :=
    foldl_tells fun a ha => tells_of_quiet (hup a ha)
  rcases prefix_script hscript with hpre | ⟨q, hq, rfl⟩ | ⟨down, hdown, rfl⟩
  · -- on the way up: nothing is said, and nothing is released
    have hquiet : ∀ a ∈ acts, a.isQuiet = true := fun a ha => hup a (hpre.subset ha)
    refine ⟨hstarts, hreleases, script_recorded hscript, fun hready => ?_, fun a ha hrel => ?_⟩
    · rw [saysReady, foldl_tells fun a ha => tells_of_quiet (hquiet a ha)] at hready
      cases hready
    · rw [release_of_quiet (hquiet a ha)] at hrel
      cases hrel
  · have hkept : ∀ a ∈ s.steps.map Awaited.act ++ q, a.isRelease = false := by
      intro a ha
      rcases List.mem_append.mp ha with hmem | hmem
      · exact release_of_quiet (hup a hmem)
      · have hlast : a = .event (.setReady true) ∨ a = .wait := by simpa using hq.subset hmem
        rcases hlast with rfl | rfl <;> rfl
    exact ⟨hstarts, hreleases, script_recorded hscript, fun _ => ⟨List.prefix_append _ _, hkept⟩,
      fun a ha hrel => absurd hrel (by rw [hkept a ha]; exact Bool.false_ne_true)⟩
  · have hdone : saysReady (s.steps.map Awaited.act ++ .event (.setReady true) :: .wait ::
        .event (.setReady false) :: down.map .event) = false := by
      rw [saysReady, List.foldl_append, hsays, List.foldl_cons, List.foldl_cons, List.foldl_cons]
      refine foldl_tells fun a ha => ?_
      obtain ⟨e, he, rfl⟩ := List.mem_map.mp ha
      exact tells_tail (hdown.subset he)
    refine ⟨hstarts, hreleases, script_recorded hscript, fun hready => ?_,
      fun _ _ _ => ⟨List.prefix_append _ _, hdone⟩⟩
    rw [hdone] at hready
    cases hready

/-- **The way up stops there.** The first thing on the way up that does not finish is the last thing
the host does: it returns with an error that says what it was about, or it never returns. Nothing
that was started is stopped or released, and nothing was said about readiness. -/
theorem startup_stops_there {done rest : List Awaited} {a : Awaited}
    (hsteps : s.steps = done ++ a :: rest) (hdone : ∀ b ∈ done, b.work = .finished)
    (ha : a.work ≠ .finished) :
    s.run.acts = done.map Awaited.act ++ [a.act] ∧ (∀ act ∈ s.run.acts, act.isQuiet = true) ∧
      (∀ error, a.work = .failed error →
        s.run = .returns s.run.acts (.error [a.context, error])) ∧
      (a.work = .exhausted → s.run = .hangs s.run.acts) := by
  have hquiet : ∀ act ∈ done.map Awaited.act ++ [a.act], act.isQuiet = true := by
    have hsteps' := steps_quiet s
    rw [hsteps] at hsteps'
    simp only [List.mem_append, List.mem_map, List.mem_singleton]
    rintro act (⟨b, hb, rfl⟩ | rfl)
    · exact hsteps' b (by simp [hb])
    · exact hsteps' a (by simp)
  cases hwork : a.work with
  | finished => exact absurd hwork ha
  | failed error =>
    rw [run_stops hsteps hdone (by rw [await, hwork])]
    refine ⟨rfl, hquiet, fun error' heq => ?_, fun heq => by cases heq⟩
    cases heq
    rfl
  | exhausted =>
    rw [run_stops hsteps hdone (by rw [await, hwork])]
    refine ⟨rfl, hquiet, fun error heq => ?_, fun _ => rfl⟩
    cases heq

/-! ### A port that is taken -/

/-- Two services, the second of which finds its port taken. -/
def portTaken : ServerContext where
  startRecord := .finished
  put := .finished
  services := [
    { name := "admin", stop := .finished, record := .finished,
      start := .finished, startRecord := .finished },
    { name := "http", stop := .finished, record := .finished,
      start := .failed "address in use", startRecord := .finished }]
  signalled := true
  storageName := "memory"
  storage := .finished
  record := .finished
  realms := [⟨"acme", .finished⟩]
  auditName := "file"
  audit := .finished
  shutdownTimeout := 30

/-- The first service stays up, and no sink is released. -/
theorem startup_stops_there_taken :
    portTaken.run.acts = [.event (.recordAudit "server.start" "default"),
        .storagePut "server/last-start" "default", .start "admin",
        .event (.recordAudit "service.start" "admin"), .start "http"] ∧
      portTaken.run = .returns portTaken.run.acts
        (.error ["starting the http service", "address in use"]) := by
  have hsteps : portTaken.steps = portTaken.steps.take 4 ++
      ⟨.start "http", .failed "address in use", "starting the http service"⟩ ::
        portTaken.steps.drop 5 := rfl
  have hdone : ∀ b ∈ portTaken.steps.take 4, b.work = .finished := by
    simp [portTaken, ServerContext.steps, Registered.steps]
  have hstop := startup_stops_there hsteps hdone (by simp)
  exact ⟨hstop.1, hstop.2.2.1 _ rfl⟩

/-- The same services when the port is free: up to the signal they are all up, and after it
readiness is gone before the first of them is stopped. -/
def portFree : ServerContext :=
  { portTaken with services := portTaken.services.map fun r => { r with start := .finished } }

theorem run_orderly_free : portFree.run.acts.length = 17 ∧ Orderly portFree portFree.run.acts ∧
    saysReady portFree.run.acts = false ∧ Orderly portFree (portFree.run.acts.take 8) ∧
    saysReady (portFree.run.acts.take 8) = true :=
  ⟨by decide, run_orderly portFree List.prefix_rfl, by decide,
    run_orderly portFree (List.take_prefix 8 _), by decide⟩

end PicX.Server
