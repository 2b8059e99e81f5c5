import PicX.Core.Values

/-!
# Shutting down (`pic-x-server/src/host.rs`)

What the default host does once the shutdown signal has resolved. Each piece of work it waits for
finishes, fails, or does not come back before the budget runs out. Stops and shutdowns are awaited
within the budget; audit records are awaited without it, so that one which does not come back
holds up everything after it.

* `Host.shutdown` — the trace of what was done, and how the run ended.
* `Released` — everything was tried once, in order, and the result names what did not finish.
* `shutdown_releases` — when that is so.
-/

namespace PicX.Server

open PicX.Core

/-! ## The host -/

/-- How a piece of work turns out. -/
inductive Work where
  | finished
  | failed (error : String)
  /-- It does not come back before the budget runs out. -/
  | exhausted
  deriving DecidableEq, Repr

/-- A service, with how its stop and the record of it turn out. -/
structure Service where
  name : String
  stop : Work
  record : Work
  deriving DecidableEq, Repr

/-- A realm, with how the shutdown of its sink turns out. -/
structure RealmTrail where
  name : String
  shutdown : Work
  deriving DecidableEq, Repr

/-- What the host puts away: the services in the order they started. -/
structure Host where
  services : List Service
  storageName : String
  storage : Work
  /-- The record of `server.stop`. -/
  record : Work
  realms : List RealmTrail
  auditName : String
  audit : Work
  shutdownTimeout : Nat
  deriving DecidableEq, Repr

/-- What the host does, seen from outside. -/
inductive Event where
  | setReady (ready : Bool)
  | stop (service : String)
  | recordAudit (action subject : String)
  | storageShutdown
  | realmShutdown (realm : String)
  | auditShutdown
  deriving DecidableEq, Repr

/-- What was done so far, and what did not finish. -/
structure Progress where
  trace : List Event
  unfinished : List String
  deriving DecidableEq, Repr

/-- How a run ends, if it does. -/
inductive Ended where
  | returns (trace : List Event) (result : Result Unit)
  /-- It waits for ever. -/
  | hangs (trace : List Event)
  deriving DecidableEq, Repr

def Progress.did (p : Progress) (event : Event) : Progress := { p with trace := p.trace ++ [event] }

def Progress.left (p : Progress) (name : String) : Progress :=
  { p with unfinished := p.unfinished ++ [name] }

/-- Work that is awaited within the budget, under the name it is reported by. -/
def Progress.within (p : Progress) (event : Event) (work : Work) (name : String) : Progress :=
  match work with
  | .finished => p.did event
  | .failed _ | .exhausted => (p.did event).left name

/-- One round of `stop_services`. A record that fails is warned about. -/
def stopService (p : Progress) (s : Service) : Except Ended Progress :=
  let stopped := p.within (.stop s.name) s.stop s.name
  match s.stop with
  | .failed _ | .exhausted => .ok stopped
  | .finished =>
    let recorded := stopped.did (.recordAudit "service.stop" s.name)
    match s.record with
    | .finished | .failed _ => .ok recorded
    | .exhausted => .error (.hangs recorded.trace)

/-- Stops every service in the reverse of the order they started. -/
def stopServices (services : List Service) (p : Progress) : Except Ended Progress :=
  services.reverse.foldlM stopService p

/-- The last record of the run, and the way out when it cannot be written. -/
def recordStop (work : Work) (p : Progress) : Except Ended Progress :=
  let recorded := p.did (.recordAudit "server.stop" "default")
  match work with
  | .finished => .ok recorded
  | .failed error =>
    .error (.returns recorded.trace (.error ["recording the server stop event", error]))
  | .exhausted => .error (.hangs recorded.trace)

def shutdownRealms (realms : List RealmTrail) (p : Progress) : Progress :=
  realms.foldl (fun p realm => p.within (.realmShutdown realm.name) realm.shutdown
    s!"realm {realm.name}") p

/-- A duration of whole seconds, as `Debug` shows it. -/
def debugSeconds (seconds : Nat) : String := if seconds = 0 then "0ns" else s!"{seconds}s"

def outOfBudget (timeout : Nat) (unfinished : List String) : String :=
  s!"the shutdown budget of {debugSeconds timeout} ran out with these still to release: " ++
    joinWith ", " unfinished

/-- `DefaultServerHost::run`, after the shutdown signal. -/
def Host.putAway (h : Host) : Except Ended Progress := do
  let p : Progress := { trace := [.setReady false], unfinished := [] }
  let p ← stopServices h.services p
  let p := p.within .storageShutdown h.storage h.storageName
  let p ← recordStop h.record p
  let p := shutdownRealms h.realms p
  pure (p.within .auditShutdown h.audit h.auditName)

def Host.shutdown (h : Host) : Ended :=
  match h.putAway with
  | .error ended => ended
  | .ok p =>
    if p.unfinished.isEmpty then .returns p.trace (.ok ())
    else .returns p.trace (bail (outOfBudget h.shutdownTimeout p.unfinished))

/-! ## Releasing everything -/

/-- The name of what did not finish. -/
def leftOver (name : String) : Work → List String
  | .finished => []
  | .failed _ | .exhausted => [name]

/-- The components that did not finish, in the order they were tried. -/
def Host.unfinished (h : Host) : List String :=
  h.services.reverse.flatMap (fun s => leftOver s.name s.stop) ++
    leftOver h.storageName h.storage ++
    h.realms.flatMap (fun realm => leftOver s!"realm {realm.name}" realm.shutdown) ++
    leftOver h.auditName h.audit

/-- Whether something is released by this. -/
def Event.isRelease : Event → Bool
  | .setReady _ | .recordAudit _ _ => false
  | .stop _ | .storageShutdown | .realmShutdown _ | .auditShutdown => true

/-- The sinks, which are released after the last record. -/
def Host.sinks (h : Host) : List Event :=
  h.realms.map (fun realm => .realmShutdown realm.name) ++ [.auditShutdown]

/-- Everything that is released, in order. -/
def Host.releases (h : Host) : List Event :=
  h.services.reverse.map (fun s => .stop s.name) ++ .storageShutdown :: h.sinks

/-- Every step finished, the records among them. -/
structure Host.AllFinished (h : Host) : Prop where
  stops : ∀ s ∈ h.services, s.stop = .finished
  stopRecords : ∀ s ∈ h.services, s.record = .finished
  storage : h.storage = .finished
  record : h.record = .finished
  realms : ∀ realm ∈ h.realms, realm.shutdown = .finished
  audit : h.audit = .finished

/-- The run comes to its end; readiness goes first; every service is stopped once in reverse
order, then storage, then after the last record every sink; and the result is an error that names
the components that did not finish, unless every step finished. -/
def Released (h : Host) : Prop :=
  ∃ trace result, h.shutdown = .returns trace result ∧
    trace.head? = some (.setReady false) ∧
    trace.filter Event.isRelease = h.releases ∧
    (∃ earlier, trace = earlier ++ .recordAudit "server.stop" "default" :: h.sinks) ∧
    (result = .ok () ↔ h.AllFinished) ∧
    (result ≠ .ok () → result = bail (outOfBudget h.shutdownTimeout h.unfinished))

/-! ## The services -/

variable {p : Progress} {s : Service} {h : Host}

/-- What stopping a service adds to the trace. -/
def Service.events (s : Service) : List Event :=
  .stop s.name :: match s.stop with
    | .finished => [.recordAudit "service.stop" s.name]
    | .failed _ | .exhausted => []

/-- The record of the stop, when there is one, comes back. -/
def Service.ComesBack (s : Service) : Prop := s.stop = .finished → s.record ≠ .exhausted

theorem within_eq (p : Progress) (event : Event) (work : Work) (name : String) :
    p.within event work name = ⟨p.trace ++ [event], p.unfinished ++ leftOver name work⟩ := by
  cases work <;> simp [Progress.within, Progress.did, Progress.left, leftOver]

theorem stopService_ok (hback : s.ComesBack) : stopService p s =
    .ok ⟨p.trace ++ s.events, p.unfinished ++ leftOver s.name s.stop⟩ := by
  unfold stopService Service.events
  rw [within_eq]
  cases hstop : s.stop with
  | failed error => simp
  | exhausted => simp
  | finished =>
    cases hrecord : s.record with
    | finished => simp [Progress.did]
    | failed error => simp [Progress.did]
    | exhausted => exact absurd hrecord (hback hstop)

theorem stopService_hangs (hback : ¬s.ComesBack) :
    ∃ trace, stopService p s = .error (.hangs trace) := by
  unfold Service.ComesBack at hback
  push Not at hback
  obtain ⟨hstop, hrecord⟩ := hback
  unfold stopService
  rw [hstop, hrecord]
  exact ⟨_, rfl⟩

theorem stopServices_ok {services : List Service} (hback : ∀ s ∈ services, s.ComesBack) :
    services.foldlM stopService p = .ok ⟨p.trace ++ services.flatMap Service.events,
      p.unfinished ++ services.flatMap fun s => leftOver s.name s.stop⟩ := by
  induction services generalizing p with
  | nil => simp [pure, Except.pure]
  | cons s rest ih =>
    rw [List.forall_mem_cons] at hback
    rw [List.foldlM_cons, stopService_ok hback.1]
    show rest.foldlM stopService _ = _
    rw [ih hback.2]
    simp [List.append_assoc]

theorem stopServices_hangs {services : List Service} (hback : ¬∀ s ∈ services, s.ComesBack) :
    ∃ trace, services.foldlM stopService p = .error (.hangs trace) := by
  induction services generalizing p with
  | nil => simp at hback
  | cons s rest ih =>
    rw [List.forall_mem_cons, not_and_or] at hback
    rw [List.foldlM_cons]
    by_cases hfirst : s.ComesBack
    · rw [stopService_ok hfirst]
      exact ih (hback.resolve_left (not_not_intro hfirst))
    · obtain ⟨trace, htrace⟩ := stopService_hangs (p := p) hfirst
      exact ⟨trace, by rw [htrace]; rfl⟩

theorem filter_events (services : List Service) :
    (services.flatMap Service.events).filter Event.isRelease =
      services.map fun s => .stop s.name := by
  induction services with
  | nil => rfl
  | cons s rest ih =>
    rw [List.flatMap_cons, List.filter_append, ih, List.map_cons]
    unfold Service.events
    cases s.stop <;> rfl

/-! ## The run -/

theorem shutdownRealms_eq (realms : List RealmTrail) (p : Progress) :
    shutdownRealms realms p =
      ⟨p.trace ++ realms.map (fun realm => .realmShutdown realm.name),
        p.unfinished ++ realms.flatMap fun realm =>
          leftOver s!"realm {realm.name}" realm.shutdown⟩ := by
  unfold shutdownRealms
  induction realms generalizing p with
  | nil => simp
  | cons realm rest ih =>
    rw [List.foldl_cons, ih, within_eq]
    simp [List.append_assoc]

/-- What is done before the last record. -/
def Host.opening (h : Host) : List Event :=
  .setReady false :: h.services.reverse.flatMap Service.events ++ [.storageShutdown]

theorem filter_opening : h.opening.filter Event.isRelease =
    h.services.reverse.map (fun s => .stop s.name) ++ [.storageShutdown] := by
  rw [Host.opening, List.filter_append, List.filter_cons_of_neg (by decide), filter_events]
  rfl

theorem filter_sinks : h.sinks.filter Event.isRelease = h.sinks := by
  rw [List.filter_eq_self]
  intro event hevent
  simp only [Host.sinks, List.mem_append, List.mem_map, List.mem_singleton] at hevent
  rcases hevent with ⟨realm, -, rfl⟩ | rfl <;> rfl

/-- Where the host stands before the last record. -/
theorem opening_eq (hback : ∀ s ∈ h.services, s.ComesBack) :
    ∃ unfinished, unfinished = h.services.reverse.flatMap (fun s => leftOver s.name s.stop) ++
        leftOver h.storageName h.storage ∧
      h.putAway = (recordStop h.record ⟨h.opening, unfinished⟩).map fun p =>
        (shutdownRealms h.realms p).within .auditShutdown h.audit h.auditName := by
  refine ⟨_, rfl, ?_⟩
  have hback' : ∀ s ∈ h.services.reverse, s.ComesBack :=
    fun s hs => hback s (List.mem_reverse.mp hs)
  unfold Host.putAway stopServices
  dsimp only
  rw [stopServices_ok hback']
  show (recordStop h.record (Progress.within _ _ _ _) >>= _) = _
  rw [within_eq]
  cases h.record <;> rfl

/-- A run that comes past the last record ends with everything released. -/
theorem putAway_ok (hrecord : h.record = .finished) (hback : ∀ s ∈ h.services, s.ComesBack) :
    h.putAway =
      .ok ⟨h.opening ++ .recordAudit "server.stop" "default" :: h.sinks, h.unfinished⟩ := by
  obtain ⟨unfinished, rfl, hput⟩ := opening_eq hback
  rw [hput, hrecord]
  show Except.ok (Progress.within (shutdownRealms h.realms _) _ _ _) = _
  rw [shutdownRealms_eq, within_eq]
  simp [Progress.did, Host.sinks, Host.unfinished, List.append_assoc]

theorem leftOver_eq_nil {name : String} {work : Work} :
    leftOver name work = [] ↔ work = .finished := by
  cases work <;> simp [leftOver]

/-- Nothing is left over of components that finished. -/
theorem unfinished_eq_nil : h.unfinished = [] ↔ (∀ s ∈ h.services, s.stop = .finished) ∧
    h.storage = .finished ∧ (∀ realm ∈ h.realms, realm.shutdown = .finished) ∧
      h.audit = .finished := by
  unfold Host.unfinished
  simp only [List.append_eq_nil_iff, List.flatMap_eq_nil_iff, leftOver_eq_nil, List.mem_reverse,
    and_assoc]

/-- What a run that comes past the last record returns. -/
theorem shutdown_eq (hrecord : h.record = .finished) (hback : ∀ s ∈ h.services, s.ComesBack) :
    h.shutdown = .returns (h.opening ++ .recordAudit "server.stop" "default" :: h.sinks)
      (if h.unfinished = [] then .ok ()
        else bail (outOfBudget h.shutdownTimeout h.unfinished)) := by
  rw [Host.shutdown, putAway_ok hrecord hback]
  by_cases hall : h.unfinished = []
  · simp [hall]
  · simp [hall]

/-- A run that releases everything comes past the last record. -/
theorem Released.comesBack (hreleased : Released h) :
    h.record = .finished ∧ ∀ s ∈ h.services, s.ComesBack := by
  obtain ⟨trace, result, hshutdown, -, hreleases, -, -, -⟩ := hreleased
  have hback : ∀ s ∈ h.services, s.ComesBack := by
    by_contra hback
    have hback' : ¬∀ s ∈ h.services.reverse, s.ComesBack := by simpa using hback
    obtain ⟨hung, hhung⟩ :=
      stopServices_hangs (p := ⟨[.setReady false], []⟩) hback'
    have hput : h.putAway = .error (.hangs hung) := by
      unfold Host.putAway stopServices
      dsimp only
      rw [hhung]
      rfl
    rw [Host.shutdown, hput] at hshutdown
    cases hshutdown
  refine ⟨?_, hback⟩
  obtain ⟨unfinished, -, hput⟩ := opening_eq hback
  cases hrecord : h.record with
  | finished => rfl
  | failed error =>
    -- the run returned before the sinks
    rw [hrecord] at hput
    rw [Host.shutdown, hput] at hshutdown
    cases hshutdown
    have hlength := congrArg List.length hreleases
    rw [Progress.did, List.filter_append, filter_opening] at hlength
    simp [Host.releases, Host.sinks, Event.isRelease] at hlength
  | exhausted =>
    rw [hrecord] at hput
    rw [Host.shutdown, hput] at hshutdown
    cases hshutdown

/-- **Shutdown releases everything it can.** For every list of services and realms and every
outcome of every stop, record and shutdown: the run releases everything in order and reports what
did not finish exactly when the record of `server.stop` is written, no record of a service that
stopped fails to come back, and these are all written unless some stop or shutdown did not finish
anyway. -/
theorem shutdown_releases (h : Host) : Released h ↔
    h.record = .finished ∧
      (∀ s ∈ h.services, s.stop = .finished → s.record ≠ .exhausted) ∧
      ((∀ s ∈ h.services, s.stop = .finished → s.record = .finished) ∨ h.unfinished ≠ []) := by
  constructor
  · intro hreleased
    obtain ⟨hrecord, hback⟩ := hreleased.comesBack
    refine ⟨hrecord, hback, ?_⟩
    obtain ⟨trace, result, hshutdown, -, -, -, hresult, -⟩ := hreleased
    rw [shutdown_eq hrecord hback] at hshutdown
    obtain ⟨-, rfl⟩ := Ended.returns.inj hshutdown
    by_cases hall : h.unfinished = []
    · rw [if_pos hall] at hresult
      exact Or.inl fun s hs _ => (hresult.mp rfl).stopRecords s hs
    · exact Or.inr hall
  · rintro ⟨hrecord, hback, hwritten⟩
    have hfilter : (h.opening ++ .recordAudit "server.stop" "default" :: h.sinks).filter
        Event.isRelease = h.releases := by
      rw [List.filter_append, filter_opening, List.filter_cons_of_neg (by simp [Event.isRelease]),
        filter_sinks]
      simp [Host.releases]
    refine ⟨_, _, shutdown_eq hrecord hback, rfl, hfilter, ⟨h.opening, rfl⟩, ?_, ?_⟩
    · by_cases hall : h.unfinished = []
      · rw [if_pos hall]
        obtain ⟨hstops, hstorage, hrealms, haudit⟩ := unfinished_eq_nil.mp hall
        have hrecords : ∀ s ∈ h.services, s.record = .finished := fun s hs =>
          hwritten.resolve_right (not_not_intro hall) s hs (hstops s hs)
        exact ⟨fun _ => ⟨hstops, hrecords, hstorage, hrecord, hrealms, haudit⟩, fun _ => rfl⟩
      · rw [if_neg hall]
        refine ⟨fun hok => by simp [bail] at hok, fun hdone => absurd ?_ hall⟩
        exact unfinished_eq_nil.mpr ⟨hdone.stops, hdone.storage, hdone.realms, hdone.audit⟩
    · intro hne
      split_ifs at hne ⊢ with hall
      · exact absurd rfl hne
      · rfl

/-! ### A trail that cannot be written -/

/-- One service, one realm and a store that all release, and these outcomes of the two records. -/
def oneOfEach (stopRecord record : Work) : Host where
  services := [⟨"admin", .finished, stopRecord⟩]
  storageName := "memory"
  storage := .finished
  record := record
  realms := [⟨"acme", .finished⟩]
  auditName := "file"
  audit := .finished
  shutdownTimeout := 30

/-- The disk is full when the last record is written: no sink is released, and the error does not
say so. It is full when the record before it is written: the run returns as if it had been. -/
theorem sinks_not_released :
    (¬Released (oneOfEach .finished (.failed "no space left on device")) ∧
      (oneOfEach .finished (.failed "no space left on device")).shutdown =
        .returns [.setReady false, .stop "admin", .recordAudit "service.stop" "admin",
            .storageShutdown, .recordAudit "server.stop" "default"]
          (.error ["recording the server stop event", "no space left on device"])) ∧
    ¬Released (oneOfEach (.failed "no space left on device") .finished) ∧
      ∃ trace, (oneOfEach (.failed "no space left on device") .finished).shutdown =
        .returns trace (.ok ()) := by
  have hrun : (oneOfEach .finished (.failed "no space left on device")).shutdown =
      .returns [.setReady false, .stop "admin", .recordAudit "service.stop" "admin",
          .storageShutdown, .recordAudit "server.stop" "default"]
        (.error ["recording the server stop event", "no space left on device"]) := by
    decide
  have hsilent : (oneOfEach (.failed "no space left on device") .finished).shutdown =
      .returns [.setReady false, .stop "admin", .recordAudit "service.stop" "admin",
        .storageShutdown, .recordAudit "server.stop" "default", .realmShutdown "acme",
        .auditShutdown] (.ok ()) := by
    decide
  refine ⟨⟨?_, hrun⟩, ?_, _, hsilent⟩
  · rintro ⟨trace, result, hshutdown, -, hreleases, -⟩
    rw [hrun] at hshutdown
    cases hshutdown
    exact absurd hreleases (by decide)
  · rintro ⟨trace, result, hshutdown, -, -, -, hresult, -⟩
    rw [hsilent] at hshutdown
    cases hshutdown
    have hrecord := (hresult.mp rfl).stopRecords _ (List.mem_singleton_self _)
    exact absurd hrecord (by decide)

end PicX.Server
