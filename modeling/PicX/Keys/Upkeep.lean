import PicX.Base.Parts
import PicX.Keys.Schedule
import PicX.Metrics.Counting

/-!
# The upkeep of the key rings (`pic-x-std/src/keys/service.rs`)

One loop of one process maintains every ring of a deployment: the server's own, and up to two of
each realm. It makes a pass over each of them at startup and on every tick of a timer, and sets a
gauge after each. While it does, requests sign with any of the rings, and the process may die at
any operation of anyone.

* `step` — what the process does, one pass, gauge or signature at a time.
* `rings_apart` — each ring sees its own manager and nothing else.
* `upkeep_orderly` — the passes go around the rings, a realm's ring never keeps the server from
  starting, and a server that has started can sign.
* `gauges_tell` — the gauge of a ring and whether it has a key that signs.

The timer, the channel that stops the task and the lines it logs are not modelled: a tick may come
at any moment at which the service waits, and so may its end.
-/

namespace PicX.Keys.Upkeep

open PicX Program

/-! ## Rings -/

/-- Whether an issuer currently has a key that will sign, labelled by realm and role. -/
def KEYS_ACTIVE : Metrics.Metric ℚ :=
  .gauge "picx_keys_active"
    "Whether an issuer has an active signing key (1) or not (0), by realm and role."

/-- One key ring, which issuer it belongs to, and what it is for. -/
structure Ring where
  realm : Option String
  role : String
  keys : DirectoryKeyManager
  deriving DecidableEq, Repr

/-- How a ring is named in an error. -/
def Ring.label (ring : Ring) : String :=
  match ring.realm with
  | some name => "the " ++ ring.role ++ " ring of the realm `" ++ name ++ "`"
  | none => "the " ++ ring.role ++ " ring of the server"

def Ring.labels (ring : Ring) : List Metrics.Label :=
  [("realm", ring.realm.getD "server"), ("role", ring.role)]

abbrev Ring.directory (ring : Ring) : String := ring.keys.directory

/-- A realm, with the rings it has. -/
structure Realm where
  name : String
  operationsKeys : Option DirectoryKeyManager
  tokenKeys : Option DirectoryKeyManager

/-- What the service is started with. -/
structure Context where
  keys : Option DirectoryKeyManager
  realms : List Realm

def Realm.rings (realm : Realm) : List Ring :=
  (realm.operationsKeys.map fun keys => ⟨some realm.name, "operations", keys⟩).toList ++
    (realm.tokenKeys.map fun keys => ⟨some realm.name, "tokens", keys⟩).toList

/-- Every ring in one list: the server's first, then each realm's. -/
def Context.rings (context : Context) : List Ring :=
  (context.keys.map fun keys => ⟨none, "operations", keys⟩).toList ++
    context.realms.flatMap Realm.rings

/-- A deployment: no two of its rings are kept in one directory. -/
structure Deployment where
  context : Context
  apart : (context.rings.map Ring.directory).Nodup

/-! ## The process -/

/-- Where the service is. The first round of passes is made at startup, each other one on a tick. -/
inductive Task where
  /-- There is no process. -/
  | down
  /-- The server did not start. -/
  | refused (error : String)
  /-- A pass over `ring` is next. -/
  | passing (startup : Bool) (ring : Ring) (rest : List Ring)
  /-- The pass over `ring` is over, and its gauge is next. -/
  | recording (startup : Bool) (ring : Ring) (rest : List Ring)
  | waiting
  | stopped
  deriving DecidableEq

structure Process where
  /-- What each manager acts on, by its directory. -/
  worlds : String → World
  metrics : Metrics.Registry
  task : Task
  /-- The last reading of the clock. -/
  clock : Nat
  /-- How many rounds have begun since the process has, and the rings whose turn is over. -/
  rounds : Nat
  turns : List Ring

/-- A process is there, and has not been refused. -/
def Task.up : Task → Bool
  | .down | .refused _ => false
  | _ => true

/-- The start of the service has returned. -/
def Task.started : Task → Bool
  | .passing startup _ _ | .recording startup _ _ => !startup
  | .waiting | .stopped => true
  | .down | .refused _ => false

/-- The rings whose turn in this round is not over. -/
def Task.left : Task → List Ring
  | .passing _ ring rest | .recording _ ring rest => ring :: rest
  | _ => []

/-- What comes next in a round. -/
def Task.next (startup : Bool) : List Ring → Task
  | [] => .waiting
  | ring :: rest => .passing startup ring rest

def Process.put (ring : Ring) (p : Process) (w : World) : Process :=
  { p with worlds := Function.update p.worlds ring.directory w }

/-- The process is gone, with everything it had in memory. -/
def Process.die (p : Process) : Process :=
  { p with
    worlds := fun directory => { p.worlds directory with signers := ∅ }
    metrics := .new
    task := .down
    rounds := 0
    turns := [] }

/-- A call on the manager of a ring. -/
def Ring.call {ε α : Type} (ring : Ring) (p : Program Op World ε α) : Program Op Process ε α :=
  part (fun p => p.worlds ring.directory) (Process.put ring) p

variable (c : String → Crates) (context : Context)

/-- Runs one pass over one ring. What it changed is for the log. -/
def pass (ring : Ring) (now : Nat) : Program Op Process String Maintenance :=
  mapError (fun e => "advancing the key lifecycle for " ++ ring.label ++ ": " ++ e.display)
    (ring.call (maintain (c ring.directory) ring.keys now))

/-- Publishes whether a ring currently has a key that will sign. -/
def recordActive {ε : Type} (ring : Ring) : Program Op Process ε Unit := do
  let active ← attempt (ring.call (activeKeyId ring.keys))
  modify fun p => { p with
    metrics := p.metrics.record KEYS_ACTIVE ring.labels (.finite (if active.isOk then 1 else 0)) }

/-- What may happen next. -/
inductive Event where
  /-- A process starts, and with it the service, whatever there was before. -/
  | boot
  /-- The pass that is next, at a reading of the clock. -/
  | pass (now : Nat) (f : Op → Outcome)
  /-- The gauge that is next. -/
  | recordActive (f : Op → Outcome)
  /-- The timer ticks. -/
  | tick
  /-- The task is asked to stop, and does. -/
  | stop
  /-- A request signs with one of the rings. -/
  | sign (ring : Ring) (payload : Bytes) (f : Op → Outcome)
  /-- The process records some other number about itself. -/
  | record (call : Metrics.Call)

/-- A process that has just started the service. Without a ring there is nothing to run. -/
def Process.boot (p : Process) : Process :=
  { p.die with
    task := if context.rings = [] then .stopped else .next true context.rings
    rounds := 1 }

/-- A pass at startup that fails is fatal when the ring is the server's. -/
def afterPass (startup : Bool) (ring : Ring) (rest : List Ring) :
    Ending Process String Maintenance → Process
  | .ok _ p => { p with task := .recording startup ring rest }
  | .error e p =>
    if startup = true ∧ ring.realm = none then
      { p with task := .refused ("the server key ring could not be prepared: " ++ e) }
    else { p with task := .recording startup ring rest }
  | .crash p => p.die

def afterGauge (startup : Bool) (ring : Ring) (rest : List Ring) :
    Ending Process Empty Unit → Process
  | .ok _ p => { p with task := .next startup rest, turns := p.turns ++ [ring] }
  | .error e _ => e.elim
  | .crash p => p.die

def afterSignature : Ending Process KeyError Signature → Process
  | .ok _ p | .error _ p => p
  | .crash p => p.die

/-- One event, when it can happen. -/
def step (p : Process) : Event → Option Process
  | .boot => some (p.boot context)
  | .pass now f =>
    match p.task with
    | .passing startup ring rest =>
      some (afterPass startup ring rest (pass c ring now f { p with clock := now }))
    | _ => none
  | .recordActive f =>
    match p.task with
    | .recording startup ring rest => some (afterGauge startup ring rest (recordActive ring f p))
    | _ => none
  | .tick =>
    if p.task = .waiting then
      some { p with task := .next false context.rings, rounds := p.rounds + 1 }
    else none
  | .stop => if p.task = .waiting then some { p with task := .stopped } else none
  | .sign ring payload f =>
    if p.task.up = true ∧ ring ∈ context.rings then
      some (afterSignature (ring.call (sign (c ring.directory) ring.keys payload) f p))
    else none
  | .record call =>
    if p.task.up = true ∧ call.metric.name ≠ KEYS_ACTIVE.name then
      some { p with metrics := call.record p.metrics }
    else none

/-- `N` events of a deployment, from empty directories, under a clock that never goes back. The
random source is one for all rings; `c` is what it is to each. -/
structure History (d : Deployment) (states : Nat → Process) (events : Nat → Event) (N : Nat) :
    Prop where
  down : (states 0).task = .down
  empty : ∀ ring ∈ d.context.rings, ((states 0).worlds ring.directory).entries = []
  steps : ∀ i < N, step c d.context (states i) (events i) = some (states (i + 1))
  forward : ∀ i < N, (states i).clock ≤ (states (i + 1)).clock
  bounded : ∀ i ≤ N, (states i).clock ≤ U64_MAX

/-! ## What one event does -/

section Steps

variable {c : String → Crates} {context : Context} {p p' : Process} {ring other : Ring}
  {rest : List Ring} {startup : Bool} {now : Nat} {f : Op → Outcome} {event : Event} {w : World}

@[simp] theorem put_self : (p.put ring w).worlds ring.directory = w := Function.update_self _ _ _

theorem put_of_ne (h : other.directory ≠ ring.directory) :
    (p.put ring w).worlds other.directory = p.worlds other.directory :=
  Function.update_of_ne h _ _

theorem put_same : p.put ring (p.worlds ring.directory) = p := by
  unfold Process.put
  rw [Function.update_eq_self]

/-- The end of a pass, by how it ended for the manager. -/
theorem afterPass_eq : afterPass startup ring rest (pass c ring now f p) =
    match maintain (c ring.directory) ring.keys now f (p.worlds ring.directory) with
    | .ok _ w => { p.put ring w with task := .recording startup ring rest }
    | .error e w =>
      if startup = true ∧ ring.realm = none then
        { p.put ring w with task := .refused ("the server key ring could not be prepared: " ++
          ("advancing the key lifecycle for " ++ ring.label ++ ": " ++ e.display)) }
      else { p.put ring w with task := .recording startup ring rest }
    | .crash w => (p.put ring w).die := by
  unfold pass mapError Ring.call part
  cases maintain (c ring.directory) ring.keys now f (p.worlds ring.directory) <;> rfl

/-- Whether the gauge of a ring is set to 1. -/
def tells (ring : Ring) (f : Op → Outcome) (w : World) : Bool := (activeKeyId ring.keys f w).isOk

theorem activeKeyId_tells : WP (activeKeyId ring.keys) f
    (fun _ w' => w' = w ∧ tells ring f w = true) (fun _ w' => w' = w ∧ tells ring f w = false)
    (fun w' => w' = w) w := by
  have hspec : WP (activeKeyId ring.keys) f _ _ _ w := activeKeyId_spec
  unfold tells
  unfold WP at hspec ⊢
  cases hend : activeKeyId ring.keys f w with
  | ok kid w' =>
    rw [hend] at hspec
    exact ⟨hspec.1, rfl⟩
  | error e w' =>
    rw [hend] at hspec
    exact ⟨hspec, rfl⟩
  | crash w' =>
    rw [hend] at hspec
    exact hspec.1

/-- The registry when the gauge of a ring has been set. -/
def gauged (ring : Ring) (f : Op → Outcome) (p : Process) : Metrics.Registry :=
  p.metrics.record KEYS_ACTIVE ring.labels
    (.finite (if tells ring f (p.worlds ring.directory) then 1 else 0))

/-- Setting a gauge reads the ring and changes nothing but the registry. -/
theorem recordActive_spec {ε : Type} : WP (recordActive ring : Program Op Process ε Unit) f
    (fun _ p' => p' = { p with metrics := gauged ring f p }) (fun _ _ => False) (fun p' => p' = p)
    p := by
  unfold recordActive Ring.call
  rw [wp_bind, wp_attempt, wp_part]
  refine activeKeyId_tells.mono ?_ ?_ ?_
  · rintro kid _ ⟨rfl, htells⟩
    rw [wp_modify, put_same]
    unfold gauged
    rw [htells]
    rfl
  · rintro e _ ⟨rfl, htells⟩
    rw [wp_modify, put_same]
    unfold gauged
    rw [htells]
    rfl
  · rintro _ rfl
    exact put_same

theorem afterGauge_cases (startup : Bool) (ring : Ring) (rest : List Ring) (f : Op → Outcome)
    (p : Process) : afterGauge startup ring rest (recordActive ring f p) = p.die ∨
    afterGauge startup ring rest (recordActive ring f p) =
      { p with
        metrics := gauged ring f p
        task := .next startup rest
        turns := p.turns ++ [ring] } := by
  have hspec : WP (recordActive ring : Program Op Process Empty Unit) f _ _ _ p := recordActive_spec
  unfold WP at hspec
  cases hend : (recordActive ring : Program Op Process Empty Unit) f p with
  | ok u p' =>
    rw [hend] at hspec
    exact Or.inr (by rw [show p' = _ from hspec]; rfl)
  | error e p' => exact e.elim
  | crash p' =>
    rw [hend] at hspec
    exact Or.inl (by rw [show p' = p from hspec]; rfl)

/-- The end of a signature, by how it ended for the manager. -/
theorem afterSignature_eq {payload : Bytes} :
    afterSignature (ring.call (sign (c ring.directory) ring.keys payload) f p) =
      match sign (c ring.directory) ring.keys payload f (p.worlds ring.directory) with
      | .ok _ w | .error _ w => p.put ring w
      | .crash w => (p.put ring w).die := by
  unfold Ring.call part
  cases sign (c ring.directory) ring.keys payload f (p.worlds ring.directory) <;> rfl

/-- What an event can do. -/
inductive Does (c : String → Crates) (context : Context) (p : Process) : Event → Process → Prop
  | boot : Does c context p .boot (p.boot context)
  | pass {now : Nat} {f : Op → Outcome} {startup : Bool} {ring : Ring} {rest : List Ring}
      (htask : p.task = .passing startup ring rest) : Does c context p (.pass now f)
        (afterPass startup ring rest (pass c ring now f { p with clock := now }))
  | died {f : Op → Outcome} {startup : Bool} {ring : Ring} {rest : List Ring}
      (htask : p.task = .recording startup ring rest) : Does c context p (.recordActive f) p.die
  | recorded {f : Op → Outcome} {startup : Bool} {ring : Ring} {rest : List Ring}
      (htask : p.task = .recording startup ring rest) : Does c context p (.recordActive f)
        { p with
          metrics := gauged ring f p
          task := .next startup rest
          turns := p.turns ++ [ring] }
  | tick (htask : p.task = .waiting) : Does c context p .tick
      { p with task := .next false context.rings, rounds := p.rounds + 1 }
  | stop (htask : p.task = .waiting) : Does c context p .stop { p with task := .stopped }
  | sign {ring : Ring} {payload : Bytes} {f : Op → Outcome} (hup : p.task.up = true)
      (hring : ring ∈ context.rings) : Does c context p (.sign ring payload f)
        (afterSignature (ring.call (sign (c ring.directory) ring.keys payload) f p))
  | record {call : Metrics.Call} (hup : p.task.up = true)
      (hname : call.metric.name ≠ KEYS_ACTIVE.name) :
      Does c context p (.record call) { p with metrics := call.record p.metrics }

theorem step_does (h : step c context p event = some p') : Does c context p event p' := by
  cases event with
  | boot =>
    obtain rfl := Option.some.inj h
    exact .boot
  | pass now f =>
    simp only [step] at h
    split at h
    · next htask =>
      obtain rfl := Option.some.inj h
      exact .pass htask
    · cases h
  | recordActive f =>
    simp only [step] at h
    split at h
    · next startup ring rest htask =>
      obtain rfl := Option.some.inj h
      rcases afterGauge_cases startup ring rest f p with hdied | hset
      · exact hdied ▸ .died htask
      · exact hset ▸ .recorded htask
    · cases h
  | tick =>
    simp only [step] at h
    split_ifs at h with htask
    obtain rfl := Option.some.inj h
    exact .tick htask
  | stop =>
    simp only [step] at h
    split_ifs at h with htask
    obtain rfl := Option.some.inj h
    exact .stop htask
  | sign ring payload f =>
    simp only [step] at h
    split_ifs at h with hok
    obtain rfl := Option.some.inj h
    exact .sign hok.1 hok.2
  | record call =>
    simp only [step] at h
    split_ifs at h with hok
    obtain rfl := Option.some.inj h
    exact .record hok.1 hok.2

/-! ## What a ring sees -/

/-- The last reading of the clock, and the world of the ring's own manager. -/
def Process.view (ring : Ring) (p : Process) : Nat × World := (p.clock, p.worlds ring.directory)

/-- Time may have gone by, and that is all. -/
def Later (q q' : Nat × World) : Prop := q'.2 = q.2 ∧ q.1 ≤ q'.1

/-- Whether an event is a call on the manager of a ring: a pass over it, a signature of it, or the
end of the process. -/
def called (ring : Ring) (p : Process) (event : Event) (p' : Process) : Bool :=
  p'.task = .down || match event with
    | .boot => true
    | .pass _ _ => match p.task with
      | .passing _ other _ => other = ring
      | _ => false
    | .sign other _ _ => other = ring
    | _ => false

variable {ch : Crates} {m : DirectoryKeyManager} {t t' : Nat}

theorem advances_pass (hle : t ≤ t') (hmax : t' ≤ U64_MAX) :
    Advances ch m (t, w) (t', afterwards (maintain ch m t' f w)) :=
  ⟨⟨m, t', .maintain, f⟩, rfl, hle, hmax, rfl⟩

theorem advances_sign {payload : Bytes} (hle : t ≤ t') (hmax : t' ≤ U64_MAX) :
    Advances ch m (t, w) (t', afterwards (sign ch m payload f w)) :=
  ⟨⟨m, t', .sign payload, f⟩, rfl, hle, hmax, rfl⟩

theorem advances_restart (hle : t ≤ t') (hmax : t' ≤ U64_MAX) :
    Advances ch m (t, w) (t', { w with signers := ∅ }) :=
  ⟨⟨m, t', .restart, fun _ => .done⟩, rfl, hle, hmax, rfl⟩

/-- What an event is to a ring: a step of its manager when it is called, and nothing otherwise. -/
def Sees (ch : Crates) (ring : Ring) (p : Process) (event : Event) (p' : Process) : Prop :=
  (called ring p event p' = true → Advances ch ring.keys (p.view ring) (p'.view ring)) ∧
    (called ring p event p' = false → Later (p.view ring) (p'.view ring))

/-- What a call on the manager of `ring` leaves: `w` in its own world, unless the process is gone
and nobody has anything in memory. -/
inductive Settles (ring : Ring) (p : Process) (w : World) (p' : Process) : Prop
  | on (hup : p'.task ≠ .down) (hworlds : p'.worlds = (p.put ring w).worlds)
  | died (hdown : p'.task = .down)
      (hworlds : ∀ directory,
        p'.worlds directory = { (p.put ring w).worlds directory with signers := ∅ })
      (hforgot : { w with signers := ∅ } = w)

theorem settles_crash : Settles ring p { w with signers := ∅ } (p.put ring w).die := by
  refine .died rfl (fun directory => ?_) rfl
  show { (p.put ring w).worlds directory with signers := ∅ } = _
  unfold Process.put
  dsimp only
  by_cases hsame : directory = ring.directory
  · subst hsame
    rw [Function.update_self, Function.update_self]
  · rw [Function.update_of_ne hsame, Function.update_of_ne hsame]

theorem settles_pass : Settles ring p
    (afterwards (maintain (c ring.directory) ring.keys now f (p.worlds ring.directory)))
    (afterPass startup ring rest (pass c ring now f p)) := by
  rw [afterPass_eq]
  cases maintain (c ring.directory) ring.keys now f (p.worlds ring.directory) with
  | ok report w => exact .on Task.noConfusion rfl
  | error e w =>
    dsimp only
    split_ifs
    · exact .on Task.noConfusion rfl
    · exact .on Task.noConfusion rfl
  | crash w => exact settles_crash

theorem settles_signature {payload : Bytes} (hup : p.task ≠ .down) : Settles ring p
    (afterwards (sign (c ring.directory) ring.keys payload f (p.worlds ring.directory)))
    (afterSignature (ring.call (sign (c ring.directory) ring.keys payload) f p)) := by
  rw [afterSignature_eq]
  cases sign (c ring.directory) ring.keys payload f (p.worlds ring.directory) with
  | ok signature w => exact .on hup rfl
  | error e w => exact .on hup rfl
  | crash w => exact settles_crash

/-- The same, for the pass of an event: it first takes a reading of the clock. -/
theorem settles_passed : Settles ring p
    (afterwards (maintain (c ring.directory) ring.keys now f (p.worlds ring.directory)))
    (afterPass startup ring rest (pass c ring now f { p with clock := now })) := by
  cases (settles_pass : Settles ring { p with clock := now } _
      (afterPass startup ring rest (pass c ring now f { p with clock := now }))) with
  | on hup hworlds => exact .on hup hworlds
  | died hdown hworlds hforgot => exact .died hdown hworlds hforgot

theorem clock_passed :
    (afterPass startup ring rest (pass c ring now f { p with clock := now })).clock = now := by
  rw [afterPass_eq]
  cases maintain (c ring.directory) ring.keys now f (p.worlds ring.directory) with
  | ok report w => rfl
  | error e w =>
    dsimp only
    split_ifs <;> rfl
  | crash w => rfl

theorem clock_signed {payload : Bytes} :
    (afterSignature (ring.call (sign (c ring.directory) ring.keys payload) f p)).clock =
      p.clock := by
  rw [afterSignature_eq]
  cases sign (c ring.directory) ring.keys payload f (p.worlds ring.directory) <;> rfl

/-- **A call on one manager, seen by each ring.** It is a step of its own ring, and of the others
only when the process dies of it. -/
theorem Settles.sees (h : Settles other p w p')
    (hadvances : Advances (c other.directory) other.keys (p.view other) (p'.clock, w))
    (hapart : other.directory = ring.directory → other = ring)
    (hcalled : called ring p event p' = (decide (p'.task = .down) || decide (other = ring)))
    (hle : p.clock ≤ p'.clock) (hmax : p'.clock ≤ U64_MAX) :
    Sees (c ring.directory) ring p event p' := by
  unfold Sees
  rw [hcalled]
  by_cases hsame : other = ring
  · subst hsame
    refine ⟨fun _ => ?_, fun hnot => by simp at hnot⟩
    suffices hview : p'.worlds other.directory = w by
      unfold Process.view
      rw [hview]
      exact hadvances
    cases h with
    | on _ hworlds => rw [hworlds, put_self]
    | died _ hworlds hforgot => rw [hworlds, put_self, hforgot]
  · have hne : ring.directory ≠ other.directory := fun hdirectory => hsame (hapart hdirectory.symm)
    cases h with
    | on hup hworlds =>
      refine ⟨fun hyes => by simp [hup, hsame] at hyes, fun _ => ⟨?_, hle⟩⟩
      show p'.worlds ring.directory = _
      rw [hworlds, put_of_ne hne]
      rfl
    | died hdown hworlds _ =>
      refine ⟨fun _ => ?_, fun hnot => by simp [hdown] at hnot⟩
      unfold Process.view
      rw [hworlds, put_of_ne hne]
      exact advances_restart hle hmax

/-- The process is gone, or has begun anew: every ring has been closed. -/
theorem sees_closed (hcalled : called ring p event p' = true) (hclock : p'.clock = p.clock)
    (hworlds : p'.worlds = p.die.worlds) (hmax : p.clock ≤ U64_MAX) : Sees ch ring p event p' := by
  refine ⟨fun _ => ?_, fun hnot => absurd (hcalled.symm.trans hnot) Bool.noConfusion⟩
  unfold Process.view
  rw [hworlds, hclock]
  exact advances_restart le_rfl hmax

/-- An event that leaves every manager alone. -/
theorem sees_nothing (hcalled : called ring p event p' = false) (hclock : p'.clock = p.clock)
    (hworlds : p'.worlds = p.worlds) : Sees ch ring p event p' := by
  refine ⟨fun hyes => absurd (hcalled.symm.trans hyes) Bool.noConfusion, fun _ => ⟨?_, hclock.ge⟩⟩
  show p'.worlds _ = p.worlds _
  rw [hworlds]

theorem Task.up_ne_down {task : Task} (h : task.up = true) : task ≠ .down := by
  rintro rfl
  cases h

/-- **What an event is to a ring.** -/
theorem Does.sees (h : Does c context p event p') (hring : ring ∈ context.rings)
    (hapart : (context.rings.map Ring.directory).Nodup)
    (hleft : ∀ r ∈ p.task.left, r ∈ context.rings)
    (hle : p.clock ≤ p'.clock) (hmax : p'.clock ≤ U64_MAX) :
    Sees (c ring.directory) ring p event p' := by
  have hsame : ∀ other ∈ context.rings, other.directory = ring.directory → other = ring :=
    fun other hother => List.inj_on_of_nodup_map hapart hother hring
  cases h with
  | boot => exact sees_closed (by simp [called]) rfl rfl hmax
  | @pass now f startup other rest htask =>
    have hother : other ∈ context.rings := hleft other (by simp [htask, Task.left])
    have hclock : (afterPass startup other rest
        (Upkeep.pass c other now f { p with clock := now })).clock = now := clock_passed
    refine settles_passed.sees ?_ (hsame other hother) (by simp [called, htask]) hle hmax
    rw [hclock] at hle hmax ⊢
    exact advances_pass hle hmax
  | died htask => exact sees_closed (by simp [called, Process.die]) rfl rfl hmax
  | @recorded f startup other rest htask =>
    refine sees_nothing ?_ rfl rfl
    cases rest <;> simp [called, Task.next]
  | tick htask =>
    refine sees_nothing ?_ rfl rfl
    cases context.rings <;> simp [called, Task.next]
  | stop htask => exact sees_nothing (by simp [called]) rfl rfl
  | @sign other payload f hup hother =>
    have hclock : (afterSignature (other.call (Keys.sign (c other.directory) other.keys payload) f
        p)).clock = p.clock := clock_signed
    refine (settles_signature (Task.up_ne_down hup)).sees ?_ (hsame other hother) (by simp [called])
      hle hmax
    rw [hclock] at hle hmax ⊢
    exact advances_sign hle hmax
  | record hup hname => exact sees_nothing (by simp [called, Task.up_ne_down hup]) rfl rfl

theorem Sees.sound (h : Sees ch ring p event p') (hdistinct : Distinct ch)
    (hsound : Sound ch ((p.worlds ring.directory).drawn, (p.worlds ring.directory).entries)) :
    Sound ch ((p'.worlds ring.directory).drawn, (p'.worlds ring.directory).entries) := by
  cases hcalled : called ring p event p' with
  | true =>
    obtain ⟨s, -, -, -, hs⟩ := h.1 hcalled
    exact Takes.sound hdistinct ⟨s, congrArg Prod.snd hs⟩ hsound
  | false =>
    have hsame : p'.worlds ring.directory = p.worlds ring.directory := (h.2 hcalled).1
    rw [hsame]
    exact hsound

/-- A ring with keys is never without again. -/
theorem Sees.nonempty (h : Sees ch ring p event p') (hdistinct : Distinct ch)
    (hsound : Sound ch ((p.worlds ring.directory).drawn, (p.worlds ring.directory).entries))
    (hne : (p.worlds ring.directory).entries ≠ []) : (p'.worlds ring.directory).entries ≠ [] := by
  cases hcalled : called ring p event p' with
  | true =>
    obtain ⟨s, -, -, -, hs⟩ := h.1 hcalled
    have hworld : p'.worlds ring.directory = s.run ch (p.worlds ring.directory) :=
      congrArg Prod.snd hs
    rw [hworld]
    exact Step.run_keeps (I := fun keys => keys ≠ []) hdistinct hsound
      (fun _ _ _ hsound hedit hne => hedit.nonempty hsound hne) hne
  | false =>
    have hsame : p'.worlds ring.directory = p.worlds ring.directory := (h.2 hcalled).1
    rwa [hsame]

/-! ## The order of the passes -/

/-- The server's own ring. -/
def ownRing (m : DirectoryKeyManager) : Ring := ⟨none, "operations", m⟩

theorem rings_eq_cons (h : context.keys = some m) : ∃ rest, context.rings = ownRing m :: rest := by
  unfold Context.rings
  rw [h]
  exact ⟨_, rfl⟩

/-- The rings of a context. -/
theorem mem_rings_iff : ring ∈ context.rings ↔ (∃ m, context.keys = some m ∧ ownRing m = ring) ∨
    ∃ realm ∈ context.realms,
      (∃ m, realm.operationsKeys = some m ∧ ⟨some realm.name, "operations", m⟩ = ring) ∨
        ∃ m, realm.tokenKeys = some m ∧ ⟨some realm.name, "tokens", m⟩ = ring := by
  simp only [Context.rings, Realm.rings, List.mem_append, List.mem_flatMap, Option.mem_toList,
    Option.map_eq_some_iff, ownRing]

/-- Only the server's ring has no realm. -/
theorem eq_ownRing (hring : ring ∈ context.rings) (hnone : ring.realm = none) :
    ∃ m, context.keys = some m ∧ ring = ownRing m := by
  rcases mem_rings_iff.mp hring with ⟨m, hm, rfl⟩ | ⟨realm, -, ⟨m, -, rfl⟩ | ⟨m, -, rfl⟩⟩
  · exact ⟨m, hm, rfl⟩
  · cases hnone
  · cases hnone

theorem mem_of_rounds {n : Nat} (h : ring ∈ (List.replicate n context.rings).flatten) :
    ring ∈ context.rings := by
  obtain ⟨round, hround, hin⟩ := List.mem_flatten.mp h
  rwa [List.eq_of_mem_replicate hround] at hin

/-- How far the service has come. -/
structure InTurn (context : Context) (p : Process) : Prop where
  /-- The turns go around the rings. -/
  turns : p.task.up = true →
    p.turns ++ p.task.left = (List.replicate p.rounds context.rings).flatten
  /-- Only the server's own ring keeps it from starting. -/
  refused : ∀ error, p.task = .refused error → ∃ m cause, context.keys = some m ∧
    error = "the server key ring could not be prepared: " ++
      ("advancing the key lifecycle for the operations ring of the server: " ++ cause)

/-- After the first pass of all, the server's ring has a key. -/
def Prepared (context : Context) (p : Process) : Prop :=
  p.task.up = true → (∀ ring rest, p.task = .passing true ring rest → p.turns ≠ []) →
    ∀ m, context.keys = some m → (p.worlds m.directory).entries ≠ []

theorem InTurn.left_mem (h : InTurn context p) : ∀ ring ∈ p.task.left, ring ∈ context.rings := by
  intro ring hring
  have hup : p.task.up = true := by
    cases htask : p.task <;> simp_all [Task.left, Task.up]
  exact mem_of_rounds (h.turns hup ▸ List.mem_append_right _ hring)

theorem InTurn.turns_mem (h : InTurn context p) (hup : p.task.up = true) (hring : ring ∈ p.turns) :
    ring ∈ context.rings :=
  mem_of_rounds (h.turns hup ▸ List.mem_append_left _ hring)

theorem inTurn_down (h : p.task = .down) : InTurn context p := by
  refine ⟨fun hup => ?_, fun error herror => ?_⟩
  · rw [h] at hup
    cases hup
  · rw [h] at herror
    cases herror

theorem Task.left_next (startup : Bool) (rings : List Ring) :
    (Task.next startup rings).left = rings := by
  cases rings <;> rfl

/-- A pass leaves the turns as they are. -/
theorem turns_passed (hup : (afterPass startup ring rest (pass c ring now f p)).task.up = true) :
    (afterPass startup ring rest (pass c ring now f p)).task = .recording startup ring rest ∧
      (afterPass startup ring rest (pass c ring now f p)).turns = p.turns ∧
      (afterPass startup ring rest (pass c ring now f p)).rounds = p.rounds := by
  rw [afterPass_eq] at hup ⊢
  cases hend : maintain (c ring.directory) ring.keys now f (p.worlds ring.directory) with
  | ok report w => exact ⟨rfl, rfl, rfl⟩
  | error e w =>
    rw [hend] at hup
    dsimp only at hup ⊢
    split_ifs at hup ⊢ with hfatal
    · cases hup
    · exact ⟨rfl, rfl, rfl⟩
  | crash w =>
    rw [hend] at hup
    cases hup

/-- The server's first pass leaves a key, or no server. -/
theorem prepared_passed (hdistinct : Distinct (c m.directory))
    (hsound : Sound (c m.directory) ((p.worlds m.directory).drawn, (p.worlds m.directory).entries))
    (hup : (afterPass true (ownRing m) rest (pass c (ownRing m) now f p)).task.up = true) :
    ((afterPass true (ownRing m) rest (pass c (ownRing m) now f p)).worlds m.directory).entries ≠
      [] := by
  have hspec : WP (maintain (c m.directory) m now) f _ _ _ (p.worlds m.directory) :=
    maintain_sound hdistinct hsound
  rw [afterPass_eq] at hup ⊢
  cases hend : maintain (c (ownRing m).directory) (ownRing m).keys now f
      (p.worlds (ownRing m).directory) with
  | ok report w =>
    show ((p.put (ownRing m) w).worlds (ownRing m).directory).entries ≠ []
    rw [put_self]
    exact (hspec.ok hend).2
  | error e w =>
    rw [hend] at hup
    cases hup
  | crash w =>
    rw [hend] at hup
    cases hup

/-- A pass that keeps the server from starting is over the server's ring. -/
theorem refused_passed (hring : ring ∈ context.rings) {error : String}
    (h : (afterPass startup ring rest (pass c ring now f p)).task = .refused error) :
    ∃ m cause, context.keys = some m ∧
      error = "the server key ring could not be prepared: " ++
        ("advancing the key lifecycle for the operations ring of the server: " ++ cause) := by
  rw [afterPass_eq] at h
  cases hend : maintain (c ring.directory) ring.keys now f (p.worlds ring.directory) with
  | ok report w =>
    rw [hend] at h
    cases h
  | error e w =>
    rw [hend] at h
    dsimp only at h
    split_ifs at h with hfatal
    obtain ⟨m, hm, rfl⟩ := eq_ownRing hring hfatal.2
    cases h
    exact ⟨m, e.display, hm, rfl⟩
  | crash w =>
    rw [hend] at h
    cases h

/-- **The turns go on around the rings, whatever comes of the passes.** -/
theorem Does.inTurn (h : Does c context p event p') (hbefore : InTurn context p) :
    InTurn context p' := by
  cases h with
  | boot =>
    refine ⟨fun _ => ?_, fun error herror => ?_⟩
    · show [] ++ (p.boot context).task.left = (List.replicate 1 context.rings).flatten
      cases hrings : context.rings <;>
        simp [Process.boot, Process.die, Task.left, Task.next, hrings]
    · cases hrings : context.rings <;> simp [Process.boot, Task.next, hrings] at herror
  | @pass now f startup ring rest htask =>
    have hturns := hbefore.turns (by rw [htask]; rfl)
    rw [htask] at hturns
    refine ⟨fun hup' => ?_, fun error herror => ?_⟩
    · obtain ⟨htask', hturns', hrounds'⟩ := turns_passed hup'
      rw [htask', hturns', hrounds']
      exact hturns
    · exact refused_passed (hbefore.left_mem ring (by simp [htask, Task.left])) herror
  | died htask => exact inTurn_down rfl
  | @recorded f startup ring rest htask =>
    have hturns := hbefore.turns (by rw [htask]; rfl)
    rw [htask] at hturns
    refine ⟨fun _ => ?_, fun error herror => ?_⟩
    · show p.turns ++ [ring] ++ (Task.next startup rest).left = _
      rw [Task.left_next, List.append_assoc]
      exact hturns
    · cases rest <;> cases herror
  | tick htask =>
    have hturns := hbefore.turns (by rw [htask]; rfl)
    rw [htask] at hturns
    refine ⟨fun _ => ?_, fun error herror => ?_⟩
    · show p.turns ++ (Task.next false context.rings).left =
        (List.replicate (p.rounds + 1) context.rings).flatten
      rw [Task.left_next, List.replicate_succ', List.flatten_append, ← hturns]
      simp [Task.left]
    · cases hrings : context.rings <;> rw [hrings] at herror <;> cases herror
  | stop htask =>
    have hturns := hbefore.turns (by rw [htask]; rfl)
    rw [htask] at hturns
    exact ⟨fun _ => hturns, fun error herror => by cases herror⟩
  | @sign ring payload f hup hring =>
    rw [afterSignature_eq]
    cases Keys.sign (c ring.directory) ring.keys payload f (p.worlds ring.directory) with
    | ok signature w => exact ⟨hbefore.turns, hbefore.refused⟩
    | error e w => exact ⟨hbefore.turns, hbefore.refused⟩
    | crash w => exact inTurn_down rfl
  | record hup hname => exact ⟨hbefore.turns, hbefore.refused⟩

/-- **Once there is a key, there is one for good.** -/
theorem Does.prepared (h : Does c context p event p') (hturn : InTurn context p)
    (hserver : ∀ m, context.keys = some m → Distinct (c m.directory) ∧
      Sound (c m.directory) ((p.worlds m.directory).drawn, (p.worlds m.directory).entries) ∧
      Sees (c m.directory) (ownRing m) p event p') (hbefore : Prepared context p) :
    Prepared context p' := by
  have hkept : p.task.up = true → (∀ ring rest, p.task = .passing true ring rest → p.turns ≠ []) →
      ∀ m, context.keys = some m → (p'.worlds m.directory).entries ≠ [] := by
    intro hup hbegun m hm
    obtain ⟨hdistinct, hsound, hsees⟩ := hserver m hm
    exact hsees.nonempty hdistinct hsound (hbefore hup hbegun m hm)
  intro hup' hbegun' m hm
  cases h with
  | boot =>
    -- The first pass is still to come.
    obtain ⟨rest, hrings⟩ := rings_eq_cons hm
    have htask : (p.boot context).task = .passing true (ownRing m) rest := by
      simp [Process.boot, hrings, Task.next]
    exact absurd rfl (hbegun' _ rest htask)
  | @pass now f startup ring rest htask =>
    have hup : p.task.up = true := by rw [htask]; rfl
    by_cases hfirst : startup = true ∧ p.turns = []
    · -- It is the first pass of all, and it is over the server's ring.
      obtain ⟨rfl, hnil⟩ := hfirst
      obtain ⟨hdistinct, hsound, -⟩ := hserver m hm
      obtain ⟨others, hrings⟩ := rings_eq_cons hm
      have hround := hturn.turns hup
      rw [htask, hnil, hrings] at hround
      obtain rfl : ring = ownRing m := by
        cases hcount : p.rounds with
        | zero =>
          rw [hcount] at hround
          cases hround
        | succ n =>
          rw [hcount] at hround
          exact (List.cons.inj hround).1
      exact prepared_passed (p := { p with clock := now }) hdistinct hsound hup'
    · refine hkept hup (fun other others hpassing => ?_) m hm
      rw [htask] at hpassing
      cases hpassing
      exact fun hnil => hfirst ⟨rfl, hnil⟩
  | died htask => cases hup'
  | recorded htask | tick htask | stop htask =>
    refine hkept (by rw [htask]; rfl) (fun other others hpassing => ?_) m hm
    rw [htask] at hpassing
    cases hpassing
  | @sign ring payload f hup hring =>
    rw [afterSignature_eq] at hkept hup' hbegun' ⊢
    cases hend : Keys.sign (c ring.directory) ring.keys payload f (p.worlds ring.directory) with
    | ok signature w =>
      rw [hend] at hkept hup' hbegun'
      exact hkept hup' hbegun' m hm
    | error e w =>
      rw [hend] at hkept hup' hbegun'
      exact hkept hup' hbegun' m hm
    | crash w =>
      rw [hend] at hup'
      cases hup'
  | record hup hname => exact hkept hup' hbegun' m hm

/-! ## The gauges -/

theorem Settles.entries_self (h : Settles ring p w p') :
    (p'.worlds ring.directory).entries = w.entries := by
  cases h with
  | on _ hworlds => rw [hworlds, put_self]
  | died _ hworlds hforgot => rw [hworlds, put_self, hforgot]

theorem Settles.entries_of_ne (h : Settles other p w p') (hne : ring.directory ≠ other.directory) :
    (p'.worlds ring.directory).entries = (p.worlds ring.directory).entries := by
  cases h with
  | on _ hworlds => rw [hworlds, put_of_ne hne]
  | died _ hworlds _ =>
    rw [hworlds, put_of_ne hne]
    rfl

/-- The number that the gauge of a ring reads. -/
def Process.gauge (ring : Ring) (p : Process) : Option ℚ :=
  match p.metrics.series.lookup ⟨KEYS_ACTIVE.name, Metrics.keyed ring.labels⟩ with
  | some (_, .value v) => some v
  | _ => none

section Registry

variable {r : Metrics.Registry} {metric : Metrics.Metric ℚ} {labels : List Metrics.Label}
  {number : Metrics.Number} {key : Metrics.Series} {v : ℚ}

theorem lookup_record_of_ne (hne : key ≠ ⟨metric.name, Metrics.keyed labels⟩) :
    (r.record metric labels number).series.lookup key = r.series.lookup key := by
  cases number with
  | notFinite => rfl
  | finite v =>
    unfold Metrics.Registry.record
    dsimp only
    split
    · exact AList.lookup_insert_ne hne
    · split_ifs
      · rfl
      · exact AList.lookup_insert_ne hne

theorem overflowed_of_record (h : (r.record metric labels number).overflowed = false) :
    r.overflowed = false := by
  cases number with
  | notFinite => exact h
  | finite v =>
    unfold Metrics.Registry.record at h
    dsimp only at h
    split at h
    · exact h
    · split_ifs at h
      exact h

/-- A registry with room holds the last value of a gauge. -/
theorem lookup_record_gauge (hkind : metric.kind = .gauge)
    (hnumber : ∀ entry, r.series.lookup ⟨metric.name, Metrics.keyed labels⟩ = some entry →
      ∃ u, entry.2 = .value u)
    (hroom : (r.record metric labels (.finite v)).overflowed = false) :
    ∃ first, (r.record metric labels (.finite v)).series.lookup
      ⟨metric.name, Metrics.keyed labels⟩ = some (first, .value v) := by
  unfold Metrics.Registry.record at hroom ⊢
  dsimp only at hroom ⊢
  split
  · next first existing hlookup =>
    obtain ⟨u, hu⟩ := hnumber _ hlookup
    refine ⟨first, ?_⟩
    rw [AList.lookup_insert]
    dsimp only at hu
    simp [Metrics.apply, hkind, hu]
  · next hlookup =>
    rw [hlookup] at hroom
    dsimp only at hroom
    split_ifs at hroom ⊢ with hfull
    refine ⟨metric, ?_⟩
    rw [AList.lookup_insert]
    simp [Metrics.apply, Metrics.empty, hkind]

/-- A gauge stays a number. -/
theorem number_record (hkind : metric.kind = .gauge)
    (hnumber : ∀ entry, r.series.lookup key = some entry → ∃ u, entry.2 = .value u) :
    ∀ entry, (r.record metric labels (.finite v)).series.lookup key = some entry →
      ∃ u, entry.2 = .value u := by
  intro entry hentry
  by_cases hkey : key = ⟨metric.name, Metrics.keyed labels⟩
  · subst hkey
    unfold Metrics.Registry.record at hentry
    dsimp only at hentry
    split at hentry
    · next first existing hlookup =>
      obtain ⟨u, hu⟩ := hnumber _ hlookup
      rw [AList.lookup_insert] at hentry
      obtain rfl := Option.some.inj hentry
      dsimp only at hu
      exact ⟨v, by simp [Metrics.apply, hkind, hu]⟩
    · split_ifs at hentry with hfull
      · exact hnumber entry hentry
      · rw [AList.lookup_insert] at hentry
        obtain rfl := Option.some.inj hentry
        exact ⟨v, by simp [Metrics.apply, Metrics.empty, hkind]⟩
  · rw [lookup_record_of_ne hkey] at hentry
    exact hnumber entry hentry

end Registry

/-- A ring has a key that signs when it has any. -/
theorem exists_active_iff (hsound : Sound ch (w.drawn, w.entries)) :
    (∃ e ∈ w.entries, e.state = .active) ↔ w.entries ≠ [] := by
  constructor
  · rintro ⟨e, he, -⟩
    exact List.ne_nil_of_mem he
  · intro hne
    obtain ⟨e, ⟨he, hactive⟩, -⟩ := (hsound.2 hne).active
    exact ⟨e, he, hactive⟩

theorem tells_sound (h : tells ring f w = true) : w.entries ≠ [] := by
  unfold tells at h
  have hspec : WP (activeKeyId ring.keys) f _ _ _ w := activeKeyId_spec
  unfold WP at hspec
  cases hend : activeKeyId ring.keys f w with
  | ok kid w' =>
    rw [hend] at hspec
    obtain ⟨-, e, he, -⟩ := hspec
    exact List.ne_nil_of_mem he
  | error e w' =>
    rw [hend] at h
    cases h
  | crash w' =>
    rw [hend] at h
    cases h

/-- A look that is not refused finds the key that signs. -/
theorem tells_complete (hsound : Sound ch (w.drawn, w.entries)) (hlook : f .readRing = .done)
    (hne : w.entries ≠ []) : tells ring f w = true := by
  obtain ⟨e, he, hactive⟩ := (exists_active_iff hsound).mpr hne
  have hread : readRing .readRing f w = .ok (w.ring.getD .default) w := by
    unfold readRing perform
    rw [hlook]
  unfold tells activeKeyId
  rw [bind_of_ok hread]
  have hfind : ((w.ring.getD .default).keys.find? fun e => e.state = .active).isSome = true :=
    List.find?_isSome.mpr ⟨e, he, by simp [hactive]⟩
  obtain ⟨e', he'⟩ := Option.isSome_iff_exists.mp hfind
  rw [he']
  rfl

/-- What the gauges read. Each ring whose turn has come has a number in a registry with room: 1 only
if it has a key that signs and, when no look was refused, 1 if it does, until its next pass. -/
structure Gauged (looks : Prop) (p : Process) : Prop where
  numbers : p.task.up = true → ∀ labels entry,
    p.metrics.series.lookup ⟨KEYS_ACTIVE.name, Metrics.keyed labels⟩ = some entry →
      ∃ u, entry.2 = .value u
  told : p.task.up = true → p.metrics.overflowed = false → ∀ ring ∈ p.turns, ∃ v,
    p.gauge ring = some v ∧ (v = 0 ∨ v = 1) ∧
      (v = 1 → (p.worlds ring.directory).entries ≠ []) ∧
      (looks → (∀ startup rest, p.task ≠ .recording startup ring rest) →
        (p.worlds ring.directory).entries ≠ [] → v = 1)

theorem gauged_new {looks : Prop} (hmetrics : p.metrics = .new) (hturns : p.turns = []) :
    Gauged looks p := by
  refine ⟨fun _ labels entry hentry => ?_, fun _ _ ring hring => ?_⟩
  · rw [hmetrics] at hentry
    cases hentry
  · rw [hturns] at hring
    cases hring

theorem gauged_down {looks : Prop} (h : p.task = .down) : Gauged looks p := by
  refine ⟨fun hup => ?_, fun hup => ?_⟩
  · rw [h] at hup
    cases hup
  · rw [h] at hup
    cases hup

theorem entries_signed {payload : Bytes} :
    (afterwards (Keys.sign ch m payload f w)).entries = w.entries := by
  apply afterwards_of_wp (I := fun w' => w'.entries = w.entries)
  exact sign_spec.mono (fun _ _ h => h.2.entries) (fun _ _ h => h.entries) fun _ h => h.1.entries

theorem gauge_congr (h : p'.metrics.series.lookup ⟨KEYS_ACTIVE.name, Metrics.keyed ring.labels⟩ =
    p.metrics.series.lookup ⟨KEYS_ACTIVE.name, Metrics.keyed ring.labels⟩) :
    p'.gauge ring = p.gauge ring := by
  unfold Process.gauge
  rw [h]

theorem keyed_labels_inj (h : Metrics.keyed ring.labels = Metrics.keyed other.labels) :
    ring.labels = other.labels := by
  have hperm := Metrics.keyed_eq_iff.mp h
  have hrealm : ("realm", ring.realm.getD "server") ∈ other.labels :=
    hperm.mem_iff.mp (by simp [Ring.labels])
  have hrole : ("role", ring.role) ∈ other.labels := hperm.mem_iff.mp (by simp [Ring.labels])
  simp only [Ring.labels, List.mem_cons, Prod.mk.injEq, List.not_mem_nil, or_false] at hrealm hrole
  have hrealm' : ring.realm.getD "server" = other.realm.getD "server" := by
    rcases hrealm with ⟨-, heq⟩ | ⟨hname, -⟩
    · exact heq
    · exact absurd hname (by decide)
  have hrole' : ring.role = other.role := by
    rcases hrole with ⟨hname, -⟩ | ⟨-, heq⟩
    · exact absurd hname (by decide)
    · exact heq
  unfold Ring.labels
  rw [hrealm', hrole']

/-- A pass sets no gauge. -/
theorem metrics_passed : (afterPass startup ring rest (pass c ring now f p)).metrics = p.metrics ∨
    afterPass startup ring rest (pass c ring now f p) = (afterPass startup ring rest
      (pass c ring now f p)).die := by
  rw [afterPass_eq]
  cases maintain (c ring.directory) ring.keys now f (p.worlds ring.directory) with
  | ok report w => exact Or.inl rfl
  | error e w =>
    dsimp only
    split_ifs
    · exact Or.inl rfl
    · exact Or.inl rfl
  | crash w => exact Or.inr rfl

/-- The gauge that has just been set. -/
theorem gauge_set {v : ℚ}
    (hnumbers : ∀ labels entry,
      p.metrics.series.lookup ⟨KEYS_ACTIVE.name, Metrics.keyed labels⟩ = some entry →
        ∃ u, entry.2 = .value u)
    (hroom : (p.metrics.record KEYS_ACTIVE ring.labels (.finite v)).overflowed = false)
    (hp' : p'.metrics = p.metrics.record KEYS_ACTIVE ring.labels (.finite v)) :
    p'.gauge ring = some v := by
  obtain ⟨first, hlookup⟩ := lookup_record_gauge rfl (hnumbers ring.labels) hroom
  unfold Process.gauge
  rw [hp', hlookup]

/-- **Every event keeps the gauges.** -/
theorem Does.gauged {looks : Prop} (h : Does c context p event p') (hturn : InTurn context p)
    (hapart : (context.rings.map Ring.directory).Nodup)
    (hlabels : ∀ r ∈ context.rings, ∀ r' ∈ context.rings, r.labels = r'.labels → r = r')
    (hsound : ∀ r ∈ context.rings, Distinct (c r.directory) ∧
      Sound (c r.directory) ((p.worlds r.directory).drawn, (p.worlds r.directory).entries))
    (hsees : ∀ r ∈ context.rings, Sees (c r.directory) r p event p')
    (hlook : looks → ∀ f, event = .recordActive f → f .readRing = .done)
    (hbefore : Gauged looks p) : Gauged looks p' := by
  have hne : ∀ r ∈ context.rings, ∀ r' ∈ context.rings, r ≠ r' → r.directory ≠ r'.directory :=
    fun r hr r' hr' hdifferent heq => hdifferent (List.inj_on_of_nodup_map hapart hr hr' heq)
  cases h with
  | boot => exact gauged_new rfl rfl
  | @pass now f startup acting rest htask =>
    have hup : p.task.up = true := by rw [htask]; rfl
    have hacting := hturn.left_mem acting (by simp [htask, Task.left])
    have hsettles : Settles acting p _ (afterPass startup acting rest
        (Upkeep.pass c acting now f { p with clock := now })) := settles_passed
    rcases (metrics_passed : _ ∨ afterPass startup acting rest
        (Upkeep.pass c acting now f { p with clock := now }) = _) with hmetrics | hdied
    · refine ⟨fun _ labels entry hentry => ?_, fun hup' hroom ring hring => ?_⟩
      · rw [hmetrics] at hentry
        exact hbefore.numbers hup labels entry hentry
      · obtain ⟨htask', hturns', -⟩ := turns_passed hup'
        rw [hturns'] at hring
        rw [hmetrics] at hroom
        have hmem := hturn.turns_mem hup hring
        obtain ⟨v, hv, hnumber, hone, hall⟩ := hbefore.told hup hroom ring hring
        refine ⟨v, (gauge_congr (by rw [hmetrics])).trans hv, hnumber, fun hv1 => ?_,
          fun hl hnot hkeys => ?_⟩
        · exact (hsees ring hmem).nonempty (hsound ring hmem).1 (hsound ring hmem).2 (hone hv1)
        · by_cases hsame : ring = acting
          · exact absurd (hsame ▸ htask') (hnot startup rest)
          · rw [hsettles.entries_of_ne (hne ring hmem acting hacting hsame)] at hkeys
            refine hall hl (fun s others hrecording => ?_) hkeys
            rw [htask] at hrecording
            cases hrecording
    · rw [hdied]
      exact gauged_new rfl rfl
  | died htask => exact gauged_new rfl rfl
  | @recorded f startup acting rest htask =>
    have hup : p.task.up = true := by rw [htask]; rfl
    have hacting := hturn.left_mem acting (by simp [htask, Task.left])
    refine ⟨fun _ labels => number_record rfl (hbefore.numbers hup labels),
      fun _ hroom ring hring => ?_⟩
    by_cases hsame : ring = acting
    · subst hsame
      refine ⟨_, gauge_set (hbefore.numbers hup) hroom rfl, ?_, fun hone => ?_,
        fun hl _ hkeys => ?_⟩
      · by_cases htells : tells ring f (p.worlds ring.directory) = true
        · exact Or.inr (if_pos htells)
        · exact Or.inl (if_neg htells)
      · by_cases htells : tells ring f (p.worlds ring.directory) = true
        · exact tells_sound htells
        · rw [if_neg htells] at hone
          exact absurd hone zero_ne_one
      · exact if_pos (tells_complete (hsound ring hacting).2 (hlook hl f rfl) hkeys)
    · have hold : ring ∈ p.turns := by
        rcases List.mem_append.mp hring with hold | hlast
        · exact hold
        · exact absurd (List.mem_singleton.mp hlast) hsame
      have hmem := hturn.turns_mem hup hold
      obtain ⟨v, hv, hnumber, hone, hall⟩ := hbefore.told hup (overflowed_of_record hroom) ring hold
      refine ⟨v, (gauge_congr (lookup_record_of_ne fun heq => ?_)).trans hv, hnumber, hone,
        fun hl _ hkeys => hall hl (fun s others hrecording => ?_) hkeys⟩
      · have hkeyed := (Metrics.Series.mk.inj heq).2
        exact hsame (hlabels ring hmem acting hacting (keyed_labels_inj hkeyed))
      · rw [htask] at hrecording
        cases hrecording
        exact hsame rfl
  | tick htask | stop htask =>
    have hup : p.task.up = true := by rw [htask]; rfl
    refine ⟨fun _ => hbefore.numbers hup, fun _ hroom ring hring => ?_⟩
    obtain ⟨v, hv, hnumber, hone, hall⟩ := hbefore.told hup hroom ring hring
    refine ⟨v, hv, hnumber, hone, fun hl _ => hall hl fun s others hrecording => ?_⟩
    rw [htask] at hrecording
    cases hrecording
  | @sign acting payload f hup hacting =>
    have hsettles : Settles acting p _ (afterSignature (acting.call
        (Keys.sign (c acting.directory) acting.keys payload) f p)) :=
      settles_signature (Task.up_ne_down hup)
    have hentries : ∀ ring ∈ context.rings, ((afterSignature (acting.call
        (Keys.sign (c acting.directory) acting.keys payload) f p)).worlds ring.directory).entries =
          (p.worlds ring.directory).entries := by
      intro ring hring
      by_cases hsame : ring = acting
      · subst hsame
        exact hsettles.entries_self.trans entries_signed
      · exact hsettles.entries_of_ne (hne ring hring acting hacting hsame)
    have hsame : afterSignature (acting.call (Keys.sign (c acting.directory) acting.keys payload) f
        p) = { p with worlds := (afterSignature (acting.call
          (Keys.sign (c acting.directory) acting.keys payload) f p)).worlds } ∨
        afterSignature (acting.call (Keys.sign (c acting.directory) acting.keys payload) f p) =
          (afterSignature (acting.call
            (Keys.sign (c acting.directory) acting.keys payload) f p)).die := by
      rw [afterSignature_eq]
      cases Keys.sign (c acting.directory) acting.keys payload f (p.worlds acting.directory) with
      | ok signature w => exact Or.inl rfl
      | error e w => exact Or.inl rfl
      | crash w => exact Or.inr rfl
    rcases hsame with hsame | hdied
    · rw [hsame]
      refine ⟨hbefore.numbers, fun _ hroom ring hring => ?_⟩
      obtain ⟨v, hv, hnumber, hone, hall⟩ := hbefore.told hup hroom ring hring
      have heq := hentries ring (hturn.turns_mem hup hring)
      refine ⟨v, hv, hnumber, fun hv1 => ?_, fun hl hnot hkeys => hall hl hnot ?_⟩
      · exact heq ▸ hone hv1
      · exact heq ▸ hkeys
    · rw [hdied]
      exact gauged_new rfl rfl
  | @record call hup hname =>
    have hother : ∀ labels, (⟨KEYS_ACTIVE.name, Metrics.keyed labels⟩ : Metrics.Series) ≠
        ⟨call.metric.name, Metrics.keyed call.labels⟩ :=
      fun labels heq => hname (Metrics.Series.mk.inj heq).1.symm
    refine ⟨fun _ labels entry hentry => ?_, fun _ hroom ring hring => ?_⟩
    · refine hbefore.numbers hup labels entry ?_
      rw [← hentry]
      exact (lookup_record_of_ne (hother labels)).symm
    · obtain ⟨v, hv, hnumber, hone, hall⟩ :=
        hbefore.told hup (overflowed_of_record hroom) ring hring
      exact ⟨v, (gauge_congr (lookup_record_of_ne (hother ring.labels))).trans hv, hnumber, hone,
        hall⟩

/-- Gauges do not share labels, unless a realm is called what the server is. -/
theorem labels_inj (hnames : (context.realms.map Realm.name).Nodup)
    (hserver : ∀ realm ∈ context.realms, realm.name ≠ "server") (hring : ring ∈ context.rings)
    (hother : other ∈ context.rings) (h : ring.labels = other.labels) : ring = other := by
  have hrealm : ring.realm.getD "server" = other.realm.getD "server" := by
    simpa [Ring.labels] using (List.cons.inj h).1
  have hrole : ring.role = other.role := by
    simpa [Ring.labels] using (List.cons.inj (List.cons.inj h).2).1
  have hsame : ∀ r ∈ context.realms, ∀ r' ∈ context.realms, r.name = r'.name → r = r' :=
    fun r hr r' hr' => List.inj_on_of_nodup_map hnames hr hr'
  rcases mem_rings_iff.mp hring with ⟨m, hm, rfl⟩ | ⟨r, hr, ⟨m, hm, rfl⟩ | ⟨m, hm, rfl⟩⟩ <;>
    rcases mem_rings_iff.mp hother with ⟨m', hm', rfl⟩ | ⟨r', hr', ⟨m', hm', rfl⟩ | ⟨m', hm', rfl⟩⟩
  · rw [Option.some.inj (hm.symm.trans hm')]
  · exact absurd hrealm.symm (hserver r' hr')
  · exact absurd hrealm.symm (hserver r' hr')
  · exact absurd hrealm (hserver r hr)
  · obtain rfl := hsame r hr r' hr' hrealm
    rw [Option.some.inj (hm.symm.trans hm')]
  · exact absurd hrole (by simp)
  · exact absurd hrealm (hserver r hr)
  · exact absurd hrole (by simp)
  · obtain rfl := hsame r hr r' hr' hrealm
    rw [Option.some.inj (hm.symm.trans hm')]

end Steps

/-! ## Histories -/

section Histories

variable {c : String → Crates} {d : Deployment} {states : Nat → Process} {events : Nat → Event}
  {N i : Nat} {ring : Ring}

theorem History.does (h : History c d states events N) (hi : i < N) :
    Does c d.context (states i) (events i) (states (i + 1)) := step_does (h.steps i hi)

theorem History.inTurn (h : History c d states events N) (hi : i ≤ N) :
    InTurn d.context (states i) := by
  induction i with
  | zero => exact inTurn_down h.down
  | succ i ih => exact (h.does hi).inTurn (ih (by omega))

theorem History.sees (h : History c d states events N) (hring : ring ∈ d.context.rings)
    (hi : i < N) : Sees (c ring.directory) ring (states i) (events i) (states (i + 1)) :=
  (h.does hi).sees hring d.apart (h.inTurn hi.le).left_mem (h.forward i hi) (h.bounded (i + 1) hi)

/-- The moments at which a ring's manager is called. -/
def calledAt (ring : Ring) (states : Nat → Process) (events : Nat → Event) (i : Nat) : Bool :=
  called ring (states i) (events i) (states (i + 1))

/-- **Every ring is kept apart.** In every history of a deployment, what a ring sees is a run of its
own manager from an empty ring, as if there were no other: its passes, its signatures and the ends
of the process are the calls of that run, and nothing else that happens touches it. -/
theorem rings_apart (h : History c d states events N) (hring : ring ∈ d.context.rings) :
    ∃ run, Managed (c ring.directory) ring.keys run
        (Nat.count (fun i => calledAt ring states events i) N) ∧
      Underlies Later (Advances (c ring.directory) ring.keys) (calledAt ring states events)
        (fun i => (states i).view ring) N run := by
  have hunderlies : ∃ run, Underlies Later (Advances (c ring.directory) ring.keys)
      (calledAt ring states events) (fun i => (states i).view ring) N run := by
    refine exists_underlies (fun _ => ⟨rfl, le_rfl⟩)
      (fun _ _ _ h h' => ⟨h'.1.trans h.1, h.2.trans h'.2⟩) (fun _ _ _ h h' => ?_) N
      (fun i hi => (h.sees hring hi).1) (fun i hi => (h.sees hring hi).2)
    obtain ⟨s, hm, hle, hmax, hs⟩ := h'
    exact ⟨s, hm, h.2.trans hle, hmax, h.1 ▸ hs⟩
  obtain ⟨run, hrun⟩ := hunderlies
  refine ⟨run, ⟨?_, hrun.steps⟩, hrun⟩
  rw [hrun.start]
  exact h.empty ring hring

theorem History.sound (h : History c d states events N) (hdistinct : Distinct (c ring.directory))
    (hring : ring ∈ d.context.rings) (hi : i ≤ N) :
    Sound (c ring.directory) (((states i).worlds ring.directory).drawn,
      ((states i).worlds ring.directory).entries) := by
  induction i with
  | zero => exact Sound.empty (h.empty ring hring)
  | succ i ih => exact (h.sees hring hi).sound hdistinct (ih (by omega))

theorem History.prepared (h : History c d states events N)
    (hdistinct : ∀ ring ∈ d.context.rings, Distinct (c ring.directory)) (hi : i ≤ N) :
    Prepared d.context (states i) := by
  induction i with
  | zero =>
    intro hup
    rw [h.down] at hup
    cases hup
  | succ i ih =>
    refine (h.does hi).prepared (h.inTurn (by omega)) (fun m hm => ?_) (ih (by omega))
    obtain ⟨rest, hrings⟩ := rings_eq_cons hm
    have hring : ownRing m ∈ d.context.rings := hrings ▸ List.mem_cons_self
    exact ⟨hdistinct (ownRing m) hring, h.sound (hdistinct _ hring) hring (by omega),
      h.sees hring hi⟩

theorem Task.up_of_started {task : Task} (h : task.started = true) : task.up = true := by
  cases task <;> first | rfl | cases h

/-- **The upkeep is orderly.** At every moment of every history of a deployment: while the process
is up, the turns of its life have gone around the rings, one pass and one gauge each, whatever came
of them; a server that did not start was kept from it by its own ring, never by a realm's; and once
the service has started, exactly one key of the server's ring signs. -/
theorem upkeep_orderly (h : History c d states events N)
    (hdistinct : ∀ ring ∈ d.context.rings, Distinct (c ring.directory)) (hi : i ≤ N) :
    ((states i).task.up = true → (states i).turns ++ (states i).task.left =
        (List.replicate (states i).rounds d.context.rings).flatten) ∧
      (∀ error, (states i).task = .refused error → ∃ m cause, d.context.keys = some m ∧
        error = "the server key ring could not be prepared: " ++
          ("advancing the key lifecycle for the operations ring of the server: " ++ cause)) ∧
      ((states i).task.started = true → ∀ m, d.context.keys = some m →
        ∃! e, e ∈ ((states i).worlds m.directory).entries ∧ e.state = .active) := by
  have hturn := h.inTurn hi
  refine ⟨hturn.turns, hturn.refused, fun hstarted m hm => ?_⟩
  obtain ⟨rest, hrings⟩ := rings_eq_cons hm
  have hring : ownRing m ∈ d.context.rings := hrings ▸ List.mem_cons_self
  have hne := h.prepared hdistinct hi (Task.up_of_started hstarted) (fun ring rest htask => by
    rw [htask] at hstarted
    cases hstarted) m hm
  exact ((h.sound (hdistinct _ hring) hring hi).2 hne).active

/-- A history that ends earlier. -/
theorem History.upto (h : History c d states events N) (hi : i ≤ N) :
    History c d states events i where
  down := h.down
  empty := h.empty
  steps k hk := h.steps k (by omega)
  forward k hk := h.forward k (by omega)
  bounded k hk := h.bounded k (by omega)

theorem History.gauged (h : History c d states events N) {looks : Prop}
    (hdistinct : ∀ ring ∈ d.context.rings, Distinct (c ring.directory))
    (hlabels : ∀ r ∈ d.context.rings, ∀ r' ∈ d.context.rings, r.labels = r'.labels → r = r')
    (hlook : looks → ∀ k < N, ∀ f, events k = .recordActive f → f .readRing = .done)
    (hi : i ≤ N) : Gauged looks (states i) := by
  induction i with
  | zero => exact gauged_down h.down
  | succ i ih =>
    refine (h.does hi).gauged (h.inTurn (by omega)) d.apart hlabels (fun r hr => ?_)
      (fun r hr => h.sees hr hi) (fun hl f => hlook hl i hi f) (ih (by omega))
    exact ⟨hdistinct r hr, h.sound (hdistinct r hr) hr (by omega)⟩

/-- **The gauges tell.** In every history of a deployment whose realms have names of their own, none
of them the server's: at every moment at which the process is up and its registry has had room for
all it was told, the gauge of every ring whose turn has come reads 0 or 1; if it reads 1, exactly
one key of the ring signs; and if no look at a ring was refused so far, it reads 1 for every ring
with a key that signs, but for the ring whose gauge is being set. -/
theorem gauges_tell (h : History c d states events N)
    (hdistinct : ∀ ring ∈ d.context.rings, Distinct (c ring.directory))
    (hnames : (d.context.realms.map Realm.name).Nodup)
    (hserver : ∀ realm ∈ d.context.realms, realm.name ≠ "server")
    (hi : i ≤ N)
    (hup : (states i).task.up = true) (hroom : (states i).metrics.overflowed = false)
    (hring : ring ∈ (states i).turns) :
    ∃ v, (states i).gauge ring = some v ∧ (v = 0 ∨ v = 1) ∧
      (v = 1 → ∃! e, e ∈ ((states i).worlds ring.directory).entries ∧ e.state = .active) ∧
      ((∀ k < i, ∀ f, events k = .recordActive f → f .readRing = .done) →
        (∀ startup rest, (states i).task ≠ .recording startup ring rest) →
        (∃ e ∈ ((states i).worlds ring.directory).entries, e.state = .active) → v = 1) := by
  have hmem := (h.inTurn hi).turns_mem hup hring
  have hsound := h.sound (hdistinct ring hmem) hmem hi
  have hgauged := (h.upto hi).gauged hdistinct
    (fun r hr r' hr' => labels_inj hnames hserver hr hr') id le_rfl
  obtain ⟨v, hv, hnumber, hone, hall⟩ := hgauged.told hup hroom ring hring
  refine ⟨v, hv, hnumber, fun hv1 => (hsound.2 (hone hv1)).active, fun hl hnot hactive => ?_⟩
  exact hall hl hnot ((exists_active_iff hsound).mp hactive)

end Histories

/-! ## A first round -/

/-- The states that some events lead to. -/
def reached (c : String → Crates) (context : Context) (events : List Event) : Nat → Process
  | 0 =>
    { worlds := fun _ => absent
      metrics := .new
      task := .down
      clock := 0
      rounds := 0
      turns := [] }
  | i + 1 =>
    (step c context (reached c context events i) (events.getD i .stop)).getD
      (reached c context events i)

theorem history_reached {c : String → Crates} {d : Deployment} {events : List Event}
    (h : ∀ i < events.length,
      (step c d.context (reached c d.context events i) (events.getD i .stop)).isSome = true ∧
        (reached c d.context events i).clock ≤ (reached c d.context events (i + 1)).clock)
    (hbounded : ∀ i ≤ events.length, (reached c d.context events i).clock ≤ U64_MAX) :
    History c d (reached c d.context events) (fun i => events.getD i .stop) events.length where
  down := rfl
  empty _ _ := rfl
  steps i hi := by
    obtain ⟨p', hp'⟩ := Option.isSome_iff_exists.mp (h i hi).1
    show _ = some ((step c d.context (reached c d.context events i) (events.getD i .stop)).getD _)
    rw [hp']
    rfl
  forward i hi := (h i hi).2
  bounded := hbounded

/-- A server, and a realm that signs tokens. -/
def twoRings : Deployment where
  context :=
    { keys := some weekly
      realms := [⟨"acme", none, some { weekly with directory := "realms/acme/keys" }⟩] }
  apart := by decide

/-- A process starts, and the first pass creates the key of the server. -/
def firstTurn : List Event := [.boot, .pass 0 fun _ => .done, .recordActive fun _ => .done]

def firstStates : Nat → Process := reached (fun _ => testCrates) twoRings.context firstTurn

theorem firstHistory : History (fun _ => testCrates) twoRings firstStates
    (fun i => firstTurn.getD i .stop) 3 := by
  refine history_reached ?_ ?_
  · decide +kernel
  · decide +kernel

theorem ownRing_mem : ownRing weekly ∈ twoRings.context.rings := by decide

theorem rings_apart_first : ∃ run, Managed testCrates weekly run
      (Nat.count (fun i => calledAt (ownRing weekly) firstStates
        (fun i => firstTurn.getD i .stop) i) 3) ∧
    Underlies Later (Advances testCrates weekly)
      (calledAt (ownRing weekly) firstStates fun i => firstTurn.getD i .stop)
      (fun i => (firstStates i).view (ownRing weekly)) 3 run :=
  rings_apart firstHistory ownRing_mem

theorem upkeep_orderly_first : (firstStates 3).task = .passing true
      ⟨some "acme", "tokens", { weekly with directory := "realms/acme/keys" }⟩ [] ∧
    (firstStates 3).turns ++ (firstStates 3).task.left =
      (List.replicate (firstStates 3).rounds twoRings.context.rings).flatten := by
  have htask : (firstStates 3).task = .passing true
      ⟨some "acme", "tokens", { weekly with directory := "realms/acme/keys" }⟩ [] := by
    decide +kernel
  refine ⟨htask, (upkeep_orderly firstHistory (fun _ _ => testCrates_distinct) le_rfl).1 ?_⟩
  rw [htask]
  rfl

theorem gauges_tell_first : ∃ v, (firstStates 3).gauge (ownRing weekly) = some v ∧
    (v = 0 ∨ v = 1) ∧
      (v = 1 →
        ∃! e, e ∈ ((firstStates 3).worlds weekly.directory).entries ∧ e.state = .active) := by
  have hstate : (firstStates 3).task.up = true ∧ (firstStates 3).metrics.overflowed = false ∧
      ownRing weekly ∈ (firstStates 3).turns := by
    decide +kernel
  obtain ⟨v, hv, hnumber, hone, -⟩ := gauges_tell firstHistory (fun _ _ => testCrates_distinct)
    (by decide) (by decide) le_rfl hstate.1 hstate.2.1 hstate.2.2
  exact ⟨v, hv, hnumber, hone⟩

end PicX.Keys.Upkeep
