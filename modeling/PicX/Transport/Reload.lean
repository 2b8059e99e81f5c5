import Mathlib.Algebra.Group.Nat.Defs
import Mathlib.Logic.Relation
import PicX.Core.Settings

/-!
# Re-reading transport material (`pic-x-transport/src/reload.rs`, `material.rs`, `surface.rs`)

The TLS files of a surface are read one after the other, by the start of its listener, by its
watcher and by a SIGHUP, while somebody else changes them. Every read of one file is one step, and
so is every change of one, so that a change can fall between any two reads.

What a live configuration is made of is kept as the contents it was built from. The times between
two ticks, and the metrics of a certificate's expiry, are not modelled; the lock of what was seen
is held by whoever is taking fingerprints to compare or to record them.

* `State.step` — one step of the listener's start, the watcher, a SIGHUP reload, or a change.
* `Timely` — the steps after which what was recorded as seen is what was built.
* `Traced` — the invariant of runs of such steps.
* `renewal_served` — in such a run a change that a tick does not see is served, or failed to build.
-/

namespace PicX.Core

/-- Every file the material is made of, which is what a watcher watches. -/
def TlsSettings.files (tls : TlsSettings) : List String :=
  [some tls.certificate, some tls.key, tls.clientCa, tls.crl].reduceOption

end PicX.Core

namespace PicX.Transport.Renewal

open PicX.Core (TlsSettings)
open Relation (ReflTransGen)

/-! ## Building the material -/

/-- What the material is handed to: the digest, the PEM reader, and the TLS library's builders. -/
structure Rustls (Certificate Key Revocations : Type) where
  /-- SHA-256, lowercase hex. -/
  digest : Bytes → String
  /-- Every certificate of a PEM file, when each of them reads. -/
  certificates : Bytes → Option (List Certificate)
  key : Bytes → Option Key
  /-- Every revocation list of a PEM file, when each of them reads. -/
  revocations : Bytes → Option (List Revocations)
  /-- `RootCertStore::add` succeeds. -/
  addRoot : Certificate → Bool
  /-- `WebPkiClientVerifier` builds from these authorities, with these lists if any. -/
  verifier : List Certificate → Option (List Revocations) → Bool
  /-- `with_single_cert` accepts the chain with the key. -/
  singleCert : List Certificate → Key → Bool

/-- What was read of the files, in their order; `none` for one that could not be read. -/
abbrev Contents := List (Option Bytes)

variable {Certificate Key Revocations : Type} (o : Rustls Certificate Key Revocations)
  (tls : TlsSettings)

/-- Reads a PEM file of certificates. -/
def loadCertificates (file : Option Bytes) : Option (List Certificate) := do
  let certificates ← o.certificates (← file)
  if certificates.isEmpty then none else some certificates

def loadKey (file : Option Bytes) : Option Key := do
  o.key (← file)

/-- Reads a PEM file of certificate revocation lists. -/
def loadRevocations (file : Option Bytes) : Option (List Revocations) := do
  let revocations ← o.revocations (← file)
  if revocations.isEmpty then none else some revocations

/-- The files `build` opens, in its order: a revocation list is read for a client authority. -/
def buildFiles : List String :=
  match tls.clientCa with
  | some clientCa => [some tls.certificate, some tls.key, some clientCa, tls.crl].reduceOption
  | none => [tls.certificate, tls.key]

/-- `build`, after what it has read so far: whether it goes on. With every file read, this is
whether there is a configuration. -/
def goesOn : Contents → Bool
  | [] => true
  | [certificate] => (loadCertificates o certificate).isSome
  | certificate :: key :: rest =>
    (loadCertificates o certificate).any fun chain =>
      (loadKey o key).any fun key =>
        match tls.clientCa, rest with
        | none, _ => o.singleCert chain key
        | some _, [] => true
        | some _, clientCa :: rest =>
          (loadCertificates o clientCa).any fun authorities =>
            authorities.all o.addRoot &&
              match tls.crl, rest with
              | none, _ => o.verifier authorities none && o.singleCert chain key
              | some _, [] => true
              | some _, crl :: _ =>
                (loadRevocations o crl).any fun revoked =>
                  o.verifier authorities (some revoked) && o.singleCert chain key

def fingerprintOf (file : Option Bytes) : Option String := file.map o.digest

/-- The digest of every file the material is made of. -/
def fingerprints (disk : String → Option Bytes) : List (Option String) :=
  tls.files.map fun path => fingerprintOf o (disk path)

/-! ## One surface -/

/-- Where a reload is: `remember`, then `reload`. -/
inductive Reload where
  /-- The fingerprints taken so far. -/
  | remembering (taken : List (Option String))
  /-- What `build` has read so far. -/
  | building (read : Contents)
  | installing (config : Contents)
  deriving DecidableEq, Repr

/-- Where `watch` is. -/
inductive Watcher where
  | idle
  /-- `changed`, with the fingerprints taken so far. -/
  | checking (taken : List (Option String))
  | settling
  | reloading (r : Reload)
  deriving DecidableEq, Repr

/-- Where `reload_all` is. -/
inductive Hangup where
  | waiting
  | reloading (r : Reload)
  deriving DecidableEq, Repr

/-- Where `Listener::start` is. -/
inductive Start where
  | building (read : Contents)
  /-- `Reloadable::new`, with the fingerprints taken so far. -/
  | fingerprinting (taken : List (Option String))
  | failed
  | serving
  deriving DecidableEq, Repr

/-- An attempt to build, with what it read. -/
structure Attempt where
  read : Contents
  built : Bool
  deriving DecidableEq, Repr

structure State where
  disk : String → Option Bytes
  start : Start
  /-- What the live configuration was built from. -/
  live : Option Contents
  seen : List (Option String)
  watcher : Watcher
  hangup : Hangup
  /-- Every attempt to build, the latest first. -/
  attempts : List Attempt

/-- A listener about to start. -/
def State.initial (disk : String → Option Bytes) : State :=
  { disk, start := .building [], live := none, seen := [], watcher := .idle, hangup := .waiting
    attempts := [] }

/-- Who moves. -/
inductive Action where
  /-- Somebody else writes a file, or takes it away. -/
  | change (path : String) (file : Option Bytes)
  | start
  | watcher
  | hangup

/-- The lock of what was seen is held. -/
def Reload.locks : Reload → Bool
  | .remembering _ => true
  | .building _ | .installing _ => false

def Watcher.locks : Watcher → Bool
  | .checking _ => true
  | .reloading r => r.locks
  | .idle | .settling => false

def Hangup.locks : Hangup → Bool
  | .reloading r => r.locks
  | .waiting => false

/-- One step of a reload, and where it is then. -/
def Reload.step (s : State) : Reload → State × Option Reload
  | .remembering taken =>
    match tls.files[taken.length]? with
    | some path => (s, some (.remembering (taken ++ [fingerprintOf o (s.disk path)])))
    | none => ({ s with seen := taken }, some (.building []))
  | .building read =>
    if goesOn o tls read then
      match (buildFiles tls)[read.length]? with
      | some path => (s, some (.building (read ++ [s.disk path])))
      | none => ({ s with attempts := ⟨read, true⟩ :: s.attempts }, some (.installing read))
    else ({ s with attempts := ⟨read, false⟩ :: s.attempts }, none)
  | .installing config => ({ s with live := some config }, none)

/-- One step of the start of the listener. -/
def State.startStep (s : State) : Option State :=
  match s.start with
  | .building read =>
    if goesOn o tls read then
      match (buildFiles tls)[read.length]? with
      | some path => some { s with start := .building (read ++ [s.disk path]) }
      | none => some { s with
          start := .fingerprinting [], live := some read, attempts := ⟨read, true⟩ :: s.attempts }
    else some { s with start := .failed, attempts := ⟨read, false⟩ :: s.attempts }
  | .fingerprinting taken =>
    match tls.files[taken.length]? with
    | some path =>
      some { s with start := .fingerprinting (taken ++ [fingerprintOf o (s.disk path)]) }
    | none => some { s with start := .serving, seen := taken }
  | .failed | .serving => none

/-- One step of the watcher. It waits while a reload holds the lock. -/
def State.watcherStep (s : State) : Option State :=
  match s.watcher with
  | .idle => if s.hangup.locks then none else some { s with watcher := .checking [] }
  | .checking taken =>
    match tls.files[taken.length]? with
    | some path =>
      some { s with watcher := .checking (taken ++ [fingerprintOf o (s.disk path)]) }
    | none => some { s with watcher := if taken = s.seen then .idle else .settling }
  | .settling =>
    if s.hangup.locks then none else some { s with watcher := .reloading (.remembering []) }
  | .reloading r =>
    let (s', next) := r.step o tls s
    some { s' with watcher := next.elim .idle .reloading }

/-- One step of a SIGHUP reload. It waits while the watcher holds the lock. -/
def State.hangupStep (s : State) : Option State :=
  match s.hangup with
  | .waiting =>
    if s.watcher.locks then none else some { s with hangup := .reloading (.remembering []) }
  | .reloading r =>
    let (s', next) := r.step o tls s
    some { s' with hangup := next.elim .waiting .reloading }

/-- One step, where it is possible: the watcher runs, and the surface is registered, once the
listener has started. -/
def State.step (s : State) : Action → Option State
  | .change path file => some { s with disk := Function.update s.disk path file }
  | .start => s.startStep o tls
  | .watcher => match s.start with
    | .serving => s.watcherStep o tls
    | _ => none
  | .hangup => match s.start with
    | .serving => s.hangupStep o tls
    | _ => none

/-- The surface is serving, its watcher is idle, and a tick would see no change. -/
structure Quiet (s : State) : Prop where
  serving : s.start = .serving
  idle : s.watcher = .idle
  unchanged : fingerprints o tls s.disk = s.seen

/-- The live configuration was built from the current contents, or the latest attempt read exactly
these, as far as it went, and failed. -/
def Served (s : State) : Prop :=
  s.live = some ((buildFiles tls).map s.disk) ∨
    ∃ a, s.attempts.head? = some a ∧ a.built = false ∧ a.read <+: (buildFiles tls).map s.disk

/-! ## What was recorded, and what was built -/

def Watcher.reload? : Watcher → Option Reload
  | .reloading r => some r
  | .idle | .checking _ | .settling => none

def Hangup.reload? : Hangup → Option Reload
  | .reloading r => some r
  | .waiting => none

/-- The reload under way, if there is one. -/
def State.reload? (s : State) : Option Reload := s.watcher.reload?.or s.hangup.reload?

/-- The fingerprints that were recorded, or are being recorded at the start. -/
def State.recorded (s : State) : List (Option String) :=
  match s.start with
  | .fingerprinting taken => taken
  | .serving => s.seen
  | .building _ | .failed => []

/-- What the latest build has read: the one under way, or the latest attempt. -/
def latestRead (attempts : List Attempt) : Option Reload → Contents
  | some (.remembering _) => []
  | some (.building read) => read
  | some (.installing config) => config
  | none => (attempts.head?.map Attempt.read).getD []

def State.read (s : State) : Contents :=
  match s.start with
  | .fingerprinting _ | .serving => latestRead s.attempts s.reload?
  | .building _ | .failed => []

/-- What a step has to respect for a renewal not to be lost. -/
def Timely (s : State) : Action → Prop
  -- A file is not given other contents than were built under the fingerprint that is recorded.
  | .change path file => ∀ i < tls.files.length,
      tls.files[i]? = some path ∧ s.recorded[i]? = some (fingerprintOf o file) →
        ∀ file' ∈ s.read[i]?, file = file'
  -- A file whose fingerprint is taken at the start is as the build read it.
  | .start => match s.start with
    | .fingerprinting taken =>
      ∀ path ∈ tls.files[taken.length]?, ∀ file ∈ s.read[taken.length]?, s.disk path = file
    | .building _ | .failed | .serving => True
  -- Reloads do not overlap.
  | .watcher => s.watcher = .settling → s.hangup = .waiting
  | .hangup => s.hangup = .waiting → s.watcher.reload? = none

instance (s : State) (action : Action) : Decidable (Timely o tls s action) :=
  match action with
  | .change path file => inferInstanceAs (Decidable (∀ i < tls.files.length,
      tls.files[i]? = some path ∧ s.recorded[i]? = some (fingerprintOf o file) →
        ∀ file' ∈ s.read[i]?, file = file'))
  | .start =>
    match h : s.start with
    | .fingerprinting taken => decidable_of_iff
        (∀ path ∈ tls.files[taken.length]?, ∀ file ∈ s.read[taken.length]?, s.disk path = file)
        (by simp only [Timely, h])
    | .building _ | .failed | .serving => isTrue (by simp only [Timely, h])
  | .watcher => inferInstanceAs (Decidable (s.watcher = .settling → s.hangup = .waiting))
  | .hangup => inferInstanceAs (Decidable (s.hangup = .waiting → s.watcher.reload? = none))

/-- Some step takes one state to the next. -/
def Steps (s s' : State) : Prop := ∃ action, s.step o tls action = some s'

/-- The same, for a timely step. -/
def TimelySteps (s s' : State) : Prop :=
  ∃ action, Timely o tls s action ∧ s.step o tls action = some s'

/-- A file that has the fingerprint recorded for it has the contents that were read. -/
def Tracks (disk : String → Option Bytes) (recorded : List (Option String)) (read : Contents) :
    Prop :=
  ∀ (i : Nat) (path : String) (file : Option Bytes), tls.files[i]? = some path →
    read[i]? = some file → recorded[i]? = some (fingerprintOf o (disk path)) → disk path = file

/-- Where a reload is goes with the latest attempt. -/
def Progress (attempts : List Attempt) (live : Option Contents) : Option Reload → Prop
  | some (.remembering _) => True
  | some (.building read) => read.length ≤ (buildFiles tls).length
  | some (.installing config) =>
    attempts.head? = some ⟨config, true⟩ ∧ config.length = (buildFiles tls).length
  | none => ∃ a, attempts.head? = some a ∧ a.read.length ≤ (buildFiles tls).length ∧
      (a.built = true → live = some a.read ∧ a.read.length = (buildFiles tls).length)

/-- The reload under way, if any, is at a place that goes with what was recorded and attempted. -/
structure Follows (s : State) (recorded : List (Option String)) (reload : Option Reload) :
    Prop where
  tracks : Tracks o tls s.disk recorded (latestRead s.attempts reload)
  progress : Progress tls s.attempts s.live reload

/-- What holds of a surface in a run of timely steps. -/
def Traced (s : State) : Prop :=
  match s.start with
  | .building read =>
    read.length ≤ (buildFiles tls).length ∧ s.watcher = .idle ∧ s.hangup = .waiting
  | .fingerprinting taken => Follows o tls s taken none ∧ s.watcher = .idle ∧ s.hangup = .waiting
  | .failed => True
  | .serving =>
    Follows o tls s s.seen s.reload? ∧ (s.watcher.reload? = none ∨ s.hangup = .waiting)

variable {o tls} {s s' : State}

theorem buildFiles_isPrefix : buildFiles tls <+: tls.files := by
  unfold buildFiles TlsSettings.files
  cases tls.clientCa with
  | none => exact List.prefix_append [tls.certificate, tls.key] [tls.crl].reduceOption
  | some clientCa => exact List.prefix_rfl

theorem files_of_buildFiles {i : Nat} {path : String} (h : (buildFiles tls)[i]? = some path) :
    tls.files[i]? = some path := by
  obtain ⟨rest, hrest⟩ : buildFiles tls <+: tls.files := buildFiles_isPrefix
  obtain ⟨hlt, -⟩ := List.getElem?_eq_some_iff.mp h
  rw [← hrest, List.getElem?_append_left hlt, h]

theorem Traced.initial (disk : String → Option Bytes) : Traced o tls (.initial disk) :=
  ⟨Nat.zero_le _, rfl, rfl⟩

/-! ## One step -/

theorem Tracks.nil (disk : String → Option Bytes) (recorded : List (Option String)) :
    Tracks o tls disk recorded [] :=
  fun i path file _ hread => by simp at hread

/-- The next file is read. -/
theorem Tracks.reads {disk : String → Option Bytes} {recorded : List (Option String)}
    {read : Contents} {path : String} (h : Tracks o tls disk recorded read)
    (hpath : (buildFiles tls)[read.length]? = some path) :
    Tracks o tls disk recorded (read ++ [disk path]) := by
  intro i path' file hfile hread hrecorded
  rcases Nat.lt_or_ge i read.length with hlt | hge
  · rw [List.getElem?_append_left hlt] at hread
    exact h i path' file hfile hread hrecorded
  · rw [List.getElem?_append_right hge, List.getElem?_singleton] at hread
    split at hread
    · rename_i hi
      obtain rfl : i = read.length := by omega
      have hsame : path = path' :=
        Option.some_inj.mp ((files_of_buildFiles hpath).symm.trans hfile)
      rw [← hsame]
      simpa using hread
    · cases hread

/-- A step of a reload, when it is the only one. -/
theorem Reload.step_follows {r : Reload} {next : Option Reload}
    (h : Follows o tls s s.seen (some r)) (hstep : r.step o tls s = (s', next)) :
    Follows o tls s' s'.seen next ∧ s'.start = s.start ∧ s'.watcher = s.watcher ∧
      s'.hangup = s.hangup := by
  obtain ⟨htracks, hprogress⟩ := h
  cases r with
  | remembering taken =>
    simp only [Reload.step] at hstep
    split at hstep
    · cases hstep
      exact ⟨⟨.nil _ _, trivial⟩, rfl, rfl, rfl⟩
    · cases hstep
      exact ⟨⟨.nil _ _, Nat.zero_le _⟩, rfl, rfl, rfl⟩
  | building read =>
    simp only [Reload.step] at hstep
    by_cases hgoes : goesOn o tls read = true
    · rw [if_pos hgoes] at hstep
      split at hstep
      · rename_i path hpath
        cases hstep
        obtain ⟨hlt, -⟩ := List.getElem?_eq_some_iff.mp hpath
        have hlen : (read ++ [s.disk path]).length ≤ (buildFiles tls).length := by
          simpa using Nat.succ_le_of_lt hlt
        exact ⟨⟨htracks.reads hpath, hlen⟩, rfl, rfl, rfl⟩
      · rename_i hnone
        cases hstep
        have hlen : read.length = (buildFiles tls).length :=
          le_antisymm hprogress (List.getElem?_eq_none_iff.mp hnone)
        exact ⟨⟨htracks, rfl, hlen⟩, rfl, rfl, rfl⟩
    · rw [if_neg hgoes] at hstep
      cases hstep
      exact ⟨⟨htracks, _, rfl, hprogress, fun h => nomatch h⟩, rfl, rfl, rfl⟩
  | installing config =>
    simp only [Reload.step] at hstep
    cases hstep
    obtain ⟨hhead, hlen⟩ := hprogress
    have hread : latestRead s.attempts none = config := by simp [latestRead, hhead]
    refine ⟨⟨?_, _, hhead, hlen.le, fun _ => ⟨rfl, hlen⟩⟩, rfl, rfl, rfl⟩
    rw [hread]
    exact htracks

/-- A file changes, and not to other contents under the fingerprint that is recorded. -/
theorem Tracks.change {disk : String → Option Bytes} {recorded : List (Option String)}
    {read : Contents} {path : String} {file : Option Bytes} (h : Tracks o tls disk recorded read)
    (hchange : ∀ i < tls.files.length,
      tls.files[i]? = some path ∧ recorded[i]? = some (fingerprintOf o file) →
        ∀ file' ∈ read[i]?, file = file') :
    Tracks o tls (Function.update disk path file) recorded read := by
  intro i path' file' hfile hread hrecorded
  by_cases heq : path' = path
  · subst heq
    rw [Function.update_self] at hrecorded ⊢
    obtain ⟨hlt, -⟩ := List.getElem?_eq_some_iff.mp hfile
    exact hchange i hlt ⟨hfile, hrecorded⟩ file' hread
  · rw [Function.update_of_ne heq] at hrecorded ⊢
    exact h i path' file' hfile hread hrecorded

theorem reload?_before (hidle : s.watcher = .idle) (hwaiting : s.hangup = .waiting) :
    s.reload? = none := by
  rw [State.reload?, hidle, hwaiting]
  rfl

theorem Traced.change {path : String} {file : Option Bytes} (h : Traced o tls s)
    (htimely : Timely o tls s (.change path file)) :
    Traced o tls { s with disk := Function.update s.disk path file } := by
  cases hstart : s.start with
  | building read => simpa only [Traced, hstart] using h
  | fingerprinting taken =>
    simp only [Traced, hstart] at h ⊢
    obtain ⟨⟨htracks, hprogress⟩, hidle, hwaiting⟩ := h
    have hnone := reload?_before hidle hwaiting
    refine ⟨⟨htracks.change ?_, hprogress⟩, hidle, hwaiting⟩
    simpa only [Timely, State.recorded, State.read, hstart, hnone] using htimely
  | failed => simp [Traced]
  | serving =>
    simp only [Traced, hstart] at h ⊢
    obtain ⟨⟨htracks, hprogress⟩, halone⟩ := h
    refine ⟨⟨htracks.change ?_, hprogress⟩, halone⟩
    simpa only [Timely, State.recorded, State.read, hstart] using htimely

/-- A fingerprint is taken at the start, of a file that is as the build read it. -/
theorem Tracks.takes {disk : String → Option Bytes} {taken : List (Option String)}
    {read : Contents} {path : String} (h : Tracks o tls disk taken read)
    (hpath : tls.files[taken.length]? = some path)
    (hsame : ∀ file, read[taken.length]? = some file → disk path = file) :
    Tracks o tls disk (taken ++ [fingerprintOf o (disk path)]) read := by
  intro i path' file hfile hread hrecorded
  rcases Nat.lt_or_ge i taken.length with hlt | hge
  · rw [List.getElem?_append_left hlt] at hrecorded
    exact h i path' file hfile hread hrecorded
  · have hlt : i < (taken ++ [fingerprintOf o (disk path)]).length :=
      (List.getElem?_eq_some_iff.mp hrecorded).1
    obtain rfl : i = taken.length := by
      simp only [List.length_append, List.length_singleton] at hlt
      omega
    obtain rfl : path = path' := Option.some_inj.mp (hpath.symm.trans hfile)
    exact hsame file hread

theorem Traced.start (h : Traced o tls s) (htimely : Timely o tls s .start)
    (hstep : s.startStep o tls = some s') : Traced o tls s' := by
  cases hstart : s.start with
  | building read =>
    simp only [State.startStep, hstart] at hstep
    simp only [Traced, hstart] at h
    obtain ⟨hlen, htasks⟩ := h
    by_cases hgoes : goesOn o tls read = true
    · rw [if_pos hgoes] at hstep
      split at hstep
      · rename_i path hpath
        cases hstep
        obtain ⟨hlt, -⟩ := List.getElem?_eq_some_iff.mp hpath
        exact ⟨by simpa using Nat.succ_le_of_lt hlt, htasks⟩
      · rename_i hnone
        cases hstep
        have hfull : read.length = (buildFiles tls).length :=
          le_antisymm hlen (List.getElem?_eq_none_iff.mp hnone)
        -- No fingerprint is taken yet.
        refine ⟨⟨fun i path file _ _ hrecorded => ?_, ?_⟩, htasks⟩
        · simp at hrecorded
        · exact ⟨_, rfl, hlen, fun _ => ⟨rfl, hfull⟩⟩
    · rw [if_neg hgoes] at hstep
      cases hstep
      trivial
  | fingerprinting taken =>
    simp only [State.startStep, hstart] at hstep
    simp only [Traced, hstart] at h
    obtain ⟨⟨htracks, hprogress⟩, hidle, hwaiting⟩ := h
    have hnone := reload?_before hidle hwaiting
    split at hstep
    · rename_i path hpath
      cases hstep
      refine ⟨⟨htracks.takes hpath ?_, hprogress⟩, hidle, hwaiting⟩
      have hread : s.read = latestRead s.attempts none := by
        simp only [State.read, hstart, hnone]
      rw [← hread]
      simp only [Timely, hstart] at htimely
      exact htimely path hpath
    · cases hstep
      refine ⟨?_, .inr hwaiting⟩
      show Follows o tls _ taken s.reload?
      rw [hnone]
      exact ⟨htracks, hprogress⟩
  | failed => simp [State.startStep, hstart] at hstep
  | serving => simp [State.startStep, hstart] at hstep

/-- A serving surface, with the reload under way. -/
theorem Traced.of_serving {reload : Option Reload} (hstart : s.start = .serving)
    (hreload : s.reload? = reload) (hfollows : Follows o tls s s.seen reload)
    (halone : s.watcher.reload? = none ∨ s.hangup = .waiting) : Traced o tls s := by
  subst hreload
  simp only [Traced, hstart]
  exact ⟨hfollows, halone⟩

/-- A watcher that is not reloading moves on. -/
theorem Traced.waits (h : Traced o tls s) (hstart : s.start = .serving) {watcher : Watcher}
    (hbefore : s.watcher.reload? = none) (hafter : watcher.reload? = none) :
    Traced o tls { s with watcher } := by
  simp only [Traced, hstart] at h
  obtain ⟨⟨htracks, hprogress⟩, -⟩ := h
  have hsame : State.reload? { s with watcher } = s.reload? := by
    rw [State.reload?, State.reload?, hbefore, hafter]
  exact .of_serving hstart hsame ⟨htracks, hprogress⟩ (.inl hafter)

theorem Traced.watcher (h : Traced o tls s) (hstart : s.start = .serving)
    (htimely : Timely o tls s .watcher) (hstep : s.watcherStep o tls = some s') :
    Traced o tls s' := by
  cases hw : s.watcher with
  | idle =>
    simp only [State.watcherStep, hw] at hstep
    split at hstep
    · cases hstep
    · cases hstep
      exact h.waits hstart (by rw [hw]; rfl) rfl
  | checking taken =>
    simp only [State.watcherStep, hw] at hstep
    split at hstep
    · cases hstep
      exact h.waits hstart (by rw [hw]; rfl) rfl
    · cases hstep
      refine h.waits hstart (by rw [hw]; rfl) ?_
      split <;> rfl
  | settling =>
    have hwaiting := htimely hw
    simp only [State.watcherStep, hw] at hstep
    split at hstep
    · cases hstep
    · cases hstep
      exact .of_serving hstart rfl ⟨.nil _ _, trivial⟩ (.inr hwaiting)
  | reloading r =>
    simp only [Traced, hstart] at h
    obtain ⟨hfollows, halone⟩ := h
    have hwaiting : s.hangup = .waiting := by
      refine halone.resolve_left fun hnone => ?_
      rw [hw] at hnone
      cases hnone
    have hreload : s.reload? = some r := by rw [State.reload?, hw]; rfl
    rw [hreload] at hfollows
    obtain ⟨s₁, next, hr⟩ : ∃ s₁ next, r.step o tls s = (s₁, next) := ⟨_, _, rfl⟩
    obtain ⟨⟨htracks, hprogress⟩, hstart', -, hhangup⟩ := Reload.step_follows hfollows hr
    simp only [State.watcherStep, hw, hr, Option.some_inj] at hstep
    subst hstep
    have hnext : State.reload? { s₁ with watcher := next.elim .idle .reloading } = next := by
      rw [State.reload?, hhangup, hwaiting]
      cases next <;> rfl
    exact .of_serving (hstart'.trans hstart) hnext ⟨htracks, hprogress⟩
      (.inr (hhangup.trans hwaiting))

theorem Traced.hangup (h : Traced o tls s) (hstart : s.start = .serving)
    (htimely : Timely o tls s .hangup) (hstep : s.hangupStep o tls = some s') :
    Traced o tls s' := by
  cases hh : s.hangup with
  | waiting =>
    have hnone := htimely hh
    simp only [State.hangupStep, hh] at hstep
    split at hstep
    · cases hstep
    · cases hstep
      have hreload : State.reload? { s with hangup := .reloading (.remembering []) } =
          some (.remembering []) := by
        rw [State.reload?, hnone]
        rfl
      exact .of_serving hstart hreload ⟨.nil _ _, trivial⟩ (.inl hnone)
  | reloading r =>
    simp only [Traced, hstart] at h
    obtain ⟨hfollows, halone⟩ := h
    have hnone : s.watcher.reload? = none := by
      refine halone.resolve_right fun hwaiting => ?_
      rw [hh] at hwaiting
      cases hwaiting
    have hreload : s.reload? = some r := by rw [State.reload?, hnone, hh]; rfl
    rw [hreload] at hfollows
    obtain ⟨s₁, next, hr⟩ : ∃ s₁ next, r.step o tls s = (s₁, next) := ⟨_, _, rfl⟩
    obtain ⟨⟨htracks, hprogress⟩, hstart', hwatcher, -⟩ := Reload.step_follows hfollows hr
    simp only [State.hangupStep, hh, hr, Option.some_inj] at hstep
    subst hstep
    have hnext : State.reload? { s₁ with hangup := next.elim .waiting .reloading } = next := by
      rw [State.reload?, hwatcher, hnone]
      cases next <;> rfl
    have hidle : s₁.watcher.reload? = none := by rw [hwatcher, hnone]
    exact .of_serving (hstart'.trans hstart) hnext ⟨htracks, hprogress⟩ (.inl hidle)

theorem Traced.step (h : Traced o tls s) (hstep : TimelySteps o tls s s') : Traced o tls s' := by
  obtain ⟨action, htimely, hstep⟩ := hstep
  cases action with
  | change path file =>
    cases hstep
    exact h.change htimely
  | start => exact h.start htimely hstep
  | watcher =>
    simp only [State.step] at hstep
    split at hstep
    · rename_i hstart
      exact h.watcher hstart htimely hstep
    · cases hstep
  | hangup =>
    simp only [State.step] at hstep
    split at hstep
    · rename_i hstart
      exact h.hangup hstart htimely hstep
    · cases hstep

theorem Traced.run {disk : String → Option Bytes}
    (h : ReflTransGen (TimelySteps o tls) (.initial disk) s) : Traced o tls s := by
  induction h with
  | refl => exact .initial disk
  | tail _ hstep ih => exact ih.step hstep

/-! ## Every renewal is served -/

/-- What the latest attempt read is what is there, where a tick sees no change. -/
theorem Follows.read_isPrefix {a : Attempt} (h : Follows o tls s s.seen none)
    (hseen : fingerprints o tls s.disk = s.seen) (hhead : s.attempts.head? = some a)
    (hlen : a.read.length ≤ (buildFiles tls).length) :
    a.read <+: (buildFiles tls).map s.disk := by
  have hread : latestRead s.attempts none = a.read := by simp [latestRead, hhead]
  have htracks := h.tracks
  rw [hread, ← hseen] at htracks
  rw [List.prefix_iff_getElem?]
  intro i hi
  have hpath : (buildFiles tls)[i]? = some (buildFiles tls)[i] := List.getElem?_eq_getElem _
  have hfile := files_of_buildFiles hpath
  have hsame : s.disk (buildFiles tls)[i] = a.read[i] := by
    refine htracks i _ _ hfile (List.getElem?_eq_getElem hi) ?_
    rw [fingerprints, List.getElem?_map, hfile]
    rfl
  rw [List.getElem?_map, hpath, Option.map_some, hsame]

/-- **No renewal is lost.** In a run of timely steps, whenever no SIGHUP reload is under way, the
watcher is idle and a tick would see no change, the live configuration was built from the current
contents, or the latest attempt to build them failed. -/
theorem renewal_served (o : Rustls Certificate Key Revocations) (tls : TlsSettings)
    (disk : String → Option Bytes) (s : State)
    (hrun : ReflTransGen (TimelySteps o tls) (.initial disk) s) (hquiet : Quiet o tls s)
    (hhangup : s.hangup = .waiting) : Served tls s := by
  have htraced := Traced.run hrun
  simp only [Traced, hquiet.serving] at htraced
  obtain ⟨hfollows, -⟩ := htraced
  rw [reload?_before hquiet.idle hhangup] at hfollows
  obtain ⟨a, hhead, hlen, hbuilt⟩ := hfollows.progress
  have hread := hfollows.read_isPrefix hquiet.unchanged hhead hlen
  cases hb : a.built with
  | false => exact .inr ⟨a, hhead, hb, hread⟩
  | true =>
    obtain ⟨hlive, hfull⟩ := hbuilt hb
    have hall : a.read = (buildFiles tls).map s.disk :=
      hread.eq_of_length (by rw [hfull, List.length_map])
    left
    rw [hlive, hall]

/-! ## A renewal while the listener starts -/

section

variable (o tls)

/-- One step after the other. -/
def State.run (s : State) (actions : List Action) : Option State :=
  actions.foldlM (fun s action => s.step o tls action) s

/-- The same, as long as every step is timely. -/
def State.runTimely (s : State) (actions : List Action) : Option State :=
  actions.foldlM (fun s action => if Timely o tls s action then s.step o tls action else none) s

end

theorem steps_of_run {actions : List Action} (h : s.run o tls actions = some s') :
    ReflTransGen (Steps o tls) s s' := by
  induction actions generalizing s with
  | nil =>
    cases h
    exact .refl
  | cons action actions ih =>
    rw [State.run, List.foldlM_cons] at h
    obtain ⟨s₁, hstep, hrest⟩ := Option.bind_eq_some_iff.mp h
    exact .head ⟨action, hstep⟩ (ih hrest)

theorem timelySteps_of_run {actions : List Action} (h : s.runTimely o tls actions = some s') :
    ReflTransGen (TimelySteps o tls) s s' := by
  induction actions generalizing s with
  | nil =>
    cases h
    exact .refl
  | cons action actions ih =>
    rw [State.runTimely, List.foldlM_cons] at h
    obtain ⟨s₁, hstep, hrest⟩ := Option.bind_eq_some_iff.mp h
    split at hstep
    · rename_i htimely
      exact .head ⟨action, htimely, hstep⟩ (ih hrest)
    · cases hstep

/-- The bytes of a text without `NUL`, thirty-two of them to a number. -/
def bytesOf (words : List Nat) : Bytes :=
  words.flatMap fun word => (List.range 32).reverse.filterMap fun i =>
    if word / 256 ^ i = 0 then none else some (UInt8.ofNat (word / 256 ^ i % 256))

/-- A PEM certificate for `localhost`. -/
def firstCertificate : Bytes :=
  bytesOf [
    0x2d2d2d2d2d424547494e2043455254494649434154452d2d2d2d2d0a4d494942,
    0x44544342774b414441674543416745424d4155474179746c634441554d524977,
    0x454159445651514444416c7362324e6862476876633351774868634e0a4d6a59,
    0x784d5445344d44557a4e5449315768634e4d6a63774d6a45324d44557a4e5449,
    0x31576a41554d524977454159445651514444416c7362324e68624768760a6333,
    0x51774b6a414642674d725a584144495142596a6a596c684935594a4233696356,
    0x416b36356656386e6232306e6f6e4f7a6967486d4b4f704b70596b4b4d330a4d,
    0x4455774641594456523052424130774334494a6247396a5957786f62334e304d,
    0x42304741315564446751574242514b634935417058647642336668343959780a,
    0x46675738794a51365854414642674d725a5841445151425a49666f634f494f61,
    0x75694a30683942623541506e3742366959314a3548314f683047754e6f743737,
    0x0a6c576150304a3372444e792f3631736c3774666d5653416d5465613157437a,
    0x55766d2f41794d39775268594d0a2d2d2d2d2d454e4420434552544946494341,
    0x54452d2d2d2d2d0a]

/-- The Ed25519 key it is for, in PEM. -/
def privateKey : Bytes :=
  bytesOf [
    0x2d2d2d2d2d424547494e2050524956415445204b45592d2d2d2d2d0a4d433443,
    0x41514177425159444b325677424349454948774b455052704b43754e59553836,
    0x467847436e6d6861317a483241425558614a6e6679793044392b766c0a2d2d2d,
    0x2d2d454e442050524956415445204b45592d2d2d2d2d0a]

/-- The certificate renewed, for the same key. -/
def renewedCertificate : Bytes :=
  bytesOf [
    0x2d2d2d2d2d424547494e2043455254494649434154452d2d2d2d2d0a4d494942,
    0x44544342774b414441674543416745434d4155474179746c634441554d524977,
    0x454159445651514444416c7362324e6862476876633351774868634e0a4d6a59,
    0x784d5445344d4455304f5445345768634e4d6a63774d6a45324d4455304f5445,
    0x34576a41554d524977454159445651514444416c7362324e68624768760a6333,
    0x51774b6a414642674d725a584144495142596a6a596c684935594a4233696356,
    0x416b36356656386e6232306e6f6e4f7a6967486d4b4f704b70596b4b4d330a4d,
    0x4455774641594456523052424130774334494a6247396a5957786f62334e304d,
    0x42304741315564446751574242514b634935417058647642336668343959780a,
    0x46675738794a51365854414642674d725a5841445151435834656a512f4a4943,
    0x786479333532525a4750634551657350416a487a437242764a4849504b6a4a6c,
    0x0a5063476f6c6d6a5a46675575304b6c2b464a706d6e6761583971796f72305a,
    0x30386e38664c534c372b4477500a2d2d2d2d2d454e4420434552544946494341,
    0x54452d2d2d2d2d0a]

/-- The library on these files. What is in one of them goes by the SHA-256 of its DER. -/
def localhostRustls : Rustls Nat Nat Empty where
  digest := fun bytes =>
    if bytes = firstCertificate then
      "1e8d4fb0c634d5dd168c953780275453a8edb1b1dc8f07f6ad4784251da8b08c"
    else if bytes = privateKey then
      "cc7c9a2d4f42eff577779e68a603f6f4f208f078ea0b6ebe5591729909b7f273"
    else "a6b1f3d620db18f88614857898b87a06e8e14c9f4fb4787e8b863446bf49d44f"
  certificates := fun bytes =>
    if bytes = firstCertificate then
      some [0x4ba6e56981509a9e8d8fae46e745bd69bd3057b76f18830b39f8e22c7fffbd0a]
    else if bytes = renewedCertificate then
      some [0xb6ed9c4d3aedcd09a5fa7fd1df8b5c8b78a17ea6081db558110eb9c0a355a134]
    else some []
  key := fun bytes =>
    if bytes = privateKey then
      some 0x2b94c921fee09f9a27096cdf708e0613eaa28f78ff6388c2675919c77a52e231
    else none
  revocations := fun _ => some []
  addRoot := fun _ => true
  verifier := fun authorities _ => !authorities.isEmpty
  -- Both certificates are for the one key.
  singleCert := fun chain _ => !chain.isEmpty

def localhostTls : TlsSettings := .new "tls.crt" "tls.key"

def localhostDisk (path : String) : Option Bytes :=
  if path = "tls.crt" then some firstCertificate
  else if path = "tls.key" then some privateKey
  else none

/-- The certificate is renewed while the listener is between building its configuration and taking
the fingerprints. -/
def renewedAtStart : List Action :=
  [.start, .start, .start, .change "tls.crt" (some renewedCertificate), .start, .start, .start]

/-- It is renewed once the listener is serving, and the watcher ticks. -/
def renewedWhileServing : List Action :=
  List.replicate 6 .start ++ [.change "tls.crt" (some renewedCertificate)] ++
    List.replicate 12 .watcher

/-- The renewed certificate is recorded as seen, the first one is served, and nothing failed. -/
theorem renewal_lost_at_start : ∃ s,
    ReflTransGen (Steps localhostRustls localhostTls) (.initial localhostDisk) s ∧
      Quiet localhostRustls localhostTls s ∧ s.hangup = .waiting ∧ ¬ Served localhostTls s := by
  have hends : ∃ s ∈ State.run localhostRustls localhostTls (.initial localhostDisk) renewedAtStart,
      (s.start = .serving ∧ s.watcher = .idle ∧
        fingerprints localhostRustls localhostTls s.disk = s.seen) ∧ s.hangup = .waiting ∧
      s.live ≠ some ((buildFiles localhostTls).map s.disk) ∧
      ∀ a ∈ s.attempts.head?, a.built = true := by decide +kernel
  obtain ⟨s, hrun, ⟨hserving, hidle, hseen⟩, hhangup, hlive, hbuilt⟩ := hends
  refine ⟨s, steps_of_run hrun, ⟨hserving, hidle, hseen⟩, hhangup, ?_⟩
  intro hserved
  rcases hserved with hsame | ⟨a, hhead, hfailed, -⟩
  · exact hlive hsame
  · rw [hbuilt a hhead] at hfailed
    cases hfailed

/-- Renewed while the listener is serving, the certificate is picked up by the next tick. -/
theorem renewal_served_while_serving : ∃ s,
    ReflTransGen (TimelySteps localhostRustls localhostTls) (.initial localhostDisk) s ∧
      s.disk "tls.crt" = some renewedCertificate ∧ Quiet localhostRustls localhostTls s ∧
      s.hangup = .waiting ∧ Served localhostTls s := by
  have hends : ∃ s ∈ State.runTimely localhostRustls localhostTls (.initial localhostDisk)
      renewedWhileServing, s.disk "tls.crt" = some renewedCertificate ∧
      (s.start = .serving ∧ s.watcher = .idle ∧
        fingerprints localhostRustls localhostTls s.disk = s.seen) ∧ s.hangup = .waiting := by
    decide +kernel
  obtain ⟨s, hrun, hrenewed, ⟨hserving, hidle, hseen⟩, hhangup⟩ := hends
  exact ⟨s, timelySteps_of_run hrun, hrenewed, ⟨hserving, hidle, hseen⟩, hhangup,
    renewal_served _ _ _ s (timelySteps_of_run hrun) ⟨hserving, hidle, hseen⟩ hhangup⟩

end PicX.Transport.Renewal
