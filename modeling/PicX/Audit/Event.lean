import Mathlib.Init

/-!
# Audit events (`pic-x-core/src/audit.rs`)

What a sink is asked to record: an action, the subject it is about, what it was done to, and the
continuity it belongs to. A principal is the only subject a privacy policy transforms, and it is
masked when there is none.
-/

namespace PicX.Audit

/-- What can go wrong recording an audit event. -/
inductive AuditError where
  | unavailable (cause : String)
  | backend (cause : String)
  deriving DecidableEq, Repr

def AuditError.display : AuditError → String
  | .unavailable cause => "the audit destination is unavailable: " ++ cause
  | .backend cause => "the audit destination failed: " ++ cause

/-- How sensitive what a record names is. -/
inductive Sensitivity where
  | isPublic
  | pseudonymous
  | personal
  deriving DecidableEq, Repr

def Sensitivity.asStr : Sensitivity → String
  | .isPublic => "public"
  | .pseudonymous => "pseudonymous"
  | .personal => "personal"

/-- Who or what an audit event is about. -/
inductive Subject where
  | system (value : String)
  | principal (value : String)
  | continuity (value : String)
  | capability (value : String)
  | anonymous
  deriving DecidableEq, Repr

namespace Subject

def sensitivity : Subject → Sensitivity
  | .system _ | .anonymous => .isPublic
  | .continuity _ | .capability _ => .pseudonymous
  | .principal _ => .personal

def kind : Subject → String
  | .system _ => "system"
  | .principal _ => "principal"
  | .continuity _ => "continuity"
  | .capability _ => "capability"
  | .anonymous => "anonymous"

/-- What every masked value renders as (`redact.rs`). -/
def MASK : String := "********"

def display : Subject → String
  | .system value | .continuity value | .capability value => value
  | .principal _ => MASK
  | .anonymous => "-"

/-- Renders a subject under the privacy policy in force, a pseudonymiser or nothing. -/
def render (policy : Option (String → String)) : Subject → String
  | .principal value => match policy with
    | some pseudonymize => pseudonymize value
    | none => display (.principal value)
  | subject => subject.display

end Subject

/-- One thing worth recording. -/
structure AuditEvent where
  action : String
  subject : Subject
  target : Option String := none
  continuityId : Option String := none
  continuityPosition : Option Nat := none
  deriving DecidableEq, Repr

namespace AuditEvent

def new (action : String) (subject : Subject) : AuditEvent := { action, subject }

/-- Names what the action was done to. -/
def on (event : AuditEvent) (target : String) : AuditEvent := { event with target := some target }

def withContinuityId (event : AuditEvent) (id : String) : AuditEvent :=
  { event with continuityId := some id }

def atContinuityPosition (event : AuditEvent) (position : Nat) : AuditEvent :=
  { event with continuityPosition := some position }

/-- An event about a continuity. -/
def continuity (action subject : String) : AuditEvent := new action (.continuity subject)

/-- An event that names nothing identifiable. -/
def anonymous (action : String) : AuditEvent := new action .anonymous

end AuditEvent

end PicX.Audit
