import PicX.Audit.Event
import PicX.Base.Program
import PicX.Core.Surface

/-!
# Requests on the administrative surface (`authorization.rs`, `identity.rs`)

A connection hands every request the identity of its first certificate. Behind mutual TLS a request
goes through the policy, is recorded, and only then reaches its handler. The request is a program
over what has happened so far: records that were written, records that were not, and handlers that
ran; the outside decides how each write turns out.

* `authorize` — the layer in front of the handlers.
* `authorize_answer` — its answer is that of the policy.
* `admin_authorisation` — a handler runs only for a permitted peer, right after its record.
-/

namespace PicX.Core

open PicX Program
open PicX.Audit (AuditEvent Subject)

/-! ## Who is asking -/

/-- The shortest text that still identifies a peer to a human. -/
def PeerIdentity.label (peer : PeerIdentity) : String :=
  match peer.commonName with
  | some name =>
    if name ≠ "" then name else if peer.subject ≠ "" then peer.subject else peer.fingerprint
  | none => if peer.subject ≠ "" then peer.subject else peer.fingerprint

/-- A request, with the certificates of the connection it came on when the handshake demanded
some. -/
structure AdminRequest where
  certificates : Option (List Bytes)
  path : String
  deriving DecidableEq, Repr

variable (identityOf : Bytes → Option PeerIdentity)

/-- The identity a connection gives to its requests. -/
def AdminRequest.peer (request : AdminRequest) : Option PeerIdentity :=
  (request.certificates.bind List.head?).bind identityOf

/-! ## The layer -/

/-- Something that happened while requests were served. -/
inductive Act where
  | recorded (event : AuditEvent)
  /-- The sink refused the record. -/
  | unrecorded (event : AuditEvent)
  | handled (request : AdminRequest)
  deriving DecidableEq, Repr

/-- A request: the write of an event turns out as the outside decides. -/
abbrev Serving := Program AuditEvent (List Act) Empty

/-- The event of one decision. -/
def decision (action principal target : String) : AuditEvent :=
  (AuditEvent.new action (.principal principal)).on target

/-- Records one decision, and says whether the trail now has it. Without a recorder there is no
trail to leave a gap in. -/
def recordDecision (recorder : Bool) (action principal target : String) : Serving Bool :=
  if recorder then
    let event := decision action principal target
    perform event (fun acts => .ok true (acts ++ [.recorded event]))
      (fun _ _ acts => .ok false (acts ++ [.unrecorded event]))
  else pure true

/-- Runs the protected handler. -/
def handle (request : AdminRequest) : Serving Answer := fun _ acts =>
  .ok .handled (acts ++ [.handled request])

/-- A permitted request: recorded before the work, and the work only happens if the record did. -/
def permitRequest (recorder : Bool) (label : String) (request : AdminRequest) : Serving Answer := do
  let written ← recordDecision recorder "admin.request" label request.path
  if written then handle request else pure .unrecordable

/-- A refusal, which stands whether or not it could be recorded. -/
def refuseRequest (recorder : Bool) (label : String) (request : AdminRequest) : Serving Answer := do
  let _ ← recordDecision recorder "admin.refused" label request.path
  pure .refused

/-- Refuses every request that the policy does not permit, and records both outcomes. -/
def authorize (policy : Authorization) (recorder : Bool) (request : AdminRequest) :
    Serving Answer :=
  let peer := request.peer identityOf
  let label := (peer.map PeerIdentity.label).getD "-"
  if policy.permits peer then permitRequest recorder label request
  else refuseRequest recorder label request

/-- What the surface serves: the handlers, behind the policy when there is one. -/
def AdminService.serve (c : Config) (secured : Option TlsSettings) (recorder : Bool)
    (request : AdminRequest) : Serving Answer :=
  match AdminService.serving c secured with
  | some policy => authorize identityOf policy recorder request
  | none => handle request

/-! ## What a request leaves -/

variable {identityOf}
variable {policy : Authorization} {recorder : Bool} {request : AdminRequest} {label : String}
  {f : AuditEvent → Outcome} {acts : List Act} {peer : PeerIdentity}

theorem recordDecision_spec {action principal target : String} :
    WP (recordDecision true action principal target) f
      (fun written acts' =>
        acts' = acts ++ [if written then .recorded (decision action principal target)
          else .unrecorded (decision action principal target)])
      (fun e _ => e.elim) (fun acts' => acts' = acts) acts := by
  unfold recordDecision
  rw [if_pos rfl]
  exact WP.perform (fun _ => rfl) (fun _ _ _ => rfl) (fun _ => rfl)

theorem permitRequest_spec :
    WP (permitRequest true label request) f
      (fun answer acts' =>
        (answer = .handled ∧
          acts' = acts ++
            [.recorded (decision "admin.request" label request.path), .handled request]) ∨
        (answer = .unrecordable ∧
          acts' = acts ++ [.unrecorded (decision "admin.request" label request.path)]))
      (fun e _ => e.elim) (fun acts' => acts' = acts) acts := by
  refine WP.bind recordDecision_spec fun written acts' hacts => ?_
  subst hacts
  cases written with
  | true => exact Or.inl ⟨rfl, List.append_assoc ..⟩
  | false => exact Or.inr ⟨rfl, rfl⟩

theorem refuseRequest_spec :
    WP (refuseRequest true label request) f
      (fun answer acts' => answer = .refused ∧
        ∃ act, acts' = acts ++ [act] ∧ ∀ r, act ≠ .handled r)
      (fun e _ => e.elim) (fun acts' => acts' = acts) acts := by
  refine WP.bind recordDecision_spec fun written acts' hacts => ?_
  subst hacts
  refine ⟨rfl, _, rfl, fun r => ?_⟩
  cases written <;> simp

theorem authorize_answer :
    WP (authorize identityOf policy true request) f
      (fun answer _ => ∃ written, answer = policy.authorize (request.peer identityOf) written)
      (fun e _ => e.elim) (fun _ => True) acts := by
  unfold authorize Authorization.authorize
  by_cases hpermits : policy.permits (request.peer identityOf) = true
  · rw [if_pos hpermits]
    refine permitRequest_spec.mono ?_ (fun e _ _ => e.elim) (fun _ _ => trivial)
    rintro answer acts' (⟨rfl, -⟩ | ⟨rfl, -⟩)
    · exact ⟨true, by simp [hpermits]⟩
    · exact ⟨false, by simp [hpermits]⟩
  · rw [if_neg hpermits]
    refine refuseRequest_spec.mono ?_ (fun e _ _ => e.elim) (fun _ _ => trivial)
    rintro answer acts' ⟨rfl, -⟩
    exact ⟨true, by simp [hpermits]⟩

theorem Authorization.permits_iff {peer : Option PeerIdentity} :
    policy.permits peer = true ↔ ∃ p, peer = some p ∧
      ((policy.allowed = [] ∧ policy.development = true) ∨ ∃ entry ∈ policy.allowed,
        entry.matches p) := by
  cases peer with
  | none => simp [Authorization.permits]
  | some p =>
    unfold Authorization.permits
    by_cases hempty : policy.allowed = []
    · simp [hempty]
    · simp [hempty, PeerIdentity.isAllowedBy]

/-- What was added while a request was served: a handler only for a permitted peer, and only right
after the record of its request. -/
def Authorised (identityOf : Bytes → Option PeerIdentity) (policy : Authorization)
    (request : AdminRequest) (new : List Act) : Prop :=
  ∀ r, .handled r ∈ new → r = request ∧ ∃ peer, request.peer identityOf = some peer ∧
    ((policy.allowed = [] ∧ policy.development = true) ∨
      ∃ entry ∈ policy.allowed, entry.matches peer) ∧
    new = [.recorded (decision "admin.request" peer.label request.path), .handled request]

theorem authorize_authorised (identityOf : Bytes → Option PeerIdentity) (policy : Authorization)
    (request : AdminRequest) (f : AuditEvent → Outcome) (acts : List Act) :
    ∃ new, (authorize identityOf policy true request f acts).world = acts ++ new ∧
      Authorised identityOf policy request new := by
  have hnone : Authorised identityOf policy request [] := by simp [Authorised]
  refine WP.world (I := fun acts' => ∃ new, acts' = acts ++ new ∧
    Authorised identityOf policy request new) ?_
  unfold authorize
  by_cases hpermits : policy.permits (request.peer identityOf) = true
  · rw [if_pos hpermits]
    refine permitRequest_spec.mono ?_ (fun e _ _ => e.elim)
      (fun acts' h => ⟨[], by simp [h], hnone⟩)
    rintro answer acts' (⟨-, rfl⟩ | ⟨-, rfl⟩)
    · refine ⟨_, rfl, fun r hr => ?_⟩
      obtain ⟨peer, hpeer, hallowed⟩ := Authorization.permits_iff.mp hpermits
      refine ⟨by simpa using hr, peer, hpeer, hallowed, ?_⟩
      rw [hpeer, Option.map_some, Option.getD_some]
    · exact ⟨_, rfl, by simp [Authorised]⟩
  · rw [if_neg hpermits]
    refine refuseRequest_spec.mono ?_ (fun e _ _ => e.elim)
      (fun acts' h => ⟨[], by simp [h], hnone⟩)
    rintro answer acts' ⟨-, act, rfl, hact⟩
    refine ⟨_, rfl, fun r hr => ?_⟩
    exact absurd (List.mem_singleton.mp hr).symm (hact r)

/-- **Admin authorisation.** Behind mutual TLS and with a recorder, whatever the sink answers: what
serving a request adds to what happened is a handler only if the peer presented a certificate that
the access list names, or any certificate when the list is empty and this is a development
deployment, and only right after the request's own record was written; a peer that is not on a list
that names somebody reaches no handler, in development too. -/
theorem admin_authorisation (identityOf : Bytes → Option PeerIdentity) (c : Config)
    (secured : Option TlsSettings) (hmutual : secured.any TlsSettings.isMutual = true)
    (request : AdminRequest) (f : AuditEvent → Outcome) (acts : List Act) :
    ∃ new, (AdminService.serve identityOf c secured true request f acts).world = acts ++ new ∧
      (∀ r, .handled r ∈ new → r = request ∧ ∃ peer, request.peer identityOf = some peer ∧
        ((c.adminAllow = [] ∧ c.developmentMode = true) ∨
          ∃ entry ∈ c.adminAllow, entry.matches peer) ∧
        new = [.recorded (decision "admin.request" peer.label request.path), .handled request]) ∧
      (c.adminAllow ≠ [] → (∀ peer, request.peer identityOf = some peer →
        peer.isAllowedBy c.adminAllow = false) → ∀ r, .handled r ∉ new) := by
  have hserve : AdminService.serve identityOf c secured true request =
      authorize identityOf ⟨c.adminAllow, c.developmentMode⟩ true request := by
    unfold AdminService.serve AdminService.serving
    rw [if_pos hmutual]
  obtain ⟨new, hnew, hauthorised⟩ :=
    authorize_authorised identityOf ⟨c.adminAllow, c.developmentMode⟩ request f acts
  refine ⟨new, by rw [hserve, hnew], hauthorised, fun hnamed hother r hr => ?_⟩
  obtain ⟨-, peer, hpeer, hallowed, -⟩ := hauthorised r hr
  rcases hallowed with ⟨hempty, -⟩ | ⟨entry, hentry, hmatches⟩
  · exact hnamed hempty
  · have hin : peer.isAllowedBy c.adminAllow = true :=
      List.any_eq_true.mpr ⟨entry, hentry, hmatches⟩
    simp [hother peer hpeer] at hin

/-! ### An operator and a stranger -/

/-- Certificates stand for the common name they carry. -/
def namedIdentity (certificate : Bytes) : Option PeerIdentity :=
  (fromUtf8 certificate).map fun name =>
    { subject := "CN=" ++ name, commonName := some name, fingerprint := "", serial := "01" }

def operatorOnly : Config := { adminAllow := [.commonName "operator"], developmentMode := true }

def mutualTls : TlsSettings :=
  { TlsSettings.new "server.pem" "server.key" with clientCa := some "ca.pem" }

/-- The operator's request is handled after its record, and a stranger's is not handled. -/
theorem admin_authorisation_operator :
    let operator : AdminRequest := ⟨some [utf8 "operator"], "/pic.x.v1.Admin/Version"⟩
    let stranger : AdminRequest := ⟨some [utf8 "stranger"], "/pic.x.v1.Admin/Version"⟩
    (AdminService.serve namedIdentity operatorOnly (some mutualTls) true operator
        (fun _ => .done) []).world =
        [.recorded (decision "admin.request" "operator" operator.path), .handled operator] ∧
      ∃ new, (AdminService.serve namedIdentity operatorOnly (some mutualTls) true stranger
          (fun _ => .done) []).world = new ∧ ∀ r, .handled r ∉ new := by
  refine ⟨by decide +kernel, ?_⟩
  obtain ⟨new, hnew, -, hrefused⟩ := admin_authorisation namedIdentity operatorOnly
    (some mutualTls) rfl ⟨some [utf8 "stranger"], "/pic.x.v1.Admin/Version"⟩
    (fun _ => .done) []
  refine ⟨new, hnew, hrefused (by decide) ?_⟩
  decide +kernel

end PicX.Core
