import PicX.Audit.Honest
import PicX.Audit.Lasting
import PicX.Realm.Recorded

/-!
# The token endpoint over the file sink

A request reads the clock, the keys and the candidate, and comes to a decision; only then does it
touch anything, and what it touches is the trail, once. Many requests are in flight together: what
orders them is the lock of the sink.

* `Decision`, `exchange_eq_carryOut` — a request is a decision and at most one record.
* `Desk` — the requests in flight, the answers that left, and the world of the sink.
* `answered_on_disk` — whatever fails and whenever the process dies, the record of a token that
  left is on disk while its day is kept.
* `ledger_balances` — where nothing fails, the records of tokens on disk are the tokens that left,
  one for one and in order.
-/

namespace PicX.Realm

open PicX Program ExchangeError
open PicX.Audit (AuditEvent)

variable {A : Type}

/-! ## A request is a decision and at most one record -/

/-- What a request comes to before anything is written. -/
inductive Decision where
  /-- Refused, with nothing to record. -/
  | refuse (error : ExchangeError)
  /-- Refused, once the refusal is recorded. -/
  | reject (event : AuditEvent) (error : ExchangeError)
  /-- A token, once it is recorded. -/
  | answer (event : AuditEvent) (response : TokenExchangeResponse)
  deriving DecidableEq, Repr

/-- Carries a decision out with a way to write records. -/
def Decision.carryOut {op σ : Type} (write : AuditEvent → Program op σ ExchangeError Unit) :
    Decision → Program op σ ExchangeError TokenExchangeResponse
  | .refuse error => throw error
  | .reject event error => do
    write event
    throw error
  | .answer event response => do
    write event
    pure response

/-- Goes on with a value, or refuses with nothing to record. -/
def orRefuse {α : Type} (x : Except ExchangeError α) (k : α → Decision) : Decision :=
  match x with
  | .ok a => k a
  | .error error => .refuse error

variable (p : Pic A)

/-- What an initial exchange comes to. -/
def decideInitial (realm : TokenEndpoint) (request : Request) (accessToken : String)
    (form : Map String) : Decision :=
  orRefuse (initialise p realm request accessToken form) fun initialized =>
    .answer (initializedEvent initialized) (tokenResponse p initialized.issued)

/-- What an advancement comes to once the realm has a key to sign with. -/
def decideCandidate (realm : TokenEndpoint) (request : Request) (candidateToken : String)
    (now : Int) (keys : KeyManager) (signer : ArtifactSigner) : Decision :=
  let v := profileEvidence realm request now
  match preflightCandidateKeyMetadata p v candidateToken none with
  | (.error error, _) => .reject (rejectedEvent realm none none) error
  | (.ok metadata, accepted) =>
    match metadata.lineageId with
    | none => .reject (rejectedEvent realm none (some metadata.proposedPosition))
        (invalidGrant "the candidate predecessor checkpoint has no lineage identifier")
    | some lineageId =>
      let rejected := rejectedEvent realm (some lineageId) (some metadata.proposedPosition)
      if metadata.expiresAt ≤ now then
        .reject rejected (invalidGrant "the candidate predecessor checkpoint is expired")
      else
        match (p.settle (settlementAuthority p keys v signer) candidateToken
            (advanceContext realm now metadata lineageId) accepted).1 with
        | .error error =>
          .reject rejected (invalidGrant ("the candidate was rejected: " ++ p.displayReject error))
        | .ok issued =>
          orRefuse (okOr issued.checkpoint.lineageId
            (serverError "the settled checkpoint has no lineage identifier to audit")) fun id =>
              .answer (advancedEvent realm id issued) (tokenResponse p issued)

/-- What an advancement comes to. -/
def decideAdvancement (realm : TokenEndpoint) (request : Request) (candidateToken : String) :
    Decision :=
  orRefuse (unixNow (request.clock 0)) fun now =>
    orRefuse realm.keys fun keys =>
      orRefuse (realmTokenSigner keys realm.tokenSigningAlgorithm) fun signer =>
        decideCandidate p realm request candidateToken now keys signer

/-- What a request comes to. -/
def decision (realm : TokenEndpoint) (request : Request) (body : Bytes) : Decision :=
  orRefuse (grantOf p body) fun
    | .initial accessToken form => decideInitial p realm request accessToken form
    | .advancement candidateToken => decideAdvancement p realm request candidateToken

variable {p} {realm : TokenEndpoint} {request : Request}

theorem carryOut_orRefuse {op σ α : Type} {write : AuditEvent → Program op σ ExchangeError Unit}
    {x : Except ExchangeError α} {k : α → Decision}
    {q : α → Program op σ ExchangeError TokenExchangeResponse}
    (h : ∀ a, q a = (k a).carryOut write) :
    (ofExcept x >>= q) = (orRefuse x k).carryOut write := by
  cases x with
  | ok a => exact (h a).symm ▸ rfl
  | error e => rfl

theorem advance_eq_carryOut (candidateToken : String) :
    advance p realm request candidateToken =
      (decideAdvancement p realm request candidateToken).carryOut record := by
  refine carryOut_orRefuse fun now => carryOut_orRefuse fun keys =>
    carryOut_orRefuse fun signer => ?_
  unfold decideCandidate
  dsimp only
  generalize preflightCandidateKeyMetadata p (profileEvidence realm request now) candidateToken
    none = result
  obtain ⟨_ | metadata, accepted⟩ := result
  · rfl
  dsimp only
  cases metadata.lineageId with
  | none => rfl
  | some lineageId =>
    dsimp only
    split_ifs
    · rfl
    generalize (p.settle _ _ _ _).1 = settled
    cases settled with
    | error error => rfl
    | ok issued => exact carryOut_orRefuse fun id => rfl

/-- **A request is a decision and at most one record.** -/
theorem exchange_eq_carryOut (body : Bytes) :
    exchange p realm request body = (decision p realm request body).carryOut record := by
  refine carryOut_orRefuse fun grant => ?_
  cases grant with
  | initial accessToken form => exact carryOut_orRefuse fun i => rfl
  | advancement candidateToken => exact advance_eq_carryOut candidateToken

theorem decision_initial {body : Bytes} {token : String} {form : Map String} {i : Initialized A}
    (hgrant : grantOf p body = .ok (.initial token form))
    (h : initialise p realm request token form = .ok i) :
    decision p realm request body = .answer (initializedEvent i) (tokenResponse p i.issued) := by
  simp only [decision, hgrant, orRefuse, decideInitial, h]

/-- A token is answered for once its record says what is in it. -/
theorem decision_answer (hp : p.IssuesCheckpoint) {body : Bytes} {event : AuditEvent}
    {response : TokenExchangeResponse}
    (h : decision p realm request body = .answer event response) :
    ∃ issued action, Issues p realm request body issued action ∧
      response.accessToken = issued.token ∧ Describes event action issued.checkpoint := by
  have hrun : exchange p realm request body (fun _ => .done) [] = .ok response [⟨event, true⟩] := by
    rw [exchange_eq_carryOut, h]
    rfl
  obtain ⟨-, issued, action, event', hissues, htoken, hdescribes, htrail⟩ :=
    (exchange_ok (fun _ => .done) [] realm request hp body).ok hrun
  obtain rfl : event = event' := by simpa using htrail
  exact ⟨issued, action, hissues, htoken, hdescribes⟩

theorem orRefuse_eq_reject {α : Type} {x : Except ExchangeError α} {k : α → Decision}
    {event : AuditEvent} {error : ExchangeError} (h : orRefuse x k = .reject event error) :
    ∃ a, x = .ok a ∧ k a = .reject event error := by
  cases x with
  | ok a => exact ⟨a, rfl, h⟩
  | error e => cases h

/-- A refusal that is recorded is recorded as one. -/
theorem decision_reject {body : Bytes} {event : AuditEvent} {error : ExchangeError}
    (h : decision p realm request body = .reject event error) :
    event.action = "pic.exchange.rejected" := by
  obtain ⟨grant, -, h⟩ := orRefuse_eq_reject h
  cases grant with
  | initial accessToken form =>
    obtain ⟨i, -, h⟩ := orRefuse_eq_reject h
    cases h
  | advancement candidateToken =>
    obtain ⟨now, -, h⟩ := orRefuse_eq_reject h
    obtain ⟨keys, -, h⟩ := orRefuse_eq_reject h
    obtain ⟨signer, -, h⟩ := orRefuse_eq_reject h
    revert h
    unfold decideCandidate
    dsimp only
    generalize preflightCandidateKeyMetadata p (profileEvidence realm request now) candidateToken
      none = result
    obtain ⟨_ | metadata, accepted⟩ := result
    · rintro ⟨⟩
      simp
    dsimp only
    cases metadata.lineageId with
    | none =>
      rintro ⟨⟩
      simp
    | some lineageId =>
      dsimp only
      split_ifs
      · rintro ⟨⟩
        simp
      generalize (p.settle _ _ _ _).1 = settled
      cases settled with
      | error error =>
        rintro ⟨⟩
        simp
      | ok issued =>
        intro h
        obtain ⟨id, -, h⟩ := orRefuse_eq_reject h
        cases h

/-! ## Requests in flight over one sink -/

open PicX.Audit (World Moment FileAuditSink Step)

/-- A request that has arrived, and the policy its records are rendered under. -/
structure Arrival where
  realm : TokenEndpoint
  request : Request
  body : Bytes
  policy : Option (String → String)

/-- A token that left: for which request, and where and when it was recorded. -/
structure Departed where
  arrival : Arrival
  sink : FileAuditSink
  moment : Moment
  response : TokenExchangeResponse

/-- The requests in flight, the tokens that left, and the world of the sink. -/
structure Desk where
  world : World
  inFlight : List Arrival := []
  answered : List Departed := []

variable (c : PicX.Audit.Crates)

/-- `TokenEndpoint::record` over the file sink. -/
def writeTo (sink : FileAuditSink) (m : Moment) (policy : Option (String → String))
    (event : AuditEvent) : Program PicX.Audit.Op World ExchangeError Unit :=
  mapError (fun error => serverError
    ("the exchange was not recorded, so no token was issued: " ++ error.display))
    (PicX.Audit.record c sink m event policy)

/-- What a process leaves; what it had open is lost when it dies. -/
def leaves {α : Type} : Ending World ExchangeError α → World
  | .ok _ w | .error _ w => w
  | .crash w => { w with opened := none }

/-- The token that leaves, if one does. -/
def leaving (a : Arrival) (sink : FileAuditSink) (m : Moment) :
    Ending World ExchangeError TokenExchangeResponse → List Departed
  | .ok response _ => [{ arrival := a, sink, moment := m, response }]
  | .error _ _ | .crash _ => []

/-- The requests that are still there: none when the process died. -/
def stillThere {ε α : Type} (requests : List Arrival) : Ending World ε α → List Arrival
  | .ok _ _ | .error _ _ => requests
  | .crash _ => []

variable (p) in
/-- A request is carried out: it holds the lock of the sink while it writes its record. -/
def Arrival.carriedOut (a : Arrival) (sink : FileAuditSink) (m : Moment)
    (f : PicX.Audit.Op → Outcome) (w : World) : Ending World ExchangeError TokenExchangeResponse :=
  (decision p a.realm a.request a.body).carryOut (writeTo c sink m a.policy) f w

namespace Desk

/-- A request arrives. -/
def arrive (d : Desk) (a : Arrival) : Desk := { d with inFlight := d.inFlight ++ [a] }

variable (p) in
/-- One of the requests in flight gets its turn at the sink, and answers. -/
def settle (d : Desk) (n : Nat) (sink : FileAuditSink) (m : Moment) (f : PicX.Audit.Op → Outcome) :
    Desk :=
  match d.inFlight[n]? with
  | none => d
  | some a =>
    let ending := a.carriedOut p c sink m f d.world
    { world := leaves ending
      inFlight := stillThere (d.inFlight.eraseIdx n) ending
      answered := d.answered ++ leaving a sink m ending }

/-- Any other call on the sink; a new sink is put in place by a new process. -/
def call (d : Desk) (s : Step) : Desk where
  world := s.run c d.world
  inFlight := match s.call with
    | .restart => []
    | _ => stillThere d.inFlight (s.action c s.outcome d.world)
  answered := d.answered

end Desk

/-- A turn at the sink: of a request in flight, or of any other call. -/
inductive Desk.Turn where
  | request (n : Nat) (sink : FileAuditSink) (m : Moment) (f : PicX.Audit.Op → Outcome)
  | call (s : Step)

def Desk.Turn.moment : Desk.Turn → Moment
  | .request _ _ m _ => m
  | .call s => s.moment

def Desk.Turn.sink : Desk.Turn → FileAuditSink
  | .request _ sink _ _ => sink
  | .call s => s.sink

def Desk.Turn.outcome : Desk.Turn → PicX.Audit.Op → Outcome
  | .request _ _ _ f => f
  | .call s => s.outcome

variable (p) in
def Desk.turn (d : Desk) : Desk.Turn → Desk
  | .request n sink m f => d.settle p c n sink m f
  | .call s => d.call c s

variable (p) in
/-- The desks reached from `start`, with the last reading of a clock that never goes back:
requests arrive and take their turns in any order, among any other calls. -/
inductive Exchanges (ok : Desk → Desk.Turn → Prop) (start : Desk) : Int → Desk → Prop
  | start : Exchanges ok start 0 start
  | arrive {t : Int} {d : Desk} (a : Arrival) : Exchanges ok start t d →
      Exchanges ok start t (d.arrive a)
  | turn {t : Int} {d : Desk} (u : Desk.Turn) : Exchanges ok start t d →
      t ≤ u.moment.now.val → ok d u → Exchanges ok start u.moment.now.val (d.turn p c u)

/-! ## What a turn does -/

variable {c} {f : PicX.Audit.Op → Outcome} {w w' : World} {sink : FileAuditSink} {m : Moment}
  {policy : Option (String → String)} {event : AuditEvent}

/-- A record of the endpoint is a call on the sink. -/
def recordStep (sink : FileAuditSink) (m : Moment) (policy : Option (String → String))
    (f : PicX.Audit.Op → Outcome) (event : AuditEvent) : Step where
  sink
  moment := m
  call := .record event policy
  outcome := f

/-- What follows the record touches nothing. -/
theorem leaves_write {α : Type} {q : Program PicX.Audit.Op World ExchangeError α}
    (hq : ∀ w, leaves (q f w) = w) :
    leaves ((do writeTo c sink m policy event; q) f w) =
      (recordStep sink m policy f event).run c w := by
  change leaves (Program.bind (writeTo c sink m policy event) (fun _ => q) f w) =
    PicX.Audit.afterwards (PicX.Audit.record c sink m event policy f w)
  unfold Program.bind writeTo mapError
  cases PicX.Audit.record c sink m event policy f w with
  | ok u w' => exact hq w'
  | error e w' => rfl
  | crash w' => rfl

theorem write_ok {α : Type} {q : Program PicX.Audit.Op World ExchangeError α} {b : α}
    (h : (do writeTo c sink m policy event; q) f w = .ok b w') :
    ∃ w₁, PicX.Audit.record c sink m event policy f w = .ok () w₁ ∧ q f w₁ = .ok b w' := by
  obtain ⟨u, w₁, hwrite, hq⟩ := bind_eq_ok h
  unfold writeTo mapError at hwrite
  cases hrecord : PicX.Audit.record c sink m event policy f w with
  | ok u w₂ =>
    rw [hrecord] at hwrite
    cases hwrite
    exact ⟨w₁, rfl, hq⟩
  | error e w₂ =>
    rw [hrecord] at hwrite
    cases hwrite
  | crash w₂ =>
    rw [hrecord] at hwrite
    cases hwrite

theorem write_of_ok {α : Type} {q : Program PicX.Audit.Op World ExchangeError α}
    (h : PicX.Audit.record c sink m event policy f w = .ok () w') :
    (do writeTo c sink m policy event; q) f w = q f w' := by
  refine bind_of_ok (a := ()) ?_
  rw [writeTo, mapError, h]

/-- A request leaves the world as it was, or one record further. -/
theorem Arrival.leaves_carriedOut (a : Arrival) (sink : FileAuditSink) (m : Moment)
    (f : PicX.Audit.Op → Outcome) (w : World) :
    leaves (a.carriedOut p c sink m f w) = w ∨
      ∃ event, leaves (a.carriedOut p c sink m f w) =
        (recordStep sink m a.policy f event).run c w := by
  unfold Arrival.carriedOut
  cases decision p a.realm a.request a.body with
  | refuse error => exact .inl rfl
  | reject event error => exact .inr ⟨event, leaves_write fun _ => rfl⟩
  | answer event response => exact .inr ⟨event, leaves_write fun _ => rfl⟩

/-- A token leaves once its record succeeded. -/
theorem Arrival.carriedOut_ok {a : Arrival} {response : TokenExchangeResponse}
    (h : a.carriedOut p c sink m f w = .ok response w') :
    ∃ event, decision p a.realm a.request a.body = .answer event response ∧
      PicX.Audit.record c sink m event a.policy f w = .ok () w' := by
  unfold Arrival.carriedOut at h
  cases hdecision : decision p a.realm a.request a.body with
  | refuse error =>
    rw [hdecision] at h
    cases h
  | reject event error =>
    rw [hdecision] at h
    obtain ⟨w₁, -, hq⟩ := write_ok h
    cases hq
  | answer event response' =>
    rw [hdecision] at h
    obtain ⟨w₁, hrecord, hq⟩ := write_ok h
    cases hq
    exact ⟨event, rfl, hrecord⟩

/-- A token whose record succeeded leaves. -/
theorem Arrival.carriedOut_answer {a : Arrival} {response : TokenExchangeResponse}
    (hdecision : decision p a.realm a.request a.body = .answer event response)
    (hrecord : PicX.Audit.record c sink m event a.policy f w = .ok () w') :
    a.carriedOut p c sink m f w = .ok response w' := by
  rw [Arrival.carriedOut, hdecision]
  exact write_of_ok hrecord

theorem settle_of_ok {d : Desk} {n : Nat} {a : Arrival} {response : TokenExchangeResponse}
    (ha : d.inFlight[n]? = some a) (h : a.carriedOut p c sink m f d.world = .ok response w') :
    (d.settle p c n sink m f).answered =
      d.answered ++ [{ arrival := a, sink, moment := m, response }] := by
  unfold Desk.settle
  rw [ha]
  dsimp only
  rw [h]
  rfl

theorem Desk.turn_call_answered (d : Desk) (s : Step) :
    (d.turn p c (.call s)).answered = d.answered := rfl

/-- What a turn does to the world is at most one call on the sink. -/
theorem Desk.turn_world (d : Desk) (u : Desk.Turn) : (d.turn p c u).world = d.world ∨
    ∃ s : Step, s.sink = u.sink ∧ s.moment = u.moment ∧
      (d.turn p c u).world = s.run c d.world := by
  cases u with
  | call s => exact .inr ⟨s, rfl, rfl, rfl⟩
  | request n sink m f =>
    unfold Desk.turn Desk.settle
    dsimp only
    cases d.inFlight[n]? with
    | none => exact .inl rfl
    | some a =>
      rcases a.leaves_carriedOut (p := p) (c := c) sink m f d.world with h | ⟨event, h⟩
      · exact .inl h
      · exact .inr ⟨recordStep sink m a.policy f event, rfl, rfl, h⟩

/-- The tokens that left stay on the list; a turn adds at most one, after its record. -/
theorem Desk.turn_answered {d : Desk} {u : Desk.Turn} {x : Departed}
    (hx : x ∈ (d.turn p c u).answered) : x ∈ d.answered ∨
      x.sink = u.sink ∧ x.moment = u.moment ∧ ∃ event,
        decision p x.arrival.realm x.arrival.request x.arrival.body = .answer event x.response ∧
        PicX.Audit.record c x.sink x.moment event x.arrival.policy u.outcome d.world =
          .ok () (d.turn p c u).world := by
  cases u with
  | call s => exact .inl hx
  | request n sink m f =>
    unfold Desk.turn Desk.settle at hx ⊢
    dsimp only at hx ⊢
    cases ha : d.inFlight[n]? with
    | none =>
      rw [ha] at hx
      exact .inl hx
    | some a =>
      rw [ha] at hx
      dsimp only at hx ⊢
      rcases List.mem_append.mp hx with hold | hnew
      · exact .inl hold
      · right
        cases hending : a.carriedOut p c sink m f d.world with
        | ok response w' =>
          rw [hending] at hnew
          obtain rfl := List.mem_singleton.mp hnew
          obtain ⟨event, hdecision, hrecord⟩ := Arrival.carriedOut_ok hending
          exact ⟨rfl, rfl, event, hdecision, hrecord⟩
        | error e w' =>
          rw [hending] at hnew
          cases hnew
        | crash w' =>
          rw [hending] at hnew
          cases hnew

/-! ## Every token that left is on disk -/

open PicX.Audit (Anchored OnDisk Outlives)

variable (c p) in
/-- The record of a token is on disk: what is in it is the lineage and the position of the
checkpoint in the token. -/
def OnFile (x : Departed) (w : World) : Prop :=
  ∃ issued action event,
    Issues p x.arrival.realm x.arrival.request x.arrival.body issued action ∧
    x.response.accessToken = issued.token ∧ Describes event action issued.checkpoint ∧
    OnDisk c x.sink x.moment event x.arrival.policy w

theorem OnFile.outlives {x : Departed} {oldest : Int} (h : OnFile p c x w)
    (houtlives : Outlives oldest w w') (hkept : oldest ≤ x.moment.day) : OnFile p c x w' := by
  obtain ⟨issued, action, event, hissues, htoken, hdescribes, hdisk⟩ := h
  exact ⟨issued, action, event, hissues, htoken, hdescribes, hdisk.outlives houtlives hkept⟩

/-- Turns of sinks that are to keep records for at least `R` seconds. -/
abbrev Retain (R : Nat) (_ : Desk) (u : Desk.Turn) : Prop := R ≤ u.sink.retention

variable (c p) in
/-- What every turn keeps: what is open is there, and so are the records of the days kept. -/
structure Filed (R : Nat) (t : Int) (d : Desk) : Prop where
  anchored : Anchored (Civil.dayOf t) d.world
  onFile : ∀ x ∈ d.answered, Civil.dayOf t - (R / 86400 : Nat) ≤ x.moment.day → OnFile p c x d.world

theorem Filed.turn (hp : p.IssuesCheckpoint) {R : Nat} {t : Int} {d : Desk} {u : Desk.Turn}
    (h : Filed p c R t d) (hle : t ≤ u.moment.now.val) (hok : R ≤ u.sink.retention) :
    Filed p c R u.moment.now.val (d.turn p c u) := by
  have hday : Civil.dayOf t ≤ Civil.dayOf u.moment.now.val := PicX.Audit.day_mono hle
  have hanchored := h.anchored.later hday
  have houtlives : Outlives (Civil.dayOf u.moment.now.val - (R / 86400 : Nat)) d.world
      (d.turn p c u).world := by
    rcases d.turn_world (c := c) (p := p) u with heq | ⟨s, hsink, hmoment, heq⟩
    · exact heq ▸ .refl _ _
    · rw [heq]
      refine (s.outlives d.world).mono ?_
      rw [hsink, hmoment]
      exact PicX.Audit.oldestKept_le hok _
  constructor
  · rcases d.turn_world (c := c) (p := p) u with heq | ⟨s, -, hmoment, heq⟩
    · exact heq ▸ hanchored
    · rw [heq, ← hmoment]
      exact s.anchored (hmoment ▸ hanchored)
  · intro x hx hkept
    rcases Desk.turn_answered hx with hold | ⟨-, hmoment, event, hdecision, hrecord⟩
    · exact (h.onFile x hold (by omega)).outlives houtlives hkept
    · obtain ⟨issued, action, hissues, htoken, hdescribes⟩ := decision_answer hp hdecision
      refine ⟨issued, action, event, hissues, htoken, hdescribes, ?_⟩
      exact ((PicX.Audit.record_onDisk (hmoment ▸ hanchored)).ok hrecord).2

/-- **Every token that left is on disk.** Requests of any realms are in flight together, in any
order and among any other calls on the sink; any operation fails and the process dies at any
point. At every moment, the whole line of the record of a token that has left, with the lineage and
the position of its checkpoint, is in the file of its day, as long as that day is kept. -/
theorem answered_on_disk (hp : p.IssuesCheckpoint) {R : Nat} {start : Desk}
    (hopened : start.world.opened = none) (hnone : start.answered = []) {t : Int} {d : Desk}
    (h : Exchanges p c (Retain R) start t d) :
    ∀ x ∈ d.answered, Civil.dayOf t - (R / 86400 : Nat) ≤ x.moment.day → OnFile p c x d.world := by
  suffices hfiled : Filed p c R t d from hfiled.onFile
  induction h with
  | start =>
    refine ⟨fun o ho => ?_, fun x hx => ?_⟩
    · rw [hopened] at ho
      cases ho
    · rw [hnone] at hx
      cases hx
  | arrive a hrun ih => exact ⟨ih.anchored, ih.onFile⟩
  | turn u hrun hle hok ih => exact ih.turn hp hle hok

/-! ## The ledger balances -/

open PicX.Audit (Intact NothingDue Record Log current nextRecord)

/-- The actions of the records of tokens. -/
def issuances : List String := ["pic.exchange.initialized", "pic.exchange.advanced"]

/-- The records of tokens among these. -/
def tokenRecords (rs : List Record) : List Record := rs.filter fun r => r.body.action ∈ issuances

theorem tokenRecords_append (rs : List Record) (r : Record) : tokenRecords (rs ++ [r]) =
    tokenRecords rs ++ if r.body.action ∈ issuances then [r] else [] := by
  unfold tokenRecords
  rw [List.filter_append]
  split_ifs with h <;> simp [h]

variable (p) in
/-- The record of a token: its action, its lineage and its position are those of the token. -/
def Accounts (x : Departed) (r : Record) : Prop :=
  ∃ issued, Issues p x.arrival.realm x.arrival.request x.arrival.body issued r.body.action ∧
    x.response.accessToken = issued.token ∧
    (∃ id, issued.checkpoint.lineageId = some id ∧ r.body.continuityId = some id) ∧
    r.body.continuityPosition = some issued.checkpoint.position

/-- Every operation is done, expiry takes nothing, and only the token endpoint records tokens. -/
def Honest (d : Desk) (u : Desk.Turn) : Prop :=
  (∀ o, u.outcome o = .done) ∧
    (current d.world.opened u.moment.day = false → NothingDue u.sink u.moment.day d.world) ∧
    match u with
    | .request _ _ _ _ => True
    | .call s => match s.call with
      | .record event _ => event.action ∉ issuances
      | .prepare => NothingDue s.sink s.moment.day d.world
      | .shutdown | .restart => True

variable (p c) in
/-- The trail holds the records of the tokens that left, one for one and in order. -/
def Balanced (today : Int) (d : Desk) : Prop :=
  ∃ log, Intact c today d.world log ∧ log.Full ∧ d.world.directory.isSome ∧
    List.Forall₂ (Accounts p) d.answered (tokenRecords log.records)

/-- The actions of issued tokens are those of the records of tokens. -/
theorem Issues.action_mem {realm : TokenEndpoint} {request : Request} {body : Bytes}
    {issued : IssuedPicToken A} {action : String} (h : Issues p realm request body issued action) :
    action ∈ issuances := by
  cases h <;> simp [issuances]

/-- Where nothing fails, a record adds the next record to the trail. -/
theorem record_honest (hc : c.Lawful) {log : Log} {today : Int} (h : Intact c today w log)
    (hfull : log.Full) (hle : today ≤ m.day) (hf : ∀ o, f o = .done)
    (hdue : current w.opened m.day = false → NothingDue sink m.day w) (event : AuditEvent)
    (policy : Option (String → String)) :
    ∃ w' log' o, PicX.Audit.record c sink m event policy f w = .ok () w' ∧ Intact c m.day w' log' ∧
      log'.Full ∧ w'.directory.isSome ∧
      log'.records = log.records ++ [nextRecord c sink m event policy o] := by
  have hspec : WP (PicX.Audit.record c sink m event policy) f _ _ _ w :=
    PicX.Audit.record_adds hc h hle (h.harmless hc hfull hf hdue)
  obtain ⟨u, w', hend, log', o, h', hadds, -⟩ := (hspec.mono (fun _ _ h => h)
    (fun _ _ h => PicX.Audit.not_refused hf h.choose_spec.2) fun _ h =>
      PicX.Audit.not_cut hf h).exists_ok
  exact ⟨w', log', o, hend, h', hadds.extends.full hfull, hadds.extends.isSome h', hadds.records⟩

theorem Balanced.later {today today' : Int} {d : Desk} (h : Balanced p c today d)
    (hle : today ≤ today') : Balanced p c today' d := by
  obtain ⟨log, hintact, hrest⟩ := h
  exact ⟨log, hintact.later hle, hrest⟩

/-- The turn of a request: a token leaves and its record is added, or neither. -/
theorem Balanced.settle (hc : c.Lawful) (hp : p.IssuesCheckpoint) {today : Int} {d : Desk} {n : Nat}
    (h : Balanced p c today d) (hle : today ≤ m.day) (hf : ∀ o, f o = .done)
    (hdue : current d.world.opened m.day = false → NothingDue sink m.day d.world) :
    Balanced p c m.day (d.settle p c n sink m f) := by
  unfold Desk.settle
  cases d.inFlight[n]? with
  | none => exact h.later hle
  | some a =>
    obtain ⟨log, hintact, hfull, hsome, hbalance⟩ := h
    dsimp only
    unfold Arrival.carriedOut
    cases hdecision : decision p a.realm a.request a.body with
    | refuse error =>
      have hending : (Decision.refuse error).carryOut (writeTo c sink m a.policy) f d.world =
          .error error d.world := rfl
      rw [hending]
      refine ⟨log, hintact.later hle, hfull, hsome, ?_⟩
      simpa [leaving] using hbalance
    | reject event error =>
      obtain ⟨w', log', o, hend, h', hfull', hsome', hrecords⟩ :=
        record_honest hc hintact hfull hle hf hdue event a.policy
      have hending : (Decision.reject event error).carryOut (writeTo c sink m a.policy) f d.world =
          .error error w' := write_of_ok hend
      have haction : (nextRecord c sink m event a.policy o).body.action ∉ issuances := by
        show event.action ∉ issuances
        simp [decision_reject hdecision, issuances]
      rw [hending]
      refine ⟨log', h', hfull', hsome', ?_⟩
      rw [hrecords, tokenRecords_append, if_neg haction]
      simpa [leaving] using hbalance
    | answer event response =>
      obtain ⟨issued, action, hissues, htoken, hdescribes⟩ := decision_answer hp hdecision
      obtain ⟨w', log', o, hend, h', hfull', hsome', hrecords⟩ :=
        record_honest hc hintact hfull hle hf hdue event a.policy
      have hending : (Decision.answer event response).carryOut (writeTo c sink m a.policy) f
          d.world = .ok response w' := write_of_ok hend
      have haction : (nextRecord c sink m event a.policy o).body.action = action :=
        hdescribes.action
      rw [hending]
      refine ⟨log', h', hfull', hsome', ?_⟩
      rw [hrecords, tokenRecords_append, if_pos (haction ▸ hissues.action_mem)]
      refine List.rel_append hbalance (.cons ⟨issued, haction ▸ hissues, htoken, ?_, ?_⟩ .nil)
      · exact hdescribes.lineage
      · exact hdescribes.position

/-- A call that records no token leaves the records of tokens as they are. -/
theorem Balanced.call (hc : c.Lawful) {today : Int} {d : Desk} {s : Step}
    (h : Balanced p c today d) (hle : today ≤ s.moment.day) (hok : Honest d (.call s)) :
    Balanced p c s.moment.day (d.call c s) := by
  obtain ⟨log, hintact, hfull, hsome, hbalance⟩ := h
  obtain ⟨hf, hdue, hcall⟩ := hok
  suffices hworld : ∃ log', Intact c s.moment.day (s.run c d.world) log' ∧ log'.Full ∧
      (s.run c d.world).directory.isSome ∧ tokenRecords log'.records = tokenRecords log.records by
    obtain ⟨log', h', hfull', hsome', hrecords⟩ := hworld
    exact ⟨log', h', hfull', hsome', hrecords ▸ hbalance⟩
  refine PicX.Audit.Step.run_of_wp (I := fun w => ∃ log', Intact c s.moment.day w log' ∧ log'.Full ∧
    w.directory.isSome ∧ tokenRecords log'.records = tokenRecords log.records) ?_
  unfold Step.action
  dsimp only at hcall
  cases hkind : s.call with
  | prepare =>
    rw [hkind] at hcall
    refine (PicX.Audit.prepare_nothing hintact hf hcall).mono ?_ (fun _ _ h => h.elim)
      (fun _ h => h.elim)
    rintro _ w' ⟨h', hsome'⟩
    exact ⟨log, h'.later hle, hfull, hsome', rfl⟩
  | record event policy =>
    rw [hkind] at hcall
    have hexpiry : current d.world.opened s.moment.day = false →
        NothingDue s.sink s.moment.day d.world := hdue
    obtain ⟨w', log', o, hend, h', hfull', hsome', hrecords⟩ :=
      record_honest hc hintact hfull hle hf hexpiry event policy
    have hend : PicX.Audit.record c s.sink s.moment event policy s.outcome d.world = .ok () w' :=
      hend
    show WP (PicX.Audit.record c s.sink s.moment event policy) _ _ _ _ _
    unfold WP
    rw [hend]
    refine ⟨log', h', hfull', hsome', ?_⟩
    have haction : (nextRecord c s.sink s.moment event policy o).body.action ∉ issuances := hcall
    rw [hrecords, tokenRecords_append, if_neg haction, List.append_nil]
  | shutdown =>
    refine (PicX.Audit.shutdown_intact hintact fun _ => hf _).mono ?_
      (fun _ _ h => (PicX.Audit.not_refused hf h.2).elim)
      (fun _ h => (PicX.Audit.not_cut hf h).elim)
    rintro _ w' ⟨h', hsome'⟩
    exact ⟨log, h'.later hle, hfull, hsome'.trans hsome, rfl⟩
  | restart => exact ⟨log, (hintact.later hle).closed, hfull, hsome, rfl⟩

/-- **The ledger balances.** Over an empty directory, with every operation done and expiry taking
nothing, requests in flight together in any order and any other calls among them: the trail on disk
verifies, and the records of tokens in it are those of the tokens that left, one for one and in the
order in which they left. -/
theorem ledger_balances (hc : c.Lawful) (hp : p.IssuesCheckpoint) {start : Desk}
    (hdir : start.world.directory = some ∅) (hopened : start.world.opened = none)
    (hnone : start.answered = []) {t : Int} {d : Desk} (h : Exchanges p c Honest start t d)
    (path : String) :
    (∃ v, PicX.Audit.verify c path d.world.directory = .ok v) ∧
      ∃ rs, PicX.Audit.trail c d.world.files = some rs ∧
        List.Forall₂ (Accounts p) d.answered (tokenRecords rs) := by
  have hbalanced : Balanced p c (Civil.dayOf t) d := by
    induction h with
    | start =>
      refine ⟨[], Intact.fresh (by simp [World.files, hdir]) hopened, ?_, by simp [hdir], ?_⟩
      · simp [Log.Full]
      · rw [hnone]
        exact .nil
    | arrive a hrun ih => exact ih
    | turn u hrun hle hok ih =>
      have hday := PicX.Audit.day_mono hle
      cases u with
      | request n sink m f => exact ih.settle hc hp hday hok.1 hok.2.1
      | call s => exact ih.call hc hday hok
  obtain ⟨log, hintact, -, hsome, hbalance⟩ := hbalanced
  obtain ⟨directory, hdirectory⟩ := Option.isSome_iff_exists.mp hsome
  refine ⟨hdirectory ▸ hintact.verifies hc hdirectory path, log.records, ?_, hbalance⟩
  exact hintact.holds.trail_eq hc

/-! ### The first token of an empty trail -/

section FirstToken

set_option maxRecDepth 2000

open PicX.Audit (emptyTrail oneDay at_ sunday monday recordAt cutAfterOpening serde serde_lawful
  firstSha)

/-- The request that starts the lineage, as it arrives. -/
def firstArrival : Arrival where
  realm := testRealm
  request := testRequest
  body := utf8 (formBody initialForm)
  policy := none

def firstDeparted : Departed where
  arrival := firstArrival
  sink := oneDay
  moment := at_ sunday
  response := tokenResponse testPic firstInitialized.issued

/-- The request has had its turn. -/
def firstTurn : Desk.Turn := .request 0 oneDay (at_ sunday) fun _ => .done

def firstDesk (c : PicX.Audit.Crates) : Desk :=
  (({ world := emptyTrail } : Desk).arrive firstArrival).turn testPic c firstTurn

theorem decision_first {realm : TokenEndpoint} {request : Request} {body : Bytes}
    (hrealm : realm = testRealm) (hrequest : request = testRequest)
    (hbody : body = utf8 (formBody initialForm)) : decision testPic realm request body =
      .answer (initializedEvent firstInitialized)
        (tokenResponse testPic firstInitialized.issued) := by
  have hgrant := grantOf_initial
  rw [← hbody] at hgrant
  have hinitial := initialise_first
  rw [← hrealm, ← hrequest] at hinitial
  exact decision_initial hgrant hinitial

theorem firstDesk_answered {c : PicX.Audit.Crates} (hc : c.Lawful) :
    (firstDesk c).answered = [firstDeparted] := by
  obtain ⟨w', -, -, hend, -⟩ := record_honest hc (Intact.fresh (w := emptyTrail) rfl rfl)
    (by simp [Log.Full]) (show 0 ≤ (at_ sunday).day by decide) (fun _ => rfl)
    (fun _ => PicX.Audit.nothingDue_of_empty rfl oneDay _)
    (initializedEvent firstInitialized) none
  have hdecision : decision testPic firstArrival.realm firstArrival.request firstArrival.body =
      .answer (initializedEvent firstInitialized)
        (tokenResponse testPic firstInitialized.issued) := by
    apply decision_first <;> simp only [firstArrival]
  have hcarried : firstArrival.carriedOut testPic c oneDay (at_ sunday) (fun _ => .done)
      emptyTrail = .ok (tokenResponse testPic firstInitialized.issued) w' :=
    Arrival.carriedOut_answer hdecision hend
  exact settle_of_ok (d := Desk.arrive { world := emptyTrail } firstArrival) (n := 0) rfl hcarried

theorem firstDesk_served {c : PicX.Audit.Crates} {ok : Desk → Desk.Turn → Prop}
    (hok : ok (Desk.arrive { world := emptyTrail } firstArrival) firstTurn) :
    Exchanges testPic c ok { world := emptyTrail } sunday.val (firstDesk c) :=
  .turn firstTurn (.arrive firstArrival .start) (by decide) hok

/-- A process that dies on Monday. -/
def diesOnMonday : Desk.Turn := .call { recordAt monday with outcome := cutAfterOpening }

/-- The record of the first token is on disk after a process that died on Monday. -/
theorem answered_on_disk_died : OnFile testPic (serde firstSha) firstDeparted
    ((firstDesk (serde firstSha)).turn testPic (serde firstSha) diesOnMonday).world := by
  have hanswered : firstDeparted ∈
      ((firstDesk (serde firstSha)).turn testPic (serde firstSha) diesOnMonday).answered := by
    rw [diesOnMonday, Desk.turn_call_answered, firstDesk_answered (serde_lawful firstSha)]
    exact List.mem_singleton_self _
  exact answered_on_disk (R := 86400) testPic_issuesCheckpoint (by rfl) (by rfl)
    (.turn diesOnMonday (firstDesk_served (le_refl 86400)) (by decide) (le_refl 86400))
    firstDeparted hanswered (by decide)

theorem ledger_balances_first :
    (∃ v, PicX.Audit.verify (serde firstSha) "trail" (firstDesk (serde firstSha)).world.directory =
        .ok v) ∧
      ∃ rs, PicX.Audit.trail (serde firstSha) (firstDesk (serde firstSha)).world.files = some rs ∧
        List.Forall₂ (Accounts testPic) [firstDeparted] (tokenRecords rs) := by
  have hrun : Exchanges testPic (serde firstSha) Honest { world := emptyTrail } sunday.val
      (firstDesk (serde firstSha)) :=
    firstDesk_served ⟨fun _ => rfl, fun _ => PicX.Audit.nothingDue_of_empty rfl _ _, trivial⟩
  rw [← firstDesk_answered (serde_lawful firstSha)]
  exact ledger_balances (serde_lawful firstSha) testPic_issuesCheckpoint rfl rfl rfl hrun "trail"

end FirstToken

end PicX.Realm
