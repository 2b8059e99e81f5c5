import PicX.Realm.Algorithms
import PicX.Realm.Exchange

/-!
# No token without a record

Every exit of the two flows is looked at once, in `wp_exchangeInitial` and `wp_advance`, which say
what an exit leaves on the trail. A token is returned only after the record of its checkpoint was
written; a refused candidate is on the trail as one rejection.

* `Refused`, `Settles` — how an advancement is decided.
* `token_recorded` — **every request leaves the trail as it was, or one attempt longer, and returns
  a token only when that attempt is the written record of the issued checkpoint.**
-/

namespace PicX.Realm

open ExchangeError Program
open PicX.Audit (AuditEvent Subject)

variable {A : Type} (p : Pic A)

/-- Issuing a token keeps the checkpoint it was given. -/
def Pic.IssuesCheckpoint : Prop := ∀ checkpoint signer context issued,
  p.issueSettled checkpoint signer context = .ok issued → issued.checkpoint = checkpoint

/-! ## How an advancement is decided -/

section Decided

variable (realm : TokenEndpoint) (request : Request) (candidateToken : String)

/-- What every advancement starts with. -/
structure Opened (now : Int) (keys : KeyManager) (signer : ArtifactSigner) : Prop where
  clock : unixNow (request.clock 0) = .ok now
  ring : realm.keys = .ok keys
  signer : realmTokenSigner keys realm.tokenSigningAlgorithm = .ok signer

/-- The preflight of a candidate at some time. -/
def preflight (now : Int) : Except ExchangeError CandidateMetadata × Option Accepted :=
  preflightCandidateKeyMetadata p (profileEvidence realm request now) candidateToken none

/-- The answer of settlement to a candidate that passed its preflight. -/
def settlement (now : Int) (keys : KeyManager) (signer : ArtifactSigner) (m : CandidateMetadata)
    (lineageId : String) (accepted : Option Accepted) : Except RejectReason (IssuedPicToken A) :=
  (p.settle (settlementAuthority p keys (profileEvidence realm request now) signer) candidateToken
    (advanceContext realm now m lineageId) accepted).1

/-- A candidate is refused, for the reason the caller is given. -/
inductive Refused : Prop
  | preflight {now : Int} {keys : KeyManager} {signer : ArtifactSigner} {e : ExchangeError}
      {accepted : Option Accepted} :
      Opened realm request now keys signer →
      preflight p realm request candidateToken now = (.error e, accepted) → Refused
  | unnamed {now : Int} {keys : KeyManager} {signer : ArtifactSigner} {m : CandidateMetadata}
      {accepted : Option Accepted} :
      Opened realm request now keys signer →
      preflight p realm request candidateToken now = (.ok m, accepted) →
      m.lineageId = none → Refused
  | expired {now : Int} {keys : KeyManager} {signer : ArtifactSigner} {m : CandidateMetadata}
      {accepted : Option Accepted} :
      Opened realm request now keys signer →
      preflight p realm request candidateToken now = (.ok m, accepted) →
      m.expiresAt ≤ now → Refused
  | settlement {now : Int} {keys : KeyManager} {signer : ArtifactSigner} {m : CandidateMetadata}
      {accepted : Option Accepted} {lineageId : String} {e : RejectReason} :
      Opened realm request now keys signer →
      preflight p realm request candidateToken now = (.ok m, accepted) →
      m.lineageId = some lineageId →
      settlement p realm request candidateToken now keys signer m lineageId accepted = .error e →
      Refused

/-- A candidate is settled into a token, at some time. -/
def Settles (now : Int) (keys : KeyManager) (issued : IssuedPicToken A) : Prop :=
  ∃ signer m accepted lineageId,
    Opened realm request now keys signer ∧
    preflight p realm request candidateToken now = (.ok m, accepted) ∧
    m.lineageId = some lineageId ∧ now < m.expiresAt ∧
    settlement p realm request candidateToken now keys signer m lineageId accepted = .ok issued

variable {p realm request candidateToken}

theorem Opened.unique {now now' : Int} {keys keys' : KeyManager} {signer signer' : ArtifactSigner}
    (h : Opened realm request now keys signer) (h' : Opened realm request now' keys' signer') :
    now = now' ∧ keys = keys' ∧ signer = signer' := by
  have hnow : now = now' := Except.ok.inj (h.clock.symm.trans h'.clock)
  have hkeys : keys = keys' := Except.ok.inj (h.ring.symm.trans h'.ring)
  subst hkeys
  exact ⟨hnow, rfl, Except.ok.inj (h.signer.symm.trans h'.signer)⟩

theorem Refused.opened (h : Refused p realm request candidateToken) :
    ∃ now keys signer, Opened realm request now keys signer := by
  cases h with
  | preflight ho _ => exact ⟨_, _, _, ho⟩
  | unnamed ho _ _ => exact ⟨_, _, _, ho⟩
  | expired ho _ _ => exact ⟨_, _, _, ho⟩
  | settlement ho _ _ _ => exact ⟨_, _, _, ho⟩

/-- A candidate that is refused is not settled: every step is a function of the request. -/
theorem Refused.not_settles {now : Int} {keys : KeyManager} {issued : IssuedPicToken A}
    (h : Refused p realm request candidateToken) :
    ¬Settles p realm request candidateToken now keys issued := by
  intro ⟨signer, m, accepted, id, hopened, hpre, hid, hlive, hsettle⟩
  cases h with
  | preflight ho he =>
    obtain ⟨rfl, rfl, rfl⟩ := hopened.unique ho
    rw [hpre] at he
    cases he
  | unnamed ho he hnone =>
    obtain ⟨rfl, rfl, rfl⟩ := hopened.unique ho
    rw [hpre] at he
    cases he
    rw [hid] at hnone
    cases hnone
  | expired ho he hexp =>
    obtain ⟨rfl, rfl, rfl⟩ := hopened.unique ho
    rw [hpre] at he
    cases he
    omega
  | settlement ho he hid' hs =>
    obtain ⟨rfl, rfl, rfl⟩ := hopened.unique ho
    rw [hpre] at he
    cases he
    rw [hid] at hid'
    cases hid'
    rw [hsettle] at hs
    cases hs

end Decided

/-! ## Records -/

variable {f : Nat → Outcome} {E : ExchangeError → Trail → Prop} {C : Trail → Prop} {trail : Trail}

/-- The error of a request whose record was not written. -/
def unrecorded (reason : String) : ExchangeError :=
  serverError ("the exchange was not recorded, so no token was issued: " ++ reason)

theorem wp_record {event : AuditEvent} {Q : Unit → Trail → Prop}
    (hdone : f trail.length = .done → Q () (trail ++ [⟨event, true⟩]))
    (hfailed : ∀ n reason, f trail.length = .failed n reason →
      E (unrecorded reason) (trail ++ [⟨event, false⟩]))
    (hcrashed : f trail.length = .crashed → C trail) : WP (record event) f Q E C trail := by
  unfold record
  rw [wp_bind, wp_get]
  exact WP.perform hdone hfailed hcrashed

theorem record_done {event : AuditEvent} (hf : f trail.length = .done) :
    record event f trail = .ok () (trail ++ [⟨event, true⟩]) := by
  have hget : (get : Exchange Trail) f trail = .ok trail trail := rfl
  rw [record, bind_of_ok hget, perform, hf]

/-- A refusal is recorded, and then the caller is told. -/
theorem wp_reject {event : AuditEvent} {e : ExchangeError}
    {Q : TokenExchangeResponse → Trail → Prop}
    (h : ∀ e written, (written = false → ∃ reason, e = unrecorded reason) →
      E e (trail ++ [⟨event, written⟩]))
    (hcrash : f trail.length = .crashed → C trail) :
    WP (do record event; throw e) f Q E C trail := by
  rw [wp_bind]
  apply wp_record
  · intro _
    exact h e true (fun hf => absurd hf (by decide))
  · intro _ reason _
    exact h _ false (fun _ => ⟨reason, rfl⟩)
  · exact hcrash

/-- Every record of a refusal is one of the action `pic.exchange.rejected`. -/
@[simp] theorem rejectedEvent_action (realm : TokenEndpoint) (lineageId : Option String)
    (position : Option Nat) :
    (rejectedEvent realm lineageId position).action = "pic.exchange.rejected" := by
  cases lineageId <;> cases position <;> rfl

/-! ## The two flows -/

variable {p} {realm : TokenEndpoint} {request : Request} {Q : TokenExchangeResponse → Trail → Prop}

theorem wp_exchangeInitial {accessToken : String} {form : Map String}
    (hrefused : ∀ e, initialise p realm request accessToken form = .error e → E e trail)
    (hissued : ∀ i, initialise p realm request accessToken form = .ok i →
      WP (do record (initializedEvent i); pure (tokenResponse p i.issued)) f Q E C trail) :
    WP (exchangeInitial p realm request accessToken form) f Q E C trail := by
  unfold exchangeInitial
  rw [wp_bind]
  exact WP.ofExcept hissued hrefused

/-- The exits of an advancement: it does not open, it is refused, it is settled into a checkpoint
that names no lineage, or it is settled. -/
theorem wp_advance {candidateToken : String}
    (hclosed : ∀ e, (¬∃ now keys signer, Opened realm request now keys signer) → E e trail)
    (hrefused : ∀ id position e, Refused p realm request candidateToken →
      WP (do recordAdvancementRejected realm id position; throw e) f Q E C trail)
    (hunnamed : ∀ now keys issued, Settles p realm request candidateToken now keys issued →
      issued.checkpoint.lineageId = none →
      E (serverError "the settled checkpoint has no lineage identifier to audit") trail)
    (hsettled : ∀ now keys issued id, Settles p realm request candidateToken now keys issued →
      issued.checkpoint.lineageId = some id →
      WP (do record (advancedEvent realm id issued); pure (tokenResponse p issued)) f Q E C trail) :
    WP (advance p realm request candidateToken) f Q E C trail := by
  unfold advance
  rw [wp_bind]
  refine WP.ofExcept (fun now hnow => ?_) fun e he => hclosed e ?_
  swap
  · intro ⟨now, _, _, h⟩
    exact absurd h.clock (by simp [he])
  rw [wp_bind]
  refine WP.ofExcept (fun keys hkeys => ?_) fun e he => hclosed e ?_
  swap
  · intro ⟨_, keys, _, h⟩
    exact absurd h.ring (by simp [he])
  rw [wp_bind]
  refine WP.ofExcept (fun signer hsigner => ?_) fun e he => hclosed e ?_
  swap
  · intro ⟨_, keys', _, h⟩
    have heq : keys' = keys := by
      have := h.ring
      rw [hkeys] at this
      exact (Except.ok.inj this).symm
    rw [← heq] at he
    exact absurd h.signer (by simp [he])
  have hopened : Opened realm request now keys signer := ⟨hnow, hkeys, hsigner⟩
  dsimp only
  split
  · rename_i e _ hpre
    exact hrefused _ _ _ (.preflight hopened hpre)
  rename_i m accepted hpre
  split
  · rename_i hid
    exact hrefused _ _ _ (.unnamed hopened hpre hid)
  rename_i id hid
  split
  · rename_i hexpired
    exact hrefused _ _ _ (.expired hopened hpre hexpired)
  rename_i hlive
  split
  · rename_i e hsettle
    exact hrefused _ _ _ (.settlement hopened hpre hid hsettle)
  rename_i issued hsettle
  have hsettles : Settles p realm request candidateToken now keys issued :=
    ⟨signer, m, accepted, id, hopened, hpre, hid, not_le.mp hlive, hsettle⟩
  rw [wp_bind]
  refine WP.ofExcept (fun id' hid' => ?_) fun e he => ?_
  · exact hsettled now keys issued id' hsettles (okOr_ok.mp hid')
  · cases hl : issued.checkpoint.lineageId with
    | none =>
      rw [hl] at he
      cases he
      exact hunnamed now keys issued hsettles hl
    | some id' =>
      rw [hl] at he
      cases he

/-! ## Every request -/

theorem exchange_initial {body : Bytes} {token : String} {form : Map String}
    (h : grantOf p body = .ok (.initial token form)) :
    exchange p realm request body = exchangeInitial p realm request token form := by
  rw [exchange, h]
  rfl

theorem exchange_advancement {body : Bytes} {token : String}
    (h : grantOf p body = .ok (.advancement token)) :
    exchange p realm request body = advance p realm request token := by
  rw [exchange, h]
  rfl

theorem exchangeInitial_done {token : String} {form : Map String} {i : Initialized A}
    (h : initialise p realm request token form = .ok i) (hf : f trail.length = .done) :
    exchangeInitial p realm request token form f trail =
      .ok (tokenResponse p i.issued) (trail ++ [⟨initializedEvent i, true⟩]) := by
  rw [exchangeInitial, h]
  exact bind_of_ok (record_done hf)

variable (p realm request) in
/-- The token of a request, with the action its record has. -/
inductive Issues (body : Bytes) : IssuedPicToken A → String → Prop
  | initial {accessToken : String} {form : Map String} {i : Initialized A} :
      grantOf p body = .ok (.initial accessToken form) →
      initialise p realm request accessToken form = .ok i →
      Issues body i.issued "pic.exchange.initialized"
  | advanced {candidateToken : String} {now : Int} {keys : KeyManager} {issued : IssuedPicToken A} :
      grantOf p body = .ok (.advancement candidateToken) →
      Settles p realm request candidateToken now keys issued →
      Issues body issued "pic.exchange.advanced"

/-- The event is the record of an issued checkpoint: it carries its lineage and its position. -/
structure Describes (event : AuditEvent) (action : String) (checkpoint : PicPcaPayload A) : Prop
    where
  action : event.action = action
  lineage : ∃ id, checkpoint.lineageId = some id ∧ event.continuityId = some id
  position : event.continuityPosition = some checkpoint.position

theorem initialise_lineage (hp : p.IssuesCheckpoint) {accessToken : String} {form : Map String}
    {i : Initialized A} (h : initialise p realm request accessToken form = .ok i) :
    i.issued.checkpoint.lineageId = some i.lineageId := by
  unfold initialise at h
  simp only [bind_ok, pure_ok, mapErr_ok] at h
  obtain ⟨_, -, _, -, _, -, _, -, _, -, _, -, _, -, _, -, _, -, _, -, _, -, _, -, _, -, _, -, _,
    hissued, rfl⟩ := h
  rw [hp _ _ _ _ hissued]

/-- A token leaves after its record was written, and only then. -/
theorem wp_recorded {event : AuditEvent} {response : TokenExchangeResponse}
    (h : f trail.length = .done → Q response (trail ++ [⟨event, true⟩])) :
    WP (do record event; pure response) f Q (fun _ _ => True) (fun _ => True) trail := by
  rw [wp_bind]
  exact wp_record h (fun _ _ _ => trivial) (fun _ => trivial)

variable (realm request f trail) in
/-- A token is returned after exactly one record was written, that of its checkpoint. -/
theorem exchange_ok (hp : p.IssuesCheckpoint) (body : Bytes) :
    WP (exchange p realm request body) f
      (fun response trail' => f trail.length = .done ∧
        ∃ issued action event, Issues p realm request body issued action ∧
          response.accessToken = issued.token ∧ Describes event action issued.checkpoint ∧
          trail' = trail ++ [⟨event, true⟩])
      (fun _ _ => True) (fun _ => True) trail := by
  unfold exchange
  rw [wp_bind]
  refine WP.ofExcept (fun grant hgrant => ?_) fun _ _ => trivial
  cases grant with
  | initial accessToken form =>
    refine wp_exchangeInitial (fun _ _ => trivial) fun i hi => wp_recorded fun hdone => ?_
    refine ⟨hdone, i.issued, _, initializedEvent i, .initial hgrant hi, rfl, ⟨rfl, ?_, rfl⟩, rfl⟩
    exact ⟨i.lineageId, initialise_lineage hp hi, rfl⟩
  | advancement candidateToken =>
    refine wp_advance (fun _ _ => trivial) (fun _ _ _ _ => ?_) (fun _ _ _ _ _ => trivial)
      fun now keys issued id hsettles hid => wp_recorded fun hdone => ?_
    · exact wp_reject (fun _ _ _ => trivial) fun _ => trivial
    · exact ⟨hdone, issued, _, advancedEvent realm id issued, .advanced hgrant hsettles, rfl,
        ⟨rfl, ⟨id, hid, rfl⟩, rfl⟩, rfl⟩

variable (f trail) in
/-- A refused candidate is on the trail as one rejection. -/
theorem exchange_refused {body : Bytes} {candidateToken : String}
    (hgrant : grantOf p body = .ok (.advancement candidateToken))
    (hrefused : Refused p realm request candidateToken) :
    WP (exchange p realm request body) f (fun _ _ => False)
      (fun _ trail' => ∃ event written, event.action = "pic.exchange.rejected" ∧
        trail' = trail ++ [⟨event, written⟩])
      (fun trail' => f trail.length = .crashed ∧ trail' = trail) trail := by
  unfold exchange
  rw [hgrant, wp_bind]
  show WP (advance p realm request candidateToken) _ _ _ _ _
  refine wp_advance (fun _ hclosed => absurd hrefused.opened hclosed) (fun id position e _ => ?_)
    (fun _ _ _ hsettles _ => absurd hsettles hrefused.not_settles)
    fun _ _ _ _ hsettles _ => absurd hsettles hrefused.not_settles
  exact wp_reject (fun _ written _ => ⟨_, written, rejectedEvent_action _ _ _, rfl⟩)
    fun hcrash => ⟨hcrash, rfl⟩

/-- **No token without a record.** However the writes of the trail turn out, a request that
returns a token wrote exactly one record before it did: that of the initialisation or of the
advancement, with the lineage and the position of the checkpoint in the token. When the write is
not done no token is returned. A candidate that is refused returns no token, and one rejection is
tried, unless the process dies just before. -/
theorem token_recorded (p : Pic A) (hp : p.IssuesCheckpoint) (realm : TokenEndpoint)
    (request : Request) (body : Bytes) (f : Nat → Outcome) (trail : Trail) :
    (∀ response trail', exchange p realm request body f trail = .ok response trail' →
      ∃ issued action event, Issues p realm request body issued action ∧
        response.accessToken = issued.token ∧ Describes event action issued.checkpoint ∧
        trail' = trail ++ [⟨event, true⟩]) ∧
    (f trail.length ≠ .done → (exchange p realm request body f trail).isOk = false) ∧
    (∀ candidateToken, grantOf p body = .ok (.advancement candidateToken) →
      Refused p realm request candidateToken →
      (∃ e event written, event.action = "pic.exchange.rejected" ∧
        exchange p realm request body f trail = .error e (trail ++ [⟨event, written⟩])) ∨
      f trail.length = .crashed ∧ exchange p realm request body f trail = .crash trail) := by
  have hok := exchange_ok f trail realm request hp body
  refine ⟨fun response trail' h => (hok.ok h).2, fun hundone => ?_, fun token hgrant hrefused => ?_⟩
  · cases h : exchange p realm request body f trail with
    | ok response trail' => exact absurd (hok.ok h).1 hundone
    | error e trail' => rfl
    | crash trail' => rfl
  · have hspec := exchange_refused f trail hgrant hrefused
    unfold WP at hspec
    split at hspec
    · exact hspec.elim
    · rename_i e trail' h
      obtain ⟨event, written, haction, rfl⟩ := hspec
      exact .inl ⟨e, event, written, haction, h⟩
    · rename_i trail' h
      exact .inr ⟨hspec.1, hspec.2 ▸ h⟩

/-! ### A first token

A realm with one exchange profile, one attester and one key. The artifacts of the protocol are
short names for themselves: what is encoded in them is a table. -/

section FirstToken

set_option maxRecDepth 2000

def proposalSegment : String :=
  "eyJleGVjdXRpb25Db250cmFjdCI6eyJjb3Jwb3JhdGlvbiI6IkFDTUUifSwidG9rZW5MaWZldGltZVNlY29uZHMiOjM2MDAsInR5cGUiOiJodHRwczovL3BpYy1wcm90b2NvbC5vcmcvZGVmaW5pdGlvbnMvcHJvcG9zYWwtdHlwZXMvY29udGludWl0eS1pbml0aWFsIn0"

def initialType : String :=
  "https://pic-protocol.org/definitions/proposal-types/continuity-initial"

def proposalValue : Value :=
  .object [("executionContract", .object [("corporation", .string "ACME")]),
    ("tokenLifetimeSeconds", .number (.posInt 3600)), ("type", .string initialType)]

/-- The JSON texts of the segments. -/
def proposalText : String :=
  "\x7b\"executionContract\":\x7b\"corporation\":\"ACME\"\x7d,\"tokenLifetimeSeconds\":3600,\"type\":\"https://pic-protocol.org/definitions/proposal-types/continuity-initial\"\x7d"

def accessText : String :=
  "\x7b\"aud\":\"pic-x\",\"exp\":1786704300,\"iss\":\"https://idp.example.com\",\"scope\":\"storage:save\",\"sub\":\"alice\"\x7d"

def edDSAText : String := "\x7b\"alg\":\"EdDSA\",\"typ\":\"at+jwt\"\x7d"

def accessSignatureSegment : String :=
  "hG6wTutcdxIL9ppqZsZdhsXzLaB5gv-9TNfh_uLccoukctP6YwcGIlOUMW4ap2W2u9QcTJlYY_CCpTyMhGD5Ag"

def accessToken : String := edDSASegment ++ "." ++ accessSegment ++ "." ++ accessSignatureSegment

/-- The random bytes of a lineage, and the identifier they make. -/
def lineageBytes : Bytes := [0, 1, 2, 3, 4, 5, 6, 7, 8, 9, 10, 11, 12, 13, 14, 15]

def lineageId : String := "AAECAwQFBgcICQoLDA0ODw"

/-- The key of the realm, and its signature. -/
def realmJwk : Jwk := Jwk.okp "realm-key-1" "Ed25519" "EdDSA" "realm-x"

def realmSignature (data : Bytes) : Bytes := 0x53 :: data

def testKeys : KeyManager where
  activeKeyId := .ok "realm-key-1"
  publicKeys := .ok [realmJwk]
  sign _ data := .ok { keyId := "realm-key-1", algorithm := "EdDSA", bytes := realmSignature data }

/-- The crates, as far as the requests of this realm ask them. -/
def realmCrates : Crates :=
  { testCrates with
    base64urlEncode := fun bytes =>
      if bytes = lineageBytes then lineageId else testCrates.base64urlEncode bytes
    base64urlDecode := fun text =>
      if text = edDSASegment then .ok (utf8 edDSAText)
      else if text = accessSegment then .ok (utf8 accessText)
      else if text = accessSignatureSegment then .ok edDSASignature
      else if text = proposalSegment then .ok (utf8 proposalText)
      else testCrates.base64urlDecode text
    valueFromSlice := fun bytes =>
      if bytes = utf8 edDSAText then .ok (accessHeader "EdDSA")
      else if bytes = utf8 accessText then .ok accessValue
      else if bytes = utf8 proposalText then .ok proposalValue
      else testCrates.valueFromSlice bytes
    publicKeyFromJwk := fun jwk =>
      if jwk.getStr "x" = idpJwk.getStr "x" then .ok idpKey
      else if jwk.getStr "x" = some realmJwk.x then
        .ok fun data signature => signature = realmSignature data
      else testCrates.publicKeyFromJwk jwk
    regexNew := fun pattern =>
      if pattern = "^storage:save$" then
        .ok fun text => if text = "storage:save" then some fun _ => none else none
      else .error "unsupported" }

/-- The checkpoint of the first token, and of the one that succeeds it. -/
def checkpointAt (position : Nat) (challenge : Bytes) : PicPcaPayload Unit where
  position
  contextOfAuthority := ()
  nextChallenge := challenge
  lineageId := some lineageId
  expiresAt := some 1786704400

def firstCheckpoint : PicPcaPayload Unit := checkpointAt 0 [7]

def secondCheckpoint : PicPcaPayload Unit := checkpointAt 1 [8]

/-- What a workload proposes: to answer the challenge of the first checkpoint. -/
def testTransition : PicTransitionPayload where
  position := 1
  proofOfRelationship := sdJwt testPresentation
  previousChallenge := [7]
  nextChallenge := [8]

/-- What the tokens of the lineage claim. -/
def claimsOf (root : String) : PicTokenClaims where
  jti := some lineageId
  exp := some 1786704400
  iat := some 1786700800
  root

def contextOf (sub : Option String) : SettlementContext where
  iss := "https://acme.example.com"
  sub
  aud := none
  iat := some 1786700800
  exp := some 1786704400
  jti := some lineageId

/-- An artifact of the key `kid`, with its signature over itself. -/
def artifact {π : Type} (kid : String) (bytes : Bytes) (payload : π) : Cose π where
  algorithm := some .edDSA
  kid := some kid
  payloadUnverified := .ok payload
  verifyWith check := check bytes (realmSignature bytes)

/-- The protocol, for the one lineage of the tables. -/
def testPic : Pic Unit :=
  { realmCrates with
    TOKEN_TYPE_PIC := "https://pic-protocol.org/definitions/token-types/pic"
    PROPOSAL_TYPE_CONTINUITY_INITIAL := initialType
    acceptedType := "sd-jwt"
    displayReject := fun _ => "rejected"
    displayAlgorithm := fun _ => "EdDSA"
    fromContinuityProposal := fun encoded =>
      if encoded = proposalSegment then .ok ⟨ofMembers [("corporation", .one "ACME")]⟩
      else .error "unsupported"
    fromLogical := fun _ => .ok ()
    executionContract := fun _ => [("corporation", .text "ACME")]
    decodeToken := fun token =>
      if token = "first" then .ok ⟨"EdDSA", claimsOf "first"⟩
      else if token = "candidate" then .ok ⟨"EdDSA", claimsOf "candidate"⟩
      else if token = "second" then .ok ⟨"EdDSA", claimsOf "second"⟩
      else .error "unsupported"
    rootBytes := fun claims => .ok (utf8 claims.root)
    continuityFromBytes := fun bytes =>
      if bytes = utf8 "first" then
        .ok (artifact "realm-key-1" bytes ⟨[0], .error "no transition"⟩)
      else if bytes = utf8 "candidate" then .ok (artifact "workload-1" bytes ⟨[0], .ok [10]⟩)
      else if bytes = utf8 "second" then
        .ok (artifact "realm-key-1" bytes ⟨[1], .error "no transition"⟩)
      else .error "unsupported"
    transitionFromBytes := fun bytes =>
      if bytes = [10] then .ok (artifact "workload-1" bytes testTransition)
      else .error "unsupported"
    pcaFromBytes := fun bytes =>
      if bytes = [0] then .ok (artifact "realm-key-1" bytes firstCheckpoint)
      else if bytes = [1] then .ok (artifact "realm-key-1" bytes secondCheckpoint)
      else .error "unsupported"
    issueSettled := fun checkpoint signer context =>
      if checkpoint = firstCheckpoint ∧ context = contextOf (some "alice") ∧
          (signer.sign 0 [0]).isOk ∧ (signer.sign 1 (utf8 "first")).isOk then
        .ok ⟨"first", [0], firstCheckpoint⟩
      else .error "unsupported"
    settle := fun authority candidate context state =>
      if candidate = "candidate" ∧ context = contextOf none ∧
          authority.isCurrentCheckpoint [0] ∧ (authority.realm.sign 0 [1]).isOk then
        match authority.validate (sdJwt testPresentation) state with
        | (.error e, state) => (.error e, state)
        | (.ok _, state) =>
          if authority.conformance firstCheckpoint testTransition state then
            (.ok ⟨"second", [1], secondCheckpoint⟩, state)
          else (.error (.protocol "conformance"), state)
      else (.error (.protocol "untrusted"), state) }

def testRealm : TokenEndpoint where
  name := "acme"
  issuer := some "https://acme.example.com"
  mountPath := "/acme"
  exchangeProfiles := [testProfile]
  trustedAttesters := [testAttester]
  tokenLifetime := 3600
  tokenInitialExpiryPolicy := .later
  tokenSigningAlgorithm := "EdDSA"
  tokenKeys := some testKeys

def testRequest : Request where
  clock _ := .ok 1786700800
  challenge := some [7]
  lineageBytes := some lineageBytes
  idpKeys _ := .ok [idpJwk]
  attesterKeys _ := .ok [attesterJwk]

/-- The parameters of an initial exchange. -/
def initialForm : List (String × String) :=
  [("grant_type", GRANT_TOKEN_EXCHANGE), ("subject_token", accessToken),
    ("subject_token_type", OAUTH_ACCESS_TOKEN_TYPE), ("continuity_proposal", proposalSegment)]

theorem testPic_issuesCheckpoint : testPic.IssuesCheckpoint := by
  intro checkpoint signer context issued h
  simp only [testPic] at h
  split at h
  · rename_i hcond
    cases h
    exact hcond.1.symm
  · cases h

theorem split_accessToken :
    split '.' accessToken = [edDSASegment, accessSegment, accessSignatureSegment] :=
  split_three (notMem_of_all (by decide +kernel)) (notMem_of_all (by decide +kernel))
    (notMem_of_all (by decide +kernel))

/-- The access token, taken apart. -/
def accessJwt : DecodedJwt where
  header := accessHeader "EdDSA"
  payload := accessValue
  signingInput := edDSASegment ++ "." ++ accessSegment
  signature := edDSASignature

theorem decode_of_segments {c : Crates} {token header payload signature : String}
    {headerBytes payloadBytes bytes : Bytes} {headerValue payloadValue : Value}
    (hsplit : split '.' token = [header, payload, signature])
    (hheader : c.base64urlDecode header = .ok headerBytes)
    (hheaderValue : c.valueFromSlice headerBytes = .ok headerValue)
    (hpayload : c.base64urlDecode payload = .ok payloadBytes)
    (hpayloadValue : c.valueFromSlice payloadBytes = .ok payloadValue)
    (hsignature : c.base64urlDecode signature = .ok bytes) :
    DecodedJwt.decode c token =
      .ok ⟨headerValue, payloadValue, header ++ "." ++ payload, bytes⟩ := by
  simp only [DecodedJwt.decode, hsplit, decodeJsonSegment, bind_ok, mapErr_ok, pure_ok]
  exact ⟨_, ⟨_, hheader, hheaderValue⟩, _, ⟨_, hpayload, hpayloadValue⟩, _, hsignature, rfl⟩

theorem decode_accessToken : DecodedJwt.decode realmCrates accessToken = .ok accessJwt := by
  have h1 : accessSegment ≠ edDSASegment := by decide +kernel
  have h2 : accessSignatureSegment ≠ edDSASegment := by decide +kernel
  have h3 : accessSignatureSegment ≠ accessSegment := by decide +kernel
  have h4 : utf8 accessText ≠ utf8 edDSAText := utf8_injective.ne (by decide +kernel)
  have hheader : realmCrates.valueFromSlice (utf8 edDSAText) = .ok (accessHeader "EdDSA") := by
    simp [realmCrates]
  have hpayload : realmCrates.valueFromSlice (utf8 accessText) = .ok accessValue := by
    simp [realmCrates, h4]
  exact decode_of_segments split_accessToken (by simp [realmCrates]) hheader
    (by simp [realmCrates, h1]) hpayload (by simp [realmCrates, h2, h3])

theorem accessToken_valid :
    validateSourceJwt realmCrates testRequest.idpKeys (testRequest.clock 0) accessJwt testProfile =
      .ok () := by
  have hidp : realmCrates.publicKeyFromJwk idpJwk = .ok idpKey := by simp [realmCrates]
  have hkey : idpKey (utf8 accessJwt.signingInput) accessJwt.signature = true := by
    simp [idpKey, accessJwt]
  have halg : accessJwt.headerString "alg" = some "EdDSA" := by
    simp [DecodedJwt.headerString, accessJwt, accessHeader, Value.getStr, Value.get_object,
      Value.asStr]
  have hkid : accessJwt.headerString "kid" = none := by
    simp [DecodedJwt.headerString, accessJwt, accessHeader, Value.getStr, Value.get_object]
  refine validateSourceJwt_ok.mpr ⟨accessToken_presentable rfl rfl (by simp [testProfile]), idpJwk,
    [idpJwk], "EdDSA", rfl, halg, ?_⟩
  simp [candidateKeys, hkid, idpJwk_verifies hidp hkey]

theorem mapAuthority_access :
    ∃ mapped, mapAuthority realmCrates testProfile accessValue = .ok mapped := by
  exact ⟨_, rfl⟩

theorem proposalExpiry_test :
    proposalExpiry realmCrates proposalSegment 1786700800 = .ok (some 1786704400) := by
  have h1 : proposalSegment ≠ edDSASegment := by decide +kernel
  have h2 : proposalSegment ≠ accessSegment := by decide +kernel
  have h3 : proposalSegment ≠ accessSignatureSegment := by decide +kernel
  have h4 : utf8 proposalText ≠ utf8 edDSAText := utf8_injective.ne (by decide +kernel)
  have h5 : utf8 proposalText ≠ utf8 accessText := utf8_injective.ne (by decide +kernel)
  simp only [proposalExpiry, bind_ok, mapErr_ok]
  refine ⟨utf8 proposalText, by simp [realmCrates, h1, h2, h3], proposalValue,
    by simp [realmCrates, h4, h5], ?_⟩
  simp [proposalValue, Value.get_object, Value.asI64, Number.asI64, okOr, ensure,
    MAX_REQUESTED_LIFETIME, checkedAddI64, bind_ok]
  exact ⟨3600, rfl, by decide, rfl⟩

/-- The issuance of the first token. -/
def firstInitialized : Initialized Unit where
  issued := ⟨"first", [0], firstCheckpoint⟩
  profile := testProfile
  sub := some "alice"
  lineageId := lineageId

/-- A realm with any ring that signs issues it. -/
theorem initialise_with {keys : KeyManager} {signer : ArtifactSigner}
    (hsigner : realmTokenSigner keys "EdDSA" = .ok signer)
    (hpca : (signer.sign 0 [0]).isOk = true) (htoken : (signer.sign 1 (utf8 "first")).isOk = true) :
    initialise testPic { testRealm with tokenKeys := some keys } testRequest accessToken
      (ofMembers initialForm) = .ok firstInitialized := by
  have hproposal : (ofMembers initialForm).lookup "continuity_proposal" = some proposalSegment := by
    simp [ofMembers, lookup_insertAll, initialForm]
  have htype : (ofMembers initialForm).lookup "continuity_proposal_type" = none := by
    simp [ofMembers, lookup_insertAll, initialForm]
  have hnonempty : proposalSegment.isEmpty = false := by decide +kernel
  have hprofile : selectInitialProfile testRealm.exchangeProfiles accessJwt = .ok testProfile := by
    have h : Presentable (.ok 1786700800) accessJwt testProfile :=
      accessToken_presentable rfl rfl (by simp [testProfile])
    simp [selectInitialProfile, testRealm, h.issuer, h.audience, okOr]
    rfl
  have hsub : accessJwt.claimString "sub" = some "alice" := by
    rw [DecodedJwt.claimString, claimAtPath_of_notMem (by decide)]
    simp [accessJwt, accessValue, Value.get_object, Value.asStr]
  obtain ⟨mapped, hmapped⟩ := mapAuthority_access
  simp only [initialise, bind_ok, pure_ok, mapErr_ok, ensure_ok, okOr_ok]
  refine ⟨proposalSegment, require_of_lookup hproposal hnonempty, (), by simp [htype],
    accessJwt, decode_accessToken, testProfile, hprofile, (), accessToken_valid, mapped, hmapped,
    ⟨ofMembers [("corporation", .one "ACME")]⟩, by simp [testPic], (), rfl, [7], rfl, lineageId, ?_,
    1786700800, rfl, 1786704400, ?_, keys, rfl, signer, hsigner,
    ⟨"first", [0], firstCheckpoint⟩, ?_, ?_⟩
  · simp [newLineageId, testRequest, testPic, realmCrates, okOr]
  · simp only [initialExpiry, bind_ok]
    exact ⟨_, proposalExpiry_test, rfl⟩
  · rw [hsub]
    exact if_pos ⟨rfl, rfl, hpca, htoken⟩
  · rw [hsub]
    rfl

theorem initialise_first :
    initialise testPic testRealm testRequest accessToken (ofMembers initialForm) =
      .ok firstInitialized :=
  @initialise_with testKeys _ rfl rfl rfl

theorem initialForm_plain : ∀ q ∈ initialForm, Plain q.1 ∧ Plain q.2 ∧ '=' ∉ q.1.toList := by
  have htoken : Plain accessToken :=
    plain_append (plain_append (plain_append (plain_append (plain_of_all (by decide +kernel))
      (plain_of_all (by decide +kernel))) (plain_of_all (by decide +kernel)))
      (plain_of_all (by decide +kernel))) (plain_of_all (by decide +kernel))
  intro q hq
  simp only [initialForm, List.mem_cons, List.not_mem_nil, or_false] at hq
  obtain rfl | rfl | rfl | rfl := hq
  · exact ⟨plain_of_all (by decide +kernel), plain_of_all (by decide +kernel), by decide +kernel⟩
  · exact ⟨plain_of_all (by decide +kernel), htoken, by decide +kernel⟩
  · exact ⟨plain_of_all (by decide +kernel), plain_of_all (by decide +kernel), by decide +kernel⟩
  · exact ⟨plain_of_all (by decide +kernel), plain_of_all (by decide +kernel), by decide +kernel⟩

theorem lookup_initialForm {name : String} : (ofMembers initialForm).lookup name =
    (initialForm.reverse.find? fun q => q.1 = name).map Prod.snd := lookup_ofMembers

theorem grantOf_initial :
    grantOf testPic (utf8 (formBody initialForm)) =
      .ok (.initial accessToken (ofMembers initialForm)) := by
  have hform : parseForm (utf8 (formBody initialForm)) = .ok (ofMembers initialForm) :=
    parseForm_formBody (by simp [initialForm]) initialForm_plain (by simp [initialForm])
  have hgrant : require (ofMembers initialForm) "grant_type" = .ok GRANT_TOKEN_EXCHANGE :=
    require_of_lookup (by rw [lookup_initialForm]; simp [initialForm]) (by decide +kernel)
  have htype : require (ofMembers initialForm) "subject_token_type" = .ok OAUTH_ACCESS_TOKEN_TYPE :=
    require_of_lookup (by rw [lookup_initialForm]; simp [initialForm]) (by decide +kernel)
  have htoken : require (ofMembers initialForm) "subject_token" = .ok accessToken :=
    require_of_lookup (by rw [lookup_initialForm]; simp [initialForm]) (by simp [accessToken])
  have hrequested : (ofMembers initialForm).lookup "requested_token_type" = none := by
    rw [lookup_initialForm]
    simp [initialForm]
  simp only [grantOf, bind_ok, ensure_ok]
  refine ⟨_, hform, _, hgrant, (), rfl, (), by simp [hrequested], _, htype, _, htoken, ?_⟩
  rw [if_pos rfl]
  rfl

/-- The request that starts the lineage. -/
theorem exchange_first :
    exchange testPic testRealm testRequest (utf8 (formBody initialForm)) (fun _ => .done) [] =
      .ok (tokenResponse testPic firstInitialized.issued)
        [⟨initializedEvent firstInitialized, true⟩] := by
  rw [exchange_initial grantOf_initial]
  exact exchangeInitial_done initialise_first rfl

theorem token_recorded_first :
    exchange testPic testRealm testRequest (utf8 (formBody initialForm)) (fun _ => .done) [] =
      .ok (tokenResponse testPic firstInitialized.issued)
        [⟨initializedEvent firstInitialized, true⟩] ∧
    ∃ issued action event,
      Issues testPic testRealm testRequest (utf8 (formBody initialForm)) issued action ∧
      "first" = issued.token ∧ Describes event action issued.checkpoint ∧
      [⟨initializedEvent firstInitialized, true⟩] = [] ++ [(⟨event, true⟩ : Attempt)] :=
  ⟨exchange_first, (token_recorded testPic testPic_issuesCheckpoint testRealm testRequest
    (utf8 (formBody initialForm)) (fun _ => .done) []).1 _ _ exchange_first⟩

end FirstToken

end PicX.Realm
