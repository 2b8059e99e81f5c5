import PicX.Realm.Recorded

/-!
# Lineages

A lineage is an initial exchange followed by advancements, each from a token of the lineage: the
candidate of an advancement carries the checkpoint of the token it advances. Several candidates may
carry the same checkpoint, so a lineage is a tree of requests that know nothing of each other.

* `Pic.Lawful` — what is taken from the `pic` crate: a token carries the checkpoint it was issued
  with and the claims of its context, and a candidate is settled only from a checkpoint the realm
  accepts, into one of the same lineage and expiry, one position on.
* `Descends` — the tokens of a lineage.
* `lineage_kept` — **a token of a lineage names the lineage and the expiry of its origin, stands at
  the position of its path and was issued before it expires.**
-/

namespace PicX.Realm

open ExchangeError Program

variable {A : Type} (p : Pic A)

/-! ## What a token carries -/

/-- The checkpoint at the root of a token, as it was signed. -/
def Carries (token : String) (pca : Bytes) : Prop :=
  ∃ decoded bytes cose continuity, p.decodeToken token = .ok decoded ∧
    p.rootBytes decoded.claims = .ok bytes ∧ p.continuityFromBytes bytes = .ok cose ∧
    cose.payloadUnverified = .ok continuity ∧ continuity.pca = pca

/-- The payload of a signed checkpoint. -/
def Encodes (pca : Bytes) (checkpoint : PicPcaPayload A) : Prop :=
  ∃ cose, p.pcaFromBytes pca = .ok cose ∧ cose.payloadUnverified = .ok checkpoint

/-- The identifier and the expiry a token claims. -/
def Claims (token : String) (jti : Option String) (exp : Option Int) : Prop :=
  ∃ decoded, p.decodeToken token = .ok decoded ∧ decoded.claims.jti = jti ∧
    decoded.claims.exp = exp

/-- An issued token carries its checkpoint and claims what its context says. -/
structure Wraps (issued : IssuedPicToken A) (context : SettlementContext) : Prop where
  carries : Carries p issued.token issued.pcaBytes
  encodes : Encodes p issued.pcaBytes issued.checkpoint
  claims : Claims p issued.token context.jti context.exp

/-- What a realm relies on when it issues and when it settles. -/
structure Pic.Lawful : Prop where
  issueSettled : ∀ checkpoint signer context issued,
    p.issueSettled checkpoint signer context = .ok issued →
      issued.checkpoint = checkpoint ∧ Wraps p issued context
  settle : ∀ {σ : Type} (authority : SettlementAuthority A σ) candidate context state issued,
    (p.settle authority candidate context state).1 = .ok issued →
      Wraps p issued context ∧
      ∃ pca predecessor, Carries p candidate pca ∧ authority.isCurrentCheckpoint pca = true ∧
        Encodes p pca predecessor ∧
        issued.checkpoint.lineageId = predecessor.lineageId ∧
        issued.checkpoint.expiresAt = predecessor.expiresAt ∧
        issued.checkpoint.position = predecessor.position + 1

variable {p}

theorem Carries.unique {token : String} {pca pca' : Bytes} (h : Carries p token pca)
    (h' : Carries p token pca') : pca = pca' := by
  obtain ⟨decoded, bytes, cose, continuity, hdecoded, hbytes, hcose, hpayload, rfl⟩ := h
  obtain ⟨decoded', bytes', cose', continuity', hdecoded', hbytes', hcose', hpayload', rfl⟩ := h'
  rw [hdecoded] at hdecoded'
  cases hdecoded'
  rw [hbytes] at hbytes'
  cases hbytes'
  rw [hcose] at hcose'
  cases hcose'
  rw [hpayload] at hpayload'
  cases hpayload'
  rfl

theorem Encodes.unique {pca : Bytes} {checkpoint checkpoint' : PicPcaPayload A}
    (h : Encodes p pca checkpoint) (h' : Encodes p pca checkpoint') : checkpoint = checkpoint' := by
  obtain ⟨cose, hcose, hpayload⟩ := h
  obtain ⟨cose', hcose', hpayload'⟩ := h'
  rw [hcose] at hcose'
  cases hcose'
  rw [hpayload] at hpayload'
  exact Except.ok.inj hpayload'

/-! ## Preflight -/

/-- The candidate that was taken apart is the one settlement reads. -/
theorem decodeCandidate_ok {token : String} {candidate : Candidate A}
    (h : decodeCandidate p token = .ok candidate) :
    Carries p token candidate.continuity.pca ∧
      Encodes p candidate.continuity.pca candidate.predecessor ∧
      p.decodeToken token = .ok candidate.decoded := by
  unfold decodeCandidate at h
  simp only [bind_ok, pure_ok, mapErr_ok] at h
  obtain ⟨decoded, hdecoded, bytes, hbytes, cose, hcose, continuity, hcontinuity, _, -, _, -, _, -,
    pcaCose, hpca, predecessor, hpredecessor, rfl⟩ := h
  exact ⟨⟨decoded, bytes, cose, continuity, hdecoded, hbytes, hcose, hcontinuity, rfl⟩,
    ⟨pcaCose, hpca, hpredecessor⟩, hdecoded⟩

theorem requireLineage_ok {predecessor claimed : Option String} {u : Unit}
    (h : requireLineage predecessor claimed = .ok u) {id : String} (hid : predecessor = some id) :
    claimed = some id := by
  subst hid
  cases claimed with
  | none => cases h
  | some actual =>
    by_cases heq : actual = id
    · rw [heq]
    · simp [requireLineage, heq] at h

theorem requireExpiry_ok {expiresAt : Int} {claimed : Option Int} {u : Unit}
    (h : requireExpiry expiresAt claimed = .ok u) : claimed = some expiresAt := by
  cases claimed with
  | none => cases h
  | some exp =>
    by_cases heq : exp = expiresAt
    · rw [heq]
    · simp [requireExpiry, heq] at h

/-- A candidate passes only when it claims the lineage and the expiry of its predecessor. -/
theorem checkCandidate_ok {candidate : Candidate A} {processed : ProcessedProfileEvidence}
    {m : CandidateMetadata} (h : checkCandidate p candidate processed = .ok m) :
    m.lineageId = candidate.predecessor.lineageId ∧
      candidate.predecessor.expiresAt = some m.expiresAt ∧
      (∀ id, candidate.predecessor.lineageId = some id → candidate.decoded.claims.jti = some id) ∧
      candidate.decoded.claims.exp = some m.expiresAt := by
  unfold checkCandidate at h
  simp only [bind_ok, pure_ok, okOr_ok] at h
  obtain ⟨_, -, _, -, _, -, _, -, _, -, _, -, _, -, _, -, _, hlineage, expiresAt, hexpires, _,
    hexp, rfl⟩ := h
  exact ⟨rfl, hexpires, fun id hid => requireLineage_ok hlineage hid, requireExpiry_ok hexp⟩

/-- What a candidate that passed its preflight claims, and what it carries. -/
theorem preflight_ok {realm : TokenEndpoint} {request : Request} {token : String} {now : Int}
    {m : CandidateMetadata} {accepted : Option Accepted}
    (h : preflight p realm request token now = (.ok m, accepted)) :
    ∃ pca predecessor, Carries p token pca ∧ Encodes p pca predecessor ∧
      predecessor.lineageId = m.lineageId ∧ predecessor.expiresAt = some m.expiresAt ∧
      ∃ decoded, p.decodeToken token = .ok decoded ∧
        (∀ id, m.lineageId = some id → decoded.claims.jti = some id) ∧
        decoded.claims.exp = some m.expiresAt := by
  unfold preflight preflightCandidateKeyMetadata at h
  split at h
  · cases h
  rename_i candidate hcandidate
  split at h
  · cases h
  split at h
  · cases h
  rename_i processed accepted' _
  have hcheck : checkCandidate p candidate processed = .ok m := congrArg Prod.fst h
  obtain ⟨hcarries, hencodes, hdecoded⟩ := decodeCandidate_ok hcandidate
  obtain ⟨hlineage, hexpires, hjti, hexp⟩ := checkCandidate_ok hcheck
  exact ⟨_, _, hcarries, hencodes, hlineage.symm, hexpires, _, hdecoded,
    fun id hid => hjti id (hlineage ▸ hid), hexp⟩

/-! ## One advancement -/

/-- **What settlement keeps.** The token of a settled candidate is in the lineage of the checkpoint
the candidate carries, one position on, and is issued before that lineage expires. -/
theorem Settles.keeps (hp : p.Lawful) {realm : TokenEndpoint} {request : Request} {token : String}
    {now : Int} {keys : KeyManager} {issued : IssuedPicToken A}
    (h : Settles p realm request token now keys issued) :
    ∃ pca predecessor id expiry, Carries p token pca ∧ Encodes p pca predecessor ∧
      isCurrentCheckpoint p keys pca = true ∧
      predecessor.lineageId = some id ∧ predecessor.expiresAt = some expiry ∧
      Claims p token (some id) (some expiry) ∧
      issued.checkpoint.lineageId = some id ∧ issued.checkpoint.expiresAt = some expiry ∧
      issued.checkpoint.position = predecessor.position + 1 ∧
      Claims p issued.token (some id) (some expiry) ∧
      Carries p issued.token issued.pcaBytes ∧ Encodes p issued.pcaBytes issued.checkpoint ∧
      now < expiry := by
  obtain ⟨signer, m, accepted, id, hopened, hpre, hid, hlive, hsettle⟩ := h
  obtain ⟨pca, predecessor, hcarries, hencodes, hlineage, hexpires, decoded, hdecoded, hjti,
    hexp⟩ := preflight_ok hpre
  obtain ⟨hwraps, pca', predecessor', hcarries', hcurrent, hencodes', hlineage', hexpires',
    hposition⟩ := hp.settle _ _ _ _ _ hsettle
  obtain rfl := hcarries.unique hcarries'
  obtain rfl := hencodes.unique hencodes'
  refine ⟨pca, predecessor, id, m.expiresAt, hcarries, hencodes, hcurrent, ?_, hexpires, ?_, ?_, ?_,
    hposition, hwraps.claims, hwraps.carries, hwraps.encodes, hlive⟩
  · rw [hlineage, hid]
  · exact ⟨decoded, hdecoded, hjti id hid, hexp⟩
  · rw [hlineage', hlineage, hid]
  · rw [hexpires', hexpires]

/-! ## The first token -/

theorem checkedAddI64_eq {a b r : Int} (h : checkedAddI64 a b = some r) : r = a + b := by
  unfold checkedAddI64 at h
  split at h
  · exact (Option.some.inj h).symm
  · cases h

theorem proposalExpiry_gt {c : Crates} {encoded : String} {now expiry : Int}
    (h : proposalExpiry c encoded now = .ok (some expiry)) : now < expiry := by
  unfold proposalExpiry at h
  simp only [bind_ok] at h
  obtain ⟨_, -, document, -, h⟩ := h
  split at h
  · simp only [bind_ok, okOr_ok, pure_ok, Option.filter_eq_some_iff] at h
    obtain ⟨_, ⟨-, hgt⟩, _, -, heq⟩ := h
    cases heq
    simpa using hgt
  · split at h
    · cases h
    · simp only [bind_ok, okOr_ok, pure_ok, Option.filter_eq_some_iff] at h
      obtain ⟨seconds, ⟨-, hpos⟩, _, -, r, hadd, heq⟩ := h
      cases heq
      have hsum := checkedAddI64_eq hadd
      have : 0 < seconds := by simpa using hpos
      omega

/-- A lineage starts before it expires. -/
theorem initialExpiry_gt {c : Crates} {encoded : String} {source : Option Int} {now expiry : Int}
    {lifetime : Nat} {policy : TokenInitialExpiryPolicy}
    (h : initialExpiry c encoded source now lifetime policy = .ok expiry) : now < expiry := by
  unfold initialExpiry at h
  rw [bind_ok] at h
  obtain ⟨proposed, hproposed, h⟩ := h
  cases proposed with
  | some expiry' =>
    cases h
    exact proposalExpiry_gt hproposed
  | none =>
    simp only [bind_ok, ensure_ok, pure_ok] at h
    obtain ⟨_, -, _, hlive, rfl⟩ := h
    exact not_le.mp hlive

/-- What the first token of a lineage carries and claims. -/
theorem initialise_keeps (hp : p.Lawful) {realm : TokenEndpoint} {request : Request}
    {accessToken : String} {form : Map String} {i : Initialized A}
    (h : initialise p realm request accessToken form = .ok i) :
    ∃ now expiry, unixNow (request.clock 1) = .ok now ∧ now < expiry ∧
      i.issued.checkpoint.lineageId = some i.lineageId ∧
      i.issued.checkpoint.expiresAt = some expiry ∧ i.issued.checkpoint.position = 0 ∧
      Claims p i.issued.token (some i.lineageId) (some expiry) ∧
      Carries p i.issued.token i.issued.pcaBytes ∧
      Encodes p i.issued.pcaBytes i.issued.checkpoint := by
  unfold initialise at h
  simp only [bind_ok, pure_ok, mapErr_ok] at h
  obtain ⟨_, -, _, -, _, -, _, -, _, -, _, -, _, -, _, -, _, -, id, -, now, hnow, expiry, hexpiry,
    _, -, _, -, issued, hissued, rfl⟩ := h
  obtain ⟨hcheckpoint, hwraps⟩ := hp.issueSettled _ _ _ _ hissued
  have hclaims := hwraps.claims
  have hencodes := hwraps.encodes
  have hcarries := hwraps.carries
  refine ⟨now, expiry, hnow, initialExpiry_gt hexpiry, ?_, ?_, ?_, hclaims, hcarries, hencodes⟩
  · rw [hcheckpoint]
  · rw [hcheckpoint]
  · rw [hcheckpoint]

/-! ## Whole lineages -/

/-- A request that returns a token, however it found the realm and whatever its writes did. -/
def Returns (p : Pic A) (realm : TokenEndpoint) (request : Request) (body : Bytes)
    (token : String) : Prop :=
  ∃ f trail response trail', exchange p realm request body f trail = .ok response trail' ∧
    response.accessToken = token

/-- The tokens of the lineage that starts with `origin`: how many advancements led to one, and when
it was issued. A lineage branches wherever two candidates carry the same checkpoint. -/
inductive Descends (p : Pic A) (origin : String) : Nat → String → Int → Prop
  | initial {realm : TokenEndpoint} {request : Request} {body : Bytes} {accessToken : String}
      {form : Map String} {now : Int} :
      grantOf p body = .ok (.initial accessToken form) →
      unixNow (request.clock 1) = .ok now →
      Returns p realm request body origin → Descends p origin 0 origin now
  | advanced {realm : TokenEndpoint} {request : Request} {body : Bytes} {n : Nat}
      {token candidate successor : String} {pca : Bytes} {before now : Int} :
      Descends p origin n token before →
      Carries p token pca → Carries p candidate pca →
      grantOf p body = .ok (.advancement candidate) →
      unixNow (request.clock 0) = .ok now →
      Returns p realm request body successor → Descends p origin (n + 1) successor now

/-- What holds of a token of a lineage: it claims the identifier and the expiry of the lineage,
which are those of its checkpoint, and it stands at its position. -/
def Member (p : Pic A) (id : String) (expiry : Int) (position : Nat) (token : String) : Prop :=
  Claims p token (some id) (some expiry) ∧
    ∃ pca checkpoint, Carries p token pca ∧ Encodes p pca checkpoint ∧
      checkpoint.lineageId = some id ∧ checkpoint.expiresAt = some expiry ∧
      checkpoint.position = position

/-- The token of a request is that of its one issued checkpoint. -/
theorem Returns.issues (hp : p.Lawful) {realm : TokenEndpoint} {request : Request} {body : Bytes}
    {token : String} (h : Returns p realm request body token) :
    ∃ issued action, Issues p realm request body issued action ∧ token = issued.token := by
  obtain ⟨f, trail, response, trail', hok, rfl⟩ := h
  have hcheckpoint : p.IssuesCheckpoint := fun _ _ _ _ hi => (hp.issueSettled _ _ _ _ hi).1
  obtain ⟨-, issued, action, event, hissues, htoken, -, -⟩ :=
    (exchange_ok f trail realm request hcheckpoint body).ok hok
  exact ⟨issued, action, hissues, htoken⟩

theorem Returns.initial (hp : p.Lawful) {realm : TokenEndpoint} {request : Request} {body : Bytes}
    {accessToken token : String} {form : Map String} {now : Int}
    (hgrant : grantOf p body = .ok (.initial accessToken form))
    (hnow : unixNow (request.clock 1) = .ok now) (h : Returns p realm request body token) :
    ∃ id expiry, Member p id expiry 0 token ∧ now < expiry := by
  obtain ⟨issued, action, hissues, rfl⟩ := h.issues hp
  cases hissues with
  | initial hgrant' hi =>
    obtain ⟨now', expiry, hnow', hlt, hid, hexpiry, hposition, hclaims, hcarries, hencodes⟩ :=
      initialise_keeps hp hi
    rw [hnow] at hnow'
    cases hnow'
    exact ⟨_, expiry, ⟨hclaims, _, _, hcarries, hencodes, hid, hexpiry, hposition⟩, hlt⟩
  | advanced hgrant' _ =>
    rw [hgrant] at hgrant'
    cases hgrant'

/-- One advancement stays in the lineage of the checkpoint its candidate carries. -/
theorem Returns.advanced (hp : p.Lawful) {realm : TokenEndpoint} {request : Request} {body : Bytes}
    {candidate token successor id : String} {pca : Bytes} {now expiry : Int} {n : Nat}
    (hmember : Member p id expiry n token) (hcarries : Carries p token pca)
    (hcandidate : Carries p candidate pca)
    (hgrant : grantOf p body = .ok (.advancement candidate))
    (hnow : unixNow (request.clock 0) = .ok now) (h : Returns p realm request body successor) :
    Member p id expiry (n + 1) successor ∧ now < expiry := by
  obtain ⟨issued, action, hissues, rfl⟩ := h.issues hp
  cases hissues with
  | initial hgrant' _ =>
    rw [hgrant] at hgrant'
    cases hgrant'
  | @advanced candidate' now' keys _ hgrant' hsettles =>
    rw [hgrant] at hgrant'
    cases hgrant'
    have hnow' : now' = now := by
      obtain ⟨_, _, _, _, hopened, -⟩ := hsettles
      exact Except.ok.inj (hopened.clock.symm.trans hnow)
    obtain ⟨-, pca₁, checkpoint, hcarries₁, hencodes₁, hid₁, hexpiry₁, hposition₁⟩ := hmember
    obtain ⟨pca₂, predecessor, id', expiry', hcarries₂, hencodes₂, -, hid₂, hexpiry₂, -, hid,
      hexpiry, hposition, hclaims, hcarries', hencodes', hlive⟩ := hsettles.keeps hp
    -- The checkpoint the candidate carries is the one of the token it advances.
    obtain rfl := hcarries₁.unique hcarries
    obtain rfl := hcandidate.unique hcarries₂
    obtain rfl := hencodes₁.unique hencodes₂
    rw [hid₁] at hid₂
    rw [hexpiry₁] at hexpiry₂
    cases hid₂
    cases hexpiry₂
    rw [hposition₁] at hposition
    exact ⟨⟨hclaims, _, _, hcarries', hencodes', hid, hexpiry, hposition⟩, hnow' ▸ hlive⟩

/-- A candidate that claims another lineage or another expiry than its predecessor's is not
settled. -/
theorem not_settles_of_claims (hp : p.Lawful) {realm : TokenEndpoint} {request : Request}
    {candidate : String} {pca : Bytes} {predecessor : PicPcaPayload A} {decoded : DecodedToken}
    (hcarries : Carries p candidate pca) (hencodes : Encodes p pca predecessor)
    (hdecoded : p.decodeToken candidate = .ok decoded)
    (hdiffers : decoded.claims.jti ≠ predecessor.lineageId ∨
      decoded.claims.exp ≠ predecessor.expiresAt)
    {now : Int} {keys : KeyManager} {issued : IssuedPicToken A} :
    ¬Settles p realm request candidate now keys issued := by
  intro hsettles
  obtain ⟨pca', predecessor', id, expiry, hcarries', hencodes', -, hid, hexpiry,
    ⟨decoded', hdecoded', hjti, hexp⟩, -⟩ := hsettles.keeps hp
  obtain rfl := hcarries.unique hcarries'
  obtain rfl := hencodes.unique hencodes'
  rw [hdecoded] at hdecoded'
  cases hdecoded'
  rw [hjti, hexp, hid, hexpiry] at hdiffers
  simp at hdiffers

/-- **A lineage is kept.** Every token of a lineage, however it branches, claims the identifier and
the expiry of the origin, which are those of its own checkpoint; it stands at the position of its
path and was issued before it expires. And no candidate is settled whose identifier or expiry is
not the one of the checkpoint it carries. -/
theorem lineage_kept (p : Pic A) (hp : p.Lawful) :
    (∀ origin n token now, Descends p origin n token now → ∃ id expiry,
      Member p id expiry 0 origin ∧ Member p id expiry n token ∧ now < expiry) ∧
    (∀ candidate pca predecessor decoded, Carries p candidate pca → Encodes p pca predecessor →
      p.decodeToken candidate = .ok decoded →
      (decoded.claims.jti ≠ predecessor.lineageId ∨
        decoded.claims.exp ≠ predecessor.expiresAt) →
      ∀ realm request now keys issued, ¬Settles p realm request candidate now keys issued) := by
  refine ⟨fun origin n token now h => ?_, fun candidate pca predecessor decoded hc he hd hdiffers
    realm request now keys issued => not_settles_of_claims hp hc he hd hdiffers⟩
  -- Along the path: the identifier and the expiry stay those of the origin.
  induction h with
  | initial hgrant hnow hreturns =>
    obtain ⟨id, expiry, hmember, hlt⟩ := hreturns.initial hp hgrant hnow
    exact ⟨id, expiry, hmember, hmember, hlt⟩
  | advanced _ hcarries hcandidate hgrant hnow hreturns ih =>
    obtain ⟨id, expiry, horigin, hmember, -⟩ := ih
    obtain ⟨hmember', hlt⟩ := hreturns.advanced hp hmember hcarries hcandidate hgrant hnow
    exact ⟨id, expiry, horigin, hmember', hlt⟩

/-! ## Candidates that are settled -/

section Steps

variable {f : Nat → Outcome} {trail : Trail} {realm : TokenEndpoint} {request : Request}

/-- A candidate that is settled is recorded, and its token is returned. -/
theorem advance_done {token id id' : String} {now : Int} {keys : KeyManager}
    {signer : ArtifactSigner} {m : CandidateMetadata} {accepted : Option Accepted}
    {issued : IssuedPicToken A} (hopened : Opened realm request now keys signer)
    (hpre : preflight p realm request token now = (.ok m, accepted))
    (hid : m.lineageId = some id) (hlive : now < m.expiresAt)
    (hsettle : settlement p realm request token now keys signer m id accepted = .ok issued)
    (hid' : issued.checkpoint.lineageId = some id') (hf : f trail.length = .done) :
    advance p realm request token f trail =
      .ok (tokenResponse p issued) (trail ++ [⟨advancedEvent realm id' issued, true⟩]) := by
  obtain ⟨hclock, hring, hsigner⟩ := hopened
  unfold preflight at hpre
  unfold settlement at hsettle
  have hlive' : ¬m.expiresAt ≤ now := not_le.mpr hlive
  have hok : ∀ {α : Type} (a : α), (Program.ofExcept (.ok a) : Exchange α) f trail = .ok a trail :=
    fun _ => rfl
  rw [advance, hclock, bind_of_ok (hok _), hring, bind_of_ok (hok _), hsigner, bind_of_ok (hok _)]
  simp only [hpre, hid, hlive', if_false, hsettle, hid', okOr]
  rw [bind_of_ok (hok _)]
  exact bind_of_ok (record_done hf)

theorem preflight_of_steps {token : String} {now : Int} {candidate : Candidate A}
    {processed : ProcessedProfileEvidence} {accepted : Option Accepted} {m : CandidateMetadata}
    (hdecode : decodeCandidate p token = .ok candidate)
    (htype : candidate.transition.proofOfRelationship.porType = p.acceptedType)
    (hvalidate : validateAndRemember p.toCrates (profileEvidence realm request now)
      candidate.transition.proofOfRelationship none = (.ok processed, accepted))
    (hcheck : checkCandidate p candidate processed = .ok m) :
    preflight p realm request token now = (.ok m, accepted) := by
  simp only [preflight, preflightCandidateKeyMetadata, hdecode, htype, ne_eq, not_true_eq_false,
    if_false, hvalidate, hcheck]

/-- A presentation that was accepted is not validated again. -/
theorem validate_cached {c : Crates} {v : SdJwtProfileValidator} {por : ProofOfRelationship}
    {jwk : Value} {processed : ProcessedProfileEvidence} {key : ArtifactVerifier}
    (hkey : c.publicKeyFromJwk jwk = .ok key) :
    validate c v por (some ⟨por.evidence, jwk, processed⟩) =
      (.ok key, some ⟨por.evidence, jwk, processed⟩) := by
  have hcached : cachedFor (some ⟨por.evidence, jwk, processed⟩) por.evidence =
      some ⟨por.evidence, jwk, processed⟩ := by
    simp [cachedFor]
  have hrebuild : rebuildWorkloadKey c jwk = .ok key := mapErr_ok.mpr hkey
  simp only [validate, hcached, hrebuild]

theorem settlementAuthority_validate {keys : KeyManager} {v : SdJwtProfileValidator}
    {signer : ArtifactSigner} :
    (settlementAuthority p keys v signer).validate = validate p.toCrates v := rfl

end Steps

/-! ### A second token -/

section SecondToken

set_option maxRecDepth 2000

theorem testPic_lawful : testPic.Lawful := by
  have hfirst : Wraps testPic ⟨"first", [0], firstCheckpoint⟩ (contextOf (some "alice")) :=
    ⟨⟨_, _, _, _, rfl, rfl, rfl, rfl, rfl⟩, ⟨_, rfl, rfl⟩, ⟨_, rfl, rfl, rfl⟩⟩
  have hsecond : Wraps testPic ⟨"second", [1], secondCheckpoint⟩ (contextOf none) :=
    ⟨⟨_, _, _, _, rfl, rfl, rfl, rfl, rfl⟩, ⟨_, rfl, rfl⟩, ⟨_, rfl, rfl, rfl⟩⟩
  constructor
  · intro checkpoint signer context issued h
    simp only [testPic] at h
    split at h
    · rename_i hcond
      cases h
      obtain ⟨rfl, rfl, -⟩ := hcond
      exact ⟨rfl, hfirst⟩
    · cases h
  · intro σ authority candidate context state issued h
    simp only [testPic] at h
    split at h
    · rename_i hcond
      obtain ⟨rfl, rfl, hcurrent, -⟩ := hcond
      split at h
      · cases h
      · split at h
        · cases h
          refine ⟨hsecond, [0], firstCheckpoint, ⟨_, _, _, _, rfl, rfl, rfl, rfl, rfl⟩, hcurrent,
            ⟨_, rfl, rfl⟩, rfl, rfl, rfl⟩
        · cases h
    · cases h

/-- The requests of the realm ask the crates for other texts than the credential does. -/
theorem realmCrates_decode : ∀ segment ∈ [headerSegment, payloadSegment, signatureSegment,
    disclosureSegment],
      realmCrates.base64urlDecode segment = testCrates.base64urlDecode segment := by
  have hne : ∀ segment ∈ [headerSegment, payloadSegment, signatureSegment, disclosureSegment],
      segment ∉ [edDSASegment, accessSegment, accessSignatureSegment, proposalSegment] := by
    decide +kernel
  intro segment hmem
  have h := hne segment hmem
  simp only [List.mem_cons, List.not_mem_nil, or_false, not_or] at h
  simp [realmCrates, h.1, h.2.1, h.2.2.1, h.2.2.2]

theorem realmCrates_value : ∀ text ∈ [headerText, credentialText, disclosureText],
    realmCrates.valueFromSlice (utf8 text) = testCrates.valueFromSlice (utf8 text) := by
  have hne : ∀ text ∈ [headerText, credentialText, disclosureText],
      text ∉ [edDSAText, accessText, proposalText] := by
    decide +kernel
  intro text hmem
  have h := hne text hmem
  simp only [List.mem_cons, List.not_mem_nil, or_false, not_or] at h
  have hbytes : ∀ t : String, text ≠ t → utf8 text ≠ utf8 t := fun t => utf8_injective.ne
  simp [realmCrates, hbytes _ h.1, hbytes _ h.2.1, hbytes _ h.2.2]

theorem realmCrates_reads : ReadsCredential realmCrates := by
  obtain ⟨h1, h2, h3, h4, h5, h6⟩ := segments_ne
  obtain ⟨t1, t2, t3⟩ := texts_ne
  have hx : attesterJwk.getStr "x" ≠ idpJwk.getStr "x" ∧
      attesterJwk.getStr "x" ≠ some realmJwk.x ∧ workloadJwk.getStr "x" ≠ idpJwk.getStr "x" ∧
      workloadJwk.getStr "x" ≠ some realmJwk.x := by
    simp [Value.getStr, attesterJwk, workloadJwk, idpJwk, realmJwk, Jwk.okp, Value.get_object,
      Value.asStr]
  constructor
  · refine ⟨utf8 headerText, ?_, ?_⟩
    · rw [b64urlDecode, realmCrates_decode _ (by simp)]
      simp [testCrates, Except.toOption]
    · rw [realmCrates_value _ (by simp)]
      simp [testCrates]
  · refine ⟨utf8 credentialText, ?_, ?_⟩
    · rw [b64urlDecode, realmCrates_decode _ (by simp)]
      simp [testCrates, h1, Except.toOption]
    · rw [realmCrates_value _ (by simp)]
      simp [testCrates, t1]
  · rw [b64urlDecode, realmCrates_decode _ (by simp)]
    exact testCrates_reads.signature
  · refine ⟨utf8 disclosureText, .string "f0UUCvMSycSUXaVfuiDWAA", ?_, ?_⟩
    · rw [b64urlDecode, realmCrates_decode _ (by simp)]
      simp [testCrates, h4, h5, h6, Except.toOption]
    · rw [realmCrates_value _ (by simp)]
      simp [testCrates, t2, t3]
  · have hne : digestBytes ≠ lineageBytes := by decide
    simp [digestOf, base64url, realmCrates, testCrates, hne]
  · rfl
  · simp [realmCrates, hx.1, hx.2.1, testCrates_reads.attester]
  · obtain ⟨key, hkey⟩ := testCrates_reads.workload
    exact ⟨key, by simp [realmCrates, hx.2.2.1, hx.2.2.2, hkey]⟩

def testCandidate : Candidate Unit where
  decoded := ⟨"EdDSA", claimsOf "candidate"⟩
  continuityCose := artifact "workload-1" (utf8 "candidate") ⟨[0], .ok [10]⟩
  continuity := ⟨[0], .ok [10]⟩
  transitionCose := artifact "workload-1" [10] testTransition
  transition := testTransition
  predecessor := firstCheckpoint

theorem decodeCandidate_test : decodeCandidate testPic "candidate" = .ok testCandidate := by
  simp only [decodeCandidate, bind_ok, pure_ok, mapErr_ok]
  exact ⟨_, rfl, _, rfl, _, rfl, _, rfl, _, rfl, _, rfl, _, rfl, _, rfl, _, rfl, rfl⟩

def testMetadata : CandidateMetadata := ⟨some lineageId, 1786704400, 1⟩

def testProcessed : ProcessedProfileEvidence :=
  ⟨testAttester.id, testAttester.issuer, testClaims⟩

def testAccepted : Accepted := ⟨(sdJwt testPresentation).evidence, workloadJwk, testProcessed⟩

theorem lookup_testClaims : testClaims.lookup "cnf" = some (.object [("jwk", workloadJwk)]) ∧
    testClaims.lookup "corporation" = some (.string "ACME") := by
  constructor
  · rw [testClaims, lookup_insertAll_of_notMem (by simp)]
    exact lookup_signedClaims.mpr ⟨by simp, by simp, by simp [credentialValue, Value.get_object]⟩
  · exact lookup_insertAll_of_mem (by simp) (by simp)

theorem preflight_test : preflight testPic testRealm testRequest "candidate" 1786700800 =
    (.ok testMetadata, some testAccepted) := by
  obtain ⟨key, hevidence⟩ := testPresentation_accepted realmCrates_reads
  have hvalidate : validateAndRemember realmCrates
      (profileEvidence testRealm testRequest 1786700800) (sdJwt testPresentation) none =
      (.ok testProcessed, some testAccepted) := by
    have hv : profileEvidence testRealm testRequest 1786700800 = testValidator := rfl
    rw [validateAndRemember, hv, hevidence]
    rfl
  have hcheck : checkCandidate testPic testCandidate testProcessed = .ok testMetadata := by
    simp only [checkCandidate, bind_ok, pure_ok, mapErr_ok, ensure_ok, okOr_ok]
    have hcose : ∀ label, requireCoseAlgorithm testPic label (some .edDSA) .edDSA = .ok () := by
      intro label
      simp [requireCoseAlgorithm, pure, Except.pure]
    have hkid : requireMatchingCoseKid (some "workload-1") (some "workload-1") = .ok () := by
      simp [requireMatchingCoseKid, pure, Except.pure]
    have hlineage : requireLineage (some lineageId) (some lineageId) = .ok () := by
      simp [requireLineage, pure, Except.pure]
    have hexpiry : requireExpiry 1786704400 (some 1786704400) = .ok () := by
      simp [requireExpiry, pure, Except.pure]
    refine ⟨workloadJwk, ?_, ⟨"EdDSA", some .edDSA⟩, rfl, (), rfl, .edDSA, rfl, (), hcose _, (),
      hcose _, (), hkid, (), by decide, (), hlineage, 1786704400, rfl, (), hexpiry, rfl⟩
    rw [testProcessed, lookup_testClaims.1]
    simp [Value.get_object]
  exact preflight_of_steps decodeCandidate_test rfl hvalidate hcheck

def testSigner : ArtifactSigner where
  kid := "realm-key-1"
  coseAlgorithm := .edDSA
  jwsAlgorithm := "EdDSA"
  sign n data := checkSignature "realm-key-1" "EdDSA" (testKeys.sign n data)

theorem opened_test : Opened testRealm testRequest 1786700800 testKeys testSigner :=
  ⟨rfl, rfl, rfl⟩

theorem isCurrentCheckpoint_first : isCurrentCheckpoint testPic testKeys [0] = true := by
  have hx : (Value.object [("kty", .string "OKP"), ("crv", optionalString (some "Ed25519")),
      ("x", .string "realm-x"), ("y", optionalString none)]).getStr "x" = some "realm-x" := by
    simp [Value.getStr, Value.get_object, Value.asStr]
  have hidp : some "realm-x" ≠ idpJwk.getStr "x" := by
    simp [Value.getStr, idpJwk, Value.get_object, Value.asStr]
  have hkey : realmCrates.publicKeyFromJwk
      (.object [("kty", .string "OKP"), ("crv", optionalString (some "Ed25519")),
        ("x", .string "realm-x"), ("y", optionalString none)]) =
      .ok fun data signature => signature = realmSignature data := by
    simp only [realmCrates]
    rw [hx, if_neg hidp]
    rfl
  have hverifies :
      verifies realmCrates (artifact "realm-key-1" [0] firstCheckpoint) realmJwk = true := by
    simp only [verifies, realmJwk, Jwk.okp]
    rw [hkey]
    simp [artifact, Except.isOk, Except.toBool]
  show ([realmJwk].filter fun jwk => (some "realm-key-1").all fun kid => jwk.kid = kid).any
      (verifies realmCrates (artifact "realm-key-1" [0] firstCheckpoint)) = true
  simp [realmJwk, Jwk.okp] at hverifies ⊢
  exact hverifies

theorem testPic_settle {σ : Type} {authority : SettlementAuthority Unit σ} {state state' : σ}
    {key : ArtifactVerifier} (hcurrent : authority.isCurrentCheckpoint [0] = true)
    (hsign : (authority.realm.sign 0 [1]).isOk = true)
    (hvalidate : authority.validate (sdJwt testPresentation) state = (.ok key, state'))
    (hconforms : authority.conformance firstCheckpoint testTransition state' = true) :
    testPic.settle authority "candidate" (contextOf none) state =
      (.ok ⟨"second", [1], secondCheckpoint⟩, state') := by
  simp [testPic, hcurrent, hsign, hvalidate, hconforms]

theorem reason_test : reason testPic (some testAccepted) firstCheckpoint = .ok () := by
  have hok :
      checkContract testPic.toCrates testClaims [("corporation", .text "ACME")] = .ok () := by
    simp [checkContract, checkEntry, lookup_testClaims.2, okOr, ensure, matchesText, bind_ok]
  exact hok

theorem settle_test :
    ∃ state, testPic.settle (settlementAuthority testPic testKeys testValidator testSigner)
        "candidate" (contextOf none) (some testAccepted) =
      (.ok ⟨"second", [1], secondCheckpoint⟩, state) := by
  obtain ⟨key, hkey⟩ := realmCrates_reads.workload
  have hsign : (testSigner.sign 0 [1]).isOk = true := by
    simp [testSigner, checkSignature, testKeys, mapErr, ensure, bind, Except.bind, Except.isOk,
      Except.toBool, pure, Except.pure]
  have hconforms : (reason testPic (some testAccepted) firstCheckpoint).isOk = true := by
    rw [reason_test]
    rfl
  have hvalidate : (settlementAuthority testPic testKeys testValidator testSigner).validate
      (sdJwt testPresentation) (some testAccepted) = (.ok key, some testAccepted) := by
    rw [settlementAuthority_validate, testAccepted]
    exact validate_cached hkey
  exact ⟨some testAccepted, testPic_settle isCurrentCheckpoint_first hsign hvalidate hconforms⟩

theorem settlement_test : settlement testPic testRealm testRequest "candidate" 1786700800 testKeys
    testSigner testMetadata lineageId (some testAccepted) =
      .ok ⟨"second", [1], secondCheckpoint⟩ := by
  have hcontext : advanceContext testRealm 1786700800 testMetadata lineageId = contextOf none := rfl
  have hevidence : profileEvidence testRealm testRequest 1786700800 = testValidator := rfl
  obtain ⟨state, hsettle⟩ := settle_test
  rw [settlement, hcontext, hevidence, hsettle]

/-- The parameters of an advancement. -/
def advancementForm : List (String × String) :=
  [("grant_type", GRANT_TOKEN_EXCHANGE), ("subject_token", "candidate"),
    ("subject_token_type", testPic.TOKEN_TYPE_PIC)]

theorem advancementForm_plain :
    ∀ q ∈ advancementForm, Plain q.1 ∧ Plain q.2 ∧ '=' ∉ q.1.toList := by
  intro q hq
  simp only [advancementForm, List.mem_cons, List.not_mem_nil, or_false] at hq
  obtain rfl | rfl | rfl := hq <;>
  exact ⟨plain_of_all (by decide +kernel), plain_of_all (by decide +kernel), by decide +kernel⟩

theorem lookup_advancementForm {name : String} : (ofMembers advancementForm).lookup name =
    (advancementForm.reverse.find? fun q => q.1 = name).map Prod.snd := lookup_ofMembers

theorem grantOf_advancement :
    grantOf testPic (utf8 (formBody advancementForm)) = .ok (.advancement "candidate") := by
  have hform : parseForm (utf8 (formBody advancementForm)) = .ok (ofMembers advancementForm) :=
    parseForm_formBody (by simp [advancementForm]) advancementForm_plain (by simp [advancementForm])
  have hgrant : require (ofMembers advancementForm) "grant_type" = .ok GRANT_TOKEN_EXCHANGE :=
    require_of_lookup (by rw [lookup_advancementForm]; simp [advancementForm]) (by decide +kernel)
  have htype : require (ofMembers advancementForm) "subject_token_type" =
      .ok testPic.TOKEN_TYPE_PIC :=
    require_of_lookup (by rw [lookup_advancementForm]; simp [advancementForm]) (by decide +kernel)
  have htoken : require (ofMembers advancementForm) "subject_token" = .ok "candidate" :=
    require_of_lookup (by rw [lookup_advancementForm]; simp [advancementForm]) (by decide +kernel)
  have hrequested : (ofMembers advancementForm).lookup "requested_token_type" = none := by
    rw [lookup_advancementForm]
    simp [advancementForm]
  have hproposal : "continuity_proposal" ∉ ofMembers advancementForm ∧
      "continuity_proposal_type" ∉ ofMembers advancementForm := by
    constructor <;>
    · rw [← Finmap.lookup_eq_none, lookup_advancementForm]
      simp [advancementForm]
  have hne : testPic.TOKEN_TYPE_PIC ≠ OAUTH_ACCESS_TOKEN_TYPE := by decide +kernel
  simp only [grantOf, bind_ok, ensure_ok]
  refine ⟨_, hform, _, hgrant, (), rfl, (), by simp [hrequested], _, htype, _, htoken, ?_⟩
  rw [if_neg hne, if_pos rfl]
  rw [bind_ok]
  exact ⟨(), ensure_ok.mpr (by simp [hproposal]), rfl⟩

theorem descends_second : Descends testPic "first" 1 "second" 1786700800 := by
  have hfirst : Descends testPic "first" 0 "first" 1786700800 :=
    .initial grantOf_initial rfl ⟨_, _, _, _, exchange_first, rfl⟩
  have hrun : exchange testPic testRealm testRequest (utf8 (formBody advancementForm))
      (fun _ => .done) [] = .ok (tokenResponse testPic ⟨"second", [1], secondCheckpoint⟩)
        [⟨advancedEvent testRealm lineageId ⟨"second", [1], secondCheckpoint⟩, true⟩] := by
    rw [exchange_advancement grantOf_advancement]
    exact advance_done opened_test preflight_test rfl (by decide) settlement_test rfl rfl
  have hcarries : Carries testPic "first" [0] := ⟨_, _, _, _, rfl, rfl, rfl, rfl, rfl⟩
  have hcandidate : Carries testPic "candidate" [0] := ⟨_, _, _, _, rfl, rfl, rfl, rfl, rfl⟩
  exact .advanced hfirst hcarries hcandidate grantOf_advancement rfl ⟨_, _, _, _, hrun, rfl⟩

theorem lineage_kept_second : ∃ id expiry,
    Member testPic id expiry 0 "first" ∧ Member testPic id expiry 1 "second" ∧
      1786700800 < expiry :=
  (lineage_kept testPic testPic_lawful).1 "first" 1 "second" 1786700800 descends_second

end SecondToken

end PicX.Realm
