import PicX.Core.Validate
import PicX.Keys.Schedule
import PicX.Realm.KeyCaches
import PicX.Realm.Lineage
import PicX.Realm.Rotation

/-!
# Tokens and the ring that signs them (`main.rs`)

The composition root gives a realm a token ring whose public halves go with the private ones, after
`retain`. What a token says of its own end comes from elsewhere: the lifetime of the realm, the
access token that was exchanged, or the proposal of the client. The requests of the realm and the
passes of the lifecycle run on one clock.

* `Issuer` — a ring and an endpoint as the composition root puts them together.
* `Step.run` — one pass, one request or a restart.
* `tokens_stay_verifiable` — as long as no pass finds the key of a token that has not expired past
  its time, every such token names a key that is published.
* `token_outlives_its_key` — a token of an hour, and a key that is gone after ten minutes.
-/

namespace PicX.Tokens

open PicX PicX.Core Program Realm
open PicX.Keys (DirectoryKeyManager RingAlgorithm Sound Touched Serves Distinct InKeySet
  inKeySet_iff saturatingAdd U64_MAX afterwards maintain)

/-! ## What the composition root builds -/

/-- A token ring and the endpoint that signs with it. The lifecycle is one that validation
accepts. -/
structure Issuer where
  keys : DirectoryKeyManager
  endpoint : KeyManager → TokenEndpoint
  tokenKeys : ∀ ring, (endpoint ring).tokenKeys = some ring
  retention : keys.policy.verifyRetain = keys.policy.retain
  overlaps : Overlaps keys.policy.publishAhead keys.policy.rotateEvery keys.policy.retain

/-- `RingAlgorithm::parse`. -/
def parseAlgorithm (value : String) : Except String RingAlgorithm :=
  if value = "EdDSA" ∨ value = "Ed25519" then pure .ed25519
  else if value = "ES256" ∨ value = "P-256" then pure .es256
  else .error ("unsupported signing algorithm `" ++ value ++
    "`: this build signs with EdDSA or ES256")

/-- The endpoint of a realm, over its ring. -/
def endpointOf (realm : RealmConfig) (ring : KeyManager) : TokenEndpoint where
  name := realm.name
  issuer := realm.issuer
  mountPath := realm.mountPath
  exchangeProfiles := realm.exchangeProfiles
  trustedAttesters := realm.trustedAttesters
  tokenLifetime := realm.tokenLifetime
  tokenInitialExpiryPolicy := realm.tokenInitialExpiryPolicy
  tokenSigningAlgorithm := realm.tokenSigningAlgorithm
  tokenKeys := some ring

/-- The issuer of a realm whose token keys are enabled. A token key's public half goes with its
private one. -/
def realmIssuer (config : Config) (realm : RealmConfig) (husable : Usable realm)
    (henabled : realm.tokenKeysEnabled = true) {algorithm : RingAlgorithm}
    (_halgorithm : parseAlgorithm realm.tokenSigningAlgorithm = .ok algorithm) : Issuer where
  keys :=
    { directory := resolvePath config.workingDirectory s!"realms/{realm.name}/keys"
      policy :=
        { publishAhead := realm.tokenKeysPublishAhead
          rotateEvery := realm.tokenKeysRotateEvery
          retain := realm.tokenKeysRetain
          verifyRetain := realm.tokenKeysRetain }
      algorithm }
  endpoint := endpointOf realm
  tokenKeys := fun _ => rfl
  retention := rfl
  overlaps := husable.token henabled

/-! ## Requests and passes -/

/-- A token that was returned, and the key its request announced. -/
structure Token where
  text : String
  kid : Option String

/-- What a realm has after some steps. -/
structure World where
  time : Nat
  ring : Keys.World
  issued : List Token

/-- What can happen. The payloads of a request are those it has the ring sign. -/
inductive Call where
  | maintain
  | exchange (request : Request) (body : Bytes) (trail : Trail) (writes : Nat → Outcome)
      (payloads : List Bytes)
  | restart

/-- One call: at which reading of the clock, and how each operation on the ring turns out. -/
structure Step where
  now : Nat
  call : Call
  outcome : Keys.Op → Outcome

/-- The key a request announces on everything it signs; it refuses a signature of any other. -/
def announced (realm : TokenEndpoint) : Except ExchangeError String := do
  let keys ← realm.keys
  let signer ← realmTokenSigner keys realm.tokenSigningAlgorithm
  pure signer.kid

/-- The tokens a request returns: one, or none. -/
def returned {A : Type} (p : Pic A) (realm : TokenEndpoint) (request : Request) (body : Bytes)
    (writes : Nat → Outcome) (trail : Trail) : List Token :=
  match exchange p realm request body writes trail with
  | .ok response _ => [{ text := response.accessToken, kid := (announced realm).toOption }]
  | _ => []

/-- The ring after a request. -/
def signAll (c : Keys.Crates) (m : DirectoryKeyManager) (f : Keys.Op → Outcome) (ring : Keys.World)
    (payloads : List Bytes) : Keys.World :=
  payloads.foldl (fun w payload => afterwards (Keys.sign c m payload f w)) ring

section

variable {A : Type} (p : Pic A) (c : Keys.Crates) (o : Issuer)

/-- The world after a call. -/
def Step.run (s : Step) (w : World) : World :=
  match s.call with
  | .maintain =>
    { w with time := s.now, ring := afterwards (maintain c o.keys s.now s.outcome w.ring) }
  | .exchange request body trail writes payloads =>
    { time := s.now
      ring := signAll c o.keys s.outcome w.ring payloads
      issued := w.issued ++
        returned p (o.endpoint (seen c o.keys s.outcome w.ring)) request body writes trail }
  | .restart => { w with time := s.now, ring := { w.ring with signers := ∅ } }

/-- A request reads the clock between the last step and its own. -/
def Step.Reads (s : Step) (t : Nat) : Prop :=
  ∀ request body trail writes payloads, s.call = .exchange request body trail writes payloads →
    ∀ i r, request.clock i = .ok r → t ≤ r ∧ r ≤ s.now

/-- One step that satisfies `ok`, on a clock that never goes back. The seconds of a clock fit an
`i64`. -/
def Ticks (ok : World → Step → Prop) (w w' : World) : Prop :=
  ∃ s : Step, w.time ≤ s.now ∧ s.now < 2 ^ 63 ∧ s.Reads w.time ∧ ok w s ∧ w' = s.run p c o w

abbrev Runs (ok : World → Step → Prop) : World → World → Prop :=
  Relation.ReflTransGen (Ticks p c o ok)

/-- What a token says of its own end. -/
def Token.exp (token : Token) : Option Int :=
  (p.decodeToken token.text).toOption.bind fun decoded => decoded.claims.exp

/-- Every token that has not expired was signed with a key that is published. -/
def Verifiable (w : World) : Prop :=
  ∀ token ∈ w.issued, ∀ exp, token.exp p = some exp → (w.time : Int) < exp →
    ∃ kid, token.kid = some kid ∧ InKeySet kid w.ring

/-- No key of a token that has not expired is past its time: less than `retain` has run since it
stopped signing. -/
def InTime (w : World) (s : Step) : Prop :=
  s.call = .maintain → ∀ token ∈ w.issued, ∀ exp, token.exp p = some exp → (s.now : Int) < exp →
    ∀ kid, token.kid = some kid → ∀ e ∈ w.ring.entries, e.kid = kid → ∀ r, e.retiredAt = some r →
      s.now < saturatingAdd r o.keys.policy.retain

end

variable {A : Type} {p : Pic A} {c : Keys.Crates} {o : Issuer} {w w' : World} {s : Step}

/-! ## What a request does -/

/-- A request that returns a token has announced a key. -/
theorem exchange_announced {realm : TokenEndpoint} {request : Request} {body : Bytes}
    {writes : Nat → Outcome} {trail : Trail} :
    WP (exchange p realm request body) writes (fun _ _ => ∃ kid, announced realm = .ok kid)
      (fun _ _ => True) (fun _ => True) trail := by
  unfold exchange
  rw [wp_bind]
  refine WP.ofExcept (fun grant hgrant => ?_) fun _ _ => trivial
  cases grant with
  | initial accessToken form =>
    refine wp_exchangeInitial (fun _ _ => trivial) fun i hi => wp_recorded fun _ => ?_
    unfold initialise at hi
    simp only [bind_ok, pure_ok, mapErr_ok] at hi
    obtain ⟨_, -, _, -, _, -, _, -, _, -, _, -, _, -, _, -, _, -, _, -, _, -, _, -, keys, hkeys,
      signer, hsigner, -⟩ := hi
    exact ⟨signer.kid, bind_ok.mpr ⟨keys, hkeys, bind_ok.mpr ⟨signer, hsigner, rfl⟩⟩⟩
  | advancement candidateToken =>
    refine wp_advance (fun _ _ => trivial) (fun _ _ _ _ => ?_) (fun _ _ _ _ _ => trivial) ?_
    · exact wp_reject (fun _ _ _ => trivial) fun _ => trivial
    · intro now keys issued id hsettles _
      obtain ⟨signer, _, _, _, hopened, -⟩ := hsettles
      refine wp_recorded fun _ => ⟨signer.kid, ?_⟩
      exact bind_ok.mpr ⟨keys, hopened.ring, bind_ok.mpr ⟨signer, hopened.signer, rfl⟩⟩

/-- The announced key signs at that moment. -/
theorem announced_serves {f : Keys.Op → Outcome} {ring : Keys.World} {kid : String}
    (h : announced (o.endpoint (seen c o.keys f ring)) = .ok kid) : Serves kid 0 ring.entries := by
  obtain ⟨keys, hkeys, h⟩ := bind_ok.mp h
  obtain ⟨signer, hsigner, h⟩ := bind_ok.mp h
  cases pure_ok.mp h
  have hring : keys = seen c o.keys f ring := by
    have hsome := okOr_ok.mp hkeys
    rw [o.tokenKeys] at hsome
    exact (Option.some.inj hsome).symm
  subst hring
  exact activeKeyId_serves (realmTokenSigner_ok hsigner).1

theorem returned_of_ok {realm : TokenEndpoint} {request : Request} {body : Bytes}
    {writes : Nat → Outcome} {trail trail' : Trail} {response : TokenExchangeResponse}
    (h : exchange p realm request body writes trail = .ok response trail') :
    returned p realm request body writes trail =
      [{ text := response.accessToken, kid := (announced realm).toOption }] := by
  unfold returned
  rw [h]

/-- A token that a request returns names a key that signs. -/
theorem returned_serves {f : Keys.Op → Outcome} {ring : Keys.World} {request : Request}
    {body : Bytes} {writes : Nat → Outcome} {trail : Trail} {token : Token}
    (h : token ∈ returned p (o.endpoint (seen c o.keys f ring)) request body writes trail) :
    ∃ kid, token.kid = some kid ∧ Serves kid 0 ring.entries := by
  cases hend : exchange p (o.endpoint (seen c o.keys f ring)) request body writes trail with
  | ok response trail' =>
    rw [returned_of_ok hend] at h
    obtain ⟨kid, hkid⟩ := exchange_announced.ok hend
    cases List.mem_singleton.mp h
    refine ⟨kid, ?_, announced_serves hkid⟩
    rw [hkid]
    rfl
  | error e trail' =>
    unfold returned at h
    rw [hend] at h
    cases h
  | crash trail' =>
    unfold returned at h
    rw [hend] at h
    cases h

theorem signAll_touched {f : Keys.Op → Outcome} (ring : Keys.World) (payloads : List Bytes) :
    Touched c ring (signAll c o.keys f ring payloads) := by
  induction payloads generalizing ring with
  | nil => exact .refl c ring
  | cons payload rest ih =>
    have hsigned : Touched c ring (afterwards (Keys.sign c o.keys payload f ring)) := by
      refine Keys.afterwards_of_wp (Keys.sign_spec.mono (fun _ _ h => h.2) (fun _ _ h => h) ?_)
      intro ring' h
      exact ⟨h.1.ring, h.1.drawn, h.1.pems⟩
    exact hsigned.trans (ih _)

/-! ## What a run keeps -/

/-- A key that stops signing now is kept for a while. -/
theorem now_lt_retained (o : Issuer) (hnow : s.now < 2 ^ 63) :
    s.now < saturatingAdd s.now o.keys.policy.verifyRetained := by
  have hmax : U64_MAX = 2 ^ 64 - 1 := rfl
  have hturn := o.overlaps.turn
  have hkept := o.overlaps.kept
  unfold saturatingAdd Keys.KeyPolicy.verifyRetained
  omega

/-- Every token that has not expired names a key on the ring that has signed. -/
structure Held (p : Pic A) (c : Keys.Crates) (w : World) : Prop where
  sound : Sound c (w.ring.drawn, w.ring.entries)
  kids : ∀ token ∈ w.issued, ∀ exp, token.exp p = some exp → (w.time : Int) < exp →
    ∃ kid, token.kid = some kid ∧ Serves kid 0 w.ring.entries

theorem Held.pass (hdistinct : Distinct c) (h : Held p c w) (hle : w.time ≤ s.now)
    (hnow : s.now < 2 ^ 63) (hcall : s.call = .maintain) (htime : InTime p o w s) :
    Held p c (s.run p c o w) := by
  have hrun : s.run p c o w = { w with
      time := s.now, ring := afterwards (maintain c o.keys s.now s.outcome w.ring) } := by
    unfold Step.run
    rw [hcall]
  rw [hrun]
  refine ⟨?_, ?_⟩
  · exact Keys.afterwards_of_wp ((Keys.maintain_sound hdistinct h.sound).mono (fun _ _ h => h.1)
      (fun _ _ h => h) (fun _ h => h))
  · intro token htoken exp hexp hlive
    have hbefore : (w.time : Int) < exp := lt_of_le_of_lt (Int.ofNat_le.mpr hle) hlive
    obtain ⟨kid, hkid, hserves⟩ := h.kids token htoken exp hexp hbefore
    refine ⟨kid, hkid, ?_⟩
    refine Keys.afterwards_of_wp ((Keys.maintain_serves hdistinct h.sound (now_lt_retained o hnow)
      hserves ?_).mono (fun _ _ h => h) (fun _ _ h => h) (fun _ h => h))
    intro e he heq r hr
    have hdue := htime hcall token htoken exp hexp hlive kid hkid e he heq r hr
    have hsame : o.keys.policy.verifyRetained = o.keys.policy.retain := by
      unfold Keys.KeyPolicy.verifyRetained
      rw [o.retention, max_self]
    rwa [hsame]

theorem Held.step (hdistinct : Distinct c) (h : Held p c w) (hle : w.time ≤ s.now)
    (hnow : s.now < 2 ^ 63) (htime : InTime p o w s) : Held p c (s.run p c o w) := by
  have hearlier : ∀ {exp : Int}, (s.now : Int) < exp → (w.time : Int) < exp := by
    intro exp hlive
    exact lt_of_le_of_lt (Int.ofNat_le.mpr hle) hlive
  cases hcall : s.call with
  | maintain => exact h.pass hdistinct hle hnow hcall htime
  | restart =>
    unfold Step.run
    rw [hcall]
    refine ⟨h.sound, ?_⟩
    intro token htoken exp hexp hlive
    exact h.kids token htoken exp hexp (hearlier hlive)
  | exchange request body trail writes payloads =>
    unfold Step.run
    rw [hcall]
    have htouched : Touched c w.ring (signAll c o.keys s.outcome w.ring payloads) :=
      signAll_touched w.ring payloads
    refine ⟨h.sound.touched htouched, ?_⟩
    intro token htoken exp hexp hlive
    show ∃ kid, token.kid = some kid ∧
      Serves kid 0 (signAll c o.keys s.outcome w.ring payloads).entries
    rw [htouched.entries]
    rcases List.mem_append.mp htoken with hold | hnew
    · exact h.kids token hold exp hexp (hearlier hlive)
    · exact returned_serves hnew

theorem Held.verifiable (h : Held p c w) : Verifiable p w := by
  intro token htoken exp hexp hlive
  obtain ⟨kid, hkid, e, he, hname, -⟩ := h.kids token htoken exp hexp hlive
  exact ⟨kid, hkid, inKeySet_iff.mpr ⟨e, he, hname⟩⟩

/-- **Tokens stay verifiable.** From a ring that is absent, along every run in which no pass finds
the key of a token that has not expired past its time, every token that was returned and has not
expired was signed with a key that is published. -/
theorem tokens_stay_verifiable (hdistinct : Distinct c) {start : World}
    (habsent : start.ring.ring = none) (hnone : start.issued = [])
    (hrun : Runs p c o (InTime p o) start w) : Verifiable p w := by
  suffices h : Held p c w from h.verifiable
  induction hrun with
  | refl =>
    refine ⟨(Keys.Kept.absent habsent).1, ?_⟩
    intro token htoken
    rw [hnone] at htoken
    cases htoken
  | tail _ htick ih =>
    obtain ⟨s, hle, hnow, -, htime, rfl⟩ := htick
    exact ih.step hdistinct hle hnow htime

/-! ### A key that is gone before its token -/

/-- The shortest lifecycle that validation accepts. -/
def shortRealm : RealmConfig :=
  { acme testProfile with
    mountPath := "/acme"
    issuer := some "https://acme.example.com"
    trustedAttesters := [testAttester]
    tokenKeysPublishAhead := 300
    tokenKeysRotateEvery := 301
    tokenKeysRetain := 301 }

def shortConfig : Config := { acmeConfig testProfile with realms := [shortRealm] }

theorem shortRealm_valid : shortConfig.validateRealm shortRealm = .ok () := by decide +kernel

def shortIssuer : Issuer :=
  realmIssuer shortConfig shortRealm (validateRealm_ok shortRealm_valid) rfl
    (show parseAlgorithm "EdDSA" = .ok .ed25519 by decide)

/-- A pass with every operation done. -/
def passAt (now : Nat) : Step := ⟨now, .maintain, fun _ => .done⟩

/-- The request of the first token, and what it has signed. -/
def firstRequest : Step :=
  ⟨1786700800, .exchange testRequest (utf8 (formBody initialForm)) [] (fun _ => .done)
    [[0], utf8 "first"], fun _ => .done⟩

/-- The first key of the ring. -/
def tokenEntry : Keys.Entry :=
  Keys.newEntry Keys.testCrates shortIssuer.keys 1786700800 true Keys.firstKey.publicKey

/-- The ring with its first key, before it signs. -/
def firstRing : Keys.World :=
  { ring := some { version := 0, keys := [tokenEntry] }
    pems := ((∅ : AList fun _ : String => Bytes).insert tokenEntry.kid []).insert tokenEntry.kid
      (utf8 (Encoding.pem Keys.PEM_LABEL Keys.firstKey.document))
    signers := ∅
    drawn := 1 }

def tokenPair : Keys.SigningPair := ⟨.ed25519, Keys.firstKey.document, Keys.firstKey.publicKey⟩

/-- The ring after it signed. -/
def signedRing : Keys.World :=
  { firstRing with signers := firstRing.signers.insert tokenEntry.kid tokenPair }

set_option maxRecDepth 4000 in
theorem firstRing_eq : afterwards (maintain Keys.testCrates shortIssuer.keys 1786700800
    (fun _ => .done) Keys.absent) = firstRing := by
  rfl

theorem firstRing_sign (payload : Bytes) :
    Keys.sign Keys.testCrates shortIssuer.keys payload (fun _ => .done) firstRing =
      .ok ⟨tokenEntry.kid, Keys.ALGORITHM,
        Keys.testCrates.signEd25519 Keys.firstKey.document payload⟩ signedRing := by
  have hsigner : Keys.signer Keys.testCrates shortIssuer.keys tokenEntry.kid (fun _ => .done)
      firstRing = .ok tokenPair signedRing :=
    Keys.signer_done (fun _ => rfl) (by simp [Keys.World.entries, firstRing]) rfl rfl
      (AList.lookup_insert _) Keys.firstKey_pem Keys.firstKey_read
  exact Keys.sign_done (fun _ => rfl) rfl hsigner

theorem signedRing_sign (payload : Bytes) :
    Keys.sign Keys.testCrates shortIssuer.keys payload (fun _ => .done) signedRing =
      .ok ⟨tokenEntry.kid, Keys.ALGORITHM,
        Keys.testCrates.signEd25519 Keys.firstKey.document payload⟩ signedRing := by
  have hcached : signedRing.signers.lookup tokenEntry.kid = some tokenPair := AList.lookup_insert _
  have hsigner : Keys.signer Keys.testCrates shortIssuer.keys tokenEntry.kid (fun _ => .done)
      signedRing = .ok tokenPair signedRing := by
    have hget : (Program.get : Keys.Action Keys.World) (fun _ => .done) signedRing =
        .ok signedRing signedRing := rfl
    unfold Keys.signer
    rw [bind_of_ok hget, hcached]
    rfl
  exact Keys.sign_done (fun _ => rfl) rfl hsigner

theorem signAll_firstRing : signAll Keys.testCrates shortIssuer.keys (fun _ => .done) firstRing
    [[0], utf8 "first"] = signedRing := by
  unfold signAll
  rw [List.foldl_cons, List.foldl_cons, List.foldl_nil, firstRing_sign]
  show afterwards (Keys.sign _ _ _ _ signedRing) = _
  rw [signedRing_sign]
  rfl

/-- The ring, as the request finds it. -/
def firstKeys : KeyManager :=
  seen Keys.testCrates shortIssuer.keys (fun _ => .done) firstRing

theorem seen_sign (c : Keys.Crates) (m : DirectoryKeyManager) (f : Keys.Op → Outcome)
    (ring : Keys.World) (n : Nat) (payload : Bytes) :
    (seen c m f ring).sign n payload = told (Keys.sign c m payload f ring) := rfl

theorem firstKeys_sign (n : Nat) (payload : Bytes) : firstKeys.sign n payload =
    .ok ⟨tokenEntry.kid, "EdDSA", Keys.testCrates.signEd25519 Keys.firstKey.document payload⟩ := by
  unfold firstKeys
  rw [seen_sign, firstRing_sign]
  rfl

theorem firstKeys_activeKeyId : firstKeys.activeKeyId = .ok tokenEntry.kid := by
  show told (Keys.activeKeyId shortIssuer.keys (fun _ => .done) firstRing) = _
  rfl

theorem firstKeys_signer : ∃ signer, realmTokenSigner firstKeys "EdDSA" = .ok signer ∧
    signer.kid = tokenEntry.kid ∧ ∀ n payload, (signer.sign n payload).isOk = true := by
  refine ⟨⟨tokenEntry.kid, .edDSA, "EdDSA",
    fun n payload => checkSignature tokenEntry.kid "EdDSA" (firstKeys.sign n payload)⟩, ?_, rfl, ?_⟩
  · unfold realmTokenSigner
    rw [firstKeys_activeKeyId]
    rfl
  · intro n payload
    have hchecked := checkSignature_ok.mpr (firstKeys_sign n payload)
    dsimp only
    rw [hchecked]
    rfl

def firstToken : Token := ⟨"first", some tokenEntry.kid⟩

/-- The endpoint is the one of the first token, over this ring. -/
theorem shortIssuer_endpoint (ring : KeyManager) :
    shortIssuer.endpoint ring = { testRealm with tokenKeys := some ring } := rfl

theorem exchange_with {keys : KeyManager} {signer : ArtifactSigner}
    (hsigner : realmTokenSigner keys "EdDSA" = .ok signer)
    (hsigns : ∀ n payload, (signer.sign n payload).isOk = true) :
    exchange testPic { testRealm with tokenKeys := some keys } testRequest
      (utf8 (formBody initialForm)) (fun _ => .done) [] =
        .ok (tokenResponse testPic firstInitialized.issued)
          [⟨initializedEvent firstInitialized, true⟩] := by
  rw [exchange_initial grantOf_initial]
  exact exchangeInitial_done (initialise_with hsigner (hsigns 0 [0]) (hsigns 1 (utf8 "first"))) rfl

theorem announced_first :
    announced { testRealm with tokenKeys := some firstKeys } = .ok tokenEntry.kid := by
  obtain ⟨signer, hsigner, hkid, -⟩ := firstKeys_signer
  have hkeys : TokenEndpoint.keys { testRealm with tokenKeys := some firstKeys } = .ok firstKeys :=
    rfl
  refine bind_ok.mpr ⟨firstKeys, hkeys, bind_ok.mpr ⟨signer, hsigner, ?_⟩⟩
  rw [hkid]
  rfl

theorem returned_first : returned testPic (shortIssuer.endpoint firstKeys) testRequest
    (utf8 (formBody initialForm)) (fun _ => .done) [] = [firstToken] := by
  obtain ⟨signer, hsigner, -, hsigns⟩ := firstKeys_signer
  rw [shortIssuer_endpoint, returned_of_ok (exchange_with hsigner hsigns), announced_first]
  rfl

/-- A realm that has not started. -/
def unstarted : World := ⟨0, Keys.absent, []⟩

theorem run_passAt (now : Nat) (w : World) :
    (passAt now).run testPic Keys.testCrates shortIssuer w = ⟨now, afterwards (maintain
      Keys.testCrates shortIssuer.keys now (fun _ => .done) w.ring), w.issued⟩ := rfl

theorem run_exchange {request : Request} {body : Bytes} {trail : Trail} {writes : Nat → Outcome}
    {payloads : List Bytes} {f : Keys.Op → Outcome} (now : Nat) (w : World) :
    (⟨now, .exchange request body trail writes payloads, f⟩ : Step).run p c o w =
      ⟨now, signAll c o.keys f w.ring payloads, w.issued ++
        returned p (o.endpoint (seen c o.keys f w.ring)) request body writes trail⟩ := rfl

theorem reads_passAt (now t : Nat) : (passAt now).Reads t := by
  intro request body trail writes payloads hcall
  cases hcall

/-- The first token is returned right after the first pass. -/
theorem runs_firstToken {ok : World → Step → Prop} (hpass : ok unstarted (passAt 1786700800))
    (hrequest : ∀ w, ok w firstRequest) : Runs testPic Keys.testCrates shortIssuer ok unstarted
      ⟨1786700800, signedRing, [firstToken]⟩ := by
  have hfirst : Runs testPic Keys.testCrates shortIssuer ok unstarted
      ⟨1786700800, firstRing, []⟩ := by
    refine .single ⟨passAt 1786700800, by decide, by decide, reads_passAt _ _, hpass, ?_⟩
    rw [run_passAt, show unstarted.ring = Keys.absent from rfl, firstRing_eq]
    rfl
  refine hfirst.tail ⟨firstRequest, le_rfl, by decide, ?_, hrequest _, ?_⟩
  · intro request body trail writes payloads hcall i r hr
    cases hcall
    cases hr
    exact ⟨le_rfl, le_rfl⟩
  · have hreturned : returned testPic (shortIssuer.endpoint
        (seen Keys.testCrates shortIssuer.keys (fun _ => .done) firstRing)) testRequest
        (utf8 (formBody initialForm)) (fun _ => .done) [] = [firstToken] := returned_first
    unfold firstRequest
    rw [run_exchange, signAll_firstRing, hreturned, List.nil_append]

/-- The pass a second later publishes a successor, and finds nothing past its time. -/
theorem tokens_stay_verifiable_first : ∃ w, w.issued = [firstToken] ∧ Verifiable testPic w := by
  have hrun : Runs testPic Keys.testCrates shortIssuer (InTime testPic shortIssuer) unstarted _ :=
    runs_firstToken (fun _ token htoken => absurd htoken (by simp [unstarted]))
      (fun w hcall => by cases hcall)
  refine ⟨_, rfl, tokens_stay_verifiable Keys.testCrates_distinct rfl rfl
    (hrun.tail ⟨passAt 1786700801, by decide, by decide, reads_passAt _ _, ?_, rfl⟩)⟩
  intro _ token _ exp _ _ kid _ e he _ r hr
  obtain rfl : e = tokenEntry := by simpa [signedRing, firstRing, Keys.World.entries] using he
  cases hr

/-- The ring after passes one after the other, with every operation done. -/
def passed (times : List Nat) (ring : Keys.World) : Keys.World :=
  times.foldl (fun ring now => afterwards (maintain Keys.testCrates shortIssuer.keys now
    (fun _ => .done) ring)) ring

theorem runs_passes {ok : World → Step → Prop} (hok : ∀ w s, ok w s) {start : World}
    (times : List Nat) (h : Runs testPic Keys.testCrates shortIssuer ok start w)
    (hsorted : (w.time :: times).Pairwise (· ≤ ·)) (hmax : ∀ now ∈ times, now < 2 ^ 63) :
    Runs testPic Keys.testCrates shortIssuer ok start
      ⟨(w.time :: times).getLastD 0, passed times w.ring, w.issued⟩ := by
  induction times generalizing w with
  | nil => exact h
  | cons now times ih =>
    rw [List.pairwise_cons] at hsorted
    have hstep : Runs testPic Keys.testCrates shortIssuer ok start
        ((passAt now).run testPic Keys.testCrates shortIssuer w) :=
      h.tail ⟨passAt now, hsorted.1 now List.mem_cons_self, hmax now List.mem_cons_self,
        reads_passAt _ _, hok _ _, rfl⟩
    rw [run_passAt] at hstep
    exact ih hstep hsorted.2 fun t ht => hmax t (List.mem_cons_of_mem now ht)

/-- A second, five minutes and ten minutes after the first token. -/
def later : List Nat := [1786700801, 1786701101, 1786701402]

theorem passed_later : (passed later signedRing).entries.all (fun e => e.kid ≠ tokenEntry.kid) =
    true := by
  decide +kernel

/-- The proposal of the client asked for an hour. Ten minutes later the key that signed the token is
not published any more. -/
theorem token_outlives_its_key : ∃ w,
    Runs testPic Keys.testCrates shortIssuer (fun _ _ => True) unstarted w ∧
      ¬Verifiable testPic w := by
  have hfirst : Runs testPic Keys.testCrates shortIssuer (fun _ _ => True) unstarted
      ⟨1786700800, signedRing, [firstToken]⟩ := runs_firstToken trivial fun _ => trivial
  have hrun := runs_passes (fun _ _ => trivial) later hfirst (by decide) (by decide)
  have hlast : (1786700800 :: later).getLastD 0 = 1786701402 := rfl
  dsimp only at hrun
  rw [hlast] at hrun
  refine ⟨_, hrun, fun hverifiable => ?_⟩
  have hlive : ((1786701402 : Nat) : Int) < 1786704400 := by omega
  obtain ⟨kid, hkid, hin⟩ := hverifiable firstToken List.mem_cons_self 1786704400 rfl hlive
  cases hkid
  obtain ⟨e, he, heq⟩ := inKeySet_iff.mp hin
  have hgone : decide (e.kid ≠ tokenEntry.kid) = true := List.all_eq_true.mp passed_later e he
  exact of_decide_eq_true hgone heq

end PicX.Tokens
