import PicX.Realm.Presentation

/-!
# When evidence is valid

The check of the validity claims reads the signed payload, before the disclosures are merged into
it, and takes a claim that is not an `i64` for one that is not there.

* `validityClaims_ok`: what the check says of the payload.
* `evidence_timely_iff`: **the processed claims are timely exactly when no time it did not read is
  late**.
-/

namespace PicX

/-- What a number of a JSON text says. -/
def Number.value : Number → Rat
  | .posInt n => n
  | .negInt n => n
  | .float q => q

theorem Number.value_of_asI64 {n : Number} {i : Int} (h : n.asI64 = some i) : n.value = i := by
  cases n with
  | posInt m =>
    rw [Number.asI64] at h
    split at h
    · rw [← Option.some.inj h]
      rfl
    · cases h
  | negInt m =>
    rw [← Option.some.inj h]
    rfl
  | float q => cases h

theorem Value.asI64_eq_some {v : Value} {i : Int} :
    v.asI64 = some i ↔ ∃ n : Number, v = .number n ∧ n.asI64 = some i := by
  cases v <;> simp [Value.asI64]

end PicX

namespace PicX.Realm

open PicX

variable {c : Crates}

/-- The claims are within their time: `exp` is there and later than the skew allows, and no number
of `nbf` or `iat` is later than it allows. -/
structure Timely (now : Int) (claims : Map Value) : Prop where
  expiry : ∃ n : Number, claims.lookup "exp" = some (.number n) ∧
    ((now - CLOCK_SKEW_SECONDS : Int) : Rat) < n.value
  begun : ∀ name ∈ ["nbf", "iat"], ∀ n : Number, claims.lookup name = some (.number n) →
    n.value ≤ ((now + CLOCK_SKEW_SECONDS : Int) : Rat)

/-- A time the check does not read: one that is disclosed, or one that is signed and no `i64`. -/
def Presentation.Unread (p : Presentation) (name : String) (n : Number) : Prop :=
  (name, Value.number n) ∈ p.opened ∨
    (p.payloadValue.get name = some (.number n) ∧ n.asI64 = none)

/-- What the check says of the payload. -/
theorem validityClaims_ok {payload : Value} {now : Int} {u : Unit}
    (h : validateValidityClaims payload now = .ok u) :
    (∃ n i, payload.get "exp" = some (.number n) ∧ n.asI64 = some i ∧
      now - CLOCK_SKEW_SECONDS < i) ∧
    ∀ name ∈ ["nbf", "iat"], ∀ n i, payload.get name = some (.number n) → n.asI64 = some i →
      i ≤ now + CLOCK_SKEW_SECONDS := by
  simp only [validateValidityClaims, bind_ok, okOr_ok, ensure_ok, Option.bind_eq_some_iff,
    Value.asI64_eq_some] at h
  obtain ⟨expiry, ⟨value, hexp, n, rfl, hn⟩, _, hexpiry, _, hbegun, hissued⟩ := h
  have hread : ∀ {name : String} {n : Number} {i : Int}, payload.get name = some (.number n) →
      n.asI64 = some i →
      ¬((payload.get name).bind Value.asI64).any (fun t => now + CLOCK_SKEW_SECONDS < t) →
        i ≤ now + CLOCK_SKEW_SECONDS := by
    intro name n i hget hi hnot
    have hvalue : Value.asI64 (.number n) = some i := Value.asI64_eq_some.mpr ⟨n, rfl, hi⟩
    rw [hget, Option.bind_some, hvalue] at hnot
    simpa using hnot
  refine ⟨⟨n, expiry, hexp, hn, by omega⟩, ?_⟩
  intro name hname n i hget hi
  simp only [List.mem_cons, List.not_mem_nil, or_false] at hname
  rcases hname with rfl | rfl
  · exact hread hget hi hbegun
  · exact hread hget hi hissued

/-- **The processed claims of accepted evidence are timely exactly when no time that was not read is
late.** The expiry is always read: it is signed, and no disclosure takes its place. -/
theorem evidence_timely_iff {v : SdJwtProfileValidator} {por : ProofOfRelationship}
    {key : ArtifactVerifier} {processed : ProcessedProfileEvidence} {jwk : Value}
    (h : validateEvidenceWithKey c v por = .ok (key, processed, jwk)) :
    ∃ p : Presentation, p.Splits por.evidence ∧ p.Sound c v processed ∧
      (Timely v.now processed.claims ↔ ∀ name ∈ ["nbf", "iat"], ∀ n : Number, p.Unread name n →
        n.value ≤ ((v.now + CLOCK_SKEW_SECONDS : Int) : Rat)) := by
  obtain ⟨p, hsplits, hsound, -, -, hvalid⟩ := evidence_parts h
  obtain ⟨⟨n, i, hexp, hi, hexpiry⟩, hread⟩ := validityClaims_ok hvalid
  refine ⟨p, hsplits, hsound, ?_⟩
  constructor
  · intro htimely name hname n hunread
    refine htimely.begun name hname n ((hsound.claims _ _).mpr ?_)
    rcases hunread with hopened | ⟨hsigned, -⟩
    · exact Or.inr hopened
    · refine Or.inl ⟨?_, ?_, hsigned⟩ <;>
      · intro heq
        rw [heq] at hname
        exact absurd hname (by decide)
  · intro hunread
    refine ⟨⟨n, ?_, ?_⟩, ?_⟩
    · exact (hsound.claims _ _).mpr (Or.inl ⟨by decide, by decide, hexp⟩)
    · rw [Number.value_of_asI64 hi]
      exact_mod_cast hexpiry
    · intro name hname n hlookup
      rcases (hsound.claims _ _).mp hlookup with ⟨-, -, hsigned⟩ | hopened
      · cases hi : n.asI64 with
        | none => exact hunread name hname n (Or.inr ⟨hsigned, hi⟩)
        | some i =>
          rw [Number.value_of_asI64 hi]
          exact_mod_cast hread name hname n i hsigned hi
      · exact hunread name hname n (Or.inl hopened)

theorem not_timely_of_lookup {now : Int} {claims : Map Value} {n : Nat}
    (hlookup : claims.lookup "nbf" = some (.number (.posInt n)))
    (hlate : now + CLOCK_SKEW_SECONDS < n) : ¬Timely now claims := by
  intro htimely
  have hle : ((n : Int) : Rat) ≤ ((now + CLOCK_SKEW_SECONDS : Int) : Rat) :=
    htimely.begun "nbf" (by decide) _ hlookup
  have := Rat.intCast_le_intCast.mp hle
  omega

/-- The test credential is timely, as it discloses no time. -/
theorem evidence_timely_credential : ∃ key,
    validateEvidenceWithKey testCrates testValidator (sdJwt testPresentation) =
      .ok (key, ⟨testAttester.id, testAttester.issuer, testClaims⟩, workloadJwk) ∧
    ∃ p : Presentation, p.Splits (sdJwt testPresentation).evidence ∧
      p.Sound testCrates testValidator ⟨testAttester.id, testAttester.issuer, testClaims⟩ ∧
      (Timely testValidator.now testClaims ↔
        ∀ name ∈ ["nbf", "iat"], ∀ n : Number, p.Unread name n →
          n.value ≤ ((testValidator.now + CLOCK_SKEW_SECONDS : Int) : Rat)) := by
  obtain ⟨key, haccepted⟩ := testPresentation_accepted testCrates_reads
  exact ⟨key, haccepted, evidence_timely_iff haccepted⟩

/-! ## A time that is disclosed -/

section Late

set_option maxRecDepth 2000

/-- A credential of the test attester that commits to a time, signed with the same key. -/
def latePayloadSegment : String :=
  "eyJfc2QiOlsidXZOdTRBOVp2ZjFNR2dncWZTM0xLRHl4VTFfOFdvWjVvOGljUEk3eWJRRSJdLCJfc2RfYWxnIjoic2hhLTI1NiIsImNuZiI6eyJqd2siOnsiY3J2IjoiRWQyNTUxOSIsImt0eSI6Ik9LUCIsIngiOiJQVUFYdy1oRGlWcVN0d3FuVFJ0LXZKeVlMTTh1eEphTXdNMVY4U3IwWmd3In19LCJleHAiOjE3ODY3MDQzMDAsImlzcyI6Imh0dHBzOi8vYXR0ZXN0YXRpb24uZXhhbXBsZS5jb20ifQ"

def lateSignatureSegment : String :=
  "bznruLWSSsQ7iptB0YgymfhW3Nk9423WdyvLYOeVVcDhwI8AeeALwn9QGJ4JNsDE4AFeLA2iOD31f6rqIV4_AA"

def lateSignatureBytes : Bytes :=
  [111, 57, 235, 184, 181, 146, 74, 196, 59, 138, 155, 65, 209, 136, 50, 153, 248, 86, 220, 217,
   61, 227, 109, 214, 119, 43, 203, 96, 231, 149, 85, 192, 225, 192, 143, 0, 121, 224, 11, 194,
   127, 80, 24, 158, 9, 54, 192, 196, 224, 1, 94, 44, 13, 162, 56, 61, 245, 127, 170, 234, 33, 94,
   63, 0]

/-- The disclosure of `["f0UUCvMSycSUXaVfuiDWAA","nbf",1786790700]`: tomorrow. -/
def lateDisclosureSegment : String :=
  "WyJmMFVVQ3ZNU3ljU1VYYVZmdWlEV0FBIiwibmJmIiwxNzg2NzkwNzAwXQ"

def lateDigestBytes : Bytes :=
  [186, 243, 110, 224, 15, 89, 189, 253, 76, 26, 8, 42, 125, 45, 203, 40, 60, 177, 83, 95, 252, 90,
   134, 121, 163, 200, 156, 60, 142, 242, 109, 1]

def lateDigestText : String := "uvNu4A9Zvf1MGggqfS3LKDyxU1_8WoZ5o8icPI7ybQE"

def lateValue : Value :=
  .object [("_sd", .array [.string lateDigestText]), ("_sd_alg", .string "sha-256"),
    ("cnf", .object [("jwk", workloadJwk)]), ("exp", .number (.posInt 1786704300)),
    ("iss", .string "https://attestation.example.com")]

def lateText : String :=
  "\x7b\"_sd\":[\"uvNu4A9Zvf1MGggqfS3LKDyxU1_8WoZ5o8icPI7ybQE\"],\"_sd_alg\":\"sha-256\",\"cnf\":\x7b\"jwk\":\x7b\"crv\":\"Ed25519\",\"kty\":\"OKP\",\"x\":\"PUAXw-hDiVqStwqnTRt-vJyYLM8uxJaMwM1V8Sr0Zgw\"\x7d\x7d,\"exp\":1786704300,\"iss\":\"https://attestation.example.com\"\x7d"

def lateDisclosureText : String := "[\"f0UUCvMSycSUXaVfuiDWAA\",\"nbf\",1786790700]"

def lateKey : ArtifactVerifier := fun data signature =>
  data = utf8 (headerSegment ++ "." ++ latePayloadSegment) && signature = lateSignatureBytes

/-- The crates, as far as this credential asks them. -/
def lateCrates : Crates where
  base64urlEncode bytes := if bytes = lateDigestBytes then lateDigestText else ""
  base64urlDecode text :=
    if text = headerSegment then .ok (utf8 headerText)
    else if text = latePayloadSegment then .ok (utf8 lateText)
    else if text = lateSignatureSegment then .ok lateSignatureBytes
    else if text = lateDisclosureSegment then .ok (utf8 lateDisclosureText)
    else .error "Invalid symbol"
  valueFromSlice bytes :=
    if bytes = utf8 headerText then .ok headerValue
    else if bytes = utf8 lateText then .ok lateValue
    else if bytes = utf8 lateDisclosureText then
      .ok (.array [.string "f0UUCvMSycSUXaVfuiDWAA", .string "nbf",
        .number (.posInt 1786790700)])
    else .error "expected value"
  valueToString _ := ""
  sha256 bytes := if bytes = utf8 lateDisclosureSegment then lateDigestBytes else []
  rsaVerify _ _ _ := false
  publicKeyFromJwk jwk :=
    if jwk.getStr "x" = attesterJwk.getStr "x" then .ok lateKey else .ok fun _ _ => false
  expectedAlgorithmsForJwk _ := .ok { jose := "EdDSA", cose := some .edDSA }
  regexNew _ := .error "unsupported"
  invariantOrder := LinearOrder.lift' Invariant.fields Invariant.fields_injective

def lateJws : String := headerSegment ++ "." ++ latePayloadSegment ++ "." ++ lateSignatureSegment

def latePresentation : String := lateJws ++ "~" ++ (lateDisclosureSegment ++ "~" ++ "")

theorem late_split :
    split '.' lateJws = [headerSegment, latePayloadSegment, lateSignatureSegment] :=
  split_three (notMem_of_all (by decide +kernel)) (notMem_of_all (by decide +kernel))
    (notMem_of_all (by decide +kernel))

theorem latePresentation_split :
    splitPresentation latePresentation = .ok (lateJws, [lateDisclosureSegment]) :=
  splitPresentation_one
    (notMem_three (notMem_of_all (by decide +kernel)) (notMem_of_all (by decide +kernel))
      (notMem_of_all (by decide +kernel)) (by decide))
    (notMem_of_all (by decide +kernel)) (by simp [lateJws]) (by decide +kernel)

/-- The segments are four texts, and so are the JSON texts of three of them. -/
theorem late_segments_ne : latePayloadSegment ≠ headerSegment ∧
    lateSignatureSegment ≠ headerSegment ∧ lateSignatureSegment ≠ latePayloadSegment ∧
    lateDisclosureSegment ≠ headerSegment ∧ lateDisclosureSegment ≠ latePayloadSegment ∧
    lateDisclosureSegment ≠ lateSignatureSegment := by
  decide +kernel

theorem late_texts_ne : utf8 lateText ≠ utf8 headerText ∧
    utf8 lateDisclosureText ≠ utf8 headerText ∧ utf8 lateDisclosureText ≠ utf8 lateText :=
  ⟨utf8_injective.ne (by decide +kernel), utf8_injective.ne (by decide +kernel),
    utf8_injective.ne (by decide +kernel)⟩

theorem late_segments : decodeJwsSegments lateCrates lateJws = .ok (headerValue, lateValue) := by
  obtain ⟨hpayload, -⟩ := late_segments_ne
  obtain ⟨htext, -⟩ := late_texts_ne
  refine decodeJwsSegments_of_decodes late_split ⟨utf8 headerText, ?_, ?_⟩ ⟨utf8 lateText, ?_, ?_⟩
  · simp [b64urlDecode, lateCrates, Except.toOption]
  · simp [lateCrates]
  · simp [b64urlDecode, lateCrates, hpayload, Except.toOption]
  · simp [lateCrates, htext]

theorem late_opens :
    Opens lateCrates lateDisclosureSegment ("nbf", .number (.posInt 1786790700)) := by
  obtain ⟨-, -, -, h1, h2, h3⟩ := late_segments_ne
  obtain ⟨-, t1, t2⟩ := late_texts_ne
  refine ⟨utf8 lateDisclosureText, .string "f0UUCvMSycSUXaVfuiDWAA", ?_, ?_⟩
  · simp [b64urlDecode, lateCrates, h1, h2, h3, Except.toOption]
  · simp [lateCrates, t1, t2]

theorem late_verifies : verifyIssuerSignature lateCrates lateJws headerValue testAttester
    testValidator.keysFor = .ok () := by
  have hkty : attesterJwk.getStr "kty" = some "OKP" := by
    simp [Value.getStr, attesterJwk, Value.get_object, Value.asStr]
  have hsignature : b64urlDecode lateCrates lateSignatureSegment = some lateSignatureBytes := by
    obtain ⟨-, h1, h2, -⟩ := late_segments_ne
    simp [b64urlDecode, lateCrates, h1, h2, Except.toOption]
  have hread : verificationKeyFromJwk lateCrates attesterJwk = .ok lateKey := by
    simp only [verificationKeyFromJwk, hkty, bind_ok, ensure_ok]
    exact ⟨(), by simp [attesterJwk, Value.get_object], by simp [lateCrates]⟩
  have halg : headerValue.getStr "alg" = some "EdDSA" := by
    simp [Value.getStr, headerValue, Value.get_object, Value.asStr]
  have hkid : headerValue.getStr "kid" = none := by
    simp [Value.getStr, headerValue, Value.get_object]
  have hmatches : algorithmMatches lateCrates "EdDSA" attesterJwk = true := by
    simp [algorithmMatches, expectedJoseAlgorithm, hkty, lateCrates, Except.toOption]
  exact verifyIssuerSignature_one halg (by decide) hkid late_split hsignature rfl hmatches hread
    (by simp [lateKey])

def lateClaims : Map Value :=
  insertAll (signedClaims lateValue) [("nbf", .number (.posInt 1786790700))]

theorem late_merges :
    processDisclosures lateCrates lateValue [lateDisclosureSegment] = .ok lateClaims := by
  have hdigest : digestOf lateCrates lateDisclosureSegment = lateDigestText := by
    simp [digestOf, base64url, lateCrates]
  have hcommitted : committed lateValue = [lateDigestText] := by
    simp [committed, lateValue, Value.get_object, Value.asArray, Value.asStr]
  have hfresh : "nbf" ∉ signedClaims lateValue := by
    rw [← Finmap.lookup_eq_none, Option.eq_none_iff_forall_ne_some]
    intro value h
    simpa [lateValue, Value.get_object] using (lookup_signedClaims.mp h).2.2
  refine mergeDisclosures_ok.mpr ⟨?_, by simp, [("nbf", .number (.posInt 1786790700))],
    .cons late_opens .nil, ?_, by simp, rfl⟩
  · simp [hdigest, hcommitted]
  · simp [hfresh, Reserved]

theorem late_length : (sdJwt latePresentation).evidence.length ≤ MAX_EVIDENCE_BYTES := by
  have hheader : (utf8 headerSegment).length ≤ 4 * 20 := length_utf8_le _
  have hpayload : (utf8 latePayloadSegment).length ≤ 4 * 302 := length_utf8_le _
  have hsignature : (utf8 lateSignatureSegment).length ≤ 4 * 86 := length_utf8_le _
  have hdisclosure : (utf8 lateDisclosureSegment).length ≤ 4 * 58 := length_utf8_le _
  have hdot : (utf8 ".").length = 1 := by decide
  have htilde : (utf8 "~").length = 1 := by decide
  have hnil : (utf8 "").length = 0 := by decide
  simp only [sdJwt_evidence, latePresentation, lateJws, utf8_append, List.length_append,
    MAX_EVIDENCE_BYTES]
  omega

/-- A credential that is valid from tomorrow on is accepted today. -/
theorem disclosed_time_not_checked : ∃ key processed jwk,
    validateEvidenceWithKey lateCrates testValidator (sdJwt latePresentation) =
      .ok (key, processed, jwk) ∧ ¬Timely testValidator.now processed.claims := by
  have hiss : lateValue.getStr "iss" = some testAttester.issuer := by
    simp [Value.getStr, lateValue, Value.get_object, Value.asStr, testAttester]
  have hsdAlg : validateSdAlg lateValue = .ok () := by
    simp [validateSdAlg, Value.getStr, lateValue, Value.get_object, Value.asStr, ensure,
      SD_ALG_SHA_256]
  have hvalid : validateValidityClaims lateValue testValidator.now = .ok () := by
    simp [validateValidityClaims, lateValue, Value.get_object, Value.asI64, Number.asI64,
      okOr, ensure, testValidator, CLOCK_SKEW_SECONDS, bind_ok]
  have hcnf : cnfJwk lateValue = some workloadJwk := by
    simp [cnfJwk, lateValue, Value.get_object]
  have htext : fromUtf8 (sdJwt latePresentation).evidence = some latePresentation := by
    rw [sdJwt_evidence, fromUtf8_utf8]
  have hkey : lateCrates.publicKeyFromJwk workloadJwk = .ok fun _ _ => false := by
    simp [lateCrates, Value.getStr, workloadJwk, attesterJwk, Value.get_object, Value.asStr]
  refine ⟨_, _, _, validateEvidenceWithKey_of_steps late_length htext latePresentation_split
    late_segments hiss (by simp [testValidator]) (by simp [testAttester]) late_verifies hsdAlg
    hvalid late_merges hcnf hkey, ?_⟩
  have hlookup : lateClaims.lookup "nbf" = some (.number (.posInt 1786790700)) := by
    simp [lateClaims, insertAll]
  exact not_timely_of_lookup hlookup (by decide)

end Late

end PicX.Realm
