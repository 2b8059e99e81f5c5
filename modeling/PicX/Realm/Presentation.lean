import Mathlib.Data.List.Lex
import Mathlib.Data.String.Basic
import PicX.Realm.Por

/-!
# What an accepted presentation says

A presenter chooses which disclosures to show, and nothing else. `mergeDisclosures_ok` says when a
list of disclosures is merged and into what; `evidence_sound` puts it together with the issuer's
signature over the rest.

* `mergeDisclosures_ok` — the loop over the disclosures, as one condition on all of them.
* `Presentation.Sound` — what is signed, by whom, and what the processed claims are.
* `evidence_sound` — every accepted presentation is sound.
-/

namespace PicX.Realm

open PicX

variable {c : Crates} {digests used disclosures : List String} {claims claims' : Map Value}
  {claim : String × Value} {opened : List (String × Value)} {name disclosure : String}
  {value payload : Value}

/-! ## One disclosure -/

/-- The names a disclosure must not use. -/
def Reserved (name : String) : Prop := "_sd".toList <+: name.toList ∨ name = "..."

/-- A disclosure is the base64url of `[salt, name, value]`. -/
def Opens (c : Crates) (disclosure : String) (claim : String × Value) : Prop :=
  ∃ decoded salt, b64urlDecode c disclosure = some decoded ∧
    c.valueFromSlice decoded = .ok (.array [salt, .string claim.1, claim.2])

theorem disclosedClaim_ok :
    disclosedClaim c disclosure = .ok claim ↔ Opens c disclosure claim ∧ ¬Reserved claim.1 := by
  obtain ⟨name, value⟩ := claim
  simp only [disclosedClaim, Opens, Reserved, bind_ok, okOr_ok, Option.bind_eq_some_iff]
  constructor
  · intro ⟨decoded, hdecoded, parts, ⟨array, harray, hparts⟩, h⟩
    have hslice : c.valueFromSlice decoded = .ok (.array parts) := by
      rw [toOption_eq_some.mp harray, Value.asArray_eq_some.mp hparts]
    split at h
    · next salt nameValue value' =>
      simp only [bind_ok, okOr_ok, ensure_ok, pure_ok, Value.asStr_eq_some] at h
      obtain ⟨name', rfl, u, hname, hpair⟩ := h
      cases hpair
      rw [List.isPrefixOf_iff_prefix] at hname
      exact ⟨⟨decoded, salt, hdecoded, hslice⟩, hname⟩
    · cases h
  · intro ⟨⟨decoded, salt, hdecoded, hslice⟩, hname⟩
    refine ⟨decoded, hdecoded, [salt, .string name, value],
      ⟨_, toOption_eq_some.mpr hslice, rfl⟩, ?_⟩
    simp only [bind_ok, okOr_ok, ensure_ok, pure_ok, Value.asStr_eq_some,
      List.isPrefixOf_iff_prefix]
    exact ⟨name, rfl, (), hname, rfl⟩

/-! ## All of them -/

/-- **When disclosures are merged**: each is committed to, none is presented twice, each opens to
a claim under a name that is neither reserved nor taken, and the result has one more entry for
each. -/
theorem mergeDisclosures_ok :
    mergeDisclosures c digests disclosures used claims = .ok claims' ↔
      (∀ d ∈ disclosures, digestOf c d ∈ digests ∧ digestOf c d ∉ used) ∧
      (disclosures.map (digestOf c)).Nodup ∧
      ∃ opened, List.Forall₂ (Opens c) disclosures opened ∧
        (∀ p ∈ opened, ¬Reserved p.1 ∧ p.1 ∉ claims) ∧ (opened.map Prod.fst).Nodup ∧
        claims' = insertAll claims opened := by
  induction disclosures generalizing used claims with
  | nil =>
    constructor
    · intro h
      exact ⟨by simp, by simp, [], .nil, by simp, by simp, (pure_ok.mp h).symm⟩
    · intro ⟨_, _, opened, hopened, _, _, heq⟩
      cases hopened
      rw [heq]
      rfl
  | cons d rest ih =>
    simp only [mergeDisclosures, bind_ok, ensure_ok, ih]
    constructor
    · intro h
      obtain ⟨_, hmem, _, hused, ⟨name, value⟩, hclaim, _, hfresh, hrest, hnodup, opened, hopened,
        hnames, hdistinct, heq⟩ := h
      obtain ⟨hopens, hreserved⟩ := disclosedClaim_ok.mp hclaim
      refine ⟨?_, ?_, (name, value) :: opened, .cons hopens hopened, ?_, ?_, heq⟩
      · intro d' hd'
        rcases List.mem_cons.mp hd' with rfl | hd'
        · exact ⟨hmem, hused⟩
        · exact ⟨(hrest d' hd').1, fun h => (hrest d' hd').2 (List.mem_cons_of_mem _ h)⟩
      · rw [List.map_cons, List.nodup_cons]
        refine ⟨fun h => ?_, hnodup⟩
        obtain ⟨d', hd', heq'⟩ := List.mem_map.mp h
        exact (hrest d' hd').2 (heq' ▸ List.mem_cons_self)
      · intro p hp
        rcases List.mem_cons.mp hp with rfl | hp
        · exact ⟨hreserved, hfresh⟩
        · exact ⟨(hnames p hp).1, fun h => (hnames p hp).2 (Finmap.mem_insert.mpr (Or.inr h))⟩
      · rw [List.map_cons, List.nodup_cons]
        refine ⟨fun h => ?_, hdistinct⟩
        obtain ⟨p, hp, heq'⟩ := List.mem_map.mp h
        exact (hnames p hp).2 (Finmap.mem_insert.mpr (Or.inl heq'))
    · intro ⟨hall, hnodup, opened, hopened, hnames, hdistinct, heq⟩
      obtain ⟨⟨name, value⟩, rest', hopens, hrest, rfl⟩ := List.forall₂_cons_left_iff.mp hopened
      rw [List.map_cons, List.nodup_cons] at hnodup hdistinct
      obtain ⟨hreserved, hfresh⟩ := hnames (name, value) List.mem_cons_self
      refine ⟨(), (hall d List.mem_cons_self).1, (), (hall d List.mem_cons_self).2, (name, value),
        disclosedClaim_ok.mpr ⟨hopens, hreserved⟩, (), hfresh, ?_, hnodup.2, rest', hrest, ?_,
        hdistinct.2, heq⟩
      · intro d' hd'
        refine ⟨(hall d' (List.mem_cons_of_mem _ hd')).1, fun h => ?_⟩
        rcases List.mem_cons.mp h with h | h
        · exact hnodup.1 (h ▸ List.mem_map_of_mem hd')
        · exact (hall d' (List.mem_cons_of_mem _ hd')).2 h
      · intro p hp
        obtain ⟨hreserved', hfresh'⟩ := hnames p (List.mem_cons_of_mem _ hp)
        refine ⟨hreserved', fun h => ?_⟩
        rcases Finmap.mem_insert.mp h with h | h
        · exact hdistinct.1 (h ▸ List.mem_map_of_mem hp)
        · exact hfresh' h

/-! ## The signed part -/

theorem lookup_signedClaims :
    (signedClaims payload).lookup name = some value ↔
      name ≠ "_sd" ∧ name ≠ "_sd_alg" ∧ payload.get name = some value := by
  unfold signedClaims Value.get
  cases payload.asObject with
  | none => simp
  | some object =>
    by_cases halg : name = "_sd_alg"
    · subst halg
      simp
    · by_cases hsd : name = "_sd"
      · subst hsd
        simp [Finmap.lookup_erase_ne halg]
      · simp [Finmap.lookup_erase_ne halg, Finmap.lookup_erase_ne hsd, hsd, halg]

/-- A segment of a JWS is the base64url of some JSON. -/
def Decodes (c : Crates) (segment : String) (value : Value) : Prop :=
  ∃ bytes, b64urlDecode c segment = some bytes ∧ c.valueFromSlice bytes = .ok value

theorem decodeJson_ok {segment label : String} :
    decodeJson c segment label = .ok value ↔ Decodes c segment value := by
  simp only [decodeJson, Decodes, bind_ok, okOr_ok, mapErr_ok]

theorem decodeJwsSegments_ok {jws : String} {header : Value}
    (h : decodeJwsSegments c jws = .ok (header, payload)) :
    ∃ headerText payloadText signature, split '.' jws = [headerText, payloadText, signature] ∧
      Decodes c headerText header ∧ Decodes c payloadText payload := by
  unfold decodeJwsSegments at h
  split at h
  · next headerText payloadText signature hsplit =>
    simp only [bind_ok, pure_ok, decodeJson_ok] at h
    obtain ⟨header', hheader, payload', hpayload, heq⟩ := h
    cases heq
    exact ⟨headerText, payloadText, signature, hsplit, hheader, hpayload⟩
  · cases h

/-- A signature verifies under a key of the kind its algorithm asks for. -/
def SignedUnder (c : Crates) (algorithm signed signature : String) (jwk : Value) : Prop :=
  expectedJoseAlgorithm c jwk = some algorithm ∧ ∃ key bytes,
    verificationKeyFromJwk c jwk = .ok key ∧ b64urlDecode c signature = some bytes ∧
      key (utf8 signed) bytes = true

/-- One of the keys of an attester verifies what it is said to have signed. -/
theorem verifyIssuerSignature_ok {jws headerText payloadText signature : String} {header : Value}
    {attester : TrustedAttesterConfig} {keysFor : String → Except String (List Value)} {u : Unit}
    (hsplit : split '.' jws = [headerText, payloadText, signature])
    (h : verifyIssuerSignature c jws header attester keysFor = .ok u) :
    ∃ keys, keysFor attester.id = .ok keys ∧ ∃ jwk ∈ keys, ∃ algorithm,
      header.get "alg" = some (.string algorithm) ∧
        SignedUnder c algorithm (headerText ++ "." ++ payloadText) signature jwk := by
  simp only [verifyIssuerSignature, jwsSignatureParts, hsplit, bind_ok, okOr_ok, ensure_ok,
    mapErr_ok, pure_ok] at h
  obtain ⟨algorithm, halg, _, -, ⟨input, bytes⟩, ⟨bytes', hbytes, heq⟩, keys, hkeys, _, -, _, -,
    hany⟩ := h
  cases heq
  obtain ⟨jwk, hjwk, hverifies⟩ := List.any_eq_true.mp hany
  refine ⟨keys, hkeys, jwk, (List.mem_filter.mp hjwk).1, algorithm,
    Value.getStr_eq_some.mp halg, ?_⟩
  unfold keyVerifies at hverifies
  obtain ⟨hmatches, hkey⟩ := Bool.and_eq_true_iff.mp hverifies
  have hexpected : expectedJoseAlgorithm c jwk = some algorithm := by
    unfold algorithmMatches at hmatches
    cases hjose : expectedJoseAlgorithm c jwk with
    | none => simp [hjose] at hmatches
    | some jose => simpa [hjose] using hmatches
  cases hread : verificationKeyFromJwk c jwk with
  | error e => simp [hread] at hkey
  | ok key => exact ⟨hexpected, key, bytes, hread, hbytes, by simpa [hread] using hkey⟩

/-! ## The whole presentation -/

/-- The parts of a presentation, and what they decode to. -/
structure Presentation where
  header : String
  payload : String
  signature : String
  disclosures : List String
  headerValue : Value
  payloadValue : Value
  /-- The claims the disclosures open to. -/
  opened : List (String × Value)

/-- `<header>.<payload>.<signature>~<disclosure>~...~`; a disclosure with nothing in it is none. -/
def Presentation.Splits (p : Presentation) (evidence : Bytes) : Prop :=
  ∃ text jws segments, fromUtf8 evidence = some text ∧ split '~' text = jws :: segments ∧
    split '.' jws = [p.header, p.payload, p.signature] ∧
    p.disclosures = segments.filter fun segment => !segment.isEmpty

/-- A presentation as its issuer meant it: signed by a trusted attester, with disclosures the
credential commits to, and processed to the signed claims and one more for each disclosure. -/
structure Presentation.Sound (c : Crates) (v : SdJwtProfileValidator) (p : Presentation)
    (processed : ProcessedProfileEvidence) : Prop where
  header : Decodes c p.header p.headerValue
  payload : Decodes c p.payload p.payloadValue
  signed : ∃ attester ∈ v.attesters,
    p.payloadValue.get "iss" = some (.string attester.issuer) ∧
    processed.attesterId = attester.id ∧ processed.issuer = attester.issuer ∧
    ∃ keys, v.keysFor attester.id = .ok keys ∧ ∃ jwk ∈ keys, ∃ algorithm,
      p.headerValue.get "alg" = some (.string algorithm) ∧
        SignedUnder c algorithm (p.header ++ "." ++ p.payload) p.signature jwk
  committed : ∀ d ∈ p.disclosures, digestOf c d ∈ committed p.payloadValue
  once : (p.disclosures.map (digestOf c)).Nodup
  opens : List.Forall₂ (Opens c) p.disclosures p.opened
  unreserved : ∀ claim ∈ p.opened, ¬Reserved claim.1
  fresh : ∀ claim ∈ p.opened, p.payloadValue.get claim.1 = none
  distinct : (p.opened.map Prod.fst).Nodup
  claims : ∀ name value, processed.claims.lookup name = some value ↔
    (name ≠ "_sd" ∧ name ≠ "_sd_alg" ∧ p.payloadValue.get name = some value) ∨
      (name, value) ∈ p.opened

theorem splitPresentation_ok {text jws : String}
    (h : splitPresentation text = .ok (jws, disclosures)) :
    ∃ segments, split '~' text = jws :: segments ∧
      disclosures = segments.filter fun segment => !segment.isEmpty := by
  simp only [splitPresentation, bind_ok, ensure_ok, okOr_ok, pure_ok] at h
  obtain ⟨_, -, jws', hhead, _, -, heq⟩ := h
  cases heq
  obtain ⟨segments, hsplit⟩ := List.head?_eq_some_iff.mp (Option.filter_eq_some_iff.mp hhead).1
  exact ⟨segments, hsplit, by rw [hsplit, List.tail_cons]⟩

/-- A name that may be disclosed, and is not among the signed claims, is not signed at all. -/
theorem get_eq_none_of_notMem_signedClaims (hname : ¬Reserved name)
    (h : name ∉ signedClaims payload) : payload.get name = none := by
  by_contra hne
  obtain ⟨value, hvalue⟩ := Option.ne_none_iff_exists'.mp hne
  have hsd : name ≠ "_sd" := by
    intro heq
    exact hname (Or.inl (heq ▸ List.prefix_rfl))
  have halg : name ≠ "_sd_alg" := by
    intro heq
    exact hname (Or.inl (heq ▸ by decide))
  exact h (Finmap.mem_of_lookup_eq_some (lookup_signedClaims.mpr ⟨hsd, halg, hvalue⟩))

/-- The parts of an accepted presentation: it is sound, its key is the one the signed payload binds,
and the signed payload passed the check of its validity. -/
theorem evidence_parts {v : SdJwtProfileValidator} {por : ProofOfRelationship}
    {key : ArtifactVerifier} {processed : ProcessedProfileEvidence} {jwk : Value}
    (h : validateEvidenceWithKey c v por = .ok (key, processed, jwk)) :
    ∃ p : Presentation, p.Splits por.evidence ∧ p.Sound c v processed ∧
      cnfJwk p.payloadValue = some jwk ∧ c.publicKeyFromJwk jwk = .ok key ∧
      validateValidityClaims p.payloadValue v.now = .ok () := by
  simp only [validateEvidenceWithKey, bind_ok, ensure_ok, okOr_ok, pure_ok] at h
  obtain ⟨_, -, text, htext, ⟨jws, disclosures⟩, hpresentation, ⟨header, payload⟩, hsegments,
    issuer, hissuer, attester, hattester, _, -, _, hsignature, _, -, _, hvalid, claims,
    hclaims, jwk', hjwk, key', hkey, heq⟩ := h
  cases heq
  obtain ⟨segments, hsplit, rfl⟩ := splitPresentation_ok hpresentation
  obtain ⟨headerText, payloadText, signature, hjws, hheader, hpayload⟩ :=
    decodeJwsSegments_ok hsegments
  obtain ⟨hcommitted, honce, opened, hopens, hnames, hdistinct, rfl⟩ :=
    mergeDisclosures_ok.mp hclaims
  have hlookup : ∀ name value, (insertAll (signedClaims payload) opened).lookup name = some value ↔
      (name ≠ "_sd" ∧ name ≠ "_sd_alg" ∧ payload.get name = some value) ∨
        (name, value) ∈ opened := by
    intro name value
    rw [lookup_insertAll_iff hdistinct fun p hp => (hnames p hp).2, lookup_signedClaims]
  have hmatch : attester.issuer = issuer := by
    simpa using List.find?_some hattester
  refine ⟨⟨headerText, payloadText, signature, _, header, payload, opened⟩,
    ⟨text, jws, segments, htext, hsplit, hjws, rfl⟩, ?_, hjwk, ?_, hvalid⟩
  · exact {
      header := hheader
      payload := hpayload
      signed := ⟨attester, List.mem_of_find?_eq_some hattester,
        hmatch ▸ Value.getStr_eq_some.mp hissuer, rfl, hmatch.symm,
        verifyIssuerSignature_ok hjws hsignature⟩
      committed := fun d hd => (hcommitted d hd).1
      once := honce
      opens := hopens
      unreserved := fun claim hclaim => (hnames claim hclaim).1
      fresh := fun claim hclaim =>
        get_eq_none_of_notMem_signedClaims (hnames claim hclaim).1 (hnames claim hclaim).2
      distinct := hdistinct
      claims := hlookup }
  · simp only [workloadKeyFromCnf, rebuildWorkloadKey, bind_ok, okOr_ok, mapErr_ok] at hkey
    obtain ⟨jwk'', hjwk'', hread⟩ := hkey
    rw [hjwk] at hjwk''
    cases hjwk''
    exact hread

/-- **What is accepted is what was attested.** Every accepted presentation is sound, the workload
key is the one the signed payload binds, and no signed claim is changed or overridden. -/
theorem evidence_sound {v : SdJwtProfileValidator} {por : ProofOfRelationship}
    {key : ArtifactVerifier} {processed : ProcessedProfileEvidence} {jwk : Value}
    (h : validateEvidenceWithKey c v por = .ok (key, processed, jwk)) :
    ∃ p : Presentation, p.Splits por.evidence ∧ p.Sound c v processed ∧
      cnfJwk p.payloadValue = some jwk ∧ c.publicKeyFromJwk jwk = .ok key ∧
      ∀ name value, name ≠ "_sd" → name ≠ "_sd_alg" → p.payloadValue.get name = some value →
        processed.claims.lookup name = some value := by
  obtain ⟨p, hsplits, hsound, hjwk, hkey, -⟩ := evidence_parts h
  refine ⟨p, hsplits, hsound, hjwk, hkey, ?_⟩
  intro name value hsd halg hvalue
  exact (hsound.claims name value).mpr (Or.inl ⟨hsd, halg, hvalue⟩)

/-! ## Presentations that are accepted -/

section Steps

variable {v : SdJwtProfileValidator} {por : ProofOfRelationship}

theorem split_three {x y z : String} (hx : '.' ∉ x.toList) (hy : '.' ∉ y.toList)
    (hz : '.' ∉ z.toList) : split '.' (x ++ "." ++ y ++ "." ++ z) = [x, y, z] := by
  have hassoc : x ++ "." ++ y ++ "." ++ z = x ++ "." ++ (y ++ "." ++ z) := by
    simp only [String.append_assoc]
  rw [hassoc, split_append hx _ rfl, split_append hy _ rfl, split_of_notMem hz]

theorem notMem_three {x y z : String} {ch : Char} (hx : ch ∉ x.toList) (hy : ch ∉ y.toList)
    (hz : ch ∉ z.toList) (hdot : ch ≠ '.') : ch ∉ (x ++ "." ++ y ++ "." ++ z).toList := by
  simp [hx, hy, hz, hdot]

/-- A presentation with one disclosure is split into its two parts. -/
theorem splitPresentation_one {jws d : String} (hjws : '~' ∉ jws.toList) (hd : '~' ∉ d.toList)
    (hne : jws.isEmpty = false) (hne' : d.isEmpty = false) :
    splitPresentation (jws ++ "~" ++ (d ++ "~" ++ "")) = .ok (jws, [d]) := by
  have hlast : (jws ++ "~" ++ (d ++ "~" ++ "")).toList.getLast? = some '~' := by
    simp [List.getLast?_cons]
  have hsplit : split '~' (jws ++ "~" ++ (d ++ "~" ++ "")) = [jws, d, ""] := by
    rw [split_append hjws _ rfl, split_append hd _ rfl, split_of_notMem (by simp)]
  simp only [splitPresentation, hsplit, bind_ok, ensure_ok, okOr_ok, pure_ok]
  exact ⟨(), hlast, jws, by simp [hne], (), by simp [hne', MAX_DISCLOSURES], by simp [hne']⟩

theorem decodeJwsSegments_of_decodes {jws headerText payloadText signature : String}
    {header payload : Value} (hsplit : split '.' jws = [headerText, payloadText, signature])
    (hheader : Decodes c headerText header) (hpayload : Decodes c payloadText payload) :
    decodeJwsSegments c jws = .ok (header, payload) := by
  simp only [decodeJwsSegments, hsplit, bind_ok, pure_ok, decodeJson_ok]
  exact ⟨header, hheader, payload, hpayload, rfl⟩

theorem verifyIssuerSignature_one {jws headerText payloadText signature algorithm : String}
    {header jwk : Value} {attester : TrustedAttesterConfig}
    {keysFor : String → Except String (List Value)} {bytes : Bytes} {key : ArtifactVerifier}
    (halg : header.getStr "alg" = some algorithm) (hnone : algorithm ≠ "none")
    (hkid : header.getStr "kid" = none)
    (hsplit : split '.' jws = [headerText, payloadText, signature])
    (hbytes : b64urlDecode c signature = some bytes) (hkeys : keysFor attester.id = .ok [jwk])
    (hmatches : algorithmMatches c algorithm jwk = true)
    (hread : verificationKeyFromJwk c jwk = .ok key)
    (hverify : key (utf8 (headerText ++ "." ++ payloadText)) bytes = true) :
    verifyIssuerSignature c jws header attester keysFor = .ok () := by
  have hkey :
      keyVerifies c algorithm (utf8 (headerText ++ "." ++ payloadText)) bytes jwk = true := by
    rw [keyVerifies, hmatches, hread, Bool.true_and]
    exact hverify
  simp only [verifyIssuerSignature, jwsSignatureParts, hsplit, bind_ok, okOr_ok, ensure_ok,
    mapErr_ok, pure_ok]
  exact ⟨algorithm, halg, (), hnone, _, ⟨bytes, hbytes, rfl⟩, [jwk], hkeys, (), by simp, (),
    by simp [hkid], List.any_eq_true.mpr ⟨jwk, by simp [hkid], hkey⟩⟩

theorem validateEvidenceWithKey_of_steps {text jws issuer : String} {disclosures : List String}
    {header payload jwk : Value} {attester : TrustedAttesterConfig} {claims : Map Value}
    {key : ArtifactVerifier} (hlength : por.evidence.length ≤ MAX_EVIDENCE_BYTES)
    (htext : fromUtf8 por.evidence = some text)
    (hsplit : splitPresentation text = .ok (jws, disclosures))
    (hsegments : decodeJwsSegments c jws = .ok (header, payload))
    (hissuer : payload.getStr "iss" = some issuer)
    (hattester : (v.attesters.find? fun a => a.issuer = issuer) = some attester)
    (hproof : "sd-jwt" ∈ attester.proofTypes)
    (hsigned : verifyIssuerSignature c jws header attester v.keysFor = .ok ())
    (hsdAlg : validateSdAlg payload = .ok ())
    (hvalid : validateValidityClaims payload v.now = .ok ())
    (hclaims : processDisclosures c payload disclosures = .ok claims)
    (hcnf : cnfJwk payload = some jwk) (hkey : c.publicKeyFromJwk jwk = .ok key) :
    validateEvidenceWithKey c v por =
      .ok (key, { attesterId := attester.id, issuer, claims }, jwk) := by
  have hworkload : workloadKeyFromCnf c payload = .ok key := by
    simp only [workloadKeyFromCnf, rebuildWorkloadKey, bind_ok, okOr_ok, mapErr_ok]
    exact ⟨jwk, hcnf, hkey⟩
  simp only [validateEvidenceWithKey, bind_ok, ensure_ok, okOr_ok, pure_ok]
  exact ⟨(), hlength, text, htext, _, hsplit, _, hsegments, issuer, hissuer, attester, hattester,
    (), hproof, (), hsigned, (), hsdAlg, (), hvalid, claims, hclaims, jwk, hcnf, key, hworkload,
    rfl⟩

end Steps

/-! ### A credential with one disclosure -/

section Credential

set_option maxRecDepth 2000

/-- The segments of a credential an attester signed with the first test key of RFC 8032. -/
def headerSegment : String := "eyJhbGciOiJFZERTQSJ9"

def payloadSegment : String :=
  "eyJfc2QiOlsiUF85X2V3bGJLSi1kZHB5N0xpdmJTUFBDWU8yMTlTaV8wcEFqLWlFbFpKUSJdLCJfc2RfYWxnIjoic2hhLTI1NiIsImNuZiI6eyJqd2siOnsiY3J2IjoiRWQyNTUxOSIsImt0eSI6Ik9LUCIsIngiOiJQVUFYdy1oRGlWcVN0d3FuVFJ0LXZKeVlMTTh1eEphTXdNMVY4U3IwWmd3In19LCJleHAiOjE3ODY3MDQzMDAsImlzcyI6Imh0dHBzOi8vYXR0ZXN0YXRpb24uZXhhbXBsZS5jb20ifQ"

def signatureSegment : String :=
  "nGL3SBO7RxOnDD9SPaLWHXGvmz7Rpl18xvjvFH1Of1FaNebVcAgi2OB3VnPE-Z1_7j7QyoJUGQFMm4rItvisBA"

def signatureBytes : Bytes :=
  [156, 98, 247, 72, 19, 187, 71, 19, 167, 12, 63, 82, 61, 162, 214, 29, 113, 175, 155, 62,
   209, 166, 93, 124, 198, 248, 239, 20, 125, 78, 127, 81, 90, 53, 230, 213, 112, 8, 34, 216,
   224, 119, 86, 115, 196, 249, 157, 127, 238, 62, 208, 202, 130, 84, 25, 1, 76, 155, 138,
   200, 182, 248, 172, 4]

/-- The disclosure of `["f0UUCvMSycSUXaVfuiDWAA","corporation","ACME"]`. -/
def disclosureSegment : String :=
  "WyJmMFVVQ3ZNU3ljU1VYYVZmdWlEV0FBIiwiY29ycG9yYXRpb24iLCJBQ01FIl0"

/-- The SHA-256 of the disclosure, and its base64url. -/
def digestBytes : Bytes :=
  [63, 255, 127, 123, 9, 91, 40, 159, 157, 118, 156, 187, 46, 43, 219, 72, 243, 194, 96, 237,
   181, 245, 40, 191, 210, 144, 35, 250, 33, 37, 100, 148]

def digestText : String := "P_9_ewlbKJ-ddpy7LivbSPPCYO219Si_0pAj-iElZJQ"

/-- The key the credential binds. -/
def workloadJwk : Value :=
  .object [("crv", .string "Ed25519"), ("kty", .string "OKP"),
    ("x", .string "PUAXw-hDiVqStwqnTRt-vJyYLM8uxJaMwM1V8Sr0Zgw")]

/-- The key the attester publishes. -/
def attesterJwk : Value :=
  .object [("crv", .string "Ed25519"), ("kid", .string "attester-1"), ("kty", .string "OKP"),
    ("x", .string "11qYAYKxCrfVS_7TyWQHOg7hcvPapiMlrwIaaPcHURo")]

def headerValue : Value := .object [("alg", .string "EdDSA")]

def credentialValue : Value :=
  .object [("_sd", .array [.string digestText]), ("_sd_alg", .string "sha-256"),
    ("cnf", .object [("jwk", workloadJwk)]), ("exp", .number (.posInt 1786704300)),
    ("iss", .string "https://attestation.example.com")]

/-- The JSON texts of the credential. -/
def headerText : String := "\x7b\"alg\":\"EdDSA\"\x7d"

def credentialText : String :=
  "\x7b\"_sd\":[\"P_9_ewlbKJ-ddpy7LivbSPPCYO219Si_0pAj-iElZJQ\"],\"_sd_alg\":\"sha-256\",\"cnf\":\x7b\"jwk\":\x7b\"crv\":\"Ed25519\",\"kty\":\"OKP\",\"x\":\"PUAXw-hDiVqStwqnTRt-vJyYLM8uxJaMwM1V8Sr0Zgw\"\x7d\x7d,\"exp\":1786704300,\"iss\":\"https://attestation.example.com\"\x7d"

def disclosureText : String := "[\"f0UUCvMSycSUXaVfuiDWAA\",\"corporation\",\"ACME\"]"

/-- The verifier of the attester's key. -/
def attesterKey : ArtifactVerifier := fun data signature =>
  data = utf8 (headerSegment ++ "." ++ payloadSegment) && signature = signatureBytes

def Invariant.fields (i : Invariant) : List String :=
  [i.scope, i.operation, i.resourceType, i.resourceId]

theorem Invariant.fields_injective : Function.Injective Invariant.fields := by
  intro a b h
  cases a
  cases b
  simpa [Invariant.fields] using h

/-- The crates, as far as this credential asks them. -/
def testCrates : Crates where
  base64urlEncode bytes := if bytes = digestBytes then digestText else ""
  base64urlDecode text :=
    if text = headerSegment then .ok (utf8 headerText)
    else if text = payloadSegment then .ok (utf8 credentialText)
    else if text = signatureSegment then .ok signatureBytes
    else if text = disclosureSegment then .ok (utf8 disclosureText)
    else .error "Invalid symbol"
  valueFromSlice bytes :=
    if bytes = utf8 headerText then .ok headerValue
    else if bytes = utf8 credentialText then .ok credentialValue
    else if bytes = utf8 disclosureText then
      .ok (.array [.string "f0UUCvMSycSUXaVfuiDWAA", .string "corporation", .string "ACME"])
    else .error "expected value"
  valueToString _ := ""
  sha256 bytes := if bytes = utf8 disclosureSegment then digestBytes else []
  rsaVerify _ _ _ := false
  publicKeyFromJwk jwk :=
    if jwk.getStr "x" = attesterJwk.getStr "x" then
      .ok attesterKey
    else .ok fun _ _ => false
  expectedAlgorithmsForJwk _ := .ok { jose := "EdDSA", cose := some .edDSA }
  regexNew _ := .error "unsupported"
  invariantOrder := LinearOrder.lift' Invariant.fields Invariant.fields_injective

def testAttester : TrustedAttesterConfig where
  id := "acme-por-attester"
  issuer := "https://attestation.example.com"
  jwksUri := "https://attestation.example.com/jwks.json"
  proofTypes := ["sd-jwt"]
  formats := ["sd-jwt"]

/-- A realm that trusts one attester, within the hour of the credential. -/
def testValidator : SdJwtProfileValidator where
  attesters := [testAttester]
  keysFor _ := .ok [attesterJwk]
  now := 1786700800

/-- The issuer-signed part of the presentation. -/
def testJws : String := headerSegment ++ "." ++ payloadSegment ++ "." ++ signatureSegment

def testPresentation : String := testJws ++ "~" ++ (disclosureSegment ++ "~" ++ "")

/-- The evidence a workload hands over (`ProofOfRelationship::sd_jwt`). -/
def sdJwt (presentation : String) : ProofOfRelationship :=
  { porType := "sd-jwt", evidence := utf8 presentation }

theorem sdJwt_evidence (presentation : String) :
    (sdJwt presentation).evidence = utf8 presentation := rfl

theorem dot_notMem : '.' ∉ headerSegment.toList ∧ '.' ∉ payloadSegment.toList ∧
    '.' ∉ signatureSegment.toList :=
  ⟨notMem_of_all (by decide +kernel), notMem_of_all (by decide +kernel),
    notMem_of_all (by decide +kernel)⟩

theorem tilde_notMem : '~' ∉ headerSegment.toList ∧ '~' ∉ payloadSegment.toList ∧
    '~' ∉ signatureSegment.toList ∧ '~' ∉ disclosureSegment.toList :=
  ⟨notMem_of_all (by decide +kernel), notMem_of_all (by decide +kernel),
    notMem_of_all (by decide +kernel), notMem_of_all (by decide +kernel)⟩

theorem split_testJws : split '.' testJws = [headerSegment, payloadSegment, signatureSegment] :=
  split_three dot_notMem.1 dot_notMem.2.1 dot_notMem.2.2

theorem split_testPresentation : splitPresentation testPresentation =
    .ok (testJws, [disclosureSegment]) := by
  obtain ⟨hheader, hpayload, hsignature, hdisclosure⟩ := tilde_notMem
  exact splitPresentation_one (notMem_three hheader hpayload hsignature (by decide)) hdisclosure
    (by simp [testJws]) (by decide +kernel)

/-- Crates that read this credential as it was written. -/
structure ReadsCredential (c : Crates) : Prop where
  header : Decodes c headerSegment headerValue
  payload : Decodes c payloadSegment credentialValue
  signature : b64urlDecode c signatureSegment = some signatureBytes
  disclosure : Opens c disclosureSegment ("corporation", .string "ACME")
  digest : digestOf c disclosureSegment = digestText
  algorithm : c.expectedAlgorithmsForJwk attesterJwk = .ok ⟨"EdDSA", some .edDSA⟩
  attester : c.publicKeyFromJwk attesterJwk = .ok attesterKey
  workload : ∃ key, c.publicKeyFromJwk workloadJwk = .ok key

/-- The segments of the credential are four texts, and so are its JSON texts. -/
theorem segments_ne : payloadSegment ≠ headerSegment ∧ signatureSegment ≠ headerSegment ∧
    signatureSegment ≠ payloadSegment ∧ disclosureSegment ≠ headerSegment ∧
    disclosureSegment ≠ payloadSegment ∧ disclosureSegment ≠ signatureSegment := by
  decide +kernel

theorem texts_ne : utf8 credentialText ≠ utf8 headerText ∧ utf8 disclosureText ≠ utf8 headerText ∧
    utf8 disclosureText ≠ utf8 credentialText :=
  ⟨utf8_injective.ne (by decide +kernel), utf8_injective.ne (by decide +kernel),
    utf8_injective.ne (by decide +kernel)⟩

theorem testCrates_reads : ReadsCredential testCrates := by
  obtain ⟨h1, h2, h3, h4, h5, h6⟩ := segments_ne
  obtain ⟨t1, t2, t3⟩ := texts_ne
  constructor
  · exact ⟨utf8 headerText, by simp [b64urlDecode, testCrates, Except.toOption],
      by simp [testCrates]⟩
  · exact ⟨utf8 credentialText, by simp [b64urlDecode, testCrates, h1, Except.toOption],
      by simp [testCrates, t1]⟩
  · simp [b64urlDecode, testCrates, h2, h3, Except.toOption]
  · exact ⟨utf8 disclosureText, .string "f0UUCvMSycSUXaVfuiDWAA",
      by simp [b64urlDecode, testCrates, h4, h5, h6, Except.toOption],
      by simp [testCrates, t2, t3]⟩
  · simp [digestOf, base64url, testCrates]
  · rfl
  · simp [testCrates]
  · exact ⟨fun _ _ => false, by
      simp [testCrates, Value.getStr, workloadJwk, attesterJwk, Value.get_object, Value.asStr]⟩

theorem testJws_verifies (h : ReadsCredential c) :
    verifyIssuerSignature c testJws headerValue testAttester testValidator.keysFor = .ok () := by
  have halg : headerValue.getStr "alg" = some "EdDSA" := by
    simp [Value.getStr, headerValue, Value.get_object, Value.asStr]
  have hkid : headerValue.getStr "kid" = none := by
    simp [Value.getStr, headerValue, Value.get_object]
  have hkty : attesterJwk.getStr "kty" = some "OKP" := by
    simp [Value.getStr, attesterJwk, Value.get_object, Value.asStr]
  have hd : attesterJwk.get "d" = none := by
    simp [attesterJwk, Value.get_object]
  have hmatches : algorithmMatches c "EdDSA" attesterJwk = true := by
    simp [algorithmMatches, expectedJoseAlgorithm, hkty, h.algorithm, Except.toOption]
  have hread : verificationKeyFromJwk c attesterJwk = .ok attesterKey := by
    simp only [verificationKeyFromJwk, hkty, bind_ok, ensure_ok]
    exact ⟨(), by simp [hd], by simp [h.attester]⟩
  have hkey :
      attesterKey (utf8 (headerSegment ++ "." ++ payloadSegment)) signatureBytes = true := by
    simp [attesterKey]
  exact verifyIssuerSignature_one halg (by decide) hkid split_testJws h.signature rfl hmatches
    hread hkey

/-- The claims the credential discloses. -/
def testClaims : Map Value :=
  insertAll (signedClaims credentialValue) [("corporation", .string "ACME")]

theorem testDisclosure_merges (h : ReadsCredential c) :
    processDisclosures c credentialValue [disclosureSegment] = .ok testClaims := by
  have hcommitted : committed credentialValue = [digestText] := by
    simp [committed, credentialValue, Value.get_object, Value.asArray, Value.asStr]
  have hfresh : "corporation" ∉ signedClaims credentialValue := by
    rw [← Finmap.lookup_eq_none, Option.eq_none_iff_forall_ne_some]
    intro value h
    simpa [credentialValue, Value.get_object] using (lookup_signedClaims.mp h).2.2
  refine mergeDisclosures_ok.mpr ⟨?_, by simp, [("corporation", .string "ACME")],
    .cons h.disclosure .nil, ?_, by simp, rfl⟩
  · simp [h.digest, hcommitted]
  · simp [hfresh, Reserved]

theorem testPresentation_length :
    (sdJwt testPresentation).evidence.length ≤ MAX_EVIDENCE_BYTES := by
  have hheader : (utf8 headerSegment).length ≤ 4 * 20 := length_utf8_le _
  have hpayload : (utf8 payloadSegment).length ≤ 4 * 302 := length_utf8_le _
  have hsignature : (utf8 signatureSegment).length ≤ 4 * 86 := length_utf8_le _
  have hdisclosure : (utf8 disclosureSegment).length ≤ 4 * 63 := length_utf8_le _
  have hdot : (utf8 ".").length = 1 := by decide
  have htilde : (utf8 "~").length = 1 := by decide
  have hnil : (utf8 "").length = 0 := by decide
  simp only [sdJwt_evidence, testPresentation, testJws, utf8_append, List.length_append,
    MAX_EVIDENCE_BYTES]
  omega

/-- The credential is accepted. -/
theorem testPresentation_accepted (h : ReadsCredential c) : ∃ key,
    validateEvidenceWithKey c testValidator (sdJwt testPresentation) =
      .ok (key, ⟨testAttester.id, testAttester.issuer, testClaims⟩, workloadJwk) := by
  have hiss : credentialValue.getStr "iss" = some testAttester.issuer := by
    simp [Value.getStr, credentialValue, Value.get_object, Value.asStr, testAttester]
  have hsdAlg : validateSdAlg credentialValue = .ok () := by
    simp [validateSdAlg, Value.getStr, credentialValue, Value.get_object, Value.asStr, ensure,
      SD_ALG_SHA_256]
  have hvalid : validateValidityClaims credentialValue testValidator.now = .ok () := by
    simp [validateValidityClaims, credentialValue, Value.get_object, Value.asI64, Number.asI64,
      okOr, ensure, testValidator, CLOCK_SKEW_SECONDS, bind_ok]
  have hcnf : cnfJwk credentialValue = some workloadJwk := by
    simp [cnfJwk, credentialValue, Value.get_object]
  have htext : fromUtf8 (sdJwt testPresentation).evidence = some testPresentation := by
    rw [sdJwt_evidence, fromUtf8_utf8]
  have hsegments : decodeJwsSegments c testJws = .ok (headerValue, credentialValue) :=
    decodeJwsSegments_of_decodes split_testJws h.header h.payload
  obtain ⟨key, hkey⟩ := h.workload
  exact ⟨key, validateEvidenceWithKey_of_steps testPresentation_length htext
    split_testPresentation hsegments hiss (by simp [testValidator]) (by simp [testAttester])
    (testJws_verifies h) hsdAlg hvalid (testDisclosure_merges h) hcnf hkey⟩

/-- The credential of the test attester is sound. -/
theorem evidence_sound_credential : ∃ key processed p,
    validateEvidenceWithKey testCrates testValidator (sdJwt testPresentation) =
      .ok (key, processed, workloadJwk) ∧
    Presentation.Splits p (sdJwt testPresentation).evidence ∧
    p.Sound testCrates testValidator processed := by
  obtain ⟨key, haccepted⟩ := testPresentation_accepted testCrates_reads
  obtain ⟨p, hsplits, hsound, -⟩ := evidence_sound haccepted
  exact ⟨key, _, p, haccepted, hsplits, hsound⟩

end Credential

end PicX.Realm
