import PicX.Realm.Lineage

/-!
# One validator, asked many times

Preflight, settlement and conformance share the slot in which a validator keeps the presentation
it accepted last. Preflight asks through `validateAndRemember`, settlement through `validate`, and
conformance reads the slot. Along any sequence of calls the slot holds what validating its evidence
afresh would answer, so no call can tell whether it was answered from the slot.

* `Remembers` — the invariant of the slot.
* `EvidenceCall.run_spec` — one call: its answer is the fresh one, and the slot keeps the invariant.
* `cached_evidence_is_fresh` — every call of every sequence.
-/

namespace PicX.Realm

open PicX

/-! ## Calls -/

/-- What a validator can be asked. -/
inductive EvidenceCall where
  | validate (por : ProofOfRelationship)
  | validateAndRemember (por : ProofOfRelationship)

/-- What it answers: the bound key, or what the presentation disclosed. -/
inductive EvidenceAnswer where
  | key (answer : Except RejectReason ArtifactVerifier)
  | processed (answer : Except RejectReason ProcessedProfileEvidence)

def EvidenceCall.por : EvidenceCall → ProofOfRelationship
  | .validate por | .validateAndRemember por => por

def EvidenceAnswer.succeeded : EvidenceAnswer → Prop
  | .key answer => answer.isOk
  | .processed answer => answer.isOk

/-- What the validator last accepted (`accepted()`). -/
def acceptedEvidence (accepted : Option Accepted) : Option ProcessedProfileEvidence :=
  accepted.map Accepted.processed

variable (c : Crates) (v : SdJwtProfileValidator)

/-- A call, with the slot afterwards. -/
def EvidenceCall.run : EvidenceCall → Option Accepted → EvidenceAnswer × Option Accepted
  | .validate por, accepted =>
    let (answer, accepted) := Realm.validate c v por accepted
    (.key answer, accepted)
  | .validateAndRemember por, accepted =>
    let (answer, accepted) := Realm.validateAndRemember c v por accepted
    (.processed answer, accepted)

/-- The answer of a validation that remembers nothing. -/
def EvidenceCall.fresh : EvidenceCall → EvidenceAnswer
  | .validate por => .key ((validateEvidenceWithKey c v por).map fun r => r.1)
  | .validateAndRemember por => .processed ((validateEvidenceWithKey c v por).map fun r => r.2.1)

/-- The slot of a new validator after some calls. -/
def slotAfter (calls : List EvidenceCall) : Option Accepted :=
  calls.foldl (fun accepted call => (call.run c v accepted).2) none

/-- What is in the slot is what its evidence is validated to. -/
def Remembers (accepted : Option Accepted) : Prop :=
  ∀ entry, accepted = some entry → ∀ por : ProofOfRelationship, por.evidence = entry.evidence →
    ∃ key, validateEvidenceWithKey c v por = .ok (key, entry.processed, entry.jwk)

/-! ## One call -/

variable {c v} {accepted : Option Accepted} {por por' : ProofOfRelationship}
  {key : ArtifactVerifier} {processed : ProcessedProfileEvidence} {jwk : Value}

theorem validateEvidenceWithKey_congr (h : por.evidence = por'.evidence) :
    validateEvidenceWithKey c v por = validateEvidenceWithKey c v por' := by
  unfold validateEvidenceWithKey
  rw [h]

theorem rebuildWorkloadKey_of_accepted
    (h : validateEvidenceWithKey c v por = .ok (key, processed, jwk)) :
    rebuildWorkloadKey c jwk = .ok key := by
  simp only [validateEvidenceWithKey, workloadKeyFromCnf, bind_ok, okOr_ok, pure_ok] at h
  obtain ⟨_, _, _, _, _, _, _, _, _, _, _, _, _, _, _, _, _, _, _, _, _, _, jwk', hjwk, key', hkey,
    heq⟩ := h
  cases heq
  obtain ⟨jwk', hcnf, hrebuilt⟩ := hkey
  rw [Option.some.inj (hjwk.symm.trans hcnf)]
  exact hrebuilt

theorem remembers_none : Remembers c v none := by
  intro entry h
  cases h

theorem remembers_of_accepted (h : validateEvidenceWithKey c v por = .ok (key, processed, jwk)) :
    Remembers c v (some ⟨por.evidence, jwk, processed⟩) := by
  intro entry hentry por' heq
  cases hentry
  exact ⟨key, (validateEvidenceWithKey_congr heq).trans h⟩

theorem cachedFor_eq_some {evidence : Bytes} {entry : Accepted}
    (h : cachedFor accepted evidence = some entry) :
    accepted = some entry ∧ entry.evidence = evidence := by
  simpa [cachedFor, Option.filter_eq_some_iff] using h

theorem EvidenceCall.run_cached (call : EvidenceCall) {entry : Accepted}
    (hcached : cachedFor accepted call.por.evidence = some entry)
    (hfresh : validateEvidenceWithKey c v call.por = .ok (key, entry.processed, entry.jwk)) :
    call.run c v accepted = (call.fresh c v, accepted) := by
  have hkey := rebuildWorkloadKey_of_accepted hfresh
  cases call with
  | validate por =>
    rw [EvidenceCall.por] at hcached hfresh
    simp only [EvidenceCall.run, EvidenceCall.fresh, Realm.validate, hcached, hkey, hfresh]
    rfl
  | validateAndRemember por =>
    rw [EvidenceCall.por] at hcached hfresh
    simp only [EvidenceCall.run, EvidenceCall.fresh, Realm.validateAndRemember, hcached, hfresh]
    rfl

theorem EvidenceCall.run_accepted (call : EvidenceCall)
    (hcached : cachedFor accepted call.por.evidence = none)
    (hfresh : validateEvidenceWithKey c v call.por = .ok (key, processed, jwk)) :
    call.run c v accepted = (call.fresh c v, some ⟨call.por.evidence, jwk, processed⟩) := by
  cases call with
  | validate por =>
    rw [EvidenceCall.por] at hcached hfresh
    simp only [EvidenceCall.run, EvidenceCall.fresh, Realm.validate, hcached, hfresh]
    rfl
  | validateAndRemember por =>
    rw [EvidenceCall.por] at hcached hfresh
    simp only [EvidenceCall.run, EvidenceCall.fresh, Realm.validateAndRemember, hcached, hfresh]
    rfl

theorem EvidenceCall.run_rejected (call : EvidenceCall) {e : RejectReason}
    (hcached : cachedFor accepted call.por.evidence = none)
    (hfresh : validateEvidenceWithKey c v call.por = .error e) :
    call.run c v accepted = (call.fresh c v, accepted) ∧ ¬(call.fresh c v).succeeded := by
  cases call with
  | validate por =>
    rw [EvidenceCall.por] at hcached hfresh
    simp only [EvidenceCall.run, EvidenceCall.fresh, Realm.validate, hcached, hfresh]
    exact ⟨rfl, Bool.false_ne_true⟩
  | validateAndRemember por =>
    rw [EvidenceCall.por] at hcached hfresh
    simp only [EvidenceCall.run, EvidenceCall.fresh, Realm.validateAndRemember, hcached, hfresh]
    exact ⟨rfl, Bool.false_ne_true⟩

/-- **One call.** Its answer is the fresh one, the slot keeps its invariant, and after a success
the slot is about the evidence that was asked about. -/
theorem EvidenceCall.run_spec (call : EvidenceCall) (h : Remembers c v accepted) :
    (call.run c v accepted).1 = call.fresh c v ∧ Remembers c v (call.run c v accepted).2 ∧
    ((call.fresh c v).succeeded → ∃ key processed jwk,
      validateEvidenceWithKey c v call.por = .ok (key, processed, jwk) ∧
      (call.run c v accepted).2 = some ⟨call.por.evidence, jwk, processed⟩) := by
  cases hcached : cachedFor accepted call.por.evidence with
  | some entry =>
    obtain ⟨rfl, hevidence⟩ := cachedFor_eq_some hcached
    obtain ⟨key, hfresh⟩ := h entry rfl call.por hevidence.symm
    rw [call.run_cached hcached hfresh]
    refine ⟨rfl, h, fun _ => ⟨key, entry.processed, entry.jwk, hfresh, ?_⟩⟩
    rw [← hevidence]
  | none =>
    cases hfresh : validateEvidenceWithKey c v call.por with
    | error e =>
      obtain ⟨hrun, hfailed⟩ := call.run_rejected hcached hfresh
      rw [hrun]
      exact ⟨rfl, h, fun hok => absurd hok hfailed⟩
    | ok r =>
      obtain ⟨key, processed, jwk⟩ := r
      rw [call.run_accepted hcached hfresh]
      exact ⟨rfl, remembers_of_accepted hfresh, fun _ => ⟨key, processed, jwk, rfl, rfl⟩⟩

/-! ## Sequences of calls -/

theorem slotAfter_remembers (calls : List EvidenceCall) : Remembers c v (slotAfter c v calls) := by
  induction calls using List.reverseRecOn with
  | nil => exact remembers_none
  | append_singleton calls call ih =>
    unfold slotAfter at ih ⊢
    rw [List.foldl_append]
    exact (call.run_spec ih).2.1

/-- **Cached evidence validation agrees with fresh validation.** After any calls on one validator,
a call is answered as it would be without the slot. When it succeeds, the slot holds the bound key
and the processed claims of its evidence, and conformance is checked against exactly these. -/
theorem cached_evidence_is_fresh {A : Type} (p : Pic A) (v : SdJwtProfileValidator)
    (calls : List EvidenceCall) (call : EvidenceCall) :
    (call.run p.toCrates v (slotAfter p.toCrates v calls)).1 = call.fresh p.toCrates v ∧
    ((call.run p.toCrates v (slotAfter p.toCrates v calls)).1.succeeded → ∃ key processed jwk,
      validateEvidenceWithKey p.toCrates v call.por = .ok (key, processed, jwk) ∧
      slotAfter p.toCrates v (calls ++ [call]) = some ⟨call.por.evidence, jwk, processed⟩ ∧
      acceptedEvidence (slotAfter p.toCrates v (calls ++ [call])) = some processed ∧
      ∀ checkpoint : PicPcaPayload A,
        reason p (slotAfter p.toCrates v (calls ++ [call])) checkpoint =
          checkContract p.toCrates processed.claims
            (p.executionContract checkpoint.contextOfAuthority)) := by
  obtain ⟨hanswer, -, hslot⟩ := call.run_spec (slotAfter_remembers (c := p.toCrates) (v := v) calls)
  refine ⟨hanswer, fun hok => ?_⟩
  rw [hanswer] at hok
  obtain ⟨key, processed, jwk, hfresh, hheld⟩ := hslot hok
  have hafter : slotAfter p.toCrates v (calls ++ [call]) =
      some ⟨call.por.evidence, jwk, processed⟩ := by
    rw [slotAfter, List.foldl_append]
    exact hheld
  refine ⟨key, processed, jwk, hfresh, hafter, ?_, fun checkpoint => ?_⟩
  · rw [hafter]
    rfl
  · rw [hafter]
    rfl

/-- Preflight accepts the test credential, something else is refused, and settlement is then
answered from the slot. -/
theorem cached_evidence_is_fresh_settled : ∃ key : ArtifactVerifier,
    validateEvidenceWithKey testPic.toCrates testValidator (sdJwt testPresentation) =
      .ok (key, ⟨testAttester.id, testAttester.issuer, testClaims⟩, workloadJwk) ∧
    acceptedEvidence (slotAfter testPic.toCrates testValidator
      ([.validateAndRemember (sdJwt testPresentation), .validate (sdJwt "")] ++
        [.validate (sdJwt testPresentation)])) =
      some ⟨testAttester.id, testAttester.issuer, testClaims⟩ := by
  have hreads : ReadsCredential testPic.toCrates := realmCrates_reads
  obtain ⟨key, haccepted⟩ := testPresentation_accepted hreads
  obtain ⟨hanswer, hslot⟩ := cached_evidence_is_fresh testPic testValidator
    [.validateAndRemember (sdJwt testPresentation), .validate (sdJwt "")]
    (.validate (sdJwt testPresentation))
  have hok : ((EvidenceCall.validate (sdJwt testPresentation)).fresh testPic.toCrates
      testValidator).succeeded := by
    rw [EvidenceCall.fresh, haccepted]
    rfl
  rw [hanswer] at hslot
  obtain ⟨key', processed, jwk, hfresh, -, hclaims, -⟩ := hslot hok
  rw [EvidenceCall.por, haccepted] at hfresh
  cases hfresh
  exact ⟨key, haccepted, hclaims⟩

end PicX.Realm
