import PicX.Keys.Settled

/-!
# What a pass that fails leaves

A pass writes and removes private files before it replaces the ring file, so that one that fails
leaves files that the ring does not say anything of. Of the keys the ring names, only those go that
can no longer sign.

* `Live` — a key that signs or will, or stopped signing in this pass.
* `Spared` — the files and the memory of one key are as they were.
* `maintain_spared` — a pass spares every key that signs or will, however it ends.
* `failed_pass_harmless` — the ring is as usable after a pass that fails as before it.
-/

namespace PicX.Keys

open PicX Program

variable {c : Crates} {m : DirectoryKeyManager} {now n : Nat} {keys : List Entry} {kid : String}
  {f : Op → Outcome} {w w' : World} {e e' : Entry} {p p' : Nat × List Entry}

/-! ## Keys whose private half stays -/

/-- A key that signs or will, or stopped signing at this reading of the clock. -/
def Live (now : Nat) (e : Entry) : Prop :=
  e.state = .published ∨ e.state = .active ∨ e.state = .retired ∧ e.retiredAt = some now

theorem Live.becomes (h : Live now e) (hbecomes : Becomes m now false e e') : Live now e' := by
  cases hbecomes with
  | same => exact h
  | retired hactive => exact Or.inr (Or.inr ⟨rfl, rfl⟩)
  | activated hpublished => exact Or.inr (Or.inl rfl)
  | archived hageing => simp at hageing

/-- A live key has its retention before it, except at the last reading of the clock. -/
theorem Live.not_over (h : Live now e) (hretain : 0 < m.policy.retain) (hnow : now < U64_MAX) :
    retentionOver m now e = false ∧ archiveOver m now e = false := by
  constructor
  · rw [Bool.eq_false_iff]
    intro hover
    obtain ⟨hretired, r, hr, hdue⟩ := retentionOver_iff.mp hover
    rcases h with hpublished | hactive | ⟨-, hstopped⟩
    · cases hretired.symm.trans hpublished
    · cases hretired.symm.trans hactive
    · cases hr.symm.trans hstopped
      unfold saturatingAdd at hdue
      omega
  · rw [Bool.eq_false_iff]
    intro hover
    obtain ⟨harchived, -⟩ := archiveOver_iff.mp hover
    rcases h with hpublished | hactive | ⟨hretired, -⟩
    · cases harchived.symm.trans hpublished
    · cases harchived.symm.trans hactive
    · cases harchived.symm.trans hretired

theorem Edits.live (hdistinct : Distinct c) (h : Edits c m now p p') (hsound : Sound c p)
    (he : e ∈ p.2) (hlive : Live now e) : ∃ e' ∈ p'.2, e'.kid = e.kid ∧ Live now e' := by
  induction h with
  | refl => exact ⟨e, he, rfl, hlive⟩
  | tail hedits hedit ih =>
    obtain ⟨e', he', hkid, hlive'⟩ := ih
    have hkids := (Edits.sound hdistinct hedits hsound).nodup_kid
    rcases hedit.forward hkids e' he' with ⟨e'', he'', hbecomes⟩ | ⟨hageing, -⟩
    · exact ⟨e'', he'', hbecomes.kid.trans hkid, hlive'.becomes hbecomes⟩
    · simp at hageing

/-- A pass does not forget a key that signed or waited when it started. -/
theorem Edits.not_forgotten (hdistinct : Distinct c) (h : Edits c m now p p') (hsound : Sound c p)
    (hretain : 0 < m.policy.retain) (hnow : now < U64_MAX) (he : e ∈ p.2) (hlive : Live now e) :
    e.kid ∉ toArchive m now p'.2 ++ toForget m now p'.2 := by
  obtain ⟨e₁, he₁, hkid, hlive₁⟩ := h.live hdistinct hsound he hlive
  obtain ⟨hretention, harchive⟩ := hlive₁.not_over hretain hnow
  have hkids := (h.sound hdistinct hsound).nodup_kid
  intro hin
  rcases List.mem_append.mp hin with hin | hin
  · obtain ⟨e₂, he₂, hkid₂⟩ := List.mem_map.mp hin
    obtain ⟨hmem, hcondition⟩ := List.mem_filter.mp he₂
    cases eq_of_kid_eq hkids hmem he₁ (hkid₂.trans hkid.symm)
    simp [hretention] at hcondition
  · obtain ⟨e₂, he₂, hkid₂⟩ := List.mem_map.mp hin
    obtain ⟨hmem, hcondition⟩ := List.mem_filter.mp he₂
    cases eq_of_kid_eq hkids hmem he₁ (hkid₂.trans hkid.symm)
    simp [hretention, harchive] at hcondition

/-! ## Programs that spare a key -/

/-- The file and the memory of a key are as they were. -/
structure Spared (kid : String) (w w' : World) : Prop where
  drawn : w.drawn ≤ w'.drawn
  pem : w'.pems.lookup kid = w.pems.lookup kid
  signer : w'.signers.lookup kid = w.signers.lookup kid

theorem Spared.refl (kid : String) (w : World) : Spared kid w w := ⟨le_rfl, rfl, rfl⟩

theorem check_spared {o : Op} {refuse : String → KeyError} :
    Keeps (check o refuse) (Spared kid w) :=
  keeps_perform (fun _ h => h) (fun _ _ _ h => h)

theorem Spared.insert (h : Spared kid w w') {kid' : String} (hne : kid ≠ kid') (text : Bytes) :
    Spared kid w { w' with pems := w'.pems.insert kid' text } :=
  ⟨h.drawn, (AList.lookup_insert_ne hne).trans h.pem, h.signer⟩

theorem writeKey_spared {signing : Bool} {kid' : String} {text : Bytes} (hne : kid ≠ kid') :
    Keeps (writeKey m signing kid' text) (Spared kid w) := by
  refine Keeps.bind (keeps_perform ?_ ?_) fun _ => keeps_perform ?_ ?_
  · intro w' h
    exact h.insert hne []
  · intro n reason w' h
    exact h
  · intro w' h
    exact h.insert hne text
  · intro n reason w' h
    exact h.insert hne (text.take n)

/-- A key that is created is not one that was named before. -/
theorem create_spared {signing : Bool} (hfresh : ∀ draw, w.drawn ≤ draw → ¬Named c draw kid) :
    Keeps (create c m now signing) (Spared kid w) := by
  refine Keeps.bind check_spared fun _ => Keeps.bind check_spared fun _ => ?_
  intro f w₁ h
  refine WP.bind (Q := fun pkcs8 w' => pkcs8 = c.generatePkcs8 m.algorithm w₁.drawn ∧
    w' = { w₁ with drawn := w₁.drawn + 1 }) (WP.perform (fun _ => ⟨rfl, rfl⟩)
      (fun _ _ _ => h) (fun _ => h)) ?_
  intro pkcs8 w₂ ⟨hpkcs8, hw₂⟩
  subst hpkcs8 hw₂
  have hnext : Spared kid w { w₁ with drawn := w₁.drawn + 1 } :=
    ⟨h.drawn.trans (Nat.le_succ _), h.pem, h.signer⟩
  cases hread : c.fromPkcs8 m.algorithm (c.generatePkcs8 m.algorithm w₁.drawn) with
  | error e => exact hnext
  | ok publicKey =>
    have hnamed : Named c w₁.drawn (newEntry c m now signing publicKey).kid :=
      ⟨m.algorithm, publicKey, hread, rfl⟩
    have hne : kid ≠ (newEntry c m now signing publicKey).kid := by
      intro heq
      exact hfresh w₁.drawn h.drawn (heq ▸ hnamed)
    have hkeeps : Keeps (writeKey m signing (newEntry c m now signing publicKey).kid
        (utf8 (Encoding.pem PEM_LABEL (c.generatePkcs8 m.algorithm w₁.drawn))) >>= fun _ =>
        restrict (.restrictKey signing) (m.keyPath (newEntry c m now signing publicKey).kid)
          >>= fun _ => pure (newEntry c m now signing publicKey)) (Spared kid w) :=
      Keeps.bind (writeKey_spared hne) fun _ => Keeps.bind check_spared fun _ => keeps_pure _
    exact hkeeps f _ hnext

section

variable (hfresh : ∀ draw, w.drawn ≤ draw → ¬Named c draw kid)

include hfresh

theorem bootstrap_spared {pass : Pass} : Keeps (bootstrap c m now pass) (Spared kid w) := by
  unfold bootstrap
  split_ifs
  · exact Keeps.bind (create_spared hfresh) fun _ => keeps_pure _
  · exact keeps_pure _

theorem migrate_spared {pass : Pass} : Keeps (migrate c m now pass) (Spared kid w) := by
  unfold migrate
  split_ifs
  · exact Keeps.bind (create_spared hfresh) fun _ => keeps_pure _
  · exact keeps_pure _

theorem succeed_spared {pass : Pass} : Keeps (succeed c m now pass) (Spared kid w) := by
  unfold succeed
  split_ifs
  · exact Keeps.bind (create_spared hfresh) fun _ => keeps_pure _
  · exact keeps_pure _

end

/-- Forgetting other keys spares this one. -/
theorem forgetAll_spared {kids : List String} (hnot : kid ∉ kids) :
    Keeps (forgetAll kids) (Spared kid w) := by
  induction kids with
  | nil => exact keeps_pure _
  | cons kid' rest ih =>
    rw [List.mem_cons, not_or] at hnot
    refine Keeps.bind (Keeps.bind ?_ fun _ => keeps_perform ?_ ?_) fun _ => ih hnot.2
    · intro f w' h
      exact ⟨h.drawn, h.pem, (AList.lookup_erase_ne hnot.1).trans h.signer⟩
    · intro w' h
      exact ⟨h.drawn, (AList.lookup_erase_ne hnot.1).trans h.pem, h.signer⟩
    · intro n reason w' h
      exact h

theorem writeRing_spared {ring : Ring} : Keeps (writeRing m ring) (Spared kid w) := by
  refine Keeps.bind check_spared fun _ => keeps_perform ?_ ?_
  · intro w' h
    exact ⟨h.drawn, h.pem, h.signer⟩
  · intro n reason w' h
    exact h

/-- **A pass spares every key that signs or waits on the ring it finds**, however it ends. -/
theorem maintain_spared (hdistinct : Distinct c) (hsound : Sound c (w.drawn, w.entries))
    (hretain : 0 < m.policy.retain) (hnow : now < U64_MAX) (he : e ∈ w.entries)
    (hlive : Live now e) :
    WP (maintain c m now) f (fun _ => Spared e.kid w) (fun _ => Spared e.kid w) (Spared e.kid w)
      w := by
  have hfresh : ∀ draw, w.drawn ≤ draw → ¬Named c draw e.kid := by
    intro draw hle hnamed
    obtain ⟨draw', hlt, hnamed'⟩ := hsound.1 e he
    have heq := hdistinct draw draw' e.kid hnamed hnamed'
    omega
  unfold maintain
  have hsame : ∀ w', w' = w → Spared e.kid w w' := by
    intro w' h
    rw [h]
    exact .refl _ w
  refine WP.bind (readRing_spec.mono (fun _ _ h => h) (fun _ _ h => hsame _ h)
    (fun _ h => hsame _ h.1)) ?_
  intro ring w₀ ⟨hw₀, hring⟩
  subst hw₀ hring
  refine WP.bind ((bootstrap_spec.and (bootstrap_spared hfresh f w₀ (.refl _ w₀))).mono
    (fun _ _ h => h) (fun _ _ h => h.2) (fun _ h => h.2)) ?_
  intro p₁ w₁ ⟨h₁, hspared₁⟩
  refine WP.bind (((migrate_spec h₁).and (migrate_spared hfresh f w₁ hspared₁)).mono
    (fun _ _ h => h) (fun _ _ h => h.2) (fun _ h => h.2)) ?_
  intro p₂ w₂ ⟨h₂, hspared₂⟩
  refine WP.bind ((catchUpAll_spec hdistinct hsound h₂).mono (fun _ _ h => h) (fun _ _ h => h.elim)
    (fun _ h => h.elim)) ?_
  intro p₃ w₃ ⟨hw₃, h₃⟩
  subst hw₃
  refine WP.bind (((succeed_spec h₃).and (succeed_spared hfresh f w₃ hspared₂)).mono
    (fun _ _ h => h) (fun _ _ h => h.2) (fun _ h => h.2)) ?_
  intro p₄ w₄ ⟨h₄, hspared₄⟩
  have hnot := h₄.edits.not_forgotten hdistinct hsound hretain hnow he hlive
  have hage : Keeps (age m now p₄) (Spared e.kid w₀) :=
    Keeps.bind (forgetAll_spared hnot) fun _ => keeps_pure _
  refine WP.bind (hage f w₄ hspared₄) ?_
  intro p₅ w₅ hspared₅
  split_ifs
  · exact (Keeps.bind writeRing_spared fun _ => keeps_pure _) f w₅ hspared₅
  · exact hspared₅

/-! ## Signing and publishing depend on no more -/

/-- What signing reads is the same in two worlds. -/
structure Alike (w w' : World) : Prop where
  ring : w'.ring = w.ring
  pem : ∀ e ∈ w.entries, e.state = .active → w'.pems.lookup e.kid = w.pems.lookup e.kid
  signer : ∀ e ∈ w.entries, e.state = .active → w'.signers.lookup e.kid = w.signers.lookup e.kid

theorem Alike.symm (h : Alike w w') : Alike w' w := by
  have hentries : w'.entries = w.entries := by
    unfold World.entries
    rw [h.ring]
  constructor
  · exact h.ring.symm
  · intro e he hactive
    exact (h.pem e (hentries ▸ he) hactive).symm
  · intro e he hactive
    exact (h.signer e (hentries ▸ he) hactive).symm

theorem readRing_ok {o : Op} {ring : Ring} (h : readRing o f w = .ok ring w')
    {w₁ : World} (hring : w₁.ring = w.ring) :
    w' = w ∧ ring = w.ring.getD .default ∧ readRing o f w₁ = .ok ring w₁ := by
  obtain ⟨hw', hvalue⟩ := readRing_spec.ok h
  refine ⟨hw', hvalue, ?_⟩
  subst hw' hvalue
  unfold readRing perform at h ⊢
  cases hf : f o with
  | done =>
    dsimp only
    rw [hring]
  | failed n reason =>
    rw [hf] at h
    cases h
  | crashed =>
    rw [hf] at h
    cases h

theorem activeKeyId_ok (h : activeKeyId m f w = .ok kid w') {w₁ : World}
    (hring : w₁.ring = w.ring) :
    w' = w ∧ (∃ e ∈ w.entries, e.kid = kid ∧ e.state = .active) ∧
      activeKeyId m f w₁ = .ok kid w₁ := by
  obtain ⟨hw', hactive⟩ := activeKeyId_spec.ok h
  refine ⟨hw', hactive, ?_⟩
  obtain ⟨ring, w₂, hread, h⟩ := bind_eq_ok h
  obtain ⟨-, -, hread'⟩ := readRing_ok hread hring
  unfold activeKeyId
  rw [bind_of_ok hread']
  cases hfind : ring.keys.find? fun e => e.state = .active with
  | none =>
    rw [hfind] at h
    cases h
  | some e =>
    rw [hfind] at h
    cases h
    rfl

theorem readKey_ok {text : String} (h : readKey m kid f w = .ok text w') {w₁ : World}
    (hpem : w₁.pems.lookup kid = w.pems.lookup kid) :
    w' = w ∧ readKey m kid f w₁ = .ok text w₁ := by
  unfold readKey perform at h ⊢
  cases hf : f .readKey with
  | done =>
    rw [hf] at h
    dsimp only at h ⊢
    rw [hpem]
    cases hlookup : w.pems.lookup kid with
    | none =>
      rw [hlookup] at h
      cases h
    | some bytes =>
      rw [hlookup] at h
      dsimp only at h ⊢
      cases htext : fromUtf8 bytes with
      | none =>
        rw [htext] at h
        cases h
      | some text' =>
        rw [htext] at h
        cases h
        exact ⟨rfl, rfl⟩
  | failed n reason =>
    rw [hf] at h
    cases h
  | crashed =>
    rw [hf] at h
    cases h

theorem parseKey_ok {text : String} {pair : SigningPair}
    (h : parseKey c m kid text f w = .ok pair w')
    {w₁ : World} (hring : w₁.ring = w.ring) : ∃ w₂, parseKey c m kid text f w₁ = .ok pair w₂ := by
  unfold parseKey at h ⊢
  cases hpem : Encoding.fromPem text with
  | none =>
    rw [hpem] at h
    cases h
  | some pkcs8 =>
    rw [hpem] at h
    obtain ⟨ring, w₂, hread, h⟩ := bind_eq_ok h
    obtain ⟨-, -, hread'⟩ := readRing_ok hread hring
    dsimp only
    rw [bind_of_ok hread']
    dsimp only at h ⊢
    cases hpair : c.fromPkcs8 (((ring.keys.find? fun e => e.kid = kid).map Entry.algorithm).getD
        m.algorithm) pkcs8 with
    | error e =>
      rw [hpair] at h
      cases h
    | ok publicKey =>
      rw [hpair] at h
      cases h
      exact ⟨_, rfl⟩

theorem signer_ok {pair : SigningPair} (h : signer c m kid f w = .ok pair w') {w₁ : World}
    (hring : w₁.ring = w.ring) (hpem : w₁.pems.lookup kid = w.pems.lookup kid)
    (hsigner : w₁.signers.lookup kid = w.signers.lookup kid) :
    ∃ w₂, signer c m kid f w₁ = .ok pair w₂ := by
  unfold signer at h ⊢
  rw [bind_of_ok (show Program.get f w = .ok w w from rfl)] at h
  rw [bind_of_ok (show Program.get f w₁ = .ok w₁ w₁ from rfl), hsigner]
  cases hcached : w.signers.lookup kid with
  | some pair' =>
    rw [hcached] at h
    cases h
    exact ⟨w₁, rfl⟩
  | none =>
    rw [hcached] at h
    obtain ⟨text, w₂, hread, hparse⟩ := bind_eq_ok h
    obtain ⟨hw₂, hread'⟩ := readKey_ok hread hpem
    rw [hw₂] at hparse
    dsimp only
    rw [bind_of_ok hread']
    exact parseKey_ok hparse hring

theorem SigningPair.sign_isOk {pair : SigningPair} {payload bytes : Bytes}
    (h : pair.sign c payload f w = .ok bytes w') (w₁ : World) :
    ∃ bytes' w₂, pair.sign c payload f w₁ = .ok bytes' w₂ := by
  unfold SigningPair.sign at h ⊢
  cases halgorithm : pair.algorithm with
  | ed25519 => exact ⟨_, w₁, rfl⟩
  | es256 =>
    rw [halgorithm] at h
    dsimp only at h ⊢
    unfold perform at h ⊢
    cases hf : f .drawEntropy with
    | done => exact ⟨_, _, rfl⟩
    | failed n reason =>
      rw [hf] at h
      cases h
    | crashed =>
      rw [hf] at h
      cases h

/-- A signature that can be made in one of two such worlds can be made in the other, if perhaps with
other entropy. -/
theorem Alike.signs (h : Alike w w') {payload : Bytes}
    (hok : (sign c m payload f w).isOk = true) : (sign c m payload f w').isOk = true := by
  cases hend : sign c m payload f w with
  | error e w₁ => simp [hend, Ending.isOk] at hok
  | crash w₁ => simp [hend, Ending.isOk] at hok
  | ok signature w₁ =>
    obtain ⟨kid, w₂, hactive, hend⟩ := bind_eq_ok hend
    obtain ⟨hw₂, ⟨e, he, hkid, hstate⟩, hactive'⟩ := activeKeyId_ok hactive h.ring
    subst hkid
    rw [hw₂] at hend
    obtain ⟨pair, w₃, hsigner, hend⟩ := bind_eq_ok hend
    obtain ⟨w₄, hsigner'⟩ := signer_ok hsigner h.ring (h.pem e he hstate) (h.signer e he hstate)
    obtain ⟨bytes, w₅, hbytes, -⟩ := bind_eq_ok hend
    obtain ⟨bytes', w₆, hbytes'⟩ := SigningPair.sign_isOk hbytes w₄
    unfold sign
    rw [bind_of_ok hactive', bind_of_ok hsigner', bind_of_ok hbytes']
    rfl

theorem Alike.signs_iff (h : Alike w w') {payload : Bytes} :
    (sign c m payload f w').isOk = true ↔ (sign c m payload f w).isOk = true :=
  ⟨h.symm.signs, h.signs⟩

theorem publicKeys_ok {jwks : List Jwk} (h : publicKeys f w = .ok jwks w) {w₁ : World}
    (hring : w₁.ring = w.ring) : publicKeys f w₁ = .ok jwks w₁ := by
  obtain ⟨ring, w₂, hread, h⟩ := bind_eq_ok h
  obtain ⟨-, -, hread'⟩ := readRing_ok hread hring
  cases h
  unfold publicKeys
  rw [bind_of_ok hread']
  rfl

/-! ## A pass that fails -/

/-- **A pass that fails is harmless.** On every ring that calls can reach, and before the last
reading of the clock, a pass that returns an error leaves the ring file, the private half of the key
that signs, signing and the key set as they were; a pass that succeeds later leaves one key that
signs. -/
theorem failed_pass_harmless (hdistinct : Distinct c) {w₀ : World} (habsent : w₀.ring = none)
    (hrun : Relation.ReflTransGen (Takes c) w₀ w) (hretain : 0 < m.policy.retain)
    (hnow : now < U64_MAX) {refusal : KeyError}
    (hfailed : maintain c m now f w = .error refusal w') :
    w'.ring = w.ring ∧
    (∀ e ∈ w.entries, e.state = .active → w'.pems.lookup e.kid = w.pems.lookup e.kid) ∧
    (∀ m₁ payload f₁, (sign c m₁ payload f₁ w').isOk = true ↔
      (sign c m₁ payload f₁ w).isOk = true) ∧
    (∀ f₁ jwks, publicKeys f₁ w' = .ok jwks w' ↔ publicKeys f₁ w = .ok jwks w) ∧
    ∀ w₁, Relation.ReflTransGen (Takes c) w' w₁ → ∀ m₁ now₁ f₁ report w₂,
      maintain c m₁ now₁ f₁ w₁ = .ok report w₂ → ∃! e, e ∈ w₂.entries ∧ e.state = .active := by
  have hsound := sound_of_takes hdistinct (World.entries_of_absent habsent) hrun
  have htouched : Touched c w w' := (maintain_spec hdistinct hsound).error hfailed
  have hspared : ∀ e ∈ w.entries, e.state = .active → Spared e.kid w w' := by
    intro e he hactive
    have hlive : Live now e := Or.inr (Or.inl hactive)
    exact (maintain_spared hdistinct hsound hretain hnow he hlive).error hfailed
  have halike : Alike w w' :=
    ⟨htouched.ring, fun e he h => (hspared e he h).pem, fun e he h => (hspared e he h).signer⟩
  refine ⟨htouched.ring, halike.pem, ?_, ?_, ?_⟩
  · intro m₁ payload f₁
    exact halike.signs_iff
  · intro f₁ jwks
    exact ⟨fun h => publicKeys_ok h htouched.ring.symm, fun h => publicKeys_ok h htouched.ring⟩
  · intro w₁ hlater m₁ now₁ f₁ report w₂ hok
    have hstep : Takes c w w' := ⟨⟨m, now, .maintain, f⟩, by simp [Step.run, hfailed, afterwards]⟩
    exact (maintained_ring_shaped hdistinct habsent ((hrun.tail hstep).trans hlater) hok).active

/-! ### A ring that cannot be replaced -/

theorem takes_passesAt (m : DirectoryKeyManager) (times : List Nat) (j : Nat) :
    Relation.ReflTransGen (Takes testCrates) absent (passesAt m times j).2 := by
  induction j with
  | zero => exact .refl
  | succ j ih => exact ih.tail ⟨⟨m, times.getD j 0, .maintain, fun _ => .done⟩, rfl⟩

/-- Everything is done but the last of it. -/
def full (o : Op) : Outcome :=
  if o = .replaceRing then .failed 0 "No space left on device (os error 28)" else .done

/-- Whether the first key has its private half after a pass; `none` when the pass does not fail. -/
def firstAfter (now : Nat) (w : World) : Option Bool :=
  match maintain testCrates weekly now full w with
  | .error _ w' => some (firstEntry.kid ∈ w'.pems)
  | _ => none

theorem firstAfter_some {b : Bool} (h : firstAfter now w = some b) :
    ∃ refusal w', maintain testCrates weekly now full w = .error refusal w' ∧
      decide (firstEntry.kid ∈ w'.pems) = b := by
  unfold firstAfter at h
  cases hend : maintain testCrates weekly now full w with
  | ok report w' => simp [hend] at h
  | crash w' => simp [hend] at h
  | error refusal w' =>
    simp only [hend, Option.some.injEq] at h
    exact ⟨refusal, w', rfl, h⟩

/-- The handover of the first week fails: the first key signs as before. -/
theorem failed_pass_harmless_handover : ∃ refusal w',
    maintain testCrates weekly 604800 full (oneWeek 2).2 = .error refusal w' ∧
    w'.ring = (oneWeek 2).2.ring ∧
    ∀ payload f₁, (sign testCrates weekly payload f₁ w').isOk = true ↔
      (sign testCrates weekly payload f₁ (oneWeek 2).2).isOk = true := by
  have hrun : firstAfter 604800 (oneWeek 2).2 = some true := by decide +kernel
  obtain ⟨refusal, w', hfailed, -⟩ := firstAfter_some hrun
  obtain ⟨hring, -, hsign, -⟩ := failed_pass_harmless testCrates_distinct rfl
    (takes_passesAt weekly _ 2) (by decide) (by decide) hfailed
  exact ⟨refusal, w', hfailed, hring, hsign weekly⟩

/-- At the last reading of the clock a key that has just stopped signing counts as past its
retention. Its private half goes, and the ring file that says so cannot be replaced: the key that
the ring names has no private half any more. -/
theorem last_reading_loses_key :
    Relation.ReflTransGen (Takes testCrates) absent (oneWeek 2).2 ∧ 0 < weekly.policy.retain ∧
    IsActive firstEntry.kid (oneWeek 2).2 ∧ firstEntry.kid ∈ (oneWeek 2).2.pems ∧
    ∃ refusal w', maintain testCrates weekly U64_MAX full (oneWeek 2).2 = .error refusal w' ∧
      firstEntry.kid ∉ w'.pems := by
  -- The passes of the week are run once for all three facts.
  have hrun : firstAfter U64_MAX (oneWeek 2).2 = some false ∧
      (oneWeek 2).2.entries.any (fun e => e.kid = firstEntry.kid ∧ e.state = .active) = true ∧
      firstEntry.kid ∈ (oneWeek 2).2.pems := by decide +kernel
  obtain ⟨hafter, hactive, hfile⟩ := hrun
  obtain ⟨refusal, w', hfailed, hgone⟩ := firstAfter_some hafter
  exact ⟨takes_passesAt weekly _ 2, by decide, isActive_of_any hactive, hfile, refusal, w', hfailed,
    of_decide_eq_false hgone⟩

end PicX.Keys
