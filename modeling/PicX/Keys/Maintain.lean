import PicX.Keys.Pass

/-!
# What maintaining and signing do

One specification for each program of the manager, for every outcome of every operation, and the
invariant of whole runs that follows from them.

* `maintain_spec` — a pass that succeeds is a sequence of edits that ends with `aged`; one that
  does not leaves the ring file as it was. It always ends.
* `sign_spec` — a signature is made under an active key.
* `maintained_ring_shaped` — every successful pass leaves a ring with one active key, at most one
  published one, distinct names and the times of each state.
-/

namespace PicX.Keys

open PicX Program

variable {c : Crates} {m : DirectoryKeyManager} {now : Nat} {f : Op → Outcome} {w w' : World}

/-! ## What a pass does -/

/-- The entries of the ring file. -/
def World.entries (w : World) : List Entry := (w.ring.getD .default).keys

/-- The ring file is as it was, and the only new key files are named after new draws. -/
structure Touched (c : Crates) (w w' : World) : Prop where
  ring : w'.ring = w.ring
  drawn : w.drawn ≤ w'.drawn
  pems : ∀ kid ∈ w'.pems, kid ∈ w.pems ∨ ∃ draw, w.drawn ≤ draw ∧ draw < w'.drawn ∧ Named c draw kid

theorem Touched.refl (c : Crates) (w : World) : Touched c w w :=
  ⟨rfl, le_rfl, fun _ h => Or.inl h⟩

theorem Touched.trans {w'' : World} (h : Touched c w w') (h' : Touched c w' w'') :
    Touched c w w'' where
  ring := h'.ring.trans h.ring
  drawn := h.drawn.trans h'.drawn
  pems kid hkid := by
    rcases h'.pems kid hkid with hold | ⟨draw, hge, hlt, hnamed⟩
    · rcases h.pems kid hold with hold | ⟨draw, hge, hlt, hnamed⟩
      · exact Or.inl hold
      · exact Or.inr ⟨draw, hge, hlt.trans_le h'.drawn, hnamed⟩
    · exact Or.inr ⟨draw, h.drawn.trans hge, hlt, hnamed⟩

theorem wp_check {o : Op} {refuse : String → KeyError} :
    WP (check o refuse) f (fun _ w' => w' = w) (fun _ w' => w' = w) (fun w' => w' = w ∧ Cut f) w :=
  WP.perform (fun _ => rfl) (fun _ _ _ => rfl) (fun h => ⟨rfl, o, h⟩)

theorem readRing_spec {o : Op} :
    WP (readRing o) f (fun ring w' => w' = w ∧ ring = w.ring.getD .default) (fun _ w' => w' = w)
      (fun w' => w' = w ∧ Cut f) w :=
  WP.perform (fun _ => ⟨rfl, rfl⟩) (fun _ _ _ => rfl) (fun h => ⟨rfl, o, h⟩)

/-- Only the file of `kid` may have appeared or changed. -/
def Wrote (kid : String) (w w' : World) : Prop :=
  ∃ pems, w' = { w with pems := pems } ∧ ∀ kid' ∈ pems, kid' ∈ w.pems ∨ kid' = kid

theorem wrote_insert {kid : String} (h : Wrote kid w w') (text : Bytes) :
    Wrote kid w { w' with pems := w'.pems.insert kid text } := by
  obtain ⟨pems, rfl, hpems⟩ := h
  refine ⟨pems.insert kid text, rfl, fun kid' hkid' => ?_⟩
  rcases (AList.mem_insert _).mp hkid' with rfl | hold
  · exact Or.inr rfl
  · exact hpems kid' hold

theorem writeKey_spec {signing : Bool} {kid : String} {text : Bytes} :
    WP (writeKey m signing kid text) f (fun _ => Wrote kid w) (fun _ => Wrote kid w)
      (fun w' => Wrote kid w w' ∧ Cut f) w := by
  have hsame : Wrote kid w w := ⟨w.pems, rfl, fun _ h => Or.inl h⟩
  unfold writeKey
  refine WP.bind (Q := fun _ => Wrote kid w) (WP.perform (fun _ => wrote_insert hsame [])
    (fun _ _ _ => hsame) (fun h => ⟨hsame, _, h⟩)) ?_
  intro _ w' h
  exact WP.perform (fun _ => wrote_insert h text) (fun n _ _ => wrote_insert h (text.take n))
    (fun h' => ⟨h, _, h'⟩)

/-- **Creating a key** takes one draw and writes one file, named after it. -/
theorem create_spec {signing : Bool} :
    WP (create c m now signing) f
      (fun e w' => Created c m now signing w.drawn e ∧ w'.drawn = w.drawn + 1 ∧ Touched c w w')
      (fun _ => Touched c w) (fun w' => Touched c w w' ∧ Cut f) w := by
  unfold create
  refine WP.bind (wp_check.mono (fun _ _ h => h) (fun _ _ h => h ▸ .refl c w)
    (fun _ h => ⟨h.1 ▸ .refl c w, h.2⟩)) ?_
  rintro _ _ rfl
  refine WP.bind (wp_check.mono (fun _ _ h => h) (fun _ _ h => h ▸ .refl c _)
    (fun _ h => ⟨h.1 ▸ .refl c _, h.2⟩)) ?_
  rintro _ w rfl
  refine WP.bind (Q := fun pkcs8 w' => pkcs8 = c.generatePkcs8 m.algorithm w.drawn ∧
    w' = { w with drawn := w.drawn + 1 }) (WP.perform (fun _ => ⟨rfl, rfl⟩)
      (fun _ _ _ => Touched.refl c w) (fun h => ⟨.refl c w, _, h⟩)) ?_
  rintro _ _ ⟨rfl, rfl⟩
  have hdrawn : Touched c w { w with drawn := w.drawn + 1 } :=
    ⟨rfl, Nat.le_succ _, fun _ h => Or.inl h⟩
  cases hread : c.fromPkcs8 m.algorithm (c.generatePkcs8 m.algorithm w.drawn) with
  | error e => exact hdrawn
  | ok publicKey =>
    have hnew : Created c m now signing w.drawn (newEntry c m now signing publicKey) :=
      ⟨publicKey, hread, rfl⟩
    -- Whatever comes of the write, the file is named after this draw.
    have hfile : ∀ w', Wrote (newEntry c m now signing publicKey).kid
        { w with drawn := w.drawn + 1 } w' → Touched c w w' ∧ w'.drawn = w.drawn + 1 := by
      rintro _ ⟨pems, rfl, hpems⟩
      refine ⟨⟨rfl, Nat.le_succ _, fun kid hkid => ?_⟩, rfl⟩
      rcases hpems kid hkid with hold | rfl
      · exact Or.inl hold
      · exact Or.inr ⟨w.drawn, le_rfl, Nat.lt_succ_self _, hnew.named⟩
    refine WP.bind (writeKey_spec.mono (fun _ => hfile) (fun _ w' h => (hfile w' h).1)
      (fun w' h => ⟨(hfile w' h.1).1, h.2⟩)) ?_
    · rintro _ w' ⟨htouched, hcount⟩
      refine WP.bind (wp_check.mono (fun _ _ h => h) (fun _ _ h => h ▸ htouched)
        (fun _ h => ⟨h.1 ▸ htouched, h.2⟩)) ?_
      rintro _ _ rfl
      exact ⟨hnew, hcount, htouched⟩

/-- Where a pass that started from `w₀` stands. -/
structure Reached (c : Crates) (m : DirectoryKeyManager) (now : Nat) (w₀ : World) (p : Pass)
    (w : World) : Prop where
  edits : Edits c m now (w₀.drawn, w₀.entries) (w.drawn, p.keys)
  touched : Touched c w₀ w
  nonempty : p.keys ≠ []
  /-- A pass over an empty ring has something to report. -/
  reported : w₀.entries = [] → 0 < p.report.published

variable {w₀ : World} {p : Pass}

theorem bootstrap_spec :
    WP (bootstrap c m now { keys := w.entries, report := .default }) f (Reached c m now w)
      (fun _ => Touched c w) (fun w' => Touched c w w' ∧ Cut f) w := by
  unfold bootstrap
  cases hempty : w.entries.isEmpty with
  | true =>
    have hnil : w.entries = [] := List.isEmpty_iff.mp hempty
    refine WP.bind create_spec ?_
    rintro e w' ⟨hnew, hdrawn, htouched⟩
    refine ⟨?_, htouched, by simp [Pass.pushActive], fun _ => Nat.succ_pos _⟩
    rw [hdrawn]
    simp only [Pass.pushActive, hnil, List.nil_append]
    exact .single (.first hnew)
  | false =>
    have hne : w.entries ≠ [] := fun h => by simp [h] at hempty
    exact ⟨.refl, .refl c w, hne, fun h => absurd h hne⟩

theorem migrate_spec (h : Reached c m now w₀ p w) :
    WP (migrate c m now p) f (Reached c m now w₀) (fun _ => Touched c w₀)
      (fun w' => Touched c w₀ w' ∧ Cut f) w := by
  unfold migrate
  split_ifs with hchange
  · rw [Bool.and_eq_true, Bool.not_eq_true'] at hchange
    refine WP.bind (create_spec.mono (fun _ _ h' => h') (fun _ _ h' => h.touched.trans h')
      (fun _ h' => ⟨h.touched.trans h'.1, h'.2⟩)) ?_
    rintro e w' ⟨hnew, hdrawn, htouched⟩
    refine ⟨?_, h.touched.trans htouched, by simp [Pass.pushActive], fun _ => Nat.succ_pos _⟩
    rw [hdrawn]
    exact h.edits.tail (.migrated h.nonempty hchange.1 hnew)
  · exact h

theorem catchUpAll_spec (hdistinct : Distinct c) (hsound : Sound c (w₀.drawn, w₀.entries))
    (h : Reached c m now w₀ p w) :
    WP (catchUpAll m now p) f (fun p' w' => w' = w ∧ Reached c m now w₀ p' w) (fun _ _ => False)
      (fun _ => False) w := by
  have hsound' := h.edits.sound hdistinct hsound
  unfold catchUpAll
  rcases catchUp_ends p hsound'.nodup_kid hsound'.oneWaiting with ⟨hcatch, -⟩ | ⟨kid, hdue, hcatch⟩
  · rw [hcatch]
    exact ⟨rfl, h⟩
  · rw [hcatch]
    have hedit : Edit c m now false (w.drawn, p.keys) (w.drawn, _) := .handedOver hdue
    refine ⟨rfl, h.edits.tail hedit, h.touched, fun hnil => h.nonempty ?_, h.reported⟩
    have hlength := congrArg (fun keys => (keys.map Entry.kid).length) hnil
    simpa [Pass.activateKey, Pass.retireActive, map_kid_activateKey, map_kid_retireActive]
      using hlength

theorem succeed_spec (h : Reached c m now w₀ p w) :
    WP (succeed c m now p) f (Reached c m now w₀) (fun _ => Touched c w₀)
      (fun w' => Touched c w₀ w' ∧ Cut f) w := by
  unfold succeed
  split_ifs with hdue
  · rw [Bool.and_eq_true, Bool.not_eq_true'] at hdue
    refine WP.bind (create_spec.mono (fun _ _ h' => h') (fun _ _ h' => h.touched.trans h')
      (fun _ h' => ⟨h.touched.trans h'.1, h'.2⟩)) ?_
    rintro e w' ⟨hnew, hdrawn, htouched⟩
    refine ⟨?_, h.touched.trans htouched, by simp, fun _ => Nat.succ_pos _⟩
    rw [hdrawn]
    exact h.edits.tail (.succeeded hdue.1 hdue.2 hnew)
  · exact h

/-- **Forgetting** removes key files and nothing else; when it succeeds, all of those named. -/
theorem forgetAll_spec (kids : List String) :
    WP (forgetAll kids) f
      (fun _ w' => Touched c w w' ∧ w'.drawn = w.drawn ∧ (∀ kid ∈ w'.pems, kid ∈ w.pems) ∧
        ∀ kid ∈ kids, kid ∉ w'.pems)
      (fun _ => Touched c w) (fun w' => Touched c w w' ∧ Cut f) w := by
  induction kids generalizing w with
  | nil => exact ⟨.refl c w, rfl, fun _ h => h, by simp⟩
  | cons kid rest ih =>
    have hmemory : Touched c w { w with signers := w.signers.erase kid } :=
      ⟨rfl, le_rfl, fun _ h => Or.inl h⟩
    unfold forgetAll forget
    rw [wp_bind, wp_bind, wp_modify]
    refine WP.perform (fun _ => ?_) (fun _ _ _ => hmemory) (fun h => ⟨hmemory, _, h⟩)
    show WP (forgetAll rest) f _ _ _ _
    have hremoved : Touched c w
        { w with signers := w.signers.erase kid, pems := w.pems.erase kid } :=
      ⟨rfl, le_rfl, fun _ h => Or.inl (AList.mem_erase.mp h).2⟩
    refine ih.mono ?_ (fun _ _ h => hremoved.trans h) (fun _ h => ⟨hremoved.trans h.1, h.2⟩)
    rintro _ w' ⟨htouched, hdrawn, hsub, hgone⟩
    refine ⟨hremoved.trans htouched, hdrawn, fun kid' h => (AList.mem_erase.mp (hsub kid' h)).2, ?_⟩
    intro kid' hkid' hin
    rcases List.mem_cons.mp hkid' with rfl | hrest
    · exact (AList.mem_erase.mp (hsub kid' hin)).1 rfl
    · exact hgone kid' hrest hin

theorem writeRing_spec {ring : Ring} :
    WP (writeRing m ring) f (fun _ w' => w' = { w with ring := some ring }) (fun _ w' => w' = w)
      (fun w' => w' = w ∧ Cut f) w := by
  unfold writeRing
  refine WP.bind wp_check ?_
  rintro _ w' rfl
  exact WP.perform (fun _ => rfl) (fun _ _ _ => rfl) (fun h => ⟨rfl, _, h⟩)

theorem published_of_isEmpty {report : Maintenance} (h : report.isEmpty = true) :
    report.published = 0 := by
  simp only [Maintenance.isEmpty, Bool.and_eq_true, decide_eq_true_eq] at h
  exact h.1.1.1.1

theorem activated_of_isEmpty {report : Maintenance} (h : report.isEmpty = true) :
    report.activated = 0 := by
  simp only [Maintenance.isEmpty, Bool.and_eq_true, decide_eq_true_eq] at h
  exact h.1.1.1.2

/-- **What a pass does.** When it succeeds, a sequence of edits led to `keys₁`, the private half of
every key that is archived or forgotten is gone, and the ring file says what is left of `keys₁`,
or what it said before when there was nothing to report. When it fails the ring file is as it was.
It always ends. -/
theorem maintain_spec (hdistinct : Distinct c) (hsound : Sound c (w.drawn, w.entries)) :
    WP (maintain c m now) f
      (fun _ w' => ∃ w₁ keys₁, Touched c w w₁ ∧
        Edits c m now (w.drawn, w.entries) (w₁.drawn, keys₁) ∧ keys₁ ≠ [] ∧
        (∀ kid ∈ toArchive m now keys₁ ++ toForget m now keys₁, kid ∉ w₁.pems) ∧
        (w' = w₁ ∧ w.entries ≠ [] ∨
          ∃ version, w' = { w₁ with ring := some ⟨version, Keys.aged m now keys₁⟩ }))
      (fun _ => Touched c w) (fun w' => Touched c w w' ∧ Cut f) w := by
  unfold maintain
  refine WP.bind (readRing_spec.mono (fun _ _ h => h) (fun _ _ h => h ▸ .refl c w)
    (fun _ h => ⟨h.1 ▸ .refl c w, h.2⟩)) ?_
  rintro ring w ⟨rfl, rfl⟩
  refine WP.bind bootstrap_spec fun p₁ w₁ h₁ => ?_
  refine WP.bind (migrate_spec h₁) fun p₂ w₂ h₂ => ?_
  refine WP.bind ((catchUpAll_spec hdistinct hsound h₂).mono (fun _ _ h => h) (fun _ _ h => h.elim)
    (fun _ h => h.elim)) ?_
  rintro p₃ _ ⟨rfl, h₃⟩
  refine WP.bind (succeed_spec h₃) fun p₄ w₄ h₄ => ?_
  refine WP.bind (Q := fun p₅ w₅ => p₅ = p₄.aged m now ∧ Touched c w w₅ ∧ w₅.drawn = w₄.drawn ∧
    ∀ kid ∈ toArchive m now p₄.keys ++ toForget m now p₄.keys, kid ∉ w₅.pems) ?_ ?_
  · unfold age
    refine WP.bind ((forgetAll_spec _).mono (fun _ _ h => h) (fun _ _ h => h₄.touched.trans h)
      (fun _ h => ⟨h₄.touched.trans h.1, h.2⟩)) ?_
    rintro _ w₅ ⟨htouched, hdrawn, -, hgone⟩
    exact ⟨rfl, h₄.touched.trans htouched, hdrawn, hgone⟩
  rintro _ w₅ ⟨rfl, htouched, hdrawn, hgone⟩
  have hedits : Edits c m now (w.drawn, w.entries) (w₅.drawn, p₄.keys) := hdrawn ▸ h₄.edits
  split_ifs with hreport
  · refine WP.bind (writeRing_spec.mono (fun _ _ h => h) (fun _ _ h => h ▸ htouched)
      (fun _ h => ⟨h.1 ▸ htouched, h.2⟩)) ?_
    rintro _ _ rfl
    exact ⟨w₅, p₄.keys, htouched, hedits, h₄.nonempty, hgone, Or.inr ⟨_, rfl⟩⟩
  · refine ⟨w₅, p₄.keys, htouched, hedits, h₄.nonempty, hgone, Or.inl ⟨rfl, fun hnil => ?_⟩⟩
    have hnone : (p₄.aged m now).report.published = 0 :=
      published_of_isEmpty (by simpa using hreport)
    have hsome : 0 < (p₄.aged m now).report.published := h₄.reported hnil
    omega

/-! ## Signing leaves the ring alone -/

theorem signer_spec {kid : String} :
    WP (signer c m kid) f (fun _ => Touched c w) (fun _ => Touched c w)
      (fun w' => Touched c w w' ∧ Cut f) w := by
  have hsame : ∀ w', w' = w → Touched c w w' := fun _ h => h ▸ .refl c w
  unfold signer
  rw [wp_bind, wp_get]
  cases w.signers.lookup kid with
  | some pair => exact .refl c w
  | none =>
    refine WP.bind (Q := fun _ w' => w' = w) ?_ ?_
    · refine WP.perform (fun _ => ?_) (fun _ _ _ => Touched.refl c w) (fun h => ⟨.refl c w, _, h⟩)
      unfold WP
      dsimp only
      cases w.pems.lookup kid with
      | none => exact .refl c w
      | some bytes =>
        dsimp only
        cases fromUtf8 bytes with
        | none => exact .refl c w
        | some text => rfl
    rintro text w rfl
    unfold parseKey
    cases Encoding.fromPem text with
    | none => exact .refl c w
    | some pkcs8 =>
      refine WP.bind (readRing_spec.mono (fun _ _ h => h) (fun _ _ h => hsame _ h)
        (fun _ h => ⟨hsame _ h.1, h.2⟩)) ?_
      rintro ring w ⟨rfl, rfl⟩
      dsimp only
      cases c.fromPkcs8 _ pkcs8 with
      | error e => exact .refl c w
      | ok publicKey =>
        exact ⟨rfl, le_rfl, fun _ h => Or.inl h⟩

theorem activeKeyId_spec :
    WP (activeKeyId m) f
      (fun kid w' => w' = w ∧ ∃ e ∈ w.entries, e.kid = kid ∧ e.state = .active)
      (fun _ w' => w' = w) (fun w' => w' = w ∧ Cut f) w := by
  unfold activeKeyId
  refine WP.bind (readRing_spec.mono (fun _ _ h => h) (fun _ _ h => h) (fun _ h => h)) ?_
  rintro ring w ⟨rfl, rfl⟩
  cases hfind : (w.ring.getD Ring.default).keys.find? fun e => e.state = .active with
  | none => exact rfl
  | some e =>
    have hstate : e.state = .active := by simpa using List.find?_some hfind
    exact ⟨rfl, e, List.mem_of_find?_eq_some hfind, rfl, hstate⟩

theorem SigningPair.sign_spec {pair : SigningPair} {payload : Bytes} :
    WP (pair.sign c payload) f (fun _ => Touched c w) (fun _ => Touched c w)
      (fun w' => Touched c w w' ∧ Cut f) w := by
  unfold SigningPair.sign
  cases pair.algorithm with
  | ed25519 => exact .refl c w
  | es256 =>
    refine WP.perform (fun _ => ?_) (fun _ _ _ => .refl c w) (fun h => ⟨.refl c w, _, h⟩)
    exact ⟨rfl, Nat.le_succ _, fun _ h => Or.inl h⟩

/-- **A signature is made under an active key**, and leaves the ring and the files as they were. -/
theorem sign_spec {payload : Bytes} :
    WP (sign c m payload) f
      (fun signature w' => (∃ e ∈ w.entries, e.kid = signature.keyId ∧ e.state = .active) ∧
        Touched c w w')
      (fun _ => Touched c w) (fun w' => Touched c w w' ∧ Cut f) w := by
  unfold sign
  refine WP.bind (activeKeyId_spec.mono (fun _ _ h => h) (fun _ _ h => h ▸ .refl c w)
    (fun _ h => ⟨h.1 ▸ .refl c w, h.2⟩)) ?_
  rintro kid w ⟨rfl, hactive⟩
  refine WP.bind signer_spec fun pair w₁ h₁ => ?_
  refine WP.bind (SigningPair.sign_spec.mono (fun _ _ h => h₁.trans h) (fun _ _ h => h₁.trans h)
    (fun _ h => ⟨h₁.trans h.1, h.2⟩)) fun _ _ h => ⟨hactive, h⟩

/-! ## Runs -/

theorem Touched.entries (h : Touched c w w') : w'.entries = w.entries := by
  unfold World.entries
  rw [h.ring]

theorem Sound.touched (h : Sound c (w.drawn, w.entries)) (htouched : Touched c w w') :
    Sound c (w'.drawn, w'.entries) := by
  rw [htouched.entries]
  refine ⟨fun e he => ?_, h.2⟩
  obtain ⟨draw, hlt, hnamed⟩ := h.1 e he
  exact ⟨draw, lt_of_lt_of_le hlt htouched.drawn, hnamed⟩

/-- A successful pass leaves a ring of the right shape. -/
theorem maintain_sound (hdistinct : Distinct c) (hsound : Sound c (w.drawn, w.entries)) :
    WP (maintain c m now) f
      (fun _ w' => Sound c (w'.drawn, w'.entries) ∧ w'.entries ≠ [])
      (fun _ w' => Sound c (w'.drawn, w'.entries))
      (fun w' => Sound c (w'.drawn, w'.entries)) w := by
  refine (maintain_spec hdistinct hsound).mono ?_ (fun _ _ h => hsound.touched h)
    (fun _ h => hsound.touched h.1)
  rintro _ w' ⟨w₁, keys₁, htouched, hedits, hne, -, ⟨rfl, hne'⟩ | ⟨version, rfl⟩⟩
  · refine ⟨hsound.touched htouched, ?_⟩
    unfold World.entries at hne' ⊢
    rwa [htouched.ring]
  · have hsound₁ := hedits.sound hdistinct hsound
    have haged : Edit c m now true (w₁.drawn, keys₁) (w₁.drawn, Keys.aged m now keys₁) := .aged
    exact ⟨haged.sound hdistinct hsound₁, haged.nonempty hsound₁ hne⟩

theorem afterwards_of_wp {α : Type} {p : Action α} {I : World → Prop}
    (h : WP p f (fun _ => I) (fun _ => I) (fun w' => I { w' with signers := ∅ }) w) :
    I (afterwards (p f w)) := by
  unfold WP at h
  cases hend : p f w with
  | ok a w' => simpa [afterwards, hend] using h
  | error e w' => simpa [afterwards, hend] using h
  | crash w' => simpa [afterwards, hend] using h

/-- What a pass keeps, and what does not depend on more than the ring and the files, every call
keeps. -/
theorem Step.run_of_wp {s : Step} {I : World → Prop}
    (hmaintain : WP (maintain c s.manager s.now) s.outcome (fun _ => I) (fun _ => I)
      (fun w' => I { w' with signers := ∅ }) w) (htouched : ∀ w', Touched c w w' → I w') :
    I (s.run c w) := by
  have hforget : ∀ w', Touched c w w' → Touched c w { w' with signers := ∅ } :=
    fun _ h => ⟨h.ring, h.drawn, h.pems⟩
  unfold Step.run
  cases s.call with
  | maintain => exact afterwards_of_wp hmaintain
  | sign payload =>
    refine afterwards_of_wp ?_
    exact sign_spec.mono (fun _ w' h => htouched w' h.2) (fun _ w' h => htouched w' h)
      (fun w' h => htouched _ (hforget w' h.1))
  | restart => exact htouched _ (hforget w (.refl c w))

/-- **What every edit keeps, a pass keeps**, however it ends. -/
theorem maintain_keeps {I : List Entry → Prop} (hdistinct : Distinct c)
    (hsound : Sound c (w.drawn, w.entries))
    (hedit : ∀ ageing p p', Sound c p → Edit c m now ageing p p' → I p.2 → I p'.2)
    (h : I w.entries) :
    WP (maintain c m now) f (fun _ w' => I w'.entries) (fun _ w' => I w'.entries)
      (fun w' => I w'.entries) w := by
  have hedits : ∀ {p}, Edits c m now (w.drawn, w.entries) p → I p.2 := by
    intro p hedits
    induction hedits with
    | refl => exact h
    | tail hbefore hlast ih => exact hedit false _ _ (Edits.sound hdistinct hbefore hsound) hlast ih
  refine (maintain_spec hdistinct hsound).mono ?_ (fun _ _ htouched => htouched.entries ▸ h)
    (fun _ htouched => htouched.1.entries ▸ h)
  rintro _ w' ⟨w₁, keys₁, htouched, hbefore, -, -, ⟨rfl, -⟩ | ⟨version, rfl⟩⟩
  · exact htouched.entries ▸ h
  · have haged : Edit c m now true (w₁.drawn, keys₁) (w₁.drawn, Keys.aged m now keys₁) := .aged
    exact hedit true _ _ (hbefore.sound hdistinct hsound) haged (hedits hbefore)

/-- What every edit keeps, every call keeps. -/
theorem Step.run_keeps {s : Step} {I : List Entry → Prop} (hdistinct : Distinct c)
    (hsound : Sound c (w.drawn, w.entries))
    (hedit : ∀ ageing p p', Sound c p → Edit c s.manager s.now ageing p p' → I p.2 → I p'.2)
    (h : I w.entries) : I (s.run c w).entries := by
  refine Step.run_of_wp (I := fun w => I w.entries) ?_ fun w' htouched => htouched.entries ▸ h
  exact maintain_keeps hdistinct hsound hedit h

/-- Some call takes a world to another. -/
def Takes (c : Crates) (w w' : World) : Prop := ∃ s : Step, w' = s.run c w

theorem Takes.sound (hdistinct : Distinct c) (h : Takes c w w')
    (hsound : Sound c (w.drawn, w.entries)) : Sound c (w'.drawn, w'.entries) := by
  obtain ⟨s, rfl⟩ := h
  refine Step.run_of_wp (I := fun w => Sound c (w.drawn, w.entries)) ?_
    fun w' h => hsound.touched h
  exact (maintain_sound hdistinct hsound).mono (fun _ _ h => h.1) (fun _ _ h => h) (fun _ h => h)

theorem World.entries_of_absent (habsent : w.ring = none) : w.entries = [] := by
  unfold World.entries
  rw [habsent]
  rfl

theorem sound_of_takes (hdistinct : Distinct c) {w₀ : World} (hempty : w₀.entries = [])
    (hrun : Relation.ReflTransGen (Takes c) w₀ w) : Sound c (w.drawn, w.entries) := by
  induction hrun with
  | refl =>
    rw [hempty]
    exact ⟨by simp [Known], fun hne => absurd rfl hne⟩
  | tail _ htakes ih => exact htakes.sound hdistinct ih

/-- **The ring keeps its shape**: from an absent ring on, whatever the clock, the policies, the
algorithms and the failures, every successful pass leaves a ring in which exactly one key signs,
at most one waits, names are distinct and every key has the times of its states. -/
theorem maintained_ring_shaped (hdistinct : Distinct c) {w₀ : World} (habsent : w₀.ring = none)
    (hrun : Relation.ReflTransGen (Takes c) w₀ w) {report : Maintenance}
    (hok : maintain c m now f w = .ok report w') : Shaped w'.entries := by
  have hsound := sound_of_takes hdistinct (World.entries_of_absent habsent) hrun
  obtain ⟨hsound', hne⟩ := (maintain_sound hdistinct hsound).ok hok
  exact hsound'.2 hne

/-! ### The first key of a deployment -/

/-- A key pair with the digest its thumbprint is made of. -/
structure TestKey where
  seed : Bytes
  publicKey : Bytes
  digest : Bytes

/-- The first three test keys of RFC 8032. -/
def testKeys : List TestKey :=
  [⟨[157, 97, 177, 157, 239, 253, 90, 96, 186, 132, 74, 244, 146, 236, 44, 196, 68, 73, 197, 105,
      123, 50, 105, 25, 112, 59, 172, 3, 28, 174, 127, 96],
    [215, 90, 152, 1, 130, 177, 10, 183, 213, 75, 254, 211, 201, 100, 7, 58, 14, 225, 114, 243,
      218, 166, 35, 37, 175, 2, 26, 104, 247, 7, 81, 26],
    [144, 250, 202, 254, 169, 177, 85, 102, 152, 84, 15, 112, 192, 17, 122, 34, 234, 55, 189, 92,
      243, 237, 60, 71, 9, 60, 23, 7, 40, 43, 75, 137]⟩,
   ⟨[76, 205, 8, 155, 40, 255, 150, 218, 157, 182, 195, 70, 236, 17, 78, 15, 91, 138, 49, 159,
      53, 171, 166, 36, 218, 140, 246, 237, 79, 184, 166, 251],
    [61, 64, 23, 195, 232, 67, 137, 90, 146, 183, 10, 167, 77, 27, 126, 188, 156, 152, 44, 207,
      46, 196, 150, 140, 192, 205, 85, 241, 42, 244, 102, 12],
    [22, 210, 46, 249, 86, 198, 173, 247, 191, 40, 30, 130, 31, 177, 141, 192, 224, 193, 239, 99,
      13, 198, 63, 230, 151, 93, 93, 18, 243, 190, 238, 73]⟩,
   ⟨[197, 170, 141, 244, 63, 159, 131, 123, 237, 183, 68, 47, 49, 220, 183, 177, 102, 211, 133,
      53, 7, 111, 9, 75, 133, 206, 58, 46, 11, 68, 88, 247],
    [252, 81, 205, 142, 98, 24, 161, 163, 141, 164, 126, 208, 2, 48, 240, 88, 8, 22, 237, 19,
      186, 51, 3, 172, 93, 235, 145, 21, 72, 144, 128, 37],
    [21, 85, 121, 186, 100, 238, 106, 239, 61, 210, 174, 125, 87, 238, 6, 107, 244, 122, 169,
      102, 251, 56, 223, 226, 188, 151, 56, 18, 59, 194, 193, 51]⟩]

/-- The PKCS#8 document of a key, as the `ring` crate writes it. -/
def TestKey.document (k : TestKey) : Bytes :=
  [48, 83, 2, 1, 1, 48, 5, 6, 3, 43, 101, 112, 4, 34, 4, 32] ++ k.seed ++ [161, 35, 3, 33, 0] ++
    k.publicKey

/-- The signature of the empty message under the first key. -/
def testSignature : Bytes :=
  [229, 86, 67, 0, 195, 96, 172, 114, 144, 134, 226, 204, 128, 110, 130, 138, 132, 135, 127, 30,
    184, 229, 217, 116, 216, 115, 224, 101, 34, 73, 1, 85, 95, 184, 130, 21, 144, 163, 59, 172,
    198, 30, 57, 112, 28, 249, 180, 107, 210, 91, 245, 240, 89, 91, 190, 36, 101, 81, 65, 67,
    142, 122, 16, 11]

/-- A random source that is good for three Ed25519 keys. -/
def testCrates : Crates where
  sha256 b := ((testKeys.find? fun k =>
    utf8 (canonical .ed25519 (Encoding.base64url k.publicKey)) = b).map TestKey.digest).getD []
  generatePkcs8
    | .ed25519, draw => (testKeys[draw]?.map TestKey.document).getD []
    | .es256, _ => []
  fromPkcs8
    | .ed25519, document => match testKeys.find? fun k => k.document = document with
      | some k => .ok k.publicKey
      | none => .error "InvalidEncoding"
    | .es256, _ => .error "InvalidEncoding"
  signEd25519 pkcs8 payload :=
    if testKeys.head?.map TestKey.document = some pkcs8 ∧ payload = [] then testSignature else []
  signEs256 _ _ _ := []

/-- The names of the three keys. -/
def testKids : List String :=
  ["kPrK_qmxVWaYVA9wwBF6Iuo3vVzz7TxHCTwXBygrS4k", "FtIu-VbGrfe_KB6CH7GNwODB72MNxj_ml11dEvO-7kk",
    "FVV5umTuau890q59V-4Ga_R6qWb7ON_ivJc4EjvCwTM"]

theorem testKids_eq : testKeys.map (fun k =>
    thumbprint testCrates .ed25519 (Encoding.base64url k.publicKey)) = testKids := by
  decide +kernel

theorem testCrates_named {draw : Nat} {kid : String} (h : Named testCrates draw kid) :
    testKids[draw]? = some kid := by
  obtain ⟨algorithm, publicKey, hread, rfl⟩ := h
  cases algorithm with
  | es256 => simp [testCrates] at hread
  | ed25519 =>
    rw [← testKids_eq, List.getElem?_map]
    match draw with
    | 0 | 1 | 2 => cases hread; rfl
    | n + 3 => simp [testCrates, testKeys, TestKey.document] at hread

theorem testCrates_distinct : Distinct testCrates := by
  intro draw draw' kid h h'
  have hnodup : testKids.Nodup := by decide
  have hlt := (List.getElem?_eq_some_iff.mp (testCrates_named h)).1
  exact (List.getElem?_inj hlt hnodup).mp ((testCrates_named h).trans (testCrates_named h').symm)

/-- A manager that rotates its key every week. -/
def weekly : DirectoryKeyManager where
  directory := "keys"
  policy :=
    { publishAhead := 3600, rotateEvery := 604800, retain := 2592000, verifyRetain := 7776000 }
  algorithm := .ed25519

/-- Nothing on disk and nothing in memory. -/
def absent : World := { ring := none, pems := ∅, signers := ∅, drawn := 0 }

/-- The first pass succeeds, and leaves one active key. -/
theorem maintained_ring_shaped_first :
    ∃ report w', maintain testCrates weekly 1786233600 (fun _ => .done) absent = .ok report w' ∧
      Shaped w'.entries := by
  have hok : (maintain testCrates weekly 1786233600 (fun _ => .done) absent).isOk = true := by
    decide +kernel
  cases hend : maintain testCrates weekly 1786233600 (fun _ => .done) absent with
  | ok report w' =>
    exact ⟨report, w', rfl, maintained_ring_shaped testCrates_distinct rfl .refl hend⟩
  | error e w' => simp [hend, Ending.isOk] at hok
  | crash w' => simp [hend, Ending.isOk] at hok

end PicX.Keys
