import PicX.Keys.Window
import PicX.Realm.Exchange

/-!
# Rotation while a token is issued (`RealmTokenSigner` over `DirectoryKeyManager`)

An issuance announces the key that was active when it began, and every signature after that reads
the ring again. Passes may come between any two of these steps, and between the read of a
signature and the signature itself.

* `Issuance.step` — one step of the issuance, or of anything else that uses the ring.
* `Produced` — an artifact announces the key and the algorithm it was signed with.
* `rotation_during_issuance` — what a token that was returned carries, and what a signature that
  finds another key leads to.
-/

namespace PicX.Realm

open PicX Program
open PicX.Keys
  (DirectoryKeyManager World RingAlgorithm SigningPair Serves Kept saturatingAdd U64_MAX)

/-! ## The ring as a caller finds it -/

/-- What a caller is told. A call that never came back told it nothing. -/
def told {α : Type} : Ending World KeyError α → Except KeyError α
  | .ok a _ => .ok a
  | .error e _ => .error e
  | .crash _ => .error (.unavailable "")

/-- The ring at one moment. -/
def seen (c : Keys.Crates) (m : DirectoryKeyManager) (f : Keys.Op → Outcome) (w : World) :
    KeyManager where
  activeKeyId := told (Keys.activeKeyId m f w)
  publicKeys := told (Keys.publicKeys f w)
  sign _ data := told (Keys.sign c m data f w)

/-- The rest of `sign`, once the ring has named its active key. -/
def signWith (c : Keys.Crates) (m : DirectoryKeyManager) (payload : Bytes) (keyId : String) :
    Keys.Action Signature := do
  let pair ← Keys.signer c m keyId
  let bytes ← pair.sign c payload
  pure { keyId, algorithm := pair.algorithm.jose, bytes }

theorem sign_eq_signWith (c : Keys.Crates) (m : DirectoryKeyManager) (payload : Bytes) :
    Keys.sign c m payload = Keys.activeKeyId m >>= signWith c m payload := rfl

/-! ## One issuance -/

/-- What a signer announces on every artifact. -/
structure Header where
  kid : String
  coseAlgorithm : SigningAlgorithm
  jwsAlgorithm : String
  deriving DecidableEq, Repr

def ArtifactSigner.header (signer : ArtifactSigner) : Header :=
  { kid := signer.kid, coseAlgorithm := signer.coseAlgorithm, jwsAlgorithm := signer.jwsAlgorithm }

/-- A signed artifact. -/
structure Artifact where
  header : Header
  payload : Bytes
  bytes : Bytes
  deriving DecidableEq, Repr

/-- How far an issuance has come. -/
inductive Phase where
  | started
  /-- Between two signatures. -/
  | signing (header : Header) (artifacts : List Artifact)
  /-- Inside a signature: the ring has named the key that is active. -/
  | reading (header : Header) (artifacts : List Artifact) (payload : Bytes) (keyId : String)
  | failed
  | returned (header : Header) (artifacts : List Artifact)
  deriving DecidableEq, Repr

namespace Phase

/-- What the issuance announces. -/
def header : Phase → Option Header
  | .signing header _ | .reading header _ _ _ | .returned header _ => some header
  | .started | .failed => none

/-- What was signed so far. -/
def artifacts : Phase → List Artifact
  | .signing _ artifacts | .reading _ artifacts _ _ | .returned _ artifacts => artifacts
  | .started | .failed => []

/-- The key that was active when the issuance read the ring last. -/
def key : Phase → Option String
  | .signing header _ | .returned header _ => some header.kid
  | .reading _ _ _ keyId => some keyId
  | .started | .failed => none

end Phase

/-- An issuance, and the ring it uses. -/
structure Issuance where
  time : Nat
  ring : World
  phase : Phase
  /-- When the issuance read the ring last. -/
  readAt : Nat

/-- What happens next. -/
inductive Move where
  /-- Anyone calls the ring: a pass, another request, a restart. -/
  | ring (call : Keys.Step)
  | capture (now : Nat) (outcome : Keys.Op → Outcome)
  | read (now : Nat) (payload : Bytes) (outcome : Keys.Op → Outcome)
  | sign (now : Nat) (outcome : Keys.Op → Outcome)
  | finish (now : Nat)

def Move.now : Move → Nat
  | .ring call => call.now
  | .capture now _ | .read now _ _ | .sign now _ | .finish now => now

/-- `RealmTokenSigner::new`. -/
def Phase.capture (keys : KeyManager) (jose : String) : Phase :=
  match realmTokenSigner keys jose with
  | .ok signer => .signing signer.header []
  | .error _ => .failed

/-- The ring is read at the start of a signature. -/
def Phase.read (header : Header) (artifacts : List Artifact) (payload : Bytes) :
    Except KeyError String → Phase
  | .ok keyId => .reading header artifacts payload keyId
  | .error _ => .failed

/-- `RealmTokenSigner::sign`: the issuance goes on when the signature is as announced. -/
def Phase.sign (header : Header) (artifacts : List Artifact) (payload : Bytes)
    (answer : Except KeyError Signature) : Phase :=
  match checkSignature header.kid header.jwsAlgorithm answer with
  | .ok bytes => .signing header (artifacts ++ [{ header, payload, bytes }])
  | .error _ => .failed

variable (c : Keys.Crates) (m : DirectoryKeyManager) (jose : String)

/-- One step, where it is possible. -/
def Issuance.step (s : Issuance) (move : Move) : Option Issuance :=
  match move, s.phase with
  | .ring call, _ =>
    if call.manager.policy = m.policy then
      some { s with time := call.now, ring := call.run c s.ring }
    else none
  | .capture now f, .started =>
    some { time := now, ring := Keys.afterwards (Keys.activeKeyId m f s.ring), readAt := now
           phase := .capture (seen c m f s.ring) jose }
  | .read now payload f, .signing header artifacts =>
    let ending := Keys.activeKeyId m f s.ring
    some { time := now, ring := Keys.afterwards ending, readAt := now
           phase := .read header artifacts payload (told ending) }
  | .sign now f, .reading header artifacts payload keyId =>
    let ending := signWith c m payload keyId f s.ring
    some { s with time := now, ring := Keys.afterwards ending
                  phase := .sign header artifacts payload (told ending) }
  | .finish now, .signing header artifacts =>
    some { s with time := now, phase := .returned header artifacts }
  | _, _ => none

/-- A step at a reading of the clock that is not before the last one. -/
def Moves (s s' : Issuance) : Prop :=
  ∃ move : Move, s.time ≤ move.now ∧ move.now ≤ U64_MAX ∧ s.step c m jose move = some s'

/-- An issuance that has not begun, over a ring. -/
def Issuance.start (time : Nat) (ring : World) : Issuance :=
  { time, ring, phase := .started, readAt := time }

/-- A run of the issuance and of everything around it. -/
abbrev Interleaves : Issuance → Issuance → Prop := Relation.ReflTransGen (Moves c m jose)

variable {c m jose}
variable {s s' s₀ : Issuance} {move : Move} {header : Header} {artifacts : List Artifact}
  {payload : Bytes} {keyId : String} {f : Keys.Op → Outcome} {w w' : World}

theorem Issuance.step_cases (h : s.step c m jose move = some s') :
    (∃ call, move = .ring call ∧ call.manager.policy = m.policy ∧
      s' = { s with time := call.now, ring := call.run c s.ring }) ∨
    (∃ now f, move = .capture now f ∧ s.phase = .started ∧
      s' = { time := now, ring := Keys.afterwards (Keys.activeKeyId m f s.ring), readAt := now
             phase := .capture (seen c m f s.ring) jose }) ∨
    (∃ now payload f header artifacts, move = .read now payload f ∧
      s.phase = .signing header artifacts ∧
      s' = { time := now, ring := Keys.afterwards (Keys.activeKeyId m f s.ring), readAt := now
             phase := .read header artifacts payload (told (Keys.activeKeyId m f s.ring)) }) ∨
    (∃ now f header artifacts payload keyId, move = .sign now f ∧
      s.phase = .reading header artifacts payload keyId ∧
      s' = { s with
        time := now, ring := Keys.afterwards (signWith c m payload keyId f s.ring)
        phase := .sign header artifacts payload (told (signWith c m payload keyId f s.ring)) }) ∨
    (∃ now header artifacts, move = .finish now ∧ s.phase = .signing header artifacts ∧
      s' = { s with time := now, phase := .returned header artifacts }) := by
  unfold Issuance.step at h
  split at h
  · split_ifs at h with hpolicy
    exact Or.inl ⟨_, rfl, hpolicy, (Option.some.inj h).symm⟩
  · exact Or.inr (Or.inl ⟨_, _, rfl, ‹_›, (Option.some.inj h).symm⟩)
  · exact Or.inr (Or.inr (Or.inl ⟨_, _, _, _, _, rfl, ‹_›, (Option.some.inj h).symm⟩))
  · exact Or.inr (Or.inr (Or.inr (Or.inl ⟨_, _, _, _, _, _, rfl, ‹_›, (Option.some.inj h).symm⟩)))
  · exact Or.inr (Or.inr (Or.inr (Or.inr ⟨_, _, _, rfl, ‹_›, (Option.some.inj h).symm⟩)))
  · cases h

/-! ## What a signature was made with -/

/-- The COSE name of what a ring signs with. -/
def coseOf : RingAlgorithm → SigningAlgorithm
  | .ed25519 => .edDSA
  | .es256 => .es256

/-- An artifact announces the key that signed it, and the algorithm of that key: at some point of
the run the ring held a private key under the announced name, and that key made the signature. -/
def Produced (c : Keys.Crates) (m : DirectoryKeyManager) (jose : String) (s₀ s : Issuance)
    (a : Artifact) : Prop :=
  ∃ s₁, Interleaves c m jose s₀ s₁ ∧ Interleaves c m jose s₁ s ∧
    ∃ f pair w w', Keys.signer c m a.header.kid f s₁.ring = .ok pair w ∧
      pair.sign c a.payload f w = .ok a.bytes w' ∧
      a.header.jwsAlgorithm = pair.algorithm.jose ∧ a.header.coseAlgorithm = coseOf pair.algorithm

theorem Produced.mono {a : Artifact} (h : Produced c m jose s₀ s a) (hmoves : Moves c m jose s s') :
    Produced c m jose s₀ s' a := by
  obtain ⟨s₁, hbefore, hafter, hsigned⟩ := h
  exact ⟨s₁, hbefore, hafter.tail hmoves, hsigned⟩

theorem signWith_ok {signature : Signature}
    (h : signWith c m payload keyId f w = .ok signature w') :
    ∃ pair w₁, Keys.signer c m keyId f w = .ok pair w₁ ∧
      pair.sign c payload f w₁ = .ok signature.bytes w' ∧ signature.keyId = keyId ∧
      signature.algorithm = pair.algorithm.jose := by
  obtain ⟨pair, w₁, hsigner, h⟩ := bind_eq_ok h
  obtain ⟨bytes, w₂, hbytes, h⟩ := bind_eq_ok h
  cases h
  exact ⟨pair, w₁, hsigner, hbytes, rfl, rfl⟩

theorem told_ok {α : Type} {ending : Ending World KeyError α} {a : α} (h : told ending = .ok a) :
    ∃ w, ending = .ok a w := by
  cases ending with
  | ok b w => exact ⟨w, congrArg (Ending.ok · w) (Except.ok.inj h)⟩
  | error e w => cases h
  | crash w => cases h

theorem activeKeyId_touched : Keys.Touched c w (Keys.afterwards (Keys.activeKeyId m f w)) := by
  refine Keys.afterwards_of_wp (Keys.activeKeyId_spec.mono ?_ ?_ ?_)
  · intro _ _ h
    exact h.1 ▸ .refl c w
  · intro _ _ h
    exact h ▸ .refl c w
  · rintro _ ⟨rfl, -⟩
    exact ⟨rfl, le_rfl, fun _ h => Or.inl h⟩

theorem signWith_touched :
    Keys.Touched c w (Keys.afterwards (signWith c m payload keyId f w)) := by
  have hforget : ∀ w', Keys.Touched c w w' → Keys.Touched c w { w' with signers := ∅ } :=
    fun _ h => ⟨h.ring, h.drawn, h.pems⟩
  refine Keys.afterwards_of_wp ?_
  unfold signWith
  refine WP.bind (Keys.signer_spec.mono (fun _ _ h => h) (fun _ _ h => h)
    (fun w' h => hforget w' h.1)) fun pair w₁ h₁ => ?_
  exact WP.bind (SigningPair.sign_spec.mono (fun _ _ h => h₁.trans h) (fun _ _ h => h₁.trans h)
    (fun w' h => hforget w' (h₁.trans h.1))) fun _ _ h => h

/-- The key a read finds serves from then on. -/
theorem activeKeyId_serves {t : Nat} (h : told (Keys.activeKeyId m f w) = .ok keyId) :
    Serves keyId t w.entries := by
  obtain ⟨w', hok⟩ := told_ok h
  obtain ⟨-, e, he, hkid, hstate⟩ := Keys.activeKeyId_spec.ok hok
  exact ⟨e, he, hkid, Or.inl hstate⟩

/-! ## What an issuance announces -/

/-- The two names of one algorithm, both announced. -/
def Header.Agrees (h : Header) : Prop := signingAlgorithm h.jwsAlgorithm = .ok h.coseAlgorithm

theorem Header.Agrees.cose {algorithm : RingAlgorithm} (h : header.Agrees)
    (hjws : header.jwsAlgorithm = algorithm.jose) : header.coseAlgorithm = coseOf algorithm := by
  unfold Header.Agrees at h
  rw [hjws] at h
  cases algorithm with
  | ed25519 => exact (Except.ok.inj h).symm
  | es256 => exact (Except.ok.inj h).symm

theorem realmTokenSigner_ok {keys : KeyManager} {signer : ArtifactSigner}
    (h : realmTokenSigner keys jose = .ok signer) :
    keys.activeKeyId = .ok signer.kid ∧ signer.jwsAlgorithm = jose ∧ signer.header.Agrees := by
  obtain ⟨algorithm, halgorithm, h⟩ := bind_ok.mp h
  obtain ⟨kid, hkid, h⟩ := bind_ok.mp h
  cases pure_ok.mp h
  exact ⟨mapErr_ok.mp hkid, rfl, halgorithm⟩

theorem checkSignature_ok {kid : String} {answer : Except KeyError Signature} {bytes : Bytes} :
    checkSignature kid jose answer = .ok bytes ↔ answer = .ok ⟨kid, jose, bytes⟩ := by
  constructor
  · intro h
    obtain ⟨signature, hanswer, h⟩ := bind_ok.mp h
    obtain ⟨_, halgorithm, h⟩ := bind_ok.mp h
    obtain ⟨_, hkid, h⟩ := bind_ok.mp h
    rw [mapErr_ok.mp hanswer, ← ensure_ok.mp halgorithm, ← ensure_ok.mp hkid, ← pure_ok.mp h]
  · intro h
    simp [checkSignature, h, mapErr, ensure, bind, Except.bind, pure, Except.pure]

/-! ## What a run keeps -/

/-- What holds of an issuance at any time: the key it found last serves, and whatever was signed
was signed by the announced key. -/
structure Tracked (c : Keys.Crates) (m : DirectoryKeyManager) (jose : String) (s₀ s : Issuance) :
    Prop where
  kept : Kept c s.ring
  readAt_le : s.readAt ≤ s.time
  serves : ∀ kid ∈ s.phase.key, s.time < saturatingAdd s.readAt m.policy.verifyRetained →
    Serves kid s.readAt s.ring.entries
  agrees : ∀ h ∈ s.phase.header, h.Agrees
  produced : ∀ h ∈ s.phase.header, ∀ a ∈ s.phase.artifacts, a.header = h ∧
    Produced c m jose s₀ s a

theorem Tracked.start {time : Nat} (habsent : w.ring = none) :
    Tracked c m jose (.start time w) (.start time w) where
  kept := .absent habsent
  readAt_le := le_rfl
  serves := by simp [Issuance.start, Phase.key]
  agrees := by simp [Issuance.start, Phase.header]
  produced := by simp [Issuance.start, Phase.header]

section Steps

variable (hdistinct : Keys.Distinct c) (h : Tracked c m jose s₀ s)
include hdistinct h

theorem Tracked.ring {call : Keys.Step} (hpolicy : call.manager.policy = m.policy)
    (hle : s.time ≤ call.now) (hmax : call.now ≤ U64_MAX)
    (hmoves : Moves c m jose s { s with time := call.now, ring := call.run c s.ring }) :
    Tracked c m jose s₀ { s with time := call.now, ring := call.run c s.ring } := by
  have htick : Keys.Ticks c m.policy (s.time, s.ring) (call.now, call.run c s.ring) :=
    ⟨call, hpolicy, hle, hmax, rfl⟩
  refine ⟨htick.kept hdistinct h.kept, h.readAt_le.trans hle, ?_, h.agrees, ?_⟩
  · intro kid hkid hwindow
    have hserves := h.serves kid hkid (hle.trans_lt hwindow)
    exact (Keys.Runs.serves hdistinct (.single htick) h.kept h.readAt_le hserves).2 hwindow
  · intro header hheader a ha
    exact ⟨(h.produced header hheader a ha).1, (h.produced header hheader a ha).2.mono hmoves⟩

theorem Tracked.capture {now : Nat} :
    Tracked c m jose s₀
      { time := now, ring := Keys.afterwards (Keys.activeKeyId m f s.ring), readAt := now
        phase := .capture (seen c m f s.ring) jose } := by
  have htouched : Keys.Touched c s.ring (Keys.afterwards (Keys.activeKeyId m f s.ring)) :=
    activeKeyId_touched
  refine ⟨h.kept.touched hdistinct htouched, le_rfl, ?_, ?_, ?_⟩
  all_goals
    unfold Phase.capture
    cases hsigner : realmTokenSigner (seen c m f s.ring) jose with
    | error e => simp [Phase.key, Phase.header]
    | ok signer => ?_
  · obtain ⟨hactive, -, -⟩ := realmTokenSigner_ok hsigner
    rintro kid ⟨rfl⟩ -
    rw [htouched.entries]
    exact activeKeyId_serves hactive
  · obtain ⟨-, -, hagrees⟩ := realmTokenSigner_ok hsigner
    rintro header ⟨rfl⟩
    exact hagrees
  · simp [Phase.artifacts]

theorem Tracked.read {now : Nat} (hphase : s.phase = .signing header artifacts)
    (hmoves : Moves c m jose s
      { time := now, ring := Keys.afterwards (Keys.activeKeyId m f s.ring), readAt := now
        phase := .read header artifacts payload (told (Keys.activeKeyId m f s.ring)) }) :
    Tracked c m jose s₀
      { time := now, ring := Keys.afterwards (Keys.activeKeyId m f s.ring), readAt := now
        phase := .read header artifacts payload (told (Keys.activeKeyId m f s.ring)) } := by
  have htouched : Keys.Touched c s.ring (Keys.afterwards (Keys.activeKeyId m f s.ring)) :=
    activeKeyId_touched
  have hagrees : header.Agrees := h.agrees header (by simp [hphase, Phase.header])
  have hproduced : ∀ a ∈ artifacts, a.header = header ∧ Produced c m jose s₀ s a := fun a ha =>
    h.produced header (by simp [hphase, Phase.header]) a (by simpa [hphase, Phase.artifacts])
  cases hanswer : told (Keys.activeKeyId m f s.ring) with
  | error e =>
    exact ⟨h.kept.touched hdistinct htouched, le_rfl, by simp [Phase.read, Phase.key],
      by simp [Phase.read, Phase.header], by simp [Phase.read, Phase.header]⟩
  | ok keyId =>
    rw [hanswer] at hmoves
    refine ⟨h.kept.touched hdistinct htouched, le_rfl, ?_, ?_, ?_⟩
    · rintro kid ⟨rfl⟩ -
      rw [htouched.entries]
      exact activeKeyId_serves hanswer
    · rintro _ ⟨rfl⟩
      exact hagrees
    · rintro _ ⟨rfl⟩ a ha
      exact ⟨(hproduced a ha).1, (hproduced a ha).2.mono hmoves⟩

theorem Tracked.sign {now : Nat} (hle : s.time ≤ now) (hreach : Interleaves c m jose s₀ s)
    (hphase : s.phase = .reading header artifacts payload keyId)
    (hmoves : Moves c m jose s
      { s with
        time := now, ring := Keys.afterwards (signWith c m payload keyId f s.ring)
        phase := .sign header artifacts payload (told (signWith c m payload keyId f s.ring)) }) :
    Tracked c m jose s₀
      { s with
        time := now, ring := Keys.afterwards (signWith c m payload keyId f s.ring)
        phase := .sign header artifacts payload (told (signWith c m payload keyId f s.ring)) } := by
  have htouched : Keys.Touched c s.ring (Keys.afterwards (signWith c m payload keyId f s.ring)) :=
    signWith_touched
  have hagrees : header.Agrees := h.agrees header (by simp [hphase, Phase.header])
  have hproduced : ∀ a ∈ artifacts, a.header = header ∧ Produced c m jose s₀ s a := fun a ha =>
    h.produced header (by simp [hphase, Phase.header]) a (by simpa [hphase, Phase.artifacts])
  cases hcheck : checkSignature header.kid header.jwsAlgorithm
      (told (signWith c m payload keyId f s.ring)) with
  | error e =>
    exact ⟨h.kept.touched hdistinct htouched, h.readAt_le.trans hle,
      by simp [Phase.sign, hcheck, Phase.key], by simp [Phase.sign, hcheck, Phase.header],
      by simp [Phase.sign, hcheck, Phase.header]⟩
  | ok bytes =>
    obtain ⟨w', hsigned⟩ := told_ok (checkSignature_ok.mp hcheck)
    obtain ⟨pair, w₁, hsigner, hbytes, hkid, halgorithm⟩ := signWith_ok hsigned
    dsimp only at hbytes hkid halgorithm
    -- The key that signed is the one the signature read.
    subst hkid
    have hnext :
        Phase.sign header artifacts payload (told (signWith c m payload header.kid f s.ring)) =
          .signing header (artifacts ++ [⟨header, payload, bytes⟩]) := by
      simp only [Phase.sign, hcheck]
    rw [hnext] at hmoves ⊢
    refine ⟨h.kept.touched hdistinct htouched, h.readAt_le.trans hle, ?_, ?_, ?_⟩
    · rintro kid ⟨rfl⟩ hwindow
      rw [htouched.entries]
      exact h.serves _ (by simp [hphase, Phase.key]) (hle.trans_lt hwindow)
    · rintro _ ⟨rfl⟩
      exact hagrees
    · rintro _ ⟨rfl⟩ a ha
      rcases List.mem_append.mp ha with hold | hnew
      · exact ⟨(hproduced a hold).1, (hproduced a hold).2.mono hmoves⟩
      · cases List.mem_singleton.mp hnew
        exact ⟨rfl, s, hreach, .single hmoves, f, pair, w₁, w', hsigner, hbytes, halgorithm,
          hagrees.cose halgorithm⟩

omit hdistinct in
theorem Tracked.finish {now : Nat} (hle : s.time ≤ now)
    (hphase : s.phase = .signing header artifacts)
    (hmoves : Moves c m jose s { s with time := now, phase := .returned header artifacts }) :
    Tracked c m jose s₀ { s with time := now, phase := .returned header artifacts } := by
  refine ⟨h.kept, h.readAt_le.trans hle, ?_, ?_, ?_⟩
  · rintro kid ⟨rfl⟩ hwindow
    exact h.serves _ (by simp [hphase, Phase.key]) (hle.trans_lt hwindow)
  · rintro _ ⟨rfl⟩
    exact h.agrees _ (by simp [hphase, Phase.header])
  · rintro _ ⟨rfl⟩ a ha
    have hproduced := h.produced header (by simp [hphase, Phase.header]) a
      (by simpa [hphase, Phase.artifacts])
    exact ⟨hproduced.1, hproduced.2.mono hmoves⟩

theorem Tracked.moves (hreach : Interleaves c m jose s₀ s) (hmoves : Moves c m jose s s') :
    Tracked c m jose s₀ s' := by
  obtain ⟨move, hle, hmax, hstep⟩ := id hmoves
  rcases Issuance.step_cases hstep with ⟨call, rfl, hpolicy, rfl⟩ | ⟨now, f, rfl, hphase, rfl⟩ |
    ⟨now, payload, f, header, artifacts, rfl, hphase, rfl⟩ |
    ⟨now, f, header, artifacts, payload, keyId, rfl, hphase, rfl⟩ |
    ⟨now, header, artifacts, rfl, hphase, rfl⟩
  · exact h.ring hdistinct hpolicy hle hmax hmoves
  · exact h.capture hdistinct
  · exact h.read hdistinct hphase hmoves
  · exact h.sign hdistinct hle hreach hphase hmoves
  · exact h.finish hle hphase hmoves

end Steps

/-- **Every run keeps track**, from an absent ring on. -/
theorem Interleaves.tracked (hdistinct : Keys.Distinct c) {time : Nat} (habsent : w.ring = none)
    (hruns : Interleaves c m jose (.start time w) s) : Tracked c m jose (.start time w) s := by
  induction hruns with
  | refl => exact .start habsent
  | tail hreach hmoves ih => exact ih.moves hdistinct hreach hmoves

/-! ## An issuance that found something else -/

/-- An issuance that can no longer return a token: it failed, or the signature it is in read
another key. -/
def Phase.Doomed : Phase → Prop
  | .failed => True
  | .reading header _ _ keyId => keyId ≠ header.kid
  | _ => False

/-- A signature under another key, or under another algorithm, fails. -/
theorem Phase.sign_failed
    (hother : keyId ≠ header.kid ∨ ∃ signature w',
      signWith c m payload keyId f w = .ok signature w' ∧
        signature.algorithm ≠ header.jwsAlgorithm) :
    Phase.sign header artifacts payload (told (signWith c m payload keyId f w)) = .failed := by
  unfold Phase.sign
  cases hcheck : checkSignature header.kid header.jwsAlgorithm
      (told (signWith c m payload keyId f w)) with
  | error e => rfl
  | ok bytes =>
    obtain ⟨w₁, hsigned⟩ := told_ok (checkSignature_ok.mp hcheck)
    rcases hother with hkid | ⟨signature, w', hok, halgorithm⟩
    · obtain ⟨-, -, -, -, heq, -⟩ := signWith_ok hsigned
      exact absurd heq.symm hkid
    · cases hsigned.symm.trans hok
      exact absurd rfl halgorithm

theorem Phase.Doomed.moves (h : s.phase.Doomed) (hmoves : Moves c m jose s s') :
    s'.phase.Doomed := by
  obtain ⟨move, -, -, hstep⟩ := hmoves
  rcases Issuance.step_cases hstep with ⟨call, -, -, rfl⟩ | ⟨now, f, -, hphase, rfl⟩ |
    ⟨now, payload, f, header, artifacts, -, hphase, rfl⟩ |
    ⟨now, f, header, artifacts, payload, keyId, -, hphase, rfl⟩ |
    ⟨now, header, artifacts, -, hphase, rfl⟩
  · exact h
  · rw [hphase] at h
    exact h.elim
  · rw [hphase] at h
    exact h.elim
  · rw [hphase] at h
    rw [Phase.sign_failed (Or.inl h)]
    trivial
  · rw [hphase] at h
    exact h.elim

theorem Phase.Doomed.interleaves (h : s.phase.Doomed) (hruns : Interleaves c m jose s s') :
    s'.phase.Doomed := by
  induction hruns with
  | refl => exact h
  | tail _ hmoves ih => exact ih.moves hmoves

/-! ## The whole issuance -/

/-- **Rotation during issuance.** In every interleaving of an issuance with whatever else uses the
ring: a token that was returned carries artifacts of one key only, each announcing the key and the
algorithm that made its signature, and that key is published when the token is returned, as long
as less than the retention of the ring has passed since the issuance read the ring last; and a
signature that finds another active key or another algorithm fails, after which no token is ever
returned. -/
theorem rotation_during_issuance (hdistinct : Keys.Distinct c) {time : Nat}
    (habsent : w.ring = none) (hruns : Interleaves c m jose (.start time w) s) :
    (∀ header artifacts, s.phase = .returned header artifacts →
      (∀ a ∈ artifacts, a.header = header ∧ Produced c m jose (.start time w) s a) ∧
      (s.time < saturatingAdd s.readAt (max m.policy.retain m.policy.verifyRetain) →
        ∃ jwks, Keys.publicKeys (fun _ => .done) s.ring = .ok jwks s.ring ∧
          ∃ jwk ∈ jwks, jwk.kid = header.kid)) ∧
    ∀ header artifacts payload keyId, s.phase = .reading header artifacts payload keyId →
      (keyId ≠ header.kid → ∀ s', Interleaves c m jose s s' →
        ∀ header' artifacts', s'.phase ≠ .returned header' artifacts') ∧
      ∀ now f s', s.step c m jose (.sign now f) = some s' →
        (keyId ≠ header.kid ∨ ∃ signature w',
          signWith c m payload keyId f s.ring = .ok signature w' ∧
            signature.algorithm ≠ header.jwsAlgorithm) →
        s'.phase = .failed ∧ ∀ s'', Interleaves c m jose s' s'' →
          ∀ header' artifacts', s''.phase ≠ .returned header' artifacts' := by
  have htracked := hruns.tracked hdistinct habsent
  have hnever : ∀ s', Phase.Doomed s'.phase → ∀ s'', Interleaves c m jose s' s'' →
      ∀ header' artifacts', s''.phase ≠ .returned header' artifacts' := by
    intro s' hdoomed s'' hruns' header' artifacts' hphase
    have := hdoomed.interleaves hruns'
    rw [hphase] at this
    exact this
  refine ⟨?_, ?_⟩
  · intro header artifacts hphase
    refine ⟨?_, fun hwindow => ?_⟩
    · intro a ha
      exact htracked.produced header (by simp [hphase, Phase.header]) a
        (by simpa [hphase, Phase.artifacts])
    · rw [max_comm] at hwindow
      obtain ⟨e, he, hkid, -⟩ :=
        htracked.serves header.kid (by simp [hphase, Phase.key]) hwindow
      exact ⟨_, Keys.publicKeys_done _, e.toJwk, List.mem_map_of_mem he,
        (Keys.Entry.toJwk_kid e).trans hkid⟩
  · intro header artifacts payload keyId hphase
    refine ⟨fun hother => hnever s (by rw [hphase]; exact hother), ?_⟩
    intro now f s' hstep hother
    have hfailed : s'.phase = .failed := by
      simp only [Issuance.step, hphase, Option.some.injEq] at hstep
      rw [← hstep]
      exact Phase.sign_failed hother
    exact ⟨hfailed, hnever s' (by rw [hfailed]; trivial)⟩

/-! ### An issuance that takes its time -/

/-- A manager whose keys are kept for two seconds. -/
def brief : DirectoryKeyManager where
  directory := "keys"
  policy := { publishAhead := 1, rotateEvery := 2, retain := 2, verifyRetain := 2 }
  algorithm := .ed25519

/-- A pass of that manager, with every operation done. -/
def briefPass (now : Nat) : Keys.Step :=
  { manager := brief, now, call := .maintain, outcome := fun _ => .done }

/-- What an issuance under an Edwards key announces. -/
def edwardsHeader (kid : String) : Header :=
  { kid, coseAlgorithm := .edDSA, jwsAlgorithm := Keys.ALGORITHM }

def edwardsArtifact (kid : String) (bytes : Bytes) : Artifact :=
  { header := edwardsHeader kid, payload := [], bytes }

/-- An issuance that has captured the key of a ring. -/
def captured (w : World) (kid : String) : Issuance :=
  { time := 0, ring := w, phase := .signing (edwardsHeader kid) [], readAt := 0 }

theorem interleaves_captured (call : Keys.Step) {w₀ w : World} {kid : String}
    (hcall : call.now = 0) (hpolicy : call.manager.policy = m.policy) (hfirst : call.run c w₀ = w)
    (hactive : Keys.activeKeyId m (fun _ => .done) w = .ok kid w) :
    Interleaves c m Keys.ALGORITHM (.start 0 w₀) (captured w kid) := by
  have hpass : Moves c m Keys.ALGORITHM (.start 0 w₀) (.start 0 w) := by
    refine ⟨.ring call, Nat.zero_le _, by simp [Move.now, hcall], ?_⟩
    simp only [Issuance.step, Issuance.start, hpolicy, if_true, hcall, hfirst]
  have hcapture : Moves c m Keys.ALGORITHM (.start 0 w) (captured w kid) := by
    refine ⟨.capture 0 fun _ => .done, le_rfl, by decide, ?_⟩
    simp only [Issuance.step, Issuance.start, seen, hactive, Keys.afterwards, told]
    rfl
  exact (Relation.ReflTransGen.single hpass).tail hcapture

theorem interleaves_once (call : Keys.Step) {w₀ w w' : World} {kid : String} {bytes : Bytes}
    (hcall : call.now = 0) (hpolicy : call.manager.policy = m.policy) (hfirst : call.run c w₀ = w)
    (hactive : Keys.activeKeyId m (fun _ => .done) w = .ok kid w)
    (hsign : signWith c m [] kid (fun _ => .done) w = .ok ⟨kid, Keys.ALGORITHM, bytes⟩ w') :
    Interleaves c m Keys.ALGORITHM (.start 0 w₀)
      { time := 0, ring := w', phase := .signing (edwardsHeader kid) [edwardsArtifact kid bytes]
        readAt := 0 } := by
  have hread : Moves c m Keys.ALGORITHM (captured w kid)
      { time := 0, ring := w, phase := .reading (edwardsHeader kid) [] [] kid, readAt := 0 } := by
    refine ⟨.read 0 [] fun _ => .done, le_rfl, by decide, ?_⟩
    simp only [Issuance.step, captured, hactive, Keys.afterwards, told, Phase.read]
  refine ((interleaves_captured call hcall hpolicy hfirst hactive).tail hread).tail ?_
  refine ⟨.sign 0 fun _ => .done, le_rfl, by decide, ?_⟩
  have hcheck : checkSignature (edwardsHeader kid).kid (edwardsHeader kid).jwsAlgorithm
      (.ok ⟨kid, Keys.ALGORITHM, bytes⟩) = .ok bytes := checkSignature_ok.mpr rfl
  simp only [Issuance.step, hsign, Keys.afterwards, told, Phase.sign, hcheck]
  rfl

/-- The first key of a ring, and one signature under it. -/
def firstHeader : Header := edwardsHeader Keys.firstEntry.kid

def firstArtifact : Artifact := edwardsArtifact Keys.firstEntry.kid Keys.testSignature

def signedOnce : Issuance :=
  { time := 0, ring := Keys.signedWorld, phase := .signing firstHeader [firstArtifact],
    readAt := 0 }

theorem interleaves_signedOnce :
    Interleaves Keys.testCrates brief Keys.ALGORITHM (.start 0 Keys.absent) signedOnce := by
  refine interleaves_once (briefPass 0) rfl rfl (w := Keys.firstWorld) ?_ ?_ ?_
  · rw [Keys.firstWorld_eq]
    rfl
  · rw [Keys.firstWorld_eq]
    rfl
  · unfold signWith
    rw [bind_of_ok (Keys.firstWorld_signer brief), ← Keys.firstKey_signature]
    rfl

/-- The end of an issuance after its one signature. -/
def returnedOnce (now : Nat) (ring : World) : Issuance :=
  { time := now, ring, phase := .returned firstHeader [firstArtifact], readAt := 0 }

theorem moves_briefPass {s : Issuance} (now : Nat) (hle : s.time ≤ now) (hmax : now ≤ U64_MAX) :
    Moves Keys.testCrates brief Keys.ALGORITHM s
      { s with time := now, ring := (briefPass now).run Keys.testCrates s.ring } :=
  ⟨.ring (briefPass now), hle, hmax, by simp [Issuance.step, briefPass]⟩

/-- Two passes after the first, the second of which hands over to a new key. -/
def handedOver : World :=
  (briefPass 2).run Keys.testCrates ((briefPass 1).run Keys.testCrates Keys.firstWorld)

theorem handedOver_active : ∃ keyId, keyId ≠ firstHeader.kid ∧
    told (Keys.activeKeyId brief (fun _ => .done) handedOver) = .ok keyId := by
  have hother : (match told (Keys.activeKeyId brief (fun _ => .done) handedOver) with
      | .ok keyId => keyId != firstHeader.kid
      | .error _ => false) = true := by decide +kernel
  cases h : told (Keys.activeKeyId brief (fun _ => .done) handedOver) with
  | ok keyId =>
    rw [h] at hother
    exact ⟨keyId, by simpa using hother, rfl⟩
  | error e =>
    rw [h] at hother
    cases hother

/-- The key of the first pass is captured, and the signature reads the ring after the handover. -/
theorem interleaves_handedOver : ∃ s keyId, keyId ≠ firstHeader.kid ∧
    Interleaves Keys.testCrates brief Keys.ALGORITHM (.start 0 Keys.absent) s ∧
      s.phase = .reading firstHeader [] [] keyId := by
  obtain ⟨keyId, hother, htold⟩ := handedOver_active
  have hcaptured : Interleaves Keys.testCrates brief Keys.ALGORITHM (.start 0 Keys.absent)
      (captured Keys.firstWorld Keys.firstEntry.kid) := by
    refine interleaves_captured (briefPass 0) rfl rfl ?_ ?_
    · rw [Keys.firstWorld_eq]
      rfl
    · rw [Keys.firstWorld_eq]
      rfl
  have hpasses := (hcaptured.tail (moves_briefPass 1 (by decide) (by decide))).tail
    (moves_briefPass 2 (by decide) (by decide))
  refine ⟨_, keyId, hother, hpasses.tail ⟨.read 2 [] fun _ => .done, le_rfl, by decide, rfl⟩, ?_⟩
  show Phase.read firstHeader [] [] (told (Keys.activeKeyId brief (fun _ => .done) handedOver)) = _
  rw [htold]
  rfl

/-- A token that is returned at once: its key is published, and signed all it carries. With a
handover between capture and signature no token is returned. -/
theorem rotation_during_issuance_at_once :
    (∃ s, Interleaves Keys.testCrates brief Keys.ALGORITHM (.start 0 Keys.absent) s ∧
      s.phase = .returned firstHeader [firstArtifact] ∧
      Produced Keys.testCrates brief Keys.ALGORITHM (.start 0 Keys.absent) s firstArtifact ∧
      ∃ jwks, Keys.publicKeys (fun _ => .done) s.ring = .ok jwks s.ring ∧
        ∃ jwk ∈ jwks, jwk.kid = firstHeader.kid) ∧
    ∃ s keyId, keyId ≠ firstHeader.kid ∧
      Interleaves Keys.testCrates brief Keys.ALGORITHM (.start 0 Keys.absent) s ∧
      s.phase = .reading firstHeader [] [] keyId ∧
      ∀ s', Interleaves Keys.testCrates brief Keys.ALGORITHM s s' →
        ∀ header artifacts, s'.phase ≠ .returned header artifacts := by
  constructor
  · have hruns : Interleaves Keys.testCrates brief Keys.ALGORITHM (.start 0 Keys.absent)
        (returnedOnce 0 Keys.signedWorld) :=
      interleaves_signedOnce.tail ⟨.finish 0, le_rfl, by decide, rfl⟩
    obtain ⟨hproduced, hpublished⟩ :=
      (rotation_during_issuance Keys.testCrates_distinct rfl hruns).1 _ _ rfl
    exact ⟨_, hruns, rfl, (hproduced _ (List.mem_singleton_self _)).2, hpublished (by decide)⟩
  · obtain ⟨s, keyId, hother, hruns, hphase⟩ := interleaves_handedOver
    refine ⟨s, keyId, hother, hruns, hphase, ?_⟩
    exact ((rotation_during_issuance Keys.testCrates_distinct rfl hruns).2 _ _ _ _ hphase).1 hother

/-- The passes that come before the token is returned: the second hands over to a new key, and the
third forgets the first one. -/
def forgotten : World :=
  (briefPass 4).run Keys.testCrates ((briefPass 2).run Keys.testCrates
    ((briefPass 1).run Keys.testCrates Keys.signedWorld))

/-- **A token can outlive its key before it is returned**: every step went well, and the key set
no longer has the key that signed it. -/
theorem returned_after_key_forgotten :
    ∃ s, 0 < brief.policy.retain ∧
      Interleaves Keys.testCrates brief Keys.ALGORITHM (.start 0 Keys.absent) s ∧
      s.phase = .returned firstHeader [firstArtifact] ∧
      ∃ jwks, Keys.publicKeys (fun _ => .done) s.ring = .ok jwks s.ring ∧
        ∀ jwk ∈ jwks, jwk.kid ≠ firstHeader.kid := by
  have hpasses : Interleaves Keys.testCrates brief Keys.ALGORITHM signedOnce
      { signedOnce with time := 4, ring := forgotten } :=
    ((Relation.ReflTransGen.single (moves_briefPass 1 (by decide) (by decide))).tail
      (moves_briefPass 2 (by simp) (by decide))).tail
        (moves_briefPass 4 (by simp) (by decide))
  have hruns := interleaves_signedOnce.trans
    (hpasses.tail ⟨.finish 4, le_rfl, by decide, rfl⟩)
  refine ⟨returnedOnce 4 forgotten, by decide, hruns, rfl, _, Keys.publicKeys_done _, ?_⟩
  have hgone : forgotten.entries.all (fun e => e.kid ≠ Keys.firstEntry.kid) = true := by
    decide +kernel
  intro jwk hjwk
  obtain ⟨e, he, rfl⟩ := List.mem_map.mp hjwk
  rw [Keys.Entry.toJwk_kid]
  exact of_decide_eq_true (List.all_eq_true.mp hgone e he)

end PicX.Realm
