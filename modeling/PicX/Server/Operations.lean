import PicX.Audit.Seals
import PicX.Keys.Window
import PicX.Server.Provision

/-!
# A trail and the ring that seals it (`main.rs`)

The composition root gives a trail the operations ring to sign its seals with, and the ring a
`verify_retain` equal to the retention of the trail. The two then run side by side on one clock:
records, shutdowns and restarts on one side, passes of the lifecycle on the other. A seal is
dropped with the records it covers, by whole days and only when a call happens to expire them; a
public key is dropped by seconds, counted from the moment it stopped signing.

* `keyManagerFor`, `auditSinkFor`, `realmOperations` — what the composition root builds.
* `Step.run` — one call to the pair, with the outcome of every operation decided from outside.
* `seals_stay_checkable` — as long as no pass comes when the key of a seal that is still there is
  past its time, every signed seal names a key that is exported.
* `seal_outlives_its_key` — a seal of a day that is still kept, and whose key is gone.
-/

namespace PicX.Operations

open PicX PicX.Core Program Audit Keys

/-! ## What the composition root builds -/

/-- A ring and the trail it seals. The lifecycle is one that validation accepts. -/
structure Composed where
  keys : DirectoryKeyManager
  sink : FileAuditSink
  ed25519 : keys.algorithm = .ed25519
  retention : keys.policy.verifyRetain = sink.retention
  overlaps : Overlaps keys.policy.publishAhead keys.policy.rotateEvery keys.policy.retain

def BINARY_NAME : String := "pic-x"

/-- The key ring of the server. -/
def keyManagerFor (config : Config) : DirectoryKeyManager where
  directory := Server.keysDirectory config
  policy :=
    { publishAhead := config.keysPublishAhead
      rotateEvery := config.keysRotateEvery
      retain := config.keysRetain
      verifyRetain := config.auditRetention }
  algorithm := .ed25519

/-- The audit trail of the server, when it is kept in files. -/
def auditSinkFor (config : Config) : FileAuditSink where
  directory := Server.auditDirectory config
  serviceName := BINARY_NAME
  serviceVersion := config.version
  retention := config.auditRetention

/-- The server's ring and trail, for a configuration whose operations keys are enabled. -/
def serverOperations (config : Config) (henabled : config.keysEnabled = true)
    (hvalid : config.validateKeyLifecycle = .ok ()) : Composed where
  keys := keyManagerFor config
  sink := auditSinkFor config
  ed25519 := rfl
  retention := rfl
  overlaps := by
    unfold Config.validateKeyLifecycle at hvalid
    rw [if_neg (by simp [henabled])] at hvalid
    obtain ⟨_, _, hvalid⟩ := bind_ok.mp hvalid
    exact checkKeyLifecycle_ok hvalid

/-- A realm's own ring and trail. -/
def realmOperations (config : Config) (realm : RealmConfig) (husable : Usable realm)
    (henabled : realm.operationsKeysEnabled = true) : Composed where
  keys :=
    { directory := resolvePath config.workingDirectory s!"realms/{realm.name}/operations/keys"
      policy :=
        { publishAhead := realm.operationsKeysPublishAhead
          rotateEvery := realm.operationsKeysRotateEvery
          retain := realm.operationsKeysRetain
          verifyRetain := realm.auditRetention }
      algorithm := .ed25519 }
  sink :=
    { directory := resolvePath config.workingDirectory s!"realms/{realm.name}/operations/audit"
      serviceName := BINARY_NAME
      serviceVersion := config.version
      retention := realm.auditRetention }
  ed25519 := rfl
  retention := rfl
  overlaps := husable.operations henabled

/-! ## The pair at work -/

/-- What the ring and the sink act on. -/
@[ext]
structure World where
  ring : Keys.World
  trail : Audit.World

/-- What can be asked of the pair. -/
inductive Call where
  | maintain
  | prepare
  | record (event : AuditEvent) (policy : Option (String → String))
  | shutdown
  | restart

/-- One call: at which moment, and how each operation turns out. The key ring of the moment is
not looked at: it is the ring of the pair. -/
structure Step where
  moment : Moment
  call : Call
  keysOutcome : Keys.Op → Outcome
  trailOutcome : Audit.Op → Outcome

/-- The reading of the clock as the ring takes it, in seconds. -/
def Step.now (s : Step) : Nat := s.moment.now.val.toNat

/-- A new process: what was in memory is gone. -/
def World.restarted (w : World) : World where
  ring := { w.ring with signers := ∅ }
  trail := { w.trail with opened := none }

variable (ck : Keys.Crates) (ca : Audit.Crates) (o : Composed)

/-- What the ring answers when it is asked to sign. -/
def signature (ring : Keys.World) (f : Keys.Op → Outcome) (payload : Bytes) :
    Except String Signature :=
  match sign ck o.keys payload f ring with
  | .ok s _ => .ok s
  | .error e _ => .error e.display
  | .crash _ => .error "the process died"

/-- The moment, with the ring of the pair to sign. -/
def Step.composed (s : Step) (ring : Keys.World) : Moment :=
  { s.moment with sign := some (signature ck o ring s.keysOutcome) }

/-- The day that a call seals. -/
def sealing (s : Step) (trail : Audit.World) : Audit.Call → Option Open
  | .record _ _ => if current trail.opened s.moment.day then none else trail.opened
  | .shutdown => if s.trailOutcome .syncAll = .done then trail.opened else none
  | .prepare | .restart => none

/-- The ring after a call to the sink, which signs at most once, and whether the process is still
there. -/
def ringAfter (s : Step) (w : World) (call : Audit.Call) : Keys.World × Bool :=
  match sealing s w.trail call with
  | none => (w.ring, true)
  | some d =>
    let body := (sealOf ca s.moment d.day d.seq d.previous).body
    match sign ck o.keys (ca.sealBodyToVec body) s.keysOutcome w.ring with
    | .ok _ ring | .error _ ring => (ring, true)
    | .crash ring => (ring, false)

/-- A call to the sink. A process that dies while it signs has not touched the trail. -/
def World.ask (s : Step) (w : World) (call : Audit.Call) : World :=
  let (ring, alive) := ringAfter ck ca o s w call
  if alive then
    let asked : Audit.Step := ⟨o.sink, s.composed ck o w.ring, call, s.trailOutcome⟩
    match asked.action ca s.trailOutcome w.trail with
    | .ok _ trail | .error _ trail => ⟨ring, trail⟩
    | .crash trail => World.restarted ⟨ring, trail⟩
  else World.restarted ⟨ring, w.trail⟩

/-- The world after a call. -/
def Step.run (s : Step) (w : World) : World :=
  match s.call with
  | .maintain => match maintain ck o.keys s.now s.keysOutcome w.ring with
    | .ok _ ring | .error _ ring => ⟨ring, w.trail⟩
    | .crash ring => World.restarted ⟨ring, w.trail⟩
  | .prepare => w.ask ck ca o s .prepare
  | .record event policy => w.ask ck ca o s (.record event policy)
  | .shutdown => w.ask ck ca o s .shutdown
  | .restart => w.restarted

/-- The worlds reached by steps that all satisfy `ok`, with the last reading of a clock that never
goes back. -/
inductive Run (ok : World → Step → Prop) (start : World) : Int → World → Prop
  | start : Run ok start 0 start
  | step {t : Int} {w : World} (s : Step) : Run ok start t w → t ≤ s.moment.now.val → ok w s →
      Run ok start s.moment.now.val (s.run ck ca o w)

/-- Every signed seal in the directory of the trail names a key that the ring exports. -/
def Checkable (w : World) : Prop :=
  ∀ name s kid, SealFile ca w.trail.files name s → s.kid = some kid →
    ∃ jwks, publicKeys (fun _ => .done) w.ring = .ok jwks w.ring ∧ ∃ jwk ∈ jwks, jwk.kid = kid

/-- No key of a seal that is still there is past its time: the longer of the two retentions has not
run since it stopped signing. -/
def InTime (w : World) (s : Step) : Prop :=
  s.call = .maintain → ∀ name sl kid, SealFile ca w.trail.files name sl → sl.kid = some kid →
    ∀ e ∈ w.ring.entries, e.kid = kid → ∀ r, e.retiredAt = some r →
      s.now < saturatingAdd r (max o.keys.policy.retain o.keys.policy.verifyRetain)

variable {ck ca o} {w : World} {s : Step} {kid : String}

/-! ## What a call does to each side -/

theorem touched_restarted {ring : Keys.World} (h : Touched ck w.ring ring)
    (trail : Audit.World) :
    Touched ck w.ring (World.restarted ⟨ring, trail⟩).ring :=
  ⟨h.ring, h.drawn, h.pems⟩

theorem ringAfter_touched (call : Audit.Call) :
    Touched ck w.ring (ringAfter ck ca o s w call).1 := by
  unfold ringAfter
  cases sealing s w.trail call with
  | none => exact .refl ck w.ring
  | some d =>
    dsimp only
    generalize ca.sealBodyToVec (sealOf ca s.moment d.day d.seq d.previous).body = payload
    have hsign := @sign_spec ck o.keys s.keysOutcome w.ring payload
    unfold WP at hsign
    split at hsign
    · rename_i hend
      rw [hend]
      exact hsign.2
    · rename_i hend
      rw [hend]
      exact hsign
    · rename_i hend
      rw [hend]
      exact hsign.1

/-- A call to the sink leaves the entries of the ring as they are, and accounts for the files of the
trail. -/
theorem ask_spec (call : Audit.Call) :
    Touched ck w.ring (w.ask ck ca o s call).ring ∧
      Carried ca (s.composed ck o w.ring) w.trail (w.ask ck ca o s call).trail := by
  have hring : Touched ck w.ring (ringAfter ck ca o s w call).1 := ringAfter_touched call
  have hkeeps : Keeps (Audit.Step.action ca ⟨o.sink, s.composed ck o w.ring, call, s.trailOutcome⟩)
      (Carried ca (s.composed ck o w.ring) w.trail) := action_carried _
  have htrail := hkeeps s.trailOutcome w.trail (.refl ca _ w.trail)
  unfold WP at htrail
  unfold World.ask
  dsimp only
  split_ifs
  · split at htrail
    · rename_i hend
      rw [hend]
      exact ⟨hring, htrail⟩
    · rename_i hend
      rw [hend]
      exact ⟨hring, htrail⟩
    · rename_i hend
      rw [hend]
      exact ⟨touched_restarted hring _, htrail⟩
  · exact ⟨touched_restarted hring _, .refl ca _ w.trail⟩

/-- A seal made with the ring names a key that signs. -/
theorem sealOf_kid {day : Int} {records : Nat} {head : String}
    (h : (sealOf ca (s.composed ck o w.ring) day records head).kid = some kid) :
    ∃ e ∈ w.ring.entries, e.kid = kid ∧ e.state = .active := by
  unfold sealOf Step.composed at h
  obtain ⟨sig, hsig, rfl⟩ := Option.map_eq_some_iff.mp h
  simp only [Option.bind_some] at hsig
  have hsigned := toOption_eq_some.mp hsig
  unfold signature at hsigned
  generalize hpayload : ca.sealBodyToVec _ = payload at hsigned
  cases hend : sign ck o.keys payload s.keysOutcome w.ring with
  | ok sig' ring =>
    rw [hend] at hsigned
    obtain rfl := Except.ok.inj hsigned
    exact (sign_spec.ok hend).1
  | error e ring =>
    rw [hend] at hsigned
    cases hsigned
  | crash ring =>
    rw [hend] at hsigned
    cases hsigned

/-! ## Passes -/

theorem now_lt (s : Step) : s.now < U64_MAX := by
  have h := s.moment.now.property
  have hmax : U64_MAX = 2 ^ 64 - 1 := rfl
  unfold Step.now
  omega

/-- A key that stops signing now is kept for a while. -/
theorem now_lt_retained (o : Composed) (s : Step) :
    s.now < saturatingAdd s.now o.keys.policy.verifyRetained := by
  have hlt := now_lt s
  have hturn := o.overlaps.turn
  have hkept := o.overlaps.kept
  unfold saturatingAdd KeyPolicy.verifyRetained
  omega

/-! ## Runs -/

/-- Every signed seal names a key on the ring that has signed. -/
structure Attested (ck : Keys.Crates) (ca : Audit.Crates) (w : World) : Prop where
  sound : Sound ck (w.ring.drawn, w.ring.entries)
  kids : ∀ name sl kid, SealFile ca w.trail.files name sl → sl.kid = some kid →
    Serves kid 0 w.ring.entries

theorem Attested.restarted (h : Attested ck ca w) : Attested ck ca w.restarted :=
  ⟨h.sound, h.kids⟩

theorem Attested.pass (hdistinct : Distinct ck) (h : Attested ck ca w)
    (hcall : s.call = .maintain) (htime : InTime ca o w s) : Attested ck ca (s.run ck ca o w) := by
  have hsound : WP (maintain ck o.keys s.now) s.keysOutcome _ _ _ w.ring :=
    maintain_sound hdistinct h.sound
  have hkids : ∀ name sl kid, SealFile ca w.trail.files name sl → sl.kid = some kid →
      Serves kid 0 (maintain ck o.keys s.now s.keysOutcome w.ring).world.entries := by
    intro name sl kid hfile hkid
    refine (maintain_serves hdistinct h.sound (now_lt_retained o s) (h.kids name sl kid hfile hkid)
      ?_).world
    intro e he heq r hr
    have := htime hcall name sl kid hfile hkid e he heq r hr
    rwa [max_comm] at this
  unfold Step.run
  rw [hcall]
  dsimp only
  unfold WP at hsound
  generalize maintain ck o.keys s.now s.keysOutcome w.ring = ending at hsound hkids ⊢
  cases ending with
  | ok _ ring => exact ⟨hsound.1, hkids⟩
  | error _ ring => exact ⟨hsound, hkids⟩
  | crash ring => exact ⟨hsound, hkids⟩

theorem Attested.ask (hwhole : SealsWhole ca) (h : Attested ck ca w) (call : Audit.Call) :
    Attested ck ca (w.ask ck ca o s call) := by
  have htouched : Touched ck w.ring (w.ask ck ca o s call).ring := (ask_spec call).1
  have hcarried : Carried ca (s.composed ck o w.ring) w.trail (w.ask ck ca o s call).trail :=
    (ask_spec call).2
  refine ⟨h.sound.touched htouched, fun name sl kid hfile hkid => ?_⟩
  rw [htouched.entries]
  rcases hfile.carried hwhole hcarried with hold | ⟨day, records, head, rfl⟩
  · exact h.kids name sl kid hold hkid
  · obtain ⟨e, he, hname, hactive⟩ := sealOf_kid hkid
    exact ⟨e, he, hname, Or.inl hactive⟩

theorem Attested.step (hdistinct : Distinct ck) (hwhole : SealsWhole ca) (h : Attested ck ca w)
    (htime : InTime ca o w s) : Attested ck ca (s.run ck ca o w) := by
  cases hcall : s.call with
  | maintain => exact h.pass hdistinct hcall htime
  | restart =>
    unfold Step.run
    rw [hcall]
    exact h.restarted
  | prepare =>
    unfold Step.run
    rw [hcall]
    exact h.ask hwhole _
  | record event policy =>
    unfold Step.run
    rw [hcall]
    exact h.ask hwhole _
  | shutdown =>
    unfold Step.run
    rw [hcall]
    exact h.ask hwhole _

theorem Attested.checkable (h : Attested ck ca w) : Checkable ca w := by
  intro name sl kid hfile hkid
  obtain ⟨e, he, hname, -⟩ := h.kids name sl kid hfile hkid
  refine ⟨_, publicKeys_done w.ring, e.toJwk, List.mem_map_of_mem he, ?_⟩
  rw [Entry.toJwk_kid, hname]

/-- **Seals stay checkable.** From an empty ring and an empty trail, along every run in which no
pass comes when the key of a seal that is still there is past its time, every signed seal names a
key that is exported. -/
theorem seals_stay_checkable (hdistinct : Distinct ck) (hwhole : SealsWhole ca) {start : World}
    (hring : start.ring.ring = none) (htrail : start.trail.files = ∅) {t : Int}
    (hrun : Run ck ca o (InTime ca o) start t w) : Checkable ca w := by
  suffices h : Attested ck ca w from h.checkable
  induction hrun with
  | start =>
    refine ⟨(Kept.absent hring).1, fun name sl kid hfile => ?_⟩
    obtain ⟨content, text, hlookup, -⟩ := sealIn_eq_some hfile.2
    simp [htrail] at hlookup
  | step s _ _ htime ih => exact ih.step hdistinct hwhole htime

/-! ### A key that is gone before its seal -/

/-- A call to the sink that comes to its end. -/
theorem ask_done {call : Audit.Call} {ring : Keys.World} {trail : Audit.World}
    (hring : ringAfter ck ca o s w call = (ring, true))
    (htrail : (⟨o.sink, s.composed ck o w.ring, call, s.trailOutcome⟩ : Audit.Step).action ca
      s.trailOutcome w.trail = .ok () trail) : w.ask ck ca o s call = ⟨ring, trail⟩ := by
  unfold World.ask
  rw [hring]
  dsimp only
  rw [if_pos rfl, htrail]

theorem run_maintain_ring (hcall : s.call = .maintain) :
    (s.run ck ca o w).ring = afterwards (maintain ck o.keys s.now s.keysOutcome w.ring) := by
  unfold Step.run
  rw [hcall]
  dsimp only
  cases maintain ck o.keys s.now s.keysOutcome w.ring <;> rfl

theorem run_maintain_trail (hcall : s.call = .maintain) (hopened : w.trail.opened = none) :
    (s.run ck ca o w).trail = w.trail := by
  unfold Step.run
  rw [hcall]
  dsimp only
  cases maintain ck o.keys s.now s.keysOutcome w.ring with
  | ok _ ring => rfl
  | error _ ring => rfl
  | crash ring =>
    unfold World.restarted
    rw [← hopened]

theorem run_maintain_files (hcall : s.call = .maintain) :
    (s.run ck ca o w).trail.files = w.trail.files := by
  unfold Step.run
  rw [hcall]
  dsimp only
  cases maintain ck o.keys s.now s.keysOutcome w.ring <;> rfl

/-- The shortest lifecycle that validation accepts, and a trail that keeps one day. -/
def shortLived : Composed where
  keys :=
    { directory := "keys"
      policy := { publishAhead := 300, rotateEvery := 301, retain := 301, verifyRetain := 86400 }
      algorithm := .ed25519 }
  sink := oneDay
  ed25519 := rfl
  retention := rfl
  overlaps := ⟨by decide, by decide⟩

/-- A call with every operation done. -/
def callAt (now : Reading) (call : Call) : Step where
  moment := at_ now
  call := call
  keysOutcome := fun _ => .done
  trailOutcome := fun _ => .done

/-- What a server records first. -/
def serverStart : AuditEvent := AuditEvent.new "server.start" (.system "default")

theorem epoch_read : (0 : Int) ≤ 0 ∧ (0 : Int) < 2 ^ 63 := by decide

def epoch : Reading := ⟨0, epoch_read⟩

theorem firstPass : afterwards (maintain testCrates shortLived.keys 0 (fun _ => .done) absent) =
    firstWorld := by
  rw [firstWorld_eq]
  rfl

/-- The readings at which the first key gets a successor, hands over, is archived and is
forgotten. -/
def forgetting : List Reading :=
  [⟨1, by decide⟩, ⟨301, by decide⟩, ⟨86701, by decide⟩, ⟨86702, by decide⟩]

/-- The ring after these passes. -/
def forgotten : Keys.World :=
  forgetting.foldl (fun ring now =>
    afterwards (maintain testCrates shortLived.keys now.val.toNat (fun _ => .done) ring))
      signedWorld

theorem forgotten_entries : forgotten.entries.all (fun e => e.kid ≠ firstEntry.kid) = true := by
  decide +kernel

theorem firstWorld_sign (payload : Bytes) :
    sign testCrates shortLived.keys payload (fun _ => .done) firstWorld =
      .ok ⟨firstEntry.kid, ALGORITHM, testCrates.signEd25519 firstKey.document payload⟩
        signedWorld := by
  refine sign_done (fun _ => rfl) ?_ (firstWorld_signer _)
  rw [firstWorld_eq]
  rfl

/-- The first record is written without a seal. -/
theorem record_run (hc : ca.Lawful) (ring : Keys.World) (now : Reading) : ∃ trail r,
    (callAt now (.record serverStart none)).run ck ca shortLived ⟨ring, emptyTrail⟩ =
        ⟨ring, trail⟩ ∧
      Intact ca (at_ now).day trail [((at_ now).day, [r])] ∧
      current trail.opened (at_ now).day := by
  generalize hs : callAt now (.record serverStart none) = s
  have hcall : s.call = .record serverStart none := by rw [← hs]; rfl
  have hring : ringAfter ck ca shortLived s ⟨ring, emptyTrail⟩ (.record serverStart none) =
      (ring, true) := by
    have hsealing : sealing s emptyTrail (.record serverStart none) = none := by
      unfold sealing
      split_ifs <;> rfl
    unfold ringAfter
    rw [hsealing]
  have hday : (s.composed ck shortLived ring).day = (at_ now).day := by rw [← hs]; rfl
  have hdone : ∀ op, s.trailOutcome op = .done := by rw [← hs]; exact fun _ => rfl
  generalize hm : s.composed ck shortLived ring = m at hday
  have hfresh : WP (record ca oneDay m serverStart none) s.trailOutcome _ _ _ emptyTrail :=
    record_fresh hc rfl rfl hdone
  obtain ⟨_, trail, hend, hrecorded⟩ := hfresh.exists_ok
  rw [hday] at hrecorded
  obtain ⟨r, hintact, hcurrent⟩ := hrecorded
  refine ⟨trail, r, ?_, hintact, hcurrent⟩
  unfold Step.run
  rw [hcall]
  refine ask_done hring ?_
  rw [hm]
  exact hend

/-- The shutdown after it leaves a seal, with the key the ring signed it with. -/
theorem shutdown_run (hc : ca.Lawful) {ring ring' : Keys.World} {trail : Audit.World} {r : Record}
    {algorithm : String} {bytes : Bytes → Bytes} (now : Reading)
    (hsign : ∀ payload, sign ck shortLived.keys payload (fun _ => .done) ring =
      .ok ⟨kid, algorithm, bytes payload⟩ ring')
    (hintact : Intact ca (at_ now).day trail [((at_ now).day, [r])])
    (hcurrent : current trail.opened (at_ now).day) : ∃ trail' name sl,
      (callAt now .shutdown).run ck ca shortLived ⟨ring, trail⟩ = ⟨ring', trail'⟩ ∧
      SealFile ca trail'.files name sl ∧ sl.kid = some kid := by
  obtain ⟨d, hopened, hday⟩ := current_eq_true.mp hcurrent
  have hreadable : Readable d.day := by
    rw [hday]
    exact (at_ now).readable_day
  have hfile := hintact.holds.content ((at_ now).day, [r]) (by simp)
  rw [← World.lookup_eq] at hfile
  have hfree : trail.lookup (sealName d.day) ≠ some .directory := by
    intro hdir
    obtain ⟨-, sl, hnode, -⟩ := hintact.seals d.day hreadable _ hdir
    cases hnode
  generalize hs : callAt now .shutdown = s
  have hcall : s.call = .shutdown := by rw [← hs]; rfl
  have hkeys : s.keysOutcome = fun _ => .done := by rw [← hs]; rfl
  have hdone : ∀ op, s.trailOutcome op = .done := by rw [← hs]; exact fun _ => rfl
  have hring : ringAfter ck ca shortLived s ⟨ring, trail⟩ .shutdown = (ring', true) := by
    have hsealing : sealing s trail .shutdown = some d := by
      unfold sealing
      rw [if_pos (hdone _), hopened]
    unfold ringAfter
    rw [hsealing]
    dsimp only
    rw [hkeys, hsign]
  have hkid : ∀ day records head,
      (sealOf ca (s.composed ck shortLived ring) day records head).kid = some kid := by
    intro day records head
    have hsignature : ∀ payload, signature ck shortLived ring (fun _ => .done) payload =
        .ok ⟨kid, algorithm, bytes payload⟩ := by
      intro payload
      unfold signature
      rw [hsign]
    unfold sealOf Step.composed
    dsimp only
    rw [hkeys, Option.bind_some, hsignature]
    rfl
  generalize hm : s.composed ck shortLived ring = m at hkid
  have hseals : WP (shutdown ca oneDay m) s.trailOutcome _ _ _ trail :=
    shutdown_seals hdone hopened (World.isSome_of_lookup hfile) hfree
  obtain ⟨_, trail', hend, hseal⟩ := hseals.exists_ok
  refine ⟨trail', sealName d.day, _, ?_, sealFile_of_lookup hc hreadable hseal, hkid _ _ _⟩
  unfold Step.run
  rw [hcall]
  refine ask_done hring ?_
  rw [hm]
  exact hend

/-- The first key seals the first day. -/
theorem sealed_first (hc : ca.Lawful) {ok : World → Step → Prop}
    (hok : ∀ w s, s.call ≠ .maintain → ok w s)
    (hfirst : ok ⟨absent, emptyTrail⟩ (callAt epoch .maintain)) : ∃ trail name sl,
      Run testCrates ca shortLived ok ⟨absent, emptyTrail⟩ 0 ⟨signedWorld, trail⟩ ∧
        SealFile ca trail.files name sl ∧ sl.kid = some firstEntry.kid := by
  have hpass : (callAt epoch .maintain).run testCrates ca shortLived ⟨absent, emptyTrail⟩ =
      ⟨firstWorld, emptyTrail⟩ :=
    World.ext ((run_maintain_ring rfl).trans firstPass) (run_maintain_trail rfl rfl)
  obtain ⟨trail₁, r, hrecord, hintact, hcurrent⟩ := @record_run testCrates ca hc firstWorld epoch
  obtain ⟨trail₂, name, sl, hshutdown, hfile, hkid⟩ :=
    shutdown_run hc epoch firstWorld_sign hintact hcurrent
  refine ⟨trail₂, name, sl, ?_, hfile, hkid⟩
  have h₀ : Run testCrates ca shortLived ok ⟨absent, emptyTrail⟩ 0 ⟨absent, emptyTrail⟩ := .start
  have h₁ := h₀.step (callAt epoch .maintain) le_rfl hfirst
  rw [hpass] at h₁
  have h₂ :=
    Run.step (callAt epoch (.record serverStart none)) h₁ le_rfl (hok _ _ (by simp [callAt]))
  rw [hrecord] at h₂
  have h₃ := Run.step (callAt epoch .shutdown) h₂ le_rfl (hok _ _ (by simp [callAt]))
  rwa [hshutdown] at h₃

/-- The key signs on while its seal is there: the pass after it finds nothing past its time. -/
theorem seals_stay_checkable_sealed : ∃ w name sl,
    SealFile (serde firstSha) w.trail.files name sl ∧ sl.kid = some firstEntry.kid ∧
      Checkable (serde firstSha) w := by
  have hempty : ∀ name sl, ¬SealFile (serde firstSha) emptyTrail.files name sl := by
    intro name sl hfile
    obtain ⟨content, text, hlookup, -⟩ := sealIn_eq_some hfile.2
    simp [emptyTrail, World.files] at hlookup
  have hfirst : InTime (serde firstSha) shortLived ⟨absent, emptyTrail⟩ (callAt epoch .maintain) :=
    fun _ name sl kid hfile => absurd hfile (hempty name sl)
  obtain ⟨trail, name, sl, hrun, hfile, hkid⟩ :=
    sealed_first (serde_lawful firstSha) (fun w s hcall h => absurd h hcall) hfirst
  refine ⟨_, name, sl, ?_, hkid, seals_stay_checkable testCrates_distinct
    (serde_sealsWhole firstSha) rfl rfl
      (hrun.step (callAt ⟨1, by decide⟩ .maintain) (by decide) ?_)⟩
  · rw [run_maintain_files rfl]
    exact hfile
  · intro _ name sl kid _ _ e he _ r hr
    obtain rfl : e = firstEntry := by simpa [signedWorld, firstWorld_eq, World.entries] using he
    cases hr

/-- Passes one after the other, with every operation done. -/
theorem run_passes {ok : World → Step → Prop} (hok : ∀ w s, ok w s) {start : World}
    (times : List Reading) {t : Int} {w : World} (h : Run ck ca o ok start t w)
    (hsorted : (t :: times.map fun now => now.val).Pairwise (· ≤ ·)) :
    ∃ t' w', Run ck ca o ok start t' w' ∧
      w'.ring = times.foldl (fun ring now =>
        afterwards (maintain ck o.keys now.val.toNat (fun _ => .done) ring)) w.ring ∧
      w'.trail.files = w.trail.files := by
  induction times generalizing t w with
  | nil => exact ⟨t, w, h, rfl, rfl⟩
  | cons now times ih =>
    rw [List.map_cons, List.pairwise_cons] at hsorted
    obtain ⟨t', w', hrun, hring, hfiles⟩ := ih (h.step (callAt now .maintain)
      (hsorted.1 now.val List.mem_cons_self) (hok _ _)) hsorted.2
    refine ⟨t', w', hrun, ?_, hfiles.trans (run_maintain_files rfl)⟩
    rw [hring, run_maintain_ring rfl, List.foldl_cons]
    rfl

/-- A trail that keeps one day, sealed on the first day and idle since. A day and a few minutes
later the seal is there, its day still kept, and the key it names is not exported any more. -/
theorem seal_outlives_its_key : ∃ t w,
    Run testCrates (serde firstSha) shortLived (fun _ _ => True) ⟨absent, emptyTrail⟩ t w ∧
      ¬Checkable (serde firstSha) w := by
  have hany : ∀ w s, s.call ≠ .maintain → (fun (_ : World) (_ : Step) => True) w s :=
    fun _ _ _ => trivial
  obtain ⟨trail, name, sl, hrun, hfile, hkid⟩ := sealed_first (serde_lawful firstSha) hany trivial
  obtain ⟨t, w, hrun', hring, hfiles⟩ := run_passes (fun _ _ => trivial) forgetting hrun (by decide)
  refine ⟨t, w, hrun', fun hcheckable => ?_⟩
  rw [← hfiles] at hfile
  obtain ⟨jwks, hjwks, jwk, hjwk, heq⟩ := hcheckable name sl firstEntry.kid hfile hkid
  rw [publicKeys_done] at hjwks
  obtain ⟨rfl, -⟩ := Ending.ok.inj hjwks
  obtain ⟨e, he, rfl⟩ := List.mem_map.mp hjwk
  have hgone : ∀ e ∈ w.ring.entries, e.kid ≠ firstEntry.kid := by
    rw [show w.ring = forgotten from hring]
    simpa using forgotten_entries
  rw [Entry.toJwk_kid] at heq
  exact hgone e he heq

end PicX.Operations
