import PicX.Core.Validate
import PicX.Keys.Schedule

/-!
# Copies of a key set (`pic-x-realm/src/routes.rs`)

A verifier keeps the key set it fetched for as long as the answer allows it. What it keeps is old,
and the ring goes on rotating. The configuration relates the two: a key waits at least as long
before it signs as a copy may be kept.

* `jwks` — what the endpoint of a key set answers, with the lifetime of a copy.
* `Managed.announced` — whoever signs now was in the key set `publish_ahead` ago, or signed then.
* `fresh_copies_verify` — a copy that may still be used has the key of every signature that may
  still have to be verified, whichever of the two is older.
-/

namespace PicX.Keys

open PicX Program

variable {c : Crates} {m : DirectoryKeyManager} {n j k : Nat} {f : Op → Outcome} {w w' : World}
  {run : Nat → Nat × World} {e : Entry} {t s : Nat}

/-! ## What the endpoint answers -/

/-- The cache directive of a key set. -/
def KEY_SET_MAX_AGE : String := "public, max-age=300"

/-- What the endpoint of a key set answers. -/
inductive KeySetResponse where
  | published (cacheControl : String) (keys : List Jwk)
  /-- The service is unavailable, and nothing may be kept. -/
  | unavailable
  deriving DecidableEq, Repr

/-- Serves a key set with the cache directive its lifecycle assumes. -/
def published (keys : List Jwk) : KeySetResponse := .published KEY_SET_MAX_AGE keys

/-- The endpoint of a key set, for a ring that is there or not. -/
def jwks (enabled : Bool) (f : Op → Outcome) (w : World) : KeySetResponse :=
  if enabled then
    match publicKeys f w with
    | .ok keys _ => published keys
    | .error _ _ | .crash _ => .unavailable
  else published []

/-- What a verifier reads in a cache directive: how many seconds a copy may be kept. -/
def maxAge (cacheControl : String) : Option Nat :=
  (split ',' cacheControl).findSome? fun directive =>
    (stripPrefix "max-age="
      (String.ofList (directive.toList.dropWhile (· = ' ')))).bind fun value =>
      parseDigits value.toList

/-- What a verifier holds. -/
structure Copy where
  keys : List Jwk
  fetchedAt : Nat
  lifetime : Nat

/-- A copy of an answer, unless there is nothing to keep. -/
def KeySetResponse.copy (t : Nat) : KeySetResponse → Option Copy
  | .published cacheControl keys =>
    (maxAge cacheControl).map fun lifetime => { keys, fetchedAt := t, lifetime }
  | .unavailable => none

/-- A copy may be used while its age has not reached its lifetime. -/
def Copy.Fresh (copy : Copy) (now : Nat) : Prop :=
  copy.fetchedAt ≤ now ∧ now < copy.fetchedAt + copy.lifetime

/-- The directive and the constant the configuration is checked against say the same. -/
theorem maxAge_keySet : maxAge KEY_SET_MAX_AGE = some PicX.Core.KEY_SET_MAX_AGE := by decide

theorem publicKeys_eq {keys : List Jwk} (h : publicKeys f w = .ok keys w') :
    keys = w.entries.map Entry.toJwk := by
  have hspec : WP publicKeys f (fun keys _ => keys = w.entries.map Entry.toJwk)
      (fun _ _ => True) (fun _ => True) w := by
    refine WP.bind (readRing_spec.mono (fun _ _ h => h) (fun _ _ _ => trivial)
      fun _ _ => trivial) ?_
    rintro ring w' ⟨rfl, rfl⟩
    rfl
  exact hspec.ok h

/-- A copy has what was on the ring when it was fetched. -/
theorem copy_of_jwks {copy : Copy} (h : (jwks true f w).copy t = some copy) :
    copy.keys = w.entries.map Entry.toJwk ∧ copy.fetchedAt = t ∧
      copy.lifetime = PicX.Core.KEY_SET_MAX_AGE := by
  unfold jwks at h
  rw [if_pos rfl] at h
  cases hread : publicKeys f w with
  | ok keys w' =>
    rw [hread] at h
    unfold published KeySetResponse.copy at h
    dsimp only at h
    rw [maxAge_keySet, Option.map_some, Option.some.injEq] at h
    subst h
    exact ⟨publicKeys_eq hread, rfl, rfl⟩
  | error e w' =>
    rw [hread] at h
    cases h
  | crash w' =>
    rw [hread] at h
    cases h

/-! ## Time along a run -/

/-- The moment is after the first `k` calls of the run, and not after the next. -/
structure During (run : Nat → Nat × World) (n k t : Nat) : Prop where
  le : k ≤ n
  after : (run k).1 ≤ t
  before : k < n → t ≤ (run (k + 1)).1

theorem Managed.time_le (hrun : Managed c m run n) (hjk : j ≤ k) (hk : k ≤ n) :
    (run j).1 ≤ (run k).1 := by
  induction k, hjk using Nat.le_induction with
  | base => exact le_rfl
  | succ k hjk ih =>
    obtain ⟨s, -, hle, -, hs⟩ := hrun.advances k hk
    refine (ih (by omega)).trans ?_
    rw [hs]
    exact hle

theorem Managed.runs (hrun : Managed c m run n) (hjk : j ≤ k) (hk : k ≤ n) :
    Runs c m.policy (run j) (run k) := by
  induction k, hjk using Nat.le_induction with
  | base => exact .refl
  | succ k hjk ih =>
    obtain ⟨s, rfl, hle, hmax, hs⟩ := hrun.advances k hk
    exact (ih (by omega)).tail ⟨s, rfl, hle, hmax, hs⟩

/-- From a moment between two calls on. -/
theorem Managed.runs_during (hrun : Managed c m run n) (hmoment : During run n j t) (hjk : j < k)
    (hk : k ≤ n) : Runs c m.policy (t, (run j).2) (run k) := by
  have hj : j < n := hjk.trans_le hk
  have hnext := hmoment.before hj
  obtain ⟨s, rfl, -, hmax, hs⟩ := hrun.advances j hj
  refine .head ⟨s, rfl, ?_, hmax, hs⟩ (hrun.runs hjk hk)
  rw [hs] at hnext
  exact hnext

theorem Managed.kept (hdistinct : Distinct c) (hrun : Managed c m run n) (hj : j ≤ n) :
    Kept c (run j).2 := by
  refine (hrun.runs (Nat.zero_le j) hj).kept hdistinct ⟨Sound.empty hrun.empty, ?_⟩
  intro e he
  rw [hrun.empty] at he
  cases he

/-! ## Announced keys -/

/-- **Whoever signs now was announced.** A key that signs was on the ring at every earlier moment
less than `publish_ahead` ago at which the ring had any key. -/
theorem Managed.announced (hdistinct : Distinct c) (hvalid : Valid m.policy)
    (hrun : Managed c m run n) (hne : (run k).2.entries ≠ []) (hmoment : During run n k t)
    (hkj : k ≤ j) (hj : j ≤ n) (hrecent : (run j).1 < t + m.policy.publishAhead)
    (hnow : (run j).1 < U64_MAX) : (run j).2.entries ≠ [] ∧
      ∀ e ∈ (run j).2.entries, e.state = .active → ∃ e' ∈ (run k).2.entries, e'.kid = e.kid := by
  induction j, hkj using Nat.le_induction with
  | base => exact ⟨hne, fun e he _ => ⟨e, he, rfl⟩⟩
  | succ j hkj ih =>
    have hle := hrun.time_le (show j ≤ j + 1 by omega) hj
    obtain ⟨hnej, hannounced⟩ := ih (by omega) (by omega) (by omega)
    have hfollows := hrun.follows hdistinct hvalid hj hnow hnej
    refine ⟨hfollows.nonempty, fun e he hactive => ?_⟩
    rcases hfollows.signs e he hactive with hold | ⟨e₀, he₀, hkid, hpublished, hwindow⟩
    · exact hannounced e hold hactive
    · -- It waited for its window, so it was made before the moment.
      obtain ⟨i, hij, htime, hpresent⟩ :=
        hrun.waited hdistinct (show j ≤ n by omega) e₀ he₀ hpublished
      have hmade := le_of_saturatingAdd_le hwindow hnow
      have hik : i ≤ k := by
        by_contra hlt
        have hlate := hrun.time_le (show k + 1 ≤ i by omega) (by omega)
        have hbefore := hmoment.before (by omega)
        omega
      exact ⟨e₀, hpresent k hik hkj, hkid⟩

/-! ## Copies verify -/

/-- A lifecycle the configuration accepts outside development. -/
theorem valid_of_checked {config : PicX.Core.Config} {who : String}
    (hcheck : config.checkKeyLifecycle m.policy.publishAhead m.policy.rotateEvery m.policy.retain
      who = .ok ()) (hproduction : config.developmentMode = false) :
    Valid m.policy ∧ PicX.Core.KEY_SET_MAX_AGE ≤ m.policy.publishAhead := by
  have hoverlaps := PicX.Core.checkKeyLifecycle_ok hcheck
  obtain ⟨_, -, h⟩ := bind_ok.mp hcheck
  obtain ⟨_, -, h⟩ := bind_ok.mp h
  have hage : PicX.Core.KEY_SET_MAX_AGE ≤ m.policy.publishAhead := by
    by_contra hlt
    exact PicX.Core.refuse_ok.mp h ⟨not_le.mp hlt, by simp [hproduction]⟩
  refine ⟨⟨lt_of_lt_of_le (by decide) hage, hoverlaps.turn, hoverlaps.kept⟩, hage⟩

/-- **Fresh copies verify.** A manager runs from an empty ring, with a lifecycle the configuration
accepts outside development, whatever fails in its calls. A verifier fetched the key set at one
moment, with a key on the ring, and a signature was made at another, before it or after it. As long
as the copy may be used and the signature has to be verified, the copy has the key of the
signature. -/
theorem fresh_copies_verify (hdistinct : Distinct c) {config : PicX.Core.Config} {who : String}
    (hcheck : config.checkKeyLifecycle m.policy.publishAhead m.policy.rotateEvery m.policy.retain
      who = .ok ()) (hproduction : config.developmentMode = false)
    (hrun : Managed c m run n) (hfetched : During run n k t) (hne : (run k).2.entries ≠ [])
    {copy : Copy} (hcopy : (jwks true f (run k).2).copy t = some copy) (hsigned : During run n j s)
    {payload : Bytes} {f' : Op → Outcome} {signature : Signature}
    (hsign : sign c m payload f' (run j).2 = .ok signature w') {now : Nat} (hafter : s ≤ now)
    (hfresh : copy.Fresh now)
    (hwindow : now < saturatingAdd s (max m.policy.retain m.policy.verifyRetain)) :
    ∃ jwk ∈ copy.keys, jwk.kid = signature.keyId := by
  obtain ⟨hvalid, hage⟩ := valid_of_checked hcheck hproduction
  obtain ⟨hkeys, htime, hlifetime⟩ := copy_of_jwks hcopy
  obtain ⟨hold, hyoung⟩ := hfresh
  obtain ⟨⟨e, he, hkid, hactive⟩, -⟩ := sign_spec.ok hsign
  suffices hring : ∃ e ∈ (run k).2.entries, e.kid = signature.keyId by
    obtain ⟨e, he, hkid⟩ := hring
    exact ⟨e.toJwk, hkeys ▸ List.mem_map_of_mem he, (Entry.toJwk_kid e).trans hkid⟩
  rcases Nat.lt_or_ge j k with hlt | hge
  · -- The signature is older: the ring keeps its key while it may have to be verified.
    have hserves : Serves signature.keyId s (run j).2.entries := ⟨e, he, hkid, Or.inl hactive⟩
    have hkept := hrun.kept hdistinct hsigned.le
    rw [max_comm] at hwindow
    have hlate : (run k).1 < saturatingAdd s m.policy.verifyRetained :=
      (hfetched.after.trans (htime ▸ hold)).trans_lt hwindow
    obtain ⟨e', he', hkid', -⟩ := ((hrun.runs_during hsigned hlt hfetched.le).serves hdistinct hkept
      le_rfl hserves).2 hlate
    exact ⟨e', he', hkid'⟩
  · -- The copy is older: it was fetched after the key was announced.
    have hbefore : now < U64_MAX := hwindow.trans_le (min_le_right _ _)
    have hsoon : (run j).1 ≤ now := hsigned.after.trans hafter
    obtain ⟨-, hannounced⟩ := hrun.announced hdistinct hvalid hne hfetched hge hsigned.le
      (by omega) (by omega)
    obtain ⟨e', he', hkid'⟩ := hannounced e he hactive
    exact ⟨e', he', hkid'.trans hkid⟩

/-- A manager that hands over every ten minutes. -/
def hasty : DirectoryKeyManager where
  directory := "keys"
  policy := { publishAhead := 300, rotateEvery := 600, retain := 3600, verifyRetain := 0 }
  algorithm := .ed25519

theorem hasty_first : (passesAt hasty [0, 300, 600] 1).2 = firstWorld := by
  rw [firstWorld_eq]
  rfl

theorem copy_done : (jwks true (fun _ => .done) w).copy t =
    some ⟨w.entries.map Entry.toJwk, t, PicX.Core.KEY_SET_MAX_AGE⟩ := by
  unfold jwks
  rw [if_pos rfl, publicKeys_done]
  unfold published KeySetResponse.copy
  dsimp only
  rw [maxAge_keySet]
  rfl

theorem hasty_signs : sign testCrates hasty [] (fun _ => .done) (passesAt hasty [0, 300, 600] 1).2 =
    .ok ⟨firstEntry.kid, ALGORITHM, testSignature⟩ signedWorld := by
  rw [hasty_first, ← firstKey_signature]
  refine sign_done (fun _ => rfl) ?_ (firstWorld_signer hasty)
  rw [firstWorld_eq]
  rfl

/-- A set fetched after the second key took over verifies what the first key signed. -/
theorem fresh_copies_verify_hasty :
    ∃ signature, sign testCrates hasty [] (fun _ => .done) (passesAt hasty [0, 300, 600] 1).2 =
        .ok signature signedWorld ∧
      ∃ jwk ∈ (passesAt hasty [0, 300, 600] 3).2.entries.map Entry.toJwk,
        jwk.kid = signature.keyId := by
  have hrun : Managed testCrates hasty (passesAt hasty [0, 300, 600]) 3 :=
    managed_passesAt (by decide)
  have hne : (passesAt hasty [0, 300, 600] 3).2.entries ≠ [] := by
    have hserves : Serves firstEntry.kid 0 (passesAt hasty [0, 300, 600] 1).2.entries := by
      rw [hasty_first, firstWorld_eq]
      exact ⟨firstEntry, List.mem_singleton_self _, rfl, Or.inl rfl⟩
    obtain ⟨e, he, -⟩ := ((hrun.runs (show 1 ≤ 3 by decide) le_rfl).serves testCrates_distinct
      (hrun.kept testCrates_distinct (show 1 ≤ 3 by decide)) (Nat.zero_le _) hserves).2 (by decide)
    exact List.ne_nil_of_mem he
  have hcheck : ({} : PicX.Core.Config).checkKeyLifecycle hasty.policy.publishAhead
      hasty.policy.rotateEvery hasty.policy.retain "the server" = .ok () := by decide
  refine ⟨_, hasty_signs, fresh_copies_verify testCrates_distinct hcheck rfl hrun
    (k := 3) (t := 700) ⟨by decide, by decide, by decide⟩ hne copy_done (j := 1) (s := 10)
    ⟨by decide, by decide, by decide⟩ hasty_signs (show 10 ≤ 800 by decide) ⟨by decide, by decide⟩
    (by decide)⟩

end PicX.Keys
