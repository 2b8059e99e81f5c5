import Mathlib.Data.String.Basic
import PicX.Keys.Upkeep
import PicX.Server.Operations
import PicX.Server.Tokens

/-!
# The rings of a deployment (`main.rs`)

The composition root builds the rings that the key service keeps up: the server's own, and those of
each realm, below its own directory of the volume.

* `contextOf` — what the key service is started with.
* `directories_apart` — the rings of an accepted configuration are kept apart exactly when the
  server's is not where one of a realm's is.
* `deploymentOf` — what the key service keeps up then.
-/

namespace PicX.Rings

open PicX PicX.Core
open PicX.Keys (DirectoryKeyManager)
open PicX.Keys.Upkeep (Context Ring)

/-! ## What the composition root builds -/

/-- Where the ring is kept that seals a realm's trail. -/
def realmKeysDirectory (config : Config) (realm : String) : String :=
  resolvePath config.workingDirectory s!"realms/{realm}/operations/keys"

/-- Where the ring is kept that signs a realm's tokens. -/
def realmTokenKeysDirectory (config : Config) (realm : String) : String :=
  resolvePath config.workingDirectory s!"realms/{realm}/keys"

/-- The ring of a realm that seals its trail. -/
def operationsKeysFor (config : Config) (realm : RealmConfig) : Option DirectoryKeyManager :=
  if realm.operationsKeysEnabled = true then
    some
      { directory := realmKeysDirectory config realm.name
        policy :=
          { publishAhead := realm.operationsKeysPublishAhead
            rotateEvery := realm.operationsKeysRotateEvery
            retain := realm.operationsKeysRetain
            verifyRetain := realm.auditRetention }
        algorithm := .ed25519 }
  else none

/-- The ring of a realm that signs its tokens, with what the realm was configured for. -/
def tokenKeysFor (config : Config) (realm : RealmConfig) :
    Result (Option DirectoryKeyManager) :=
  if realm.tokenKeysEnabled = true then
    match Tokens.parseAlgorithm realm.tokenSigningAlgorithm with
    | .ok algorithm => .ok <| some
        { directory := realmTokenKeysDirectory config realm.name
          policy :=
            { publishAhead := realm.tokenKeysPublishAhead
              rotateEvery := realm.tokenKeysRotateEvery
              retain := realm.tokenKeysRetain
              verifyRetain := realm.tokenKeysRetain }
          algorithm }
    | .error error => bail s!"the realm `{realm.name}` cannot sign: {error}"
  else .ok none

/-- `buildRealm` as far as the rings go: the name and the two rings. -/
def buildRings (config : Config) (realm : RealmConfig) : Result Keys.Upkeep.Realm :=
  withContext s!"assembling the realm `{realm.name}`" do
    let tokenKeys ← tokenKeysFor config realm
    pure { name := realm.name, operationsKeys := operationsKeysFor config realm, tokenKeys }

/-- What the key service is started with. The registry has the realms in the order of their
names. -/
def contextOf (config : Config) : Result Context := do
  let realms ← config.realms.mapM (buildRings config)
  pure
    { keys := if config.keysEnabled = true then some (Operations.keyManagerFor config) else none
      realms := realms.insertionSort fun a b => a.name ≤ b.name }

/-- The ring that is kept up is the one that seals the trail. -/
theorem operationsKeysFor_eq {config : Config} {realm : RealmConfig} (husable : Usable realm)
    (henabled : realm.operationsKeysEnabled = true) : operationsKeysFor config realm =
      some (Operations.realmOperations config realm husable henabled).keys := by
  unfold operationsKeysFor
  rw [if_pos henabled]
  rfl

/-- The ring that is kept up is the one that signs the tokens. -/
theorem tokenKeysFor_eq {config : Config} {realm : RealmConfig} (husable : Usable realm)
    (henabled : realm.tokenKeysEnabled = true) {algorithm : Keys.RingAlgorithm}
    (halgorithm : Tokens.parseAlgorithm realm.tokenSigningAlgorithm = .ok algorithm) :
    tokenKeysFor config realm =
      .ok (some (Tokens.realmIssuer config realm husable henabled halgorithm).keys) := by
  unfold tokenKeysFor
  rw [if_pos henabled, halgorithm]
  rfl

/-! ## Directories -/

variable {config : Config} {context : Context} {name name' rest rest' : String}

/-- A directory puts the same before every name in it. -/
theorem join_append (directory : String) :
    ∃ front, ∀ name, join directory name = front ++ name := by
  by_cases hnone : directory.toList.getLast? = none
  · refine ⟨"", fun name => ?_⟩
    unfold join
    rw [hnone, String.empty_append]
  · by_cases hslash : directory.toList.getLast? = some '/'
    · refine ⟨directory, fun name => ?_⟩
      unfold join
      rw [hslash]
      rfl
    · refine ⟨directory ++ "/", fun name => ?_⟩
      unfold join
      split
      · next heq => exact absurd heq hnone
      · next heq => exact absurd heq hslash
      · rfl

/-- Paths inside the volume lead to different places of it. -/
theorem resolvePath_inj {directory : String} (hname : name.toList.head? ≠ some '/')
    (hname' : name'.toList.head? ≠ some '/')
    (h : resolvePath directory name = resolvePath directory name') : name = name' := by
  unfold resolvePath at h
  rw [if_neg hname, if_neg hname'] at h
  obtain ⟨front, hfront⟩ := join_append directory
  rw [hfront, hfront] at h
  exact (String.append_right_inj front).mp h

theorem head_realmPath : ("realms/" ++ rest).toList.head? ≠ some '/' := by
  rw [String.toList_append]
  simp

/-- The name of a realm has no slash. -/
theorem slash_notMem (h : isRealmName name = true) : '/' ∉ name.toList := by
  intro hslash
  have hchar := isRealmName_chars h '/' hslash
  revert hchar
  decide

/-- The place of something of a realm tells which realm it is, and what of it. -/
theorem realmPlace_inj {directory : String} (hname : isRealmName name = true)
    (hname' : isRealmName name' = true)
    (h : resolvePath directory ("realms/" ++ (name ++ "/" ++ rest)) =
      resolvePath directory ("realms/" ++ (name' ++ "/" ++ rest'))) :
    name = name' ∧ rest = rest' := by
  have hpath := (String.append_right_inj _).mp (resolvePath_inj head_realmPath head_realmPath h)
  have hsplit := congrArg (splitOnce '/') hpath
  rw [splitOnce_append (slash_notMem hname) rest rfl,
    splitOnce_append (slash_notMem hname') rest' rfl] at hsplit
  exact Prod.mk.inj (Option.some.inj hsplit)

theorem realmKeysDirectory_eq : realmKeysDirectory config name =
    resolvePath config.workingDirectory ("realms/" ++ (name ++ "/" ++ "operations/keys")) := by
  unfold realmKeysDirectory
  congr 1
  apply String.toList_injective
  simp [toString]

theorem realmTokenKeysDirectory_eq : realmTokenKeysDirectory config name =
    resolvePath config.workingDirectory ("realms/" ++ (name ++ "/" ++ "keys")) := by
  unfold realmTokenKeysDirectory
  congr 1
  apply String.toList_injective
  simp [toString]

section Places

variable (hname : isRealmName name = true) (hname' : isRealmName name' = true)

include hname hname'

theorem realmKeysDirectory_inj
    (h : realmKeysDirectory config name = realmKeysDirectory config name') : name = name' := by
  rw [realmKeysDirectory_eq, realmKeysDirectory_eq] at h
  exact (realmPlace_inj hname hname' h).1

theorem realmTokenKeysDirectory_inj
    (h : realmTokenKeysDirectory config name = realmTokenKeysDirectory config name') :
    name = name' := by
  rw [realmTokenKeysDirectory_eq, realmTokenKeysDirectory_eq] at h
  exact (realmPlace_inj hname hname' h).1

theorem realmKeysDirectory_ne :
    realmKeysDirectory config name ≠ realmTokenKeysDirectory config name' := by
  intro h
  rw [realmKeysDirectory_eq, realmTokenKeysDirectory_eq] at h
  exact absurd (realmPlace_inj hname hname' h).2 (by decide)

end Places

/-- The directories of the rings of a realm, the one for its trail first. -/
def realmDirectories (config : Config) (realm : RealmConfig) : List String :=
  (if realm.operationsKeysEnabled = true then [realmKeysDirectory config realm.name] else []) ++
    (if realm.tokenKeysEnabled = true then [realmTokenKeysDirectory config realm.name] else [])

def ownDirectories (config : Config) : List String :=
  if config.keysEnabled = true then [Server.keysDirectory config] else []

/-- The server's ring is not kept where one of a realm's is. -/
def OwnPlace (config : Config) : Prop :=
  ∀ directory ∈ ownDirectories config, ∀ realm ∈ config.realms,
    directory ∉ realmDirectories config realm

theorem mem_realmDirectories {realm : RealmConfig} {directory : String}
    (h : directory ∈ realmDirectories config realm) :
    directory = realmKeysDirectory config realm.name ∨
      directory = realmTokenKeysDirectory config realm.name := by
  unfold realmDirectories at h
  rcases List.mem_append.mp h with hmem | hmem
  · split_ifs at hmem
    · exact Or.inl (List.mem_singleton.mp hmem)
    · cases hmem
  · split_ifs at hmem
    · exact Or.inr (List.mem_singleton.mp hmem)
    · cases hmem

/-- Where it is kept unless the configuration says otherwise, no realm's ring is. -/
theorem ownPlace_default (h : config.keysDirectory = none) : OwnPlace config := by
  have hpath : ∀ rest, Server.keysDirectory config ≠
      resolvePath config.workingDirectory ("realms/" ++ rest) := by
    intro rest heq
    unfold Server.keysDirectory at heq
    rw [h, Option.getD_none] at heq
    have hsame := congrArg (fun s => s.toList.head?)
      (resolvePath_inj (by decide) head_realmPath heq)
    rw [String.toList_append] at hsame
    simp [Server.DEFAULT_KEYS_SUBDIRECTORY] at hsame
  intro directory hown realm _ hmem
  unfold ownDirectories at hown
  split_ifs at hown
  · obtain rfl := List.mem_singleton.mp hown
    rcases mem_realmDirectories hmem with hplace | hplace
    · exact hpath _ (hplace.trans realmKeysDirectory_eq)
    · exact hpath _ (hplace.trans realmTokenKeysDirectory_eq)
  · cases hown

theorem realmDirectories_nodup {realm : RealmConfig} (hname : isRealmName realm.name = true) :
    (realmDirectories config realm).Nodup := by
  unfold realmDirectories
  split_ifs <;> simp [realmKeysDirectory_ne hname hname]

/-- Two realms keep nothing in one directory: it tells the name. -/
theorem realmDirectories_disjoint {realm realm' : RealmConfig}
    (hname : isRealmName realm.name = true) (hname' : isRealmName realm'.name = true)
    (hne : realm.name ≠ realm'.name) :
    (realmDirectories config realm).Disjoint (realmDirectories config realm') := by
  intro directory hmem hmem'
  rcases mem_realmDirectories hmem with hplace | hplace <;>
    rcases mem_realmDirectories hmem' with hplace' | hplace' <;>
    have hsame := hplace.symm.trans hplace'
  · exact hne (realmKeysDirectory_inj hname hname' hsame)
  · exact realmKeysDirectory_ne hname hname' hsame
  · exact realmKeysDirectory_ne hname' hname hsame.symm
  · exact hne (realmTokenKeysDirectory_inj hname hname' hsame)

/-! ## The rings of an accepted configuration -/

/-- A realm has the name and the rings that it was configured for. -/
theorem buildRings_ok {realm : RealmConfig} {built : Keys.Upkeep.Realm}
    (h : buildRings config realm = .ok built) : built.name = realm.name ∧
      built.rings.map Ring.directory = realmDirectories config realm := by
  obtain ⟨tokenKeys, htoken, h⟩ := bind_ok.mp (withContext_ok.mp h)
  obtain rfl := pure_ok.mp h
  refine ⟨rfl, ?_⟩
  unfold Keys.Upkeep.Realm.rings realmDirectories
  rw [List.map_append]
  congr 1
  · dsimp only
    unfold operationsKeysFor
    split_ifs <;> rfl
  · unfold tokenKeysFor at htoken
    split_ifs at htoken ⊢
    · cases halgorithm : Tokens.parseAlgorithm realm.tokenSigningAlgorithm with
      | ok algorithm =>
        rw [halgorithm] at htoken
        obtain rfl := Except.ok.inj htoken
        rfl
      | error error =>
        rw [halgorithm] at htoken
        cases htoken
    · obtain rfl := Except.ok.inj htoken
      rfl

theorem built_eq {realms : List RealmConfig} {built : List Keys.Upkeep.Realm}
    (h : List.Forall₂ (fun realm r => buildRings config realm = .ok r) realms built) :
    built.map Keys.Upkeep.Realm.name = realms.map (·.name) ∧
      (built.flatMap Keys.Upkeep.Realm.rings).map Ring.directory =
        realms.flatMap (realmDirectories config) := by
  induction h with
  | nil => exact ⟨rfl, rfl⟩
  | cons hbuild _ ih =>
    obtain ⟨hname, hrings⟩ := buildRings_ok hbuild
    rw [List.map_cons, List.map_cons, List.flatMap_cons, List.flatMap_cons, List.map_append,
      hname, hrings, ih.1, ih.2]
    exact ⟨rfl, rfl⟩

/-- The rings of the context are those of the configuration, in another order. -/
theorem contextOf_ok (h : contextOf config = .ok context) :
    (context.realms.map Keys.Upkeep.Realm.name).Perm (config.realms.map (·.name)) ∧
    (context.rings.map Ring.directory).Perm
      (ownDirectories config ++ config.realms.flatMap (realmDirectories config)) := by
  obtain ⟨realms, hrealms, h⟩ := bind_ok.mp h
  obtain rfl := pure_ok.mp h
  obtain ⟨hnames, hrings⟩ := built_eq (mapM_ok.mp hrealms)
  have hperm := List.perm_insertionSort (fun a b : Keys.Upkeep.Realm => a.name ≤ b.name) realms
  rw [← hnames, ← hrings]
  refine ⟨hperm.map _, ?_⟩
  unfold Context.rings
  rw [List.map_append]
  refine List.Perm.append ?_ ((hperm.flatMap_right _).map _)
  unfold ownDirectories
  dsimp only
  split_ifs <;> rfl

/-- The directories of the realms differ in any case. -/
theorem rings_nodup_iff {isFile : String → Bool} (hvalid : config.validate isFile = .ok ())
    (hcontext : contextOf config = .ok context) :
    (context.rings.map Ring.directory).Nodup ↔ OwnPlace config := by
  obtain ⟨husable, hdistinct⟩ := validate_realms hvalid
  have hown : (ownDirectories config).Nodup := by
    unfold ownDirectories
    split_ifs <;> simp
  have hrealms : (config.realms.flatMap (realmDirectories config)).Nodup := by
    refine List.nodup_flatMap.mpr ⟨fun realm hrealm =>
      realmDirectories_nodup (husable realm hrealm).name, ?_⟩
    refine List.Pairwise.imp_of_mem ?_ (List.pairwise_map.mp hdistinct)
    intro realm realm' hrealm hrealm' hne
    exact realmDirectories_disjoint (husable realm hrealm).name (husable realm' hrealm').name hne
  rw [(contextOf_ok hcontext).2.nodup_iff, List.nodup_append']
  constructor
  · rintro ⟨-, -, hdisjoint⟩ directory hdirectory realm hrealm hmem
    exact hdisjoint hdirectory (List.mem_flatMap.mpr ⟨realm, hrealm, hmem⟩)
  · intro hplace
    refine ⟨hown, hrealms, fun directory hdirectory hmem => ?_⟩
    obtain ⟨realm, hrealm, hin⟩ := List.mem_flatMap.mp hmem
    exact hplace directory hdirectory realm hrealm hin

/-- **Rings have places of their own.** In a deployment of an accepted configuration, no two realms
share a name, and no two rings are kept in one directory exactly when the server's is not where one
of a realm's is. Validation does not ask for that. -/
theorem directories_apart {isFile : String → Bool} (hvalid : config.validate isFile = .ok ())
    (hcontext : contextOf config = .ok context) :
    (context.realms.map Keys.Upkeep.Realm.name).Nodup ∧
      ((context.rings.map Ring.directory).Nodup ↔ OwnPlace config) :=
  ⟨(contextOf_ok hcontext).1.nodup_iff.mpr (validate_realms hvalid).2,
    rings_nodup_iff hvalid hcontext⟩

/-- What the key service keeps up for an accepted configuration. -/
def deploymentOf {isFile : String → Bool} (hvalid : config.validate isFile = .ok ())
    (hplace : OwnPlace config) (hcontext : contextOf config = .ok context) :
    Keys.Upkeep.Deployment where
  context := context
  apart := (rings_nodup_iff hvalid hcontext).mpr hplace

/-- A server with its own ring, and a realm that signs tokens. -/
def homeConfig (directory : Option String) : Config :=
  { Tokens.shortConfig with
    keysEnabled := true
    keysDirectory := directory
    keysLifecycleDeclared :=
      [SETTING_KEYS_RETAIN, SETTING_KEYS_ROTATE_EVERY, SETTING_KEYS_PUBLISH_AHEAD] }

theorem homeConfig_valid : (homeConfig none).validate (fun _ => true) = .ok () := by
  decide +kernel

theorem homeConfig_shared :
    (homeConfig (some "realms/acme/keys")).validate (fun _ => true) = .ok () := by
  decide +kernel

/-- What the key service keeps up for it. -/
def homeContext (directory : Option String) : Context where
  keys := some (Operations.keyManagerFor (homeConfig directory))
  realms :=
    [{ name := "acme"
       operationsKeys := none
       tokenKeys := some Tokens.shortIssuer.keys }]

theorem contextOf_home (directory : Option String) :
    contextOf (homeConfig directory) = .ok (homeContext directory) := by
  rfl

example :
    (deploymentOf homeConfig_valid (ownPlace_default rfl) (contextOf_home none)).context.rings.map
      Ring.role = ["operations", "tokens"] := rfl

/-- Where the server's ring is kept in the directory of the realm's, the rings are not apart. -/
theorem directories_apart_home :
    ((homeContext none).rings.map Ring.directory).Nodup ∧
      ¬ ((homeContext (some "realms/acme/keys")).rings.map Ring.directory).Nodup := by
  refine ⟨(directories_apart homeConfig_valid (contextOf_home none)).2.mpr
    (ownPlace_default rfl), fun hnodup => ?_⟩
  have hplace := (directories_apart homeConfig_shared (contextOf_home _)).2.mp hnodup
  refine hplace _ (List.mem_singleton_self _) Tokens.shortRealm (List.mem_singleton_self _) ?_
  decide

end PicX.Rings
