import PicX.Server.Overwrites

/-!
# Where generated secrets are put

A secret that is missing is generated at the name of its reference, joined to a directory. The store
that is to find it there resolves the reference by itself, and refuses a name that leaves the
directory; the joined path follows it.

* `Keeper` — the server and each realm, with the directory and the reference of its secret.
* `InPlace` — every secret that is generated is where the keeper's store resolves its reference.
* `in_place_iff` — when that is so, however the operations turn out.
-/

namespace PicX.Server

open PicX.Core Program

/-! ## Who has a secret -/

/-- Whoever pseudonymises with a key of its own. -/
inductive Keeper where
  | server
  | realm (config : RealmConfig)

def keepers (c : Config) : List Keeper := .server :: c.realms.map .realm

/-- The directory its store reads. -/
def Keeper.directory (c : Config) : Keeper → String
  | .server => secretsDirectory c
  | .realm r => realmSecretsDirectory c r.name

/-- The reference a secret is generated for, if it is for one. -/
def Keeper.reference (c : Config) : Keeper → Option SecretRef
  | .server => if c.auditPseudonymEnabled then c.auditPseudonymKeyRef else none
  | .realm r =>
    if !r.auditPseudonymEnabled || r.secretsProvider ≠ .directory then none
    else r.auditPseudonymKeyRef

variable (cwd : Place)

/-- What provisioning does for it. -/
def Keeper.secret (c : Config) : Keeper → Provisioning Unit
  | .server => serverSecret cwd c
  | .realm r => realmSecret cwd c r

/-- What of that comes before its secret: a realm's own directory. -/
def Keeper.opens (c : Config) : Keeper → Provisioning Unit
  | .server => pure ()
  | .realm r => createDirectory cwd (realmSecretsDirectory c r.name)

/-- All that is made before the first secret, and then the secrets of the keepers before. -/
def beforeSecret (c : Config) (before : List Keeper) : Provisioning Unit := do
  prepareDirectories cwd c
  [secretsDirectory c, tlsDirectory c].forM (createDirectory cwd)
  before.forM (Keeper.secret cwd c)

/-! ## Where a secret belongs -/

/-- The place to which the keeper's store resolves its reference, in its directory. -/
def Keeper.Holds (c : Config) (keeper : Keeper) (p : Place) : Prop :=
  ∃ reference path, keeper.reference c = some reference ∧
    pathOf (keeper.directory c) reference = some path ∧ p = place cwd path ∧
    place cwd (keeper.directory c) <+: p

/-- Wherever a secret is generated for a keeper is that place. -/
def InPlace (c : Config) (w : Disk) : Prop :=
  ∀ before keeper after, keepers c = before ++ keeper :: after →
    ∀ f w₁, beforeSecret cwd c before f w = .ok () w₁ →
      ∀ p, (keeper.secret cwd c f w₁).world.nodes p = some .secret → w₁.nodes p ≠ some .secret →
        keeper.Holds cwd c p

/-- Each keeper has a reference that its store resolves, or when its turn comes something stands at
the joined path, or no file can be there. -/
def Resolvable (c : Config) (w : Disk) : Prop :=
  ∀ before keeper after, keepers c = before ++ keeper :: after →
    ∀ w₁, (beforeSecret cwd c before >>= fun _ => keeper.opens cwd c) (fun _ => .done) w =
        .ok () w₁ →
      ∀ reference, keeper.reference c = some reference →
        pathOf (keeper.directory c) reference ≠ none ∨
        w₁.present cwd (resolvePath (keeper.directory c) reference.name) = true ∨
        w₁.writable cwd (resolvePath (keeper.directory c) reference.name) = false

variable {cwd} {c : Config} {w w₁ : Disk} {keeper : Keeper} {reference : SecretRef}

/-! ## One keeper -/

theorem Keeper.secret_of_none (h : keeper.reference c = none) : keeper.secret cwd c = pure () := by
  cases keeper with
  | server =>
    show serverSecret cwd c = pure ()
    unfold serverSecret
    split
    · rename_i reference henabled href
      simp [Keeper.reference, henabled, href] at h
    · rfl
  | realm r =>
    change (if !r.auditPseudonymEnabled || r.secretsProvider ≠ .directory then none
      else r.auditPseudonymKeyRef) = none at h
    show realmSecret cwd c r = pure ()
    unfold realmSecret
    split_ifs at h ⊢
    · rfl
    · rw [h]

theorem Keeper.secret_of_some (h : keeper.reference c = some reference) :
    keeper.secret cwd c = keeper.opens cwd c >>= fun _ =>
      generateSecret cwd (resolvePath (keeper.directory c) reference.name) := by
  cases keeper with
  | server =>
    change (if c.auditPseudonymEnabled then c.auditPseudonymKeyRef else none) = _ at h
    split_ifs at h with henabled
    show serverSecret cwd c = _
    unfold serverSecret
    rw [henabled, h]
    rfl
  | realm r =>
    change (if !r.auditPseudonymEnabled || r.secretsProvider ≠ .directory then none
      else r.auditPseudonymKeyRef) = _ at h
    show realmSecret cwd c r = _
    unfold realmSecret
    split_ifs at h ⊢
    rw [h]
    rfl

/-- A reference the store resolves leads to the joined path, in the directory. -/
theorem pathOf_resolvePath {directory : String} (h : pathOf directory reference ≠ none) :
    pathOf directory reference = some (resolvePath directory reference.name) ∧
      place cwd directory <+: place cwd (resolvePath directory reference.name) := by
  have hplain : PlainReference reference := by
    unfold PlainReference
    unfold pathOf at h ⊢
    dsimp only at h ⊢
    split_ifs at h ⊢
    · exact absurd rfl h
    · exact nofun
  obtain ⟨hslash, hdots⟩ := plainReference_chars hplain
  obtain ⟨habsolute, hclimb⟩ := stays_of_chars hslash hdots
  have hjoin : resolvePath directory reference.name = join directory reference.name := by
    have habsolute' : ¬reference.name.toList.head? = some '/' := by
      simpa [isAbsolute] using habsolute
    rw [resolvePath, if_neg habsolute']
  rw [hjoin]
  refine ⟨?_, place_below_join habsolute hclimb⟩
  unfold pathOf at h ⊢
  dsimp only at h ⊢
  split_ifs at h ⊢
  · exact absurd rfl h
  · rfl

/-! ## Secrets that are new -/

/-- Every secret on the disk that was not on it before is at a place of which `P` holds. -/
def NewSecrets (before : Disk) (P : Place → Prop) (w : Disk) : Prop :=
  ∀ p, w.nodes p = some .secret → before.nodes p ≠ some .secret → P p

variable {before : Disk} {P : Place → Prop}

theorem NewSecrets.start (w : Disk) : NewSecrets w P w := fun _ hp hnot => absurd hp hnot

theorem NewSecrets.create (h : NewSecrets before P w) (places : List Place) :
    NewSecrets before P (w.create places) := by
  intro p hp hnot
  unfold Disk.create at hp
  dsimp only at hp
  split_ifs at hp
  · cases hp
  · exact h p hp hnot

theorem NewSecrets.put (h : NewSecrets before P w) {q : Place} {node : Node}
    (hnode : node ≠ .secret) : NewSecrets before P (w.put q node) := by
  intro p hp hnot
  by_cases hq : p = q
  · rw [hq, w.put_self] at hp
    exact absurd (Option.some.inj hp) hnode
  · rw [w.put_of_ne node hq] at hp
    exact h p hp hnot

theorem createDirectory_newSecrets {path : String} :
    Keeps (createDirectory cwd path) (NewSecrets before P) :=
  keeps_createDirectory fun _ places _ h => h.create places

theorem opens_newSecrets : Keeps (keeper.opens cwd c) (NewSecrets before P) := by
  cases keeper with
  | server => exact keeps_pure _
  | realm r => exact createDirectory_newSecrets

/-- Opening a directory takes nothing away. -/
theorem opens_stands {p : Place} {node : Node} :
    Keeps (keeper.opens cwd c) fun w => w.nodes p = some node := by
  cases keeper with
  | server => exact keeps_pure _
  | realm r =>
    refine keeps_createDirectory ?_
    intro w places _ h
    simp [Disk.create, h]

theorem steady_opens : Steady (keeper.opens cwd c) := by
  cases keeper with
  | server => exact steady_pure _
  | realm r => exact steady_createDirectory

theorem steady_secret : Steady (keeper.secret cwd c) := by
  cases href : keeper.reference c with
  | none =>
    rw [Keeper.secret_of_none href]
    exact steady_pure _
  | some reference =>
    rw [Keeper.secret_of_some href]
    exact Steady.bind steady_opens fun _ => steady_generateSecret

theorem steady_beforeSecret {before : List Keeper} : Steady (beforeSecret cwd c before) :=
  Steady.bind (Steady.bind (steady_createDirectory.mapError _) fun _ =>
    Steady.forM fun _ _ => steady_createDirectory) fun _ =>
      Steady.bind (Steady.forM fun _ _ => steady_createDirectory) fun _ =>
        Steady.forM fun _ _ => steady_secret

/-- A secret that is new after a keeper's turn was put at the joined path of its reference, where
nothing stood and a file could be. -/
theorem secret_new {f : ProvisionOp → Outcome} {p : Place}
    (hp : (keeper.secret cwd c f w).world.nodes p = some .secret)
    (hnot : w.nodes p ≠ some .secret) :
    ∃ reference w₁, keeper.reference c = some reference ∧ keeper.opens cwd c f w = .ok () w₁ ∧
      w₁.present cwd (resolvePath (keeper.directory c) reference.name) = false ∧
      w₁.writable cwd (resolvePath (keeper.directory c) reference.name) = true ∧
      p = place cwd (resolvePath (keeper.directory c) reference.name) := by
  cases href : keeper.reference c with
  | none =>
    rw [Keeper.secret_of_none href] at hp
    exact absurd hp hnot
  | some reference =>
    rw [Keeper.secret_of_some href] at hp
    have hopened : NewSecrets w (fun _ => False) (keeper.opens cwd c f w).world :=
      (opens_newSecrets f w (.start w)).world
    change (Program.bind (keeper.opens cwd c) _ f w).world.nodes p = some .secret at hp
    unfold Program.bind at hp
    cases hopens : keeper.opens cwd c f w with
    | ok u w₁ =>
      rw [hopens] at hp hopened
      refine ⟨reference, w₁, rfl, rfl, ?_⟩
      rcases generateSecret_world f with hsame | ⟨hpresent, hwritable, hput⟩
      · dsimp only at hp
        rw [hsame] at hp
        exact (hopened p hp hnot).elim
      · refine ⟨hpresent, hwritable, ?_⟩
        by_contra hne
        dsimp only at hp
        rw [hput, w₁.put_of_ne _ hne] at hp
        exact (hopened p hp hnot).elim
    | error e w₁ =>
      rw [hopens] at hp hopened
      exact (hopened p hp hnot).elim
    | crash w₁ =>
      rw [hopens] at hp hopened
      exact (hopened p hp hnot).elim

/-- Without a failure one is put there. -/
theorem generateSecret_done {path : String} (hpresent : w.present cwd path = false)
    (hwritable : w.writable cwd path = true) :
    (generateSecret cwd path (fun _ => .done) w).world = w.put (place cwd path) .secret := by
  have hwrite : write cwd path .secret (fun _ => .done) w =
      .ok () (w.put (place cwd path) .secret) := if_pos hwritable
  unfold generateSecret
  rw [bind_of_ok (show Program.get (fun _ => .done) w = .ok w w from rfl), hpresent]
  show (Program.bind (write cwd path .secret) (fun _ => restrict path) _ w).world = _
  unfold Program.bind
  rw [hwrite]
  rfl

/-! ## All of them -/

theorem in_place_iff : InPlace cwd c w ↔ Resolvable cwd c w := by
  constructor
  · intro hplace before keeper after hsplit w₁ hrun reference href
    by_contra hbad
    push Not at hbad
    obtain ⟨hrefused, habsent, hwritable⟩ := hbad
    have hpresent : w₁.present cwd (resolvePath (keeper.directory c) reference.name) = false := by
      simpa using habsent
    have hwritable' : w₁.writable cwd (resolvePath (keeper.directory c) reference.name) = true := by
      simpa using hwritable
    obtain ⟨u, w₀, hbefore, hopens⟩ := bind_eq_ok hrun
    have hsecret : (keeper.secret cwd c (fun _ => .done) w₀).world =
        w₁.put (place cwd (resolvePath (keeper.directory c) reference.name)) .secret := by
      rw [Keeper.secret_of_some href, bind_of_ok hopens]
      exact generateSecret_done hpresent hwritable'
    have hnot : w₀.nodes (place cwd (resolvePath (keeper.directory c) reference.name)) ≠
        some .secret := by
      intro hold
      have hkept := (opens_stands (fun _ => .done) w₀ hold).ok hopens
      have hnone := absent_of_not_present hpresent hwritable'
      cases hnone.symm.trans hkept
    obtain ⟨reference', path, href', hresolved, -, -⟩ := hplace before keeper after hsplit _ w₀
      hbefore _ (by rw [hsecret, Disk.put_self]) hnot
    cases href.symm.trans href'
    rw [hrefused] at hresolved
    cases hresolved
  · intro hresolvable before keeper after hsplit f w₁ hbefore p hp hnot
    obtain ⟨reference, w₂, href, hopens, hpresent, hwritable, rfl⟩ := secret_new hp hnot
    have hdone : (beforeSecret cwd c before >>= fun _ => keeper.opens cwd c) (fun _ => .done) w =
        .ok () w₂ := by
      rw [bind_of_ok (steady_beforeSecret f w () w₁ hbefore)]
      exact steady_opens f w₁ () w₂ hopens
    rcases hresolvable before keeper after hsplit w₂ hdone reference href with hresolved | h | h
    · obtain ⟨hpath, hinside⟩ := pathOf_resolvePath hresolved
      exact ⟨reference, _, href, hpath, rfl, hinside⟩
    · rw [hpresent] at h
      cases h
    · rw [hwritable] at h
      cases h

/-- The secrets are generated keeper by keeper. -/
theorem beforeCertificates_eq : beforeCertificates cwd c = beforeSecret cwd c (keepers c) := by
  have hrealms : ∀ realms : List RealmConfig, realms.forM (realmSecret cwd c) =
      (realms.map Keeper.realm).forM (Keeper.secret cwd c) := by
    intro realms
    induction realms with
    | nil => rfl
    | cons realm rest ih =>
      show (realmSecret cwd c realm >>= fun _ => rest.forM (realmSecret cwd c)) =
        realmSecret cwd c realm >>= fun _ => (rest.map Keeper.realm).forM (Keeper.secret cwd c)
      rw [ih]
  have hsecrets : prepareSecrets cwd c = (keepers c).forM (Keeper.secret cwd c) := by
    show (serverSecret cwd c >>= fun _ => c.realms.forM (realmSecret cwd c)) =
      serverSecret cwd c >>= fun _ => (c.realms.map Keeper.realm).forM (Keeper.secret cwd c)
    rw [hrealms]
  unfold beforeCertificates beforeSecret
  rw [hsecrets]

theorem beforeSecret_snoc {before : List Keeper} {f : ProvisionOp → Outcome} {w₂ : Disk}
    (hbefore : beforeSecret cwd c before f w = .ok () w₁)
    (hsecret : keeper.secret cwd c f w₁ = .ok () w₂) :
    beforeSecret cwd c (before ++ [keeper]) f w = .ok () w₂ := by
  obtain ⟨_, w', hdirectories, hrest⟩ := bind_eq_ok hbefore
  obtain ⟨_, w'', hopened, hsecrets⟩ := bind_eq_ok hrest
  unfold beforeSecret
  rw [bind_of_ok hdirectories, bind_of_ok hopened]
  exact forM_snoc_ok hsecrets hsecret

/-- Keeper by keeper, every secret that is new is in its place. -/
theorem secrets_hold (hplace : InPlace cwd c w) (f : ProvisionOp → Outcome)
    (before after : List Keeper) (hsplit : keepers c = before ++ after)
    (hbefore : beforeSecret cwd c before f w = .ok () w₁)
    (hholds : NewSecrets w (fun p => ∃ keeper ∈ keepers c, keeper.Holds cwd c p) w₁) :
    NewSecrets w (fun p => ∃ keeper ∈ keepers c, keeper.Holds cwd c p)
      (after.forM (Keeper.secret cwd c) f w₁).world := by
  induction after generalizing before w₁ with
  | nil => exact hholds
  | cons keeper rest ih =>
    have hmem : keeper ∈ keepers c := by rw [hsplit]; simp
    have hstep : NewSecrets w (fun p => ∃ keeper ∈ keepers c, keeper.Holds cwd c p)
        (keeper.secret cwd c f w₁).world := by
      intro p hp hnot
      by_cases hold : w₁.nodes p = some .secret
      · exact hholds p hold hnot
      · exact ⟨keeper, hmem, hplace before keeper rest hsplit f w₁ hbefore p hp hold⟩
    show NewSecrets w _ (Program.bind (keeper.secret cwd c) _ f w₁).world
    unfold Program.bind
    cases hsecret : keeper.secret cwd c f w₁ with
    | ok u w₂ =>
      rw [hsecret] at hstep
      exact ih (before ++ [keeper]) (by simp [hsplit]) (beforeSecret_snoc hbefore hsecret) hstep
    | error e w₂ =>
      rw [hsecret] at hstep
      exact hstep
    | crash w₂ =>
      rw [hsecret] at hstep
      exact hstep

theorem prepareDirectories_newSecrets : Keeps (prepareDirectories cwd c) (NewSecrets before P) :=
  Keeps.bind (createDirectory_newSecrets.mapError _) fun _ =>
    Keeps.forM fun _ _ => createDirectory_newSecrets

/-- Certificates are no secrets. -/
theorem prepareCertificates_newSecrets :
    Keeps (prepareCertificates cwd c) (NewSecrets before P) := by
  have hpublic : ∀ path node, node ≠ .secret →
      Keeps (writePublic cwd path node) (NewSecrets before P) :=
    fun _ _ hnode => keeps_write fun _ _ h => h.put hnode
  have hprivate : ∀ path node, node ≠ .secret →
      Keeps (writePrivate cwd path node) (NewSecrets before P) :=
    fun path node hnode => (hpublic path node hnode).bind fun _ => keeps_restrict
  have hpair : ∀ {certificate key : String} {next : Provisioning Unit},
      Keeps next (NewSecrets before P) → ∀ {describing generating signing : String},
      Keeps (make describing >>= fun _ => make generating >>= fun _ => make signing >>= fun _ =>
        writePublic cwd certificate .certificate >>= fun _ =>
        writePrivate cwd key .key >>= fun _ => next) (NewSecrets before P) := by
    intro certificate key next hnext describing generating signing
    exact keeps_make.bind fun _ => keeps_make.bind fun _ => keeps_make.bind fun _ =>
      (hpublic certificate .certificate (by decide)).bind fun _ =>
        (hprivate key .key (by decide)).bind fun _ => hnext
  refine keeps_prepareCertificates (hpair (hpair (hpair ?_)))
  exact keeps_make.bind fun _ => keeps_make.bind fun _ => hpublic _ .revocations (by decide)

/-- Before the certificates, every secret that is new is in its place. -/
theorem beforeCertificates_hold (hplace : InPlace cwd c w) (f : ProvisionOp → Outcome) :
    NewSecrets w (fun p => ∃ keeper ∈ keepers c, keeper.Holds cwd c p)
      (beforeCertificates cwd c f w).world := by
  rw [beforeCertificates_eq]
  -- The directories first, and then the keepers from the first on.
  have hopened : NewSecrets w (fun p => ∃ keeper ∈ keepers c, keeper.Holds cwd c p)
      (beforeSecret cwd c [] f w).world := by
    have hkeeps : Keeps (beforeSecret cwd c [])
        (NewSecrets w fun p => ∃ keeper ∈ keepers c, keeper.Holds cwd c p) :=
      Keeps.bind prepareDirectories_newSecrets fun _ =>
        Keeps.bind (Keeps.forM fun _ _ => createDirectory_newSecrets) fun _ => keeps_pure _
    exact (hkeeps f w (.start w)).world
  have hall : beforeSecret cwd c (keepers c) = beforeSecret cwd c [] >>= fun _ =>
      (keepers c).forM (Keeper.secret cwd c) := by
    unfold beforeSecret
    simp only [bind_assoc]
    rfl
  rw [hall]
  show NewSecrets w _ (Program.bind (beforeSecret cwd c []) _ f w).world
  unfold Program.bind
  cases hbefore : beforeSecret cwd c [] f w with
  | ok u w₁ =>
    rw [hbefore] at hopened
    exact secrets_hold hplace f [] (keepers c) rfl hbefore hopened
  | error e w₁ =>
    rw [hbefore] at hopened
    exact hopened
  | crash w₁ =>
    rw [hbefore] at hopened
    exact hopened

/-- So it is once the volume is prepared, or has failed to be. -/
theorem prepare_holds (hplace : InPlace cwd c w) (f : ProvisionOp → Outcome) :
    NewSecrets w (fun p => ∃ keeper ∈ keepers c, keeper.Holds cwd c p)
      (prepare cwd c f w).world := by
  cases hon : c.autogenerate with
  | false =>
    have hkeeps : Keeps (prepare cwd c)
        (NewSecrets w fun p => ∃ keeper ∈ keepers c, keeper.Holds cwd c p) := by
      unfold prepare
      rw [hon]
      exact Keeps.bind (createDirectory_newSecrets.mapError _) fun _ =>
        Keeps.bind (Keeps.forM fun _ _ => createDirectory_newSecrets) fun _ => keeps_pure _
    exact (hkeeps f w (.start w)).world
  | true =>
    have hbefore := beforeCertificates_hold hplace f
    rcases prepare_world hon f w with hsame | ⟨w', hrun, -, hworld⟩
    · rw [hsame]
      exact hbefore
    · rw [hrun] at hbefore
      rw [hworld]
      exact (prepareCertificates_newSecrets f w' hbefore).world

/-- **Generated secrets are where their store looks for them**, for every configuration and every
disk, exactly when each reference a secret is generated for is one its store resolves, or by its
turn something stands at the joined path, or no file can be there. Then every secret that is new
once the volume is prepared, or has failed to be, stands where the store of the server or of a realm
resolves that one's own reference, in its own directory. -/
theorem generated_secrets_in_place (c : Config) (w : Disk) :
    (InPlace cwd c w ↔ Resolvable cwd c w) ∧
    (Resolvable cwd c w → ∀ f p, (prepare cwd c f w).world.nodes p = some .secret →
      w.nodes p ≠ some .secret → ∃ keeper ∈ keepers c, keeper.Holds cwd c p) := by
  refine ⟨in_place_iff, ?_⟩
  intro hresolvable f
  exact prepare_holds (in_place_iff.mpr hresolvable) f

/-- A server that may generate its pseudonymisation key, under a name that climbs. -/
def climbing : Config :=
  { developmentMode := true
    autogenerate := true
    publicHttpAddr := some "127.0.0.1:8080"
    auditPseudonymEnabled := true
    auditPseudonymKeyRef := some ⟨"../../audit-pseudonym"⟩
    secretsProvider := .directory }

/-- It is accepted, and its key is put where its store refuses to look. -/
theorem climbing_reference_followed :
    climbing.validate (fun _ => false) = .ok () ∧
    (prepare ["srv"] climbing (fun _ => .done) bareDisk).world.nodes
      ["srv", ".volume", "audit-pseudonym"] = some .secret ∧
    ¬InPlace ["srv"] climbing bareDisk := by
  have hput : (prepare ["srv"] climbing (fun _ => .done) bareDisk).world.nodes
      ["srv", ".volume", "audit-pseudonym"] = some .secret := by
    decide +kernel
  refine ⟨by decide +kernel, hput, ?_⟩
  intro hplace
  have hnot : bareDisk.nodes ["srv", ".volume", "audit-pseudonym"] ≠ some .secret := by decide
  obtain ⟨keeper, hkeeper, reference, path, href, hresolved, -⟩ :=
    prepare_holds hplace (fun _ => .done) _ hput hnot
  obtain rfl : keeper = .server := List.mem_singleton.mp hkeeper
  obtain rfl : (⟨"../../audit-pseudonym"⟩ : SecretRef) = reference := Option.some.inj href
  have hrefused : pathOf (secretsDirectory climbing) ⟨"../../audit-pseudonym"⟩ = none := by decide
  cases hrefused.symm.trans hresolved

end PicX.Server
