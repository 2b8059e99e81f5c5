import Mathlib
import PicX.Core.AllowLists
import PicX.Core.Validate

/-!
# Secrets from the environment (`pic-x-std/src/secrets.rs`, `main.rs`)

A secret's name becomes the name of an environment variable: upper-cased, with underscores for its
hyphens and dots, after a prefix. A realm that states no prefix gets the server's, suffixed with
its own name folded the same way, and the same underscore stands between all of them.

* `realmVariable_eq_iff`: two realms share a variable exactly when the name of one is the name of
  the other, a hyphen and more, and that more starts the other's secret.
* **`realm_secrets_isolated`**: when the secrets of an accepted configuration are kept apart.
-/

namespace PicX.Core

/-- Resolves each reference to an environment variable of the same name, upper-cased. -/
structure EnvironmentSecretStore where
  envPrefix : String

/-- A secret's name as a part of a variable's. -/
def secretPart (u : Uppercase) (reference : SecretRef) : String :=
  u.apply (replaceChars (fun c => c = '-' ∨ c = '.') '_' reference.name)

/-- The variable name a reference resolves to. -/
def EnvironmentSecretStore.variableOf (u : Uppercase) (store : EnvironmentSecretStore)
    (reference : SecretRef) : String :=
  if store.envPrefix = "" then secretPart u reference
  else store.envPrefix ++ "_" ++ secretPart u reference

/-- The server's store, when it resolves from the environment (`secret_store_for`). -/
def Config.secretStore (c : Config) : EnvironmentSecretStore := ⟨c.secretsEnvPrefix⟩

/-- A realm's store, when it resolves from the environment (`build_realm`). -/
def RealmConfig.secretStore (realm : RealmConfig) : EnvironmentSecretStore :=
  ⟨realm.secretsEnvPrefix⟩

/-! ## Names as parts of a variable -/

/-- A realm's name as a part of a variable's. -/
def realmPart (u : Uppercase) (name : String) : String :=
  replaceChars (· = '-') '_' (u.apply name)

/-- The characters a realm's name is made of. -/
def isRealmChar (c : Char) : Bool := c.isLower || c.isDigit || c == '-'

/-- What a character of a realm's name becomes. -/
def realmUpper (c : Char) : Char := if c.toUpper = '-' then '_' else c.toUpper

/-- The character of a realm's name that becomes this. -/
def realmLower (c : Char) : Char := if c = '_' then '-' else c.toLower

theorem isRealmChar_ascii {c : Char} (h : isRealmChar c = true) : c.toNat < 128 := by
  simp only [isRealmChar, Char.isLower, Char.isDigit, Bool.or_eq_true, Bool.and_eq_true,
    decide_eq_true_eq, beq_iff_eq, ge_iff_le, UInt32.le_iff_toNat_le] at h
  rcases h with (⟨_, h⟩ | ⟨_, h⟩) | h
  · exact Nat.lt_of_le_of_lt h (by decide)
  · exact Nat.lt_of_le_of_lt h (by decide)
  · rw [h]
    decide

theorem realmLower_realmUpper {c : Char} (h : isRealmChar c = true) :
    realmLower (realmUpper c) = c := by
  have htable : ∀ n < 128, isRealmChar (Char.ofNat n) = true →
      realmLower (realmUpper (Char.ofNat n)) = Char.ofNat n := by decide +kernel
  have hc := htable c.toNat (isRealmChar_ascii h)
  rw [Char.ofNat_toNat] at hc
  exact hc h

theorem realmPart_toList (u : Uppercase) {l : List Char} (h : ∀ c ∈ l, isRealmChar c = true) :
    (realmPart u (String.ofList l)).toList = l.map realmUpper := by
  have hupper : l.flatMap u.upper = l.map Char.toUpper := by
    rw [← List.flatMap_singleton' (l.map Char.toUpper), List.flatMap_map]
    exact List.flatMap_congr fun c hc => u.ascii c (isRealmChar_ascii (h c hc))
  simp only [realmPart, replaceChars, Uppercase.apply, String.toList_ofList, hupper, List.map_map]
  apply List.map_congr_left
  intro c _
  simp [realmUpper]

theorem realmUpper_injOn {l l' : List Char} (hl : ∀ c ∈ l, isRealmChar c = true)
    (hl' : ∀ c ∈ l', isRealmChar c = true) (h : l.map realmUpper = l'.map realmUpper) : l = l' := by
  have hback : ∀ {k : List Char}, (∀ c ∈ k, isRealmChar c = true) →
      (k.map realmUpper).map realmLower = k := by
    intro k hk
    rw [List.map_map]
    exact (List.map_congr_left fun c hc => realmLower_realmUpper (hk c hc)).trans (List.map_id' k)
  rw [← hback hl, h, hback hl']

theorem isRealmName_chars {name : String} (h : isRealmName name = true) :
    ∀ c ∈ name.toList, isRealmChar c = true := by
  simp only [isRealmName, decide_eq_true_eq] at h
  exact List.all_eq_true.mp h.2.2.1

/-! ## Shared variables -/

/-- The name of `other` is the name of `realm`, a hyphen and `t`, and the secret of `realm` starts
with that same `t`: both spell one variable. -/
def Reaches (u : Uppercase) (realm : String) (secret : SecretRef) (other : String)
    (secret' : SecretRef) : Prop :=
  ∃ t, other = realm ++ "-" ++ t ∧
    secretPart u secret = realmPart u t ++ "_" ++ secretPart u secret'

theorem realmPart_hyphen (u : Uppercase) (name t : String) :
    realmPart u (name ++ "-" ++ t) = realmPart u name ++ "_" ++ realmPart u t := by
  have hhyphen : u.upper '-' = ['-'] := u.ascii '-' (by decide)
  apply String.toList_injective
  simp [realmPart, replaceChars, Uppercase.apply, hhyphen]

/-- Cutting a name at an underscore cuts the realm's name at a hyphen. -/
theorem reaches_of_append {u : Uppercase} {realm other : String} {secret secret' : SecretRef}
    (hrealm : ∀ c ∈ realm.toList, isRealmChar c = true)
    (hother : ∀ c ∈ other.toList, isRealmChar c = true) (hne : realm ≠ other) {more : List Char}
    (hname : (realmPart u other).toList = (realmPart u realm).toList ++ more)
    (hsecret : '_' :: (secretPart u secret).toList = more ++ '_' :: (secretPart u secret').toList) :
    Reaches u realm secret other secret' := by
  rw [← String.ofList_toList (s := other), ← String.ofList_toList (s := realm),
    realmPart_toList u hother, realmPart_toList u hrealm] at hname
  obtain ⟨first, rest, hsplit, hfirst, hrest⟩ := List.map_eq_append_iff.mp hname
  have hchars : ∀ c ∈ first ++ rest, isRealmChar c = true := hsplit ▸ hother
  have hsame : first = realm.toList :=
    realmUpper_injOn (fun c hc => hchars c (List.mem_append_left rest hc)) hrealm hfirst
  cases rest with
  | nil =>
    rw [List.append_nil, hsame] at hsplit
    exact absurd (String.toList_injective hsplit.symm) hne
  | cons c t =>
    rw [List.map_cons] at hrest
    rw [← hrest, List.cons_append, List.cons.injEq] at hsecret
    have hc : c = '-' := by
      rw [← realmLower_realmUpper (hchars c (by simp)), ← hsecret.1]
      rfl
    refine ⟨String.ofList t, ?_, ?_⟩
    · apply String.toList_injective
      rw [hsplit, hsame, hc]
      simp
    · apply String.toList_injective
      rw [hsecret.2, ← realmPart_toList u fun d hd => hchars d (by simp [hd])]
      simp

theorem realmVariable_eq_iff {u : Uppercase} {realm other : String} {secret secret' : SecretRef}
    (hrealm : ∀ c ∈ realm.toList, isRealmChar c = true)
    (hother : ∀ c ∈ other.toList, isRealmChar c = true) (hne : realm ≠ other) :
    realmPart u realm ++ "_" ++ secretPart u secret =
        realmPart u other ++ "_" ++ secretPart u secret' ↔
      Reaches u realm secret other secret' ∨ Reaches u other secret' realm secret := by
  constructor
  · intro h
    have hchars := congrArg String.toList h
    simp only [String.toList_append, List.append_assoc] at hchars
    rcases List.append_eq_append_iff.mp hchars with ⟨more, hname, hsecret⟩ | ⟨more, hname, hsecret⟩
    · exact .inl (reaches_of_append hrealm hother hne hname hsecret)
    · exact .inr (reaches_of_append hother hrealm hne.symm hname hsecret)
  · intro h
    rcases h with ⟨t, rfl, hsecret⟩ | ⟨t, rfl, hsecret⟩
    · rw [hsecret, realmPart_hyphen]
      simp only [String.append_assoc]
    · rw [hsecret, realmPart_hyphen]
      simp only [String.append_assoc]

/-! ## In a configuration -/

variable {d : Deployment} {f : ConfigFile} {environment commandLine : Pairs} {c : Config}

theorem settingsOf_ne_empty {pairs : Pairs} {key value : String}
    (h : settingsOf pairs key = some value) : value ≠ "" := by
  obtain ⟨pair, hpair, hvalue⟩ := Option.map_eq_some_iff.mp h
  have hmem := List.mem_of_find?_eq_some hpair
  simp only [List.mem_reverse, List.mem_filter, decide_eq_true_eq] at hmem
  exact hvalue ▸ hmem.2

/-- No layer can leave the server without a prefix: an empty one is not supplied. -/
theorem secretsEnvPrefix_ne_empty (h : d.config f environment commandLine = .ok c) :
    c.secretsEnvPrefix ≠ "" := by
  obtain ⟨base, realms, hbase, rfl⟩ := config_ok h
  have hgives := fromLayers_gives hbase .secretsEnvPrefix
  dsimp only [Setting.field] at hgives ⊢
  cases hlast : Layers.last { file := f.settings, environment, commandLine }
      SETTING_SECRETS_ENV_PREFIX with
  | none =>
    rw [hlast] at hgives
    have hdefault : base.secretsEnvPrefix = "PIC_X_SECRET" := hgives
    rw [hdefault]
    decide
  | some value =>
    rw [hlast] at hgives
    have hvalue : value = base.secretsEnvPrefix := Except.ok.inj hgives
    rw [← hvalue]
    simp only [Layers.last, Option.or_eq_some_iff] at hlast
    rcases hlast with hlast | ⟨_, hlast | ⟨_, hlast⟩⟩
    · exact settingsOf_ne_empty hlast
    · exact settingsOf_ne_empty hlast
    · exact settingsOf_ne_empty hlast

/-- The realm states no prefix of its own. -/
def DefaultPrefix (u : Uppercase) (c : Config) (realm : RealmConfig) : Prop :=
  realm.secretsEnvPrefix = realmEnvPrefix u c.secretsEnvPrefix realm.name

theorem realm_variableOf {u : Uppercase} {realm : RealmConfig} (h : DefaultPrefix u c realm)
    (secret : SecretRef) : realm.secretStore.variableOf u secret =
      c.secretsEnvPrefix ++ "_" ++ (realmPart u realm.name ++ "_" ++ secretPart u secret) := by
  have hne : realmEnvPrefix u c.secretsEnvPrefix realm.name ≠ "" := by
    intro hempty
    have := congrArg String.toList hempty
    simp [realmEnvPrefix] at this
  rw [EnvironmentSecretStore.variableOf, RealmConfig.secretStore, h, if_neg hne, realmEnvPrefix]
  simp only [String.append_assoc]
  rfl

theorem server_variableOf {u : Uppercase} (h : c.secretsEnvPrefix ≠ "") (secret : SecretRef) :
    c.secretStore.variableOf u secret = c.secretsEnvPrefix ++ "_" ++ secretPart u secret := by
  rw [EnvironmentSecretStore.variableOf, Config.secretStore, if_neg h]

/-- **Realm secrets are kept apart exactly when no name continues another.** In an accepted
configuration whose realms have default prefixes, the secrets of two realms have two variables
unless one realm's name goes on after the other's with a hyphen and what the other's secret starts
with; and a realm's secret and the server's have two unless the server's starts with the realm's
name. -/
theorem realm_secrets_isolated {isFile : String → Bool}
    (h : d.config f environment commandLine = .ok c) (hvalid : c.validate isFile = .ok ())
    (hdefault : ∀ realm ∈ c.realms, DefaultPrefix d.upper c realm) :
    (∀ realm ∈ c.realms, ∀ other ∈ c.realms, realm ≠ other → ∀ secret secret',
      (realm.secretStore.variableOf d.upper secret ≠ other.secretStore.variableOf d.upper secret' ↔
        ¬ Reaches d.upper realm.name secret other.name secret' ∧
          ¬ Reaches d.upper other.name secret' realm.name secret)) ∧
    ∀ realm ∈ c.realms, ∀ secret server,
      (realm.secretStore.variableOf d.upper secret ≠ c.secretStore.variableOf d.upper server ↔
        secretPart d.upper server ≠
          realmPart d.upper realm.name ++ "_" ++ secretPart d.upper secret) := by
  obtain ⟨husable, hnodup⟩ := validate_realms hvalid
  constructor
  · intro realm hrealm other hother hne secret secret'
    have hnames : realm.name ≠ other.name := fun hname =>
      hne (List.inj_on_of_nodup_map hnodup hrealm hother hname)
    rw [realm_variableOf (hdefault realm hrealm), realm_variableOf (hdefault other hother),
      Ne, String.append_right_inj,
      realmVariable_eq_iff (isRealmName_chars (husable realm hrealm).name)
        (isRealmName_chars (husable other hother).name) hnames, not_or]
  · intro realm hrealm secret server
    rw [realm_variableOf (hdefault realm hrealm), server_variableOf (secretsEnvPrefix_ne_empty h),
      Ne, String.append_right_inj, eq_comm]

/-! ## Names that continue one another -/

/-- Realms of these names that sign nothing. -/
def namedRealms (names : List String) : ConfigFile where
  publicHttp := { http := some "0.0.0.0:8080" }
  realms := names.map fun name => { name, keys := { enabled := some "false" } }

/-- A name without a hyphen goes on after no other. -/
theorem not_reaches {u : Uppercase} {realm other : String} {secret secret' : SecretRef}
    (h : '-' ∉ other.toList) : ¬Reaches u realm secret other secret' := by
  rintro ⟨t, rfl, -⟩
  simp at h

theorem realm_secrets_isolated_named : ∃ c,
    testDeployment.config (namedRealms ["acme", "globex"]) [] [] = .ok c ∧
    c.validate (fun _ => true) = .ok () ∧ c.realms.map (·.name) = ["acme", "globex"] ∧
    (∀ realm ∈ c.realms, DefaultPrefix asciiUppercase c realm) ∧
    (∀ realm ∈ c.realms, ∀ other ∈ c.realms, realm ≠ other → ∀ secret secret',
      realm.secretStore.variableOf asciiUppercase secret ≠
        other.secretStore.variableOf asciiUppercase secret') ∧
    ∀ realm ∈ c.realms, ∀ secret server,
      (realm.secretStore.variableOf asciiUppercase secret ≠
          c.secretStore.variableOf asciiUppercase server ↔
        secretPart asciiUppercase server ≠
          realmPart asciiUppercase realm.name ++ "_" ++ secretPart asciiUppercase secret) := by
  have hrun : ((testDeployment.config (namedRealms ["acme", "globex"]) [] []).toOption.any fun c =>
      c.validate (fun _ => true) = .ok () ∧ c.realms.map (·.name) = ["acme", "globex"] ∧
        c.realms.all fun realm =>
          realm.secretsEnvPrefix = realmEnvPrefix asciiUppercase c.secretsEnvPrefix realm.name) =
      true := by decide +kernel
  cases h : testDeployment.config (namedRealms ["acme", "globex"]) [] [] with
  | error e =>
    rw [h] at hrun
    cases hrun
  | ok c =>
    rw [h] at hrun
    obtain ⟨hvalid, hnames, hprefix⟩ : _ ∧ _ ∧ _ := of_decide_eq_true hrun
    have hdefault : ∀ realm ∈ c.realms, DefaultPrefix asciiUppercase c realm := by
      intro realm hrealm
      have hdecided := List.all_eq_true.mp hprefix realm hrealm
      rw [decide_eq_true_eq] at hdecided
      exact hdecided
    have hhyphen : ∀ realm ∈ c.realms, '-' ∉ realm.name.toList := by
      intro realm hrealm
      have hname : realm.name ∈ ["acme", "globex"] :=
        hnames ▸ List.mem_map_of_mem (f := (·.name)) hrealm
      simp only [List.mem_cons, List.not_mem_nil, or_false] at hname
      rcases hname with hname | hname
      · rw [hname]
        decide
      · rw [hname]
        decide
    have hisolated := realm_secrets_isolated h hvalid hdefault
    refine ⟨c, rfl, hvalid, hnames, hdefault, ?_, hisolated.2⟩
    intro realm hrealm other hother hne secret secret'
    exact (hisolated.1 realm hrealm other hother hne secret secret').mpr
      ⟨not_reaches (hhyphen other hother), not_reaches (hhyphen realm hrealm)⟩

/-- The secret `b-c` of the realm `a` is the secret `c` of the realm `a-b`, and the server's secret
`a-c` the secret `c` of the realm `a`. -/
theorem continued_names_share_a_variable : ∃ c realm other,
    testDeployment.config (namedRealms ["a", "a-b"]) [] [] = .ok c ∧
    c.validate (fun _ => true) = .ok () ∧ c.realms = [realm, other] ∧
    DefaultPrefix asciiUppercase c realm ∧ DefaultPrefix asciiUppercase c other ∧
    realm.name ≠ other.name ∧
    realm.secretStore.variableOf asciiUppercase ⟨"b-c"⟩ =
      other.secretStore.variableOf asciiUppercase ⟨"c"⟩ ∧
    realm.secretStore.variableOf asciiUppercase ⟨"c"⟩ =
      c.secretStore.variableOf asciiUppercase ⟨"a-c"⟩ := by
  have hrun : ((testDeployment.config (namedRealms ["a", "a-b"]) [] []).toOption.map fun c =>
      (c.validate fun _ => true, c.secretsEnvPrefix,
        c.realms.map fun realm => (realm.name, realm.secretsEnvPrefix))) =
      some (.ok (), "PIC_X_SECRET", [("a", "PIC_X_SECRET_A"), ("a-b", "PIC_X_SECRET_A_B")]) := by
    decide +kernel
  cases h : testDeployment.config (namedRealms ["a", "a-b"]) [] [] with
  | error e =>
    rw [h] at hrun
    cases hrun
  | ok c =>
    rw [h] at hrun
    have hvalues := Option.some.inj hrun
    simp only [Prod.mk.injEq] at hvalues
    obtain ⟨hvalid, hserver, hrealms⟩ := hvalues
    obtain ⟨realm, rest, hc, hrealm, hrest⟩ := List.map_eq_cons_iff.mp hrealms
    obtain ⟨other, last, rfl, hother, hlast⟩ := List.map_eq_cons_iff.mp hrest
    rw [List.map_eq_nil_iff] at hlast
    rw [Prod.mk.injEq] at hrealm hother
    refine ⟨c, realm, other, rfl, hvalid, by rw [hc, hlast], ?_, ?_, ?_, ?_, ?_⟩
    · rw [DefaultPrefix, hserver, hrealm.1, hrealm.2]
      decide
    · rw [DefaultPrefix, hserver, hother.1, hother.2]
      decide
    · rw [hrealm.1, hother.1]
      decide
    · rw [RealmConfig.secretStore, RealmConfig.secretStore, hrealm.2, hother.2]
      decide
    · rw [RealmConfig.secretStore, Config.secretStore, hrealm.2, hserver]
      decide

end PicX.Core
