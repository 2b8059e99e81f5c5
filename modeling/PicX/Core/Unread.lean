import PicX.Core.RealmLeaves

/-!
# Settings that are not read

A leaf of the configuration file that is set is read, unless it is a setting of a TLS block without
a certificate, or the list of peers in the administrative block, which is looked at only behind the
name of a directory of realm files.

* `applyPairs_congr`: a layer is what it says of the settings that are read.
* `Heard`: when a leaf is read.
* `setting_heard_iff`: **the configuration depends on a leaf exactly when it is heard**.
-/

namespace PicX.Core

/-! ## What a layer is read for -/

/-- The settings that are read wherever they are given. -/
def ALWAYS_READ : List String :=
  [SETTING_VERSION, SETTING_COPYRIGHT_YEAR, SETTING_COPYRIGHT_HOLDER, SETTING_WORKING_DIR,
    SETTING_AUTOGENERATE, SETTING_DEVELOPMENT_MODE, SETTING_ISSUER, SETTING_PUBLIC_PATH_PREFIX,
    SETTING_PUBLIC_HTTP_ADDR, SETTING_TELEMETRY_ADDR, SETTING_ADMIN_ADDR, SETTING_ADMIN_ALLOW,
    SETTING_LOG_LEVEL, SETTING_LOG_FORMAT, SETTING_PUBLIC_DISCLOSE_BUILD, SETTING_TLS_RELOAD,
    SETTING_TLS_RELOAD_INTERVAL, SETTING_LIMITS_CONNECTIONS, SETTING_LIMITS_CONNECTIONS_PER_PEER,
    SETTING_LIMITS_PEER_EXEMPT, SETTING_LIMITS_CONNECTION_LIFETIME,
    SETTING_LIMITS_WRITE_STALL_TIMEOUT, SETTING_LIMITS_CONCURRENT_REQUESTS,
    SETTING_LIMITS_REQUEST_TIMEOUT, SETTING_LIMITS_HANDSHAKE_TIMEOUT,
    SETTING_LIMITS_HEADER_TIMEOUT, SETTING_LIMITS_BODY_BYTES, SETTING_LIMITS_HEADER_BYTES,
    SETTING_SHUTDOWN_TIMEOUT, SETTING_SECRETS_PROVIDER, SETTING_SECRETS_DIRECTORY,
    SETTING_SECRETS_ENV_PREFIX, SETTING_AUDIT_PSEUDONYM_ENABLED, SETTING_AUDIT_PSEUDONYM_KEY_REF,
    SETTING_AUDIT_PSEUDONYM_KEY_VERSION, SETTING_AUDIT_SINK, SETTING_AUDIT_DIRECTORY,
    SETTING_AUDIT_RETENTION, SETTING_KEYS_ENABLED, SETTING_KEYS_DIRECTORY,
    SETTING_KEYS_PUBLISH_AHEAD, SETTING_KEYS_ROTATE_EVERY, SETTING_KEYS_RETAIN,
    SETTING_KEYS_MAINTENANCE_INTERVAL, SETTING_PUBLIC_TLS_CERT, SETTING_PUBLIC_TLS_KEY,
    SETTING_ADMIN_TLS_CERT, SETTING_ADMIN_TLS_KEY, SETTING_TELEMETRY_TLS_CERT,
    SETTING_TELEMETRY_TLS_KEY]

/-- Two layers say the same of what is read: of every setting outside the TLS blocks, of the
certificates and the keys, of the rest of a block that has a certificate, and of what the build
declares. -/
structure SameReading (declared : List String) (s s' : Settings) : Prop where
  always : ∀ key ∈ ALWAYS_READ, s key = s' key
  block : ∀ l : Listener, (s l.certKey).isSome → ∀ (k : TlsSetting) (key : String),
    k.field.key l = some key → s key = s' key
  declared : ∀ key ∈ declared, s key = s' key

variable {s s' : Settings} {declared : List String} {c : Config}

theorem applyServer_congr (h : ∀ key ∈ ALWAYS_READ, s key = s' key) :
    c.applyServer s = c.applyServer s' := by
  simp only [ALWAYS_READ, List.forall_mem_cons] at h
  simp only [Config.applyServer, Settings.read, Settings.keep, h]

theorem applyLimits_congr (h : ∀ key ∈ ALWAYS_READ, s key = s' key) :
    c.limits.apply s = c.limits.apply s' := by
  simp only [ALWAYS_READ, List.forall_mem_cons] at h
  simp only [Limits.apply, Settings.read, Settings.readPlain, h]

theorem applyRecords_congr (h : ∀ key ∈ ALWAYS_READ, s key = s' key) :
    c.applyRecords s = c.applyRecords s' := by
  simp only [ALWAYS_READ, List.forall_mem_cons] at h
  simp only [Config.applyRecords, Settings.read, Settings.keep, h]

theorem applyKeys_congr (h : ∀ key ∈ ALWAYS_READ, s key = s' key) :
    c.applyKeys s = c.applyKeys s' := by
  simp only [ALWAYS_READ, List.forall_mem_cons] at h
  simp only [Config.applyKeys, Settings.read, Settings.keep, declare, h]

theorem applyDeclared_congr (h : ∀ key ∈ c.declared, s key = s' key) :
    c.applyDeclared s = c.applyDeclared s' := by
  have hvalues : ∀ key, (if key ∈ c.declared then s.keep key some (c.declaredValues key)
      else c.declaredValues key) = (if key ∈ c.declared then s'.keep key some (c.declaredValues key)
      else c.declaredValues key) := by
    intro key
    by_cases hkey : key ∈ c.declared
    · rw [if_pos hkey, if_pos hkey, Settings.keep, Settings.keep, h key hkey]
    · rw [if_neg hkey, if_neg hkey]
  rw [Config.applyDeclared, Config.applyDeclared, funext hvalues]

/-- A TLS block without a certificate is not looked at any further. -/
theorem tlsOf_congr (l : Listener) (previous : Option TlsSettings)
    (hcert : s l.certKey = s' l.certKey) (hkey : s l.keyKey = s' l.keyKey)
    (hblock : (s l.certKey).isSome → ∀ (k : TlsSetting) (key : String),
      k.field.key l = some key → s key = s' key) :
    tlsOf s l.certKey l.keyKey l.keys previous = tlsOf s' l.certKey l.keyKey l.keys previous := by
  rw [tlsOf, tlsOf, ← hcert, ← hkey]
  cases hgiven : s l.certKey with
  | none => cases s l.keyKey <;> rfl
  | some certificate =>
    have hrest := hblock (by rw [hgiven]; rfl)
    have hallow : s.allowed l.keys.allow = s'.allowed l.keys.allow := by
      cases hk : l.keys.allow with
      | none => rfl
      | some key => rw [Settings.allowed, Settings.allowed, Settings.read, Settings.read,
          hrest .allow key hk]
    have hmin : s.read l.keys.minVersion TlsVersion.parse .v1_3 =
        s'.read l.keys.minVersion TlsVersion.parse .v1_3 := by
      rw [Settings.read, Settings.read, hrest .minVersion l.keys.minVersion rfl]
    have hca : l.keys.clientCa.bind s = l.keys.clientCa.bind s' := by
      cases hk : l.keys.clientCa with
      | none => rfl
      | some key => exact hrest .clientCa key hk
    have hcrl : l.keys.crl.bind s = l.keys.crl.bind s' := by
      cases hk : l.keys.crl with
      | none => rfl
      | some key => exact hrest .crl key hk
    rw [hallow, hmin, hca, hcrl]

theorem applyTls_congr (h : SameReading declared s s') : c.applyTls s = c.applyTls s' := by
  have hall := h.always
  simp only [ALWAYS_READ, List.forall_mem_cons] at hall
  have hpublic := tlsOf_congr .publicHttp c.publicTls
    (h.always _ (by decide)) (h.always _ (by decide)) (h.block .publicHttp)
  have hadmin := tlsOf_congr .admin c.adminTls
    (h.always _ (by decide)) (h.always _ (by decide)) (h.block .admin)
  have htelemetry := tlsOf_congr .telemetry c.telemetryTls
    (h.always _ (by decide)) (h.always _ (by decide)) (h.block .telemetry)
  dsimp only [Listener.certKey, Listener.keyKey, Listener.keys] at hpublic hadmin htelemetry
  rw [Config.applyTls, Config.applyTls, hpublic, hadmin, htelemetry]
  simp only [Settings.read, hall]

/-- A layer is what it says of the settings that are read. -/
theorem applyPairs_congr {inputs inputs' : Pairs}
    (h : SameReading c.declared (settingsOf inputs) (settingsOf inputs')) :
    c.applyPairs inputs = c.applyPairs inputs' := by
  unfold Config.applyPairs
  dsimp only
  rw [applyServer_congr h.always]
  refine bind_congr_ok fun c₁ hserver => ?_
  rw [applyTls_congr h]
  refine bind_congr_ok fun c₂ htls => ?_
  rw [applyLimits_congr h.always]
  refine bind_congr_ok fun limits hlimits => ?_
  rw [applyRecords_congr h.always]
  refine bind_congr_ok fun c₃ hrecords => ?_
  rw [applyKeys_congr h.always]
  refine bind_congr_ok fun c₄ hkeys => ?_
  have hdeclared : c₄.declared = c.declared := by
    rw [(applyKeys_applies hkeys).declared, (applyRecords_applies hrecords).declared,
      (applyLimits_applies hlimits).declared, (applyTls_applies htls).declared,
      (applyServer_applies hserver).declared]
  rw [applyDeclared_congr (hdeclared ▸ h.declared)]

theorem fromLayers_congr {build : BuildSettings} {file file' environment commandLine : Pairs}
    (h : SameReading declared (settingsOf file) (settingsOf file')) :
    Config.fromLayers build declared { file, environment, commandLine } =
      Config.fromLayers build declared { file := file', environment, commandLine } := by
  unfold Config.fromLayers
  dsimp only
  rw [applyPairs_congr (c := Config.applyBuildSettings build { declared }) h]

/-- The file's layer gives a setting the same, when the file says the same of it. -/
theorem settingsOf_settings_congr {f f' : ConfigFile} {key : String}
    (h : ∀ value, (key, value) ∈ f.candidates ↔ (key, value) ∈ f'.candidates) :
    settingsOf f.settings key = settingsOf f'.settings key := by
  by_cases hgiven : ∃ value, (key, value) ∈ f.candidates
  · obtain ⟨value, hvalue⟩ := hgiven
    rw [settingsOf_settings hvalue, settingsOf_settings ((h value).mp hvalue)]
  · have hnone : ∀ g : ConfigFile, (∀ value, (key, value) ∉ g.candidates) →
        settingsOf g.settings key = none := by
      intro g hg
      refine settingsOf_eq_none fun value hvalue => ?_
      obtain ⟨⟨key', value'⟩, hmem, hpair⟩ := List.mem_filterMap.mp hvalue
      obtain ⟨v, -, heq⟩ := Option.map_eq_some_iff.mp hpair
      cases heq
      exact absurd hmem (hg value')
    rw [hnone f fun value hvalue => hgiven ⟨value, hvalue⟩,
      hnone f' fun value hvalue => hgiven ⟨value, (h value).mpr hvalue⟩]

/-! ## The leaves of the file -/

/-- A leaf of the configuration file. -/
inductive Leaf where
  | setting (k : Setting)
  | tls (l : Listener) (k : TlsSetting)
  | realmsFrom
  | realm (i : Nat) (leaf : RealmLeaf)
  deriving DecidableEq, Repr

theorem set_realmsFrom (f : ConfigFile) : { f with realmsFrom := f.realmsFrom } = f := rfl

theorem set_realms (f : ConfigFile) : { f with realms := f.realms } = f := rfl

def Leaf.slot : Leaf → Slot ConfigFile
  | .setting k => k.entry.slot
  | .tls l k => (l.entry k).slot
  | .realmsFrom => .optional (·.realmsFrom) (fun v f => { f with realmsFrom := v }) set_realmsFrom
  | .realm i leaf =>
    (leaf.slot.nth i).inside (·.realms) (fun v f => { f with realms := v }) set_realms

/-- The certificate the file names for a listener. -/
def Listener.certificate (f : ConfigFile) : Listener → Option String
  | .publicHttp => f.publicHttp.tls.cert
  | .admin => f.admin.tls.cert
  | .telemetry => f.telemetry.tls.cert

/-- The file gives the listener a certificate. -/
def Listener.HasCertificate (l : Listener) (f : ConfigFile) : Prop :=
  ∃ certificate, l.certificate f = some certificate ∧ certificate ≠ ""

/-- When a leaf is read: the settings of a TLS block beside its certificate and its key where there
is a certificate, or where the build declares the setting as one of its own; the list of peers in
the administrative block where a directory of realm files is named; and every other leaf always. -/
def Leaf.Heard (d : Deployment) (f : ConfigFile) : Leaf → Prop
  | .tls _ .certificate | .tls _ .key => True
  | .tls l k =>
    match k.field.key l with
    | some key => l.HasCertificate f ∨ key ∈ d.declared
    | none => f.realmsFrom.isSome
  | _ => True

/-! ## Loading a file -/

variable {d : Deployment} {f f' : ConfigFile} {v : String}

/-- The realms of the file and of the directory it names. -/
def Deployment.realms (d : Deployment) (f : ConfigFile) : Result (List RealmSection) :=
  (f.gatherRealmsFrom d.readDir d.parent).map (·.realms)

theorem config_eq (d : Deployment) (f : ConfigFile) :
    d.config f [] [] = (do
      let realms ← d.realms f
      let c ← Config.fromLayers d.build d.declared { file := f.settings }
      c.withRealms d.upper (realms.map RealmSection.toInput)) := by
  rw [Deployment.config, Deployment.realms]
  cases h : f.gatherRealmsFrom d.readDir d.parent with
  | error e => rfl
  | ok f' =>
    show (Config.fromLayers d.build d.declared { file := f'.settings } >>= fun c =>
      c.withRealms d.upper f'.realmInputs) = _
    rw [gatherRealmsFrom_settings h]
    rfl

theorem realms_congr (hfrom : f.realmsFrom = f'.realmsFrom) (hrealms : f.realms = f'.realms)
    (hallow : f.admin.tls.allow = f'.admin.tls.allow) : d.realms f = d.realms f' := by
  unfold Deployment.realms ConfigFile.gatherRealmsFrom
  rw [hfrom, hallow, hrealms]
  cases f'.realmsFrom with
  | none => exact congrArg Except.ok hrealms
  | some named =>
    dsimp only
    cases withContext s!"reading the realms directory {realmsDirectory d.parent named}"
        (d.readDir (realmsDirectory d.parent named)) with
    | error e => rfl
    | ok entries =>
      show Except.map _ (visibleFiles _ entries >>= _) = Except.map _ (visibleFiles _ entries >>= _)
      cases visibleFiles (realmsDirectory d.parent named) entries with
      | error e => rfl
      | ok files =>
        show Except.map _ (files.foldlM _ f'.realms >>= _) =
          Except.map _ (files.foldlM _ f'.realms >>= _)
        cases files.foldlM (gatherRealm (realmsDirectory d.parent named)) f'.realms with
        | error e => rfl
        | ok realms =>
          show Except.map _ (if _ then _ else _) = Except.map _ (if _ then _ else _)
          split <;> rfl

theorem gatherRealm_append {directory : String} {realms next : List RealmSection} {e : DirEntry}
    (h : gatherRealm directory realms e = .ok next) : ∃ realm, next = realms ++ [realm] := by
  simp only [gatherRealm, bind_ok] at h
  obtain ⟨realm, -, h⟩ := h
  split at h
  · cases h
  · split at h
    · cases h
    · exact ⟨realm, (pure_ok.mp h).symm⟩

theorem gatherRealm_fold {directory : String} {files : List DirEntry}
    {realms all : List RealmSection} (h : files.foldlM (gatherRealm directory) realms = .ok all) :
    ∃ more, all = realms ++ more := by
  induction files generalizing realms with
  | nil => exact ⟨[], by rw [List.append_nil]; exact (pure_ok.mp h).symm⟩
  | cons e files ih =>
    rw [List.foldlM_cons] at h
    obtain ⟨next, hnext, h⟩ := bind_ok.mp h
    obtain ⟨realm, rfl⟩ := gatherRealm_append hnext
    obtain ⟨more, rfl⟩ := ih h
    exact ⟨realm :: more, by rw [List.append_assoc, List.singleton_append]⟩

/-- The realms of the directory come after the realms of the file. -/
theorem realms_append {all : List RealmSection} (h : d.realms f = .ok all) :
    ∃ more, all = f.realms ++ more := by
  obtain ⟨f', hf', rfl⟩ := map_ok.mp h
  unfold ConfigFile.gatherRealmsFrom at hf'
  split at hf'
  · rw [← Except.ok.inj hf']
    exact ⟨[], (List.append_nil _).symm⟩
  · simp only [bind_ok] at hf'
    obtain ⟨entries, -, files, -, realms, hrealms, hf'⟩ := hf'
    split at hf'
    · cases hf'
    · rw [← pure_ok.mp hf']
      exact gatherRealm_fold hrealms

/-- What is known of a file that loads: what its settings give, and each of its realms resolved. -/
structure Loaded (d : Deployment) (f : ConfigFile) (c base : Config) : Prop where
  settings : Config.fromLayers d.build d.declared { file := f.settings } = .ok base
  same : c = { base with realms := c.realms }
  realms : ∀ (i : Nat) (r : RealmSection), f.realms[i]? = some r →
    ∃ realm, c.realms[i]? = some realm ∧ base.resolveRealm d.upper r.toInput = .ok realm

theorem config_loaded (h : d.config f [] [] = .ok c) : ∃ base, Loaded d f c base := by
  rw [config_eq] at h
  obtain ⟨all, hall, h⟩ := bind_ok.mp h
  obtain ⟨base, hbase, h⟩ := bind_ok.mp h
  obtain ⟨realms, hrealms, h⟩ := bind_ok.mp h
  obtain rfl := pure_ok.mp h
  obtain ⟨more, rfl⟩ := realms_append hall
  refine ⟨base, hbase, rfl, fun i r hr => ?_⟩
  have hinput : ((f.realms ++ more).map RealmSection.toInput)[i]? = some r.toInput := by
    rw [List.getElem?_map, List.getElem?_append_left (List.getElem?_eq_some_iff.mp hr).1, hr]
    rfl
  obtain ⟨hi, hget⟩ := List.getElem?_eq_some_iff.mp hinput
  have hread := mapM_ok.mp hrealms
  have hi' := hread.length_eq ▸ hi
  refine ⟨realms[i], List.getElem?_eq_getElem hi', ?_⟩
  have := hread.get hi hi'
  rw [List.get_eq_getElem, List.get_eq_getElem] at this
  rw [← hget]
  exact this

theorem Loaded.get_eq {base : Config} (h : Loaded d f c base) (k : Setting) :
    k.field.get c = k.field.get base := by
  rw [h.same]
  cases k <;> rfl

theorem Loaded.tls_eq {base : Config} (h : Loaded d f c base) (l : Listener) :
    c.tls l = base.tls l := by
  rw [h.same]
  cases l <;> rfl

theorem certificate_given (f : ConfigFile) (l : Listener) :
    settingsOf f.settings l.certKey = (l.certificate f).filter (· ≠ "") := by
  refine settingsOf_settings ?_
  cases l
  case publicHttp => exact List.mem_of_getElem? (i := 36) rfl
  case admin => exact List.mem_of_getElem? (i := 40) rfl
  case telemetry => exact List.mem_of_getElem? (i := 44) rfl

theorem hasCertificate_iff {l : Listener} :
    (settingsOf f.settings l.certKey).isSome ↔ l.HasCertificate f := by
  rw [certificate_given, Listener.HasCertificate]
  cases l.certificate f with
  | none => simp
  | some certificate => simp [Option.filter_some]

/-- A file that loads gives a listener a certificate and a key, or neither. -/
theorem Loaded.pair {base : Config} (h : Loaded d f c base) (l : Listener) :
    (settingsOf f.settings l.certKey).isSome = (settingsOf f.settings l.keyKey).isSome := by
  obtain ⟨c₁, -, hfile, -, -⟩ := fromLayers_ok h.settings
  have htls := applyPairs_tls hfile l
  unfold tlsOf at htls
  split at htls
  · next hcert hkey => rw [hcert, hkey]; rfl
  · next hcert hkey => rw [hcert, hkey]
  · cases htls
  · cases htls

/-- A text of the file is what the configuration has, outside the TLS blocks -/
theorem Loaded.reads {base : Config} (h : Loaded d f c base) (k : Setting) {t : String}
    (hgiven : settingsOf f.settings k.field.key = some t) :
    k.field.parse t = .ok (k.field.get c) := by
  have hgives := fromLayers_gives h.settings k
  have hlast : ({ file := f.settings } : Layers).last k.field.key = some t := by
    rw [Layers.last, hgiven]
    rfl
  rw [hlast, ← h.get_eq k] at hgives
  exact hgives

/-- and in the blocks that have a certificate. -/
theorem Loaded.reads_tls {base : Config} (h : Loaded d f c base) {l : Listener}
    (hcert : l.HasCertificate f) (k : TlsSetting) {key t : String}
    (hk : k.field.key l = some key) (hgiven : settingsOf f.settings key = some t) :
    k.field.parse t = .ok (k.field.get (c.tls l)) := by
  have hgives := fromLayers_tls h.settings l k hk
  rw [block_of_file _ l rfl rfl (hasCertificate_iff.mpr hcert), hgiven, ← h.tls_eq l] at hgives
  exact hgives

theorem Loaded.reads_declared {base : Config} (h : Loaded d f c base) {key : String}
    (hkey : key ∈ d.declared) : c.setting key = settingsOf f.settings key := by
  have hsetting := fromLayers_declared h.settings key hkey
  have hlast : ({ file := f.settings } : Layers).last key = settingsOf f.settings key := by
    rw [Layers.last]
    exact Option.none_or.trans Option.none_or
  rw [h.same]
  exact hsetting.trans hlast

/-! ## Leaves that are read -/

/-- The same configuration, whatever the leaf is set to. -/
def Silent (d : Deployment) (f : ConfigFile) (slot : Slot ConfigFile) (c : Config) : Prop :=
  ∀ v, d.config (slot.set v f) [] [] = .ok c

theorem setting_not_silent (k : Setting) (hvalue : Nonempty k.entry.slot.Value) :
    ¬ Silent d f k.entry.slot c := by
  intro hsilent
  obtain ⟨t, t', ht, ht', hne⟩ := k.parse_discerns
  have hread : ∀ t : String, t ≠ "" → k.field.parse t = .ok (k.field.get c) := by
    intro t ht
    obtain ⟨v, hv⟩ := k.entry_full hvalue t
    obtain ⟨base, hbase⟩ := config_loaded (hsilent v)
    refine hbase.reads k ?_
    rw [settingsOf_settings (k.entry_candidate v f), hv, Option.filter_some,
      if_pos (by simpa using ht)]
  exact hne _ (hread t ht) (hread t' ht')

/-- What a TLS setting is set to is what the file's layer gives. -/
theorem tls_given {l : Listener} {k : TlsSetting} {key t : String} (hk : k.field.key l = some key)
    {v : (l.entry k).slot.Value} (hv : (l.entry k).text v = some t) (ht : t ≠ "") :
    settingsOf ((l.entry k).slot.set v f).settings key = some t := by
  rw [settingsOf_settings (Listener.entry_candidate hk v f), hv, Option.filter_some,
    if_pos (by simpa using ht)]

/-- A TLS setting whose block has a certificate, whatever it is set to. -/
theorem tls_not_silent {l : Listener} {k : TlsSetting} {key : String}
    (hk : k.field.key l = some key) (hvalue : Nonempty (l.entry k).slot.Value)
    (hcert : ∀ v t, (l.entry k).text v = some t → t ≠ "" →
      d.config ((l.entry k).slot.set v f) [] [] = .ok c →
        l.HasCertificate ((l.entry k).slot.set v f)) :
    ¬ Silent d f (l.entry k).slot c := by
  intro hsilent
  obtain ⟨t, t', ht, ht', hne⟩ := k.parse_discerns
  have hread : ∀ t : String, t ≠ "" → k.field.parse t = .ok (k.field.get (c.tls l)) := by
    intro t ht
    obtain ⟨v, hv⟩ := l.entry_full k hvalue t
    obtain ⟨base, hbase⟩ := config_loaded (hsilent v)
    exact hbase.reads_tls (hcert v t hv ht (hsilent v)) k hk (tls_given hk hv ht)
  exact hne _ (hread t ht) (hread t' ht')

/-- A TLS setting the build declares as one of its own. -/
theorem declared_not_silent {l : Listener} {k : TlsSetting} {key : String}
    (hk : k.field.key l = some key) (hvalue : Nonempty (l.entry k).slot.Value)
    (hkey : key ∈ d.declared) : ¬ Silent d f (l.entry k).slot c := by
  intro hsilent
  have hread : ∀ t : String, t ≠ "" → c.setting key = some t := by
    intro t ht
    obtain ⟨v, hv⟩ := l.entry_full k hvalue t
    obtain ⟨base, hbase⟩ := config_loaded (hsilent v)
    rw [hbase.reads_declared hkey, tls_given hk hv ht]
  have ha := hread "a" (by decide)
  rw [hread "b" (by decide)] at ha
  exact a_ne_b (Option.some.inj ha).symm

/-- A listener's certificate stays what it is while another of its settings changes. -/
theorem certificate_set {l : Listener} {k : TlsSetting} (hk : k ≠ .certificate)
    (v : (l.entry k).slot.Value) : l.certificate ((l.entry k).slot.set v f) = l.certificate f := by
  cases k
  case certificate => exact absurd rfl hk
  all_goals cases l <;> rfl

theorem certificate_not_silent (l : Listener) : ¬ Silent d f (l.entry .certificate).slot c := by
  refine tls_not_silent rfl (by cases l <;> exact ⟨"a"⟩) ?_
  intro v t hv ht _
  rw [← hasCertificate_iff, tls_given rfl hv ht]
  rfl

theorem key_not_silent (l : Listener) : ¬ Silent d f (l.entry .key).slot c := by
  refine tls_not_silent rfl (by cases l <;> exact ⟨"a"⟩) ?_
  -- a key without a certificate is refused
  intro v t hv ht h
  obtain ⟨base, hbase⟩ := config_loaded h
  rw [← hasCertificate_iff, hbase.pair, tls_given rfl hv ht]
  rfl

/-- The list of peers in the administrative block, where a directory is named. -/
theorem admin_allow_not_silent (hfrom : f.realmsFrom.isSome) :
    ¬ Silent d f (Listener.admin.entry .allow).slot c := by
  intro hsilent
  have h := hsilent ["a"]
  obtain ⟨named, hnamed⟩ := Option.isSome_iff_exists.mp hfrom
  rw [config_eq] at h
  obtain ⟨all, hall, -⟩ := bind_ok.mp h
  obtain ⟨f', hf', -⟩ := map_ok.mp hall
  have hset : ((Listener.admin.entry .allow).slot.set ["a"] f).realmsFrom = some named := hnamed
  unfold ConfigFile.gatherRealmsFrom at hf'
  rw [hset] at hf'
  simp only [bind_ok] at hf'
  obtain ⟨entries, -, files, -, realms, -, hf'⟩ := hf'
  cases hf'

/-- A directory that is not there. -/
theorem exists_absent_directory (d : Deployment) : ∃ named e,
    withContext s!"reading the realms directory {realmsDirectory d.parent named}"
      (d.readDir (realmsDirectory d.parent named)) = .error e := by
  obtain ⟨longest, hlongest⟩ : ∃ n, ∀ entry ∈ d.directories, entry.1.length ≤ n :=
    ⟨_, fun entry hentry => List.le_max?_getD_of_mem (k := 0)
      (List.mem_map.mpr ⟨entry, hentry, rfl⟩ :
        entry.1.length ∈ d.directories.map fun entry => entry.1.length)⟩
  refine ⟨String.ofList ('/' :: List.replicate longest 'a'), ?_⟩
  have hdirectory : realmsDirectory d.parent (String.ofList ('/' :: List.replicate longest 'a')) =
      String.ofList ('/' :: List.replicate longest 'a') := by
    rw [realmsDirectory, if_pos (by rw [String.toList_ofList]; rfl)]
  have habsent : d.directories.find? (·.1 = String.ofList ('/' :: List.replicate longest 'a')) =
      none := by
    rw [List.find?_eq_none]
    intro entry hentry heq
    have hle := hlongest entry hentry
    rw [show entry.1 = String.ofList ('/' :: List.replicate longest 'a') by simpa using heq,
      String.length_ofList, List.length_cons, List.length_replicate] at hle
    omega
  rw [hdirectory, Deployment.readDir, habsent]
  exact ⟨_, rfl⟩

theorem realmsFrom_not_silent : ¬ Silent d f Leaf.realmsFrom.slot c := by
  intro hsilent
  obtain ⟨named, e, hdirectory⟩ := exists_absent_directory d
  have h := hsilent named
  rw [config_eq] at h
  obtain ⟨all, hall, -⟩ := bind_ok.mp h
  obtain ⟨f', hf', -⟩ := map_ok.mp hall
  have hset : (Leaf.realmsFrom.slot.set named f).realmsFrom = some named := rfl
  unfold ConfigFile.gatherRealmsFrom at hf'
  rw [hset] at hf'
  simp only [bind_ok] at hf'
  obtain ⟨entries, hentries, -⟩ := hf'
  rw [hdirectory] at hentries
  cases hentries

theorem realm_not_silent (i : Nat) (leaf : RealmLeaf)
    (hset : ((Leaf.realm i leaf).slot.get f).isSome) :
    ¬ Silent d f (Leaf.realm i leaf).slot c := by
  intro hsilent
  obtain ⟨v, hv⟩ := Option.isSome_iff_exists.mp hset
  obtain ⟨r, hr, hget⟩ := Option.bind_eq_some_iff.mp hv
  obtain ⟨w, w', hne⟩ := leaf.told ⟨v⟩
  have hresolved : ∀ w : leaf.slot.Value, ∃ (base : Config) (realm : RealmConfig),
      c.realms[i]? = some realm ∧
      base.resolveRealm d.upper (leaf.slot.set w r).toInput = .ok realm := by
    intro w
    obtain ⟨base, hbase⟩ := config_loaded (hsilent w)
    have hentry : ((Leaf.realm i leaf).slot.set w f).realms[i]? = some (leaf.slot.set w r) := by
      show (f.realms.modify i (leaf.slot.set w))[i]? = _
      have hr' : f.realms[i]? = some r := hr
      rw [List.getElem?_modify, hr', Option.map_eq_map, Option.map_some, if_pos rfl]
    obtain ⟨realm, hrealm, hresolve⟩ := hbase.realms i _ hentry
    exact ⟨base, realm, hrealm, hresolve⟩
  obtain ⟨base, realm, hrealm, hresolve⟩ := hresolved w
  obtain ⟨base', realm', hrealm', hresolve'⟩ := hresolved w'
  rw [hrealm] at hrealm'
  cases hrealm'
  exact hne r d.upper base base' realm (by rw [hget]; rfl) hresolve hresolve'

/-! ## Leaves that are not read -/

/-- The settings of a block beside its certificate and its key are none of those that are always
read, nor are they in another block. -/
theorem block_keys_apart {l : Listener} {k : TlsSetting} {key : String}
    (hk : k.field.key l = some key) (hcert : k ≠ .certificate) (hkey : k ≠ .key) :
    key ∉ ALWAYS_READ ∧ ∀ (l' : Listener) (k' : TlsSetting) (key' : String),
      k'.field.key l' = some key' → key' = key → l' = l := by
  have hapart : ∀ key ∈ ALWAYS_READ, ∀ key' ∈ [SETTING_PUBLIC_TLS_CLIENT_CA,
      SETTING_PUBLIC_TLS_CRL, SETTING_PUBLIC_TLS_ALLOW, SETTING_PUBLIC_TLS_MIN_VERSION,
      SETTING_ADMIN_TLS_CLIENT_CA, SETTING_ADMIN_TLS_CRL, SETTING_ADMIN_TLS_MIN_VERSION,
      SETTING_TELEMETRY_TLS_MIN_VERSION], key ≠ key' := by decide +kernel
  constructor
  · intro hmem
    refine hapart key hmem key ?_ rfl
    cases l <;> cases k <;> cases hk <;> first
      | exact absurd rfl hcert
      | exact absurd rfl hkey
      | decide
  · intro l' k' key' hk' heq
    subst heq
    cases l <;> cases k <;> cases hk <;> cases l' <;> first
      | rfl
      | exact absurd rfl hcert
      | exact absurd rfl hkey
      | (cases k' <;> exact absurd hk' (by decide))

/-- A TLS setting of the file changes what its layer gives that setting, and nothing else. -/
theorem tls_others_given {l : Listener} {k : TlsSetting} {key : String}
    (hk : k.field.key l = some key) (v : (l.entry k).slot.Value) {other : String}
    (hne : other ≠ key) : settingsOf ((l.entry k).slot.set v f).settings other =
      settingsOf f.settings other := by
  refine settingsOf_settings_congr fun value => ?_
  rw [Listener.entry_candidates hk]
  have hplace : (f.candidates[l.position k]?).map Prod.fst = some key := by
    cases l <;> cases k <;> cases hk <;> rfl
  constructor
  · intro hmem
    rcases List.mem_or_eq_of_mem_set hmem with hmem | heq
    · exact hmem
    · exact absurd (Prod.mk.inj heq).1 hne
  · intro hmem
    obtain ⟨i, hi⟩ := List.mem_iff_getElem?.mp hmem
    refine List.mem_of_getElem? (i := i) ?_
    rw [List.getElem?_set_ne]
    · exact hi
    · intro heq
      rw [heq, hi] at hplace
      exact hne (Option.some.inj hplace)

theorem tls_silent {l : Listener} {k : TlsSetting} {key : String} (hk : k.field.key l = some key)
    (hcert : k ≠ .certificate) (hkey : k ≠ .key) (hnone : ¬ l.HasCertificate f)
    (hdeclared : key ∉ d.declared) (v : (l.entry k).slot.Value) :
    d.config ((l.entry k).slot.set v f) [] [] = d.config f [] [] := by
  obtain ⟨halways, hblocks⟩ := block_keys_apart hk hcert hkey
  have hrealms : d.realms ((l.entry k).slot.set v f) = d.realms f := by
    refine realms_congr ?_ ?_ ?_ <;> cases l <;> cases k <;> cases hk <;> rfl
  have hsame : SameReading d.declared (settingsOf ((l.entry k).slot.set v f).settings)
      (settingsOf f.settings) := by
    refine ⟨fun other hother => ?_, fun l' hsome k' key' hk' => ?_, fun other hother => ?_⟩
    · exact tls_others_given hk v fun heq => halways (heq ▸ hother)
    · refine tls_others_given hk v fun heq => hnone ?_
      obtain rfl := hblocks l' k' key' hk' heq
      rw [hasCertificate_iff, Listener.HasCertificate, certificate_set hcert v] at hsome
      exact hsome
    · exact tls_others_given hk v fun heq => hdeclared (heq ▸ hother)
  rw [config_eq, config_eq, hrealms, fromLayers_congr hsame]

/-- The list of peers in the administrative block is not looked at where no directory is named. -/
theorem admin_allow_silent (hfrom : f.realmsFrom = none)
    (v : (Listener.admin.entry .allow).slot.Value) :
    d.config ((Listener.admin.entry .allow).slot.set v f) [] [] = d.config f [] [] := by
  have hall : ∀ g : ConfigFile, g.realmsFrom = none → d.realms g = .ok g.realms := by
    intro g hg
    unfold Deployment.realms ConfigFile.gatherRealmsFrom
    rw [hg]
    rfl
  have hset : d.realms ((Listener.admin.entry .allow).slot.set v f) = .ok f.realms :=
    hall _ hfrom
  rw [config_eq, config_eq, hall f hfrom, hset]
  rfl

theorem heard_tls_iff {l : Listener} {k : TlsSetting} {key : String} (hk : k.field.key l = some key)
    (hcert : k ≠ .certificate) (hkey : k ≠ .key) :
    (Leaf.tls l k).Heard d f ↔ l.HasCertificate f ∨ key ∈ d.declared := by
  cases l <;> cases k <;> cases hk <;> first
    | exact absurd rfl hcert
    | exact absurd rfl hkey
    | exact Iff.rfl

/-- **The configuration depends on a leaf exactly when the leaf is heard**: of a file that loads,
some other value of the leaf gives another configuration or an error. -/
theorem setting_heard_iff {leaf : Leaf} {v : leaf.slot.Value} (hset : leaf.slot.get f = some v)
    (hload : d.config f [] [] = .ok c) :
    (∃ v', v' ≠ v ∧ d.config (leaf.slot.set v' f) [] [] ≠ .ok c) ↔ leaf.Heard d f := by
  -- the value that stands there gives the configuration it gave
  have hsilent : (∃ v', v' ≠ v ∧ d.config (leaf.slot.set v' f) [] [] ≠ .ok c) ↔
      ¬ Silent d f leaf.slot c := by
    rw [Silent, not_forall]
    refine exists_congr fun v' => ⟨And.right, fun hne => ⟨?_, hne⟩⟩
    intro heq
    rw [heq, leaf.slot.set_get f v hset] at hne
    exact hne hload
  rw [hsilent]
  cases leaf with
  | setting k => exact iff_of_true (setting_not_silent k ⟨v⟩) trivial
  | realmsFrom => exact iff_of_true realmsFrom_not_silent trivial
  | realm i leaf => exact iff_of_true (realm_not_silent i leaf (by rw [hset]; rfl)) trivial
  | tls l k =>
    by_cases hcert : k = .certificate
    · subst hcert
      exact iff_of_true (certificate_not_silent l) trivial
    by_cases hkey : k = .key
    · subst hkey
      exact iff_of_true (key_not_silent l) trivial
    cases hk : k.field.key l with
    | some key =>
      rw [heard_tls_iff hk hcert hkey]
      constructor
      · intro hnot
        by_contra hunheard
        rw [not_or] at hunheard
        refine hnot fun v' => ?_
        exact (tls_silent hk hcert hkey hunheard.1 hunheard.2 v').trans hload
      · intro hor
        rcases hor with hhas | hdeclared
        · refine tls_not_silent hk ⟨v⟩ fun v' _ _ _ _ => ?_
          rw [Listener.HasCertificate, certificate_set hcert v']
          exact hhas
        · exact declared_not_silent hk ⟨v⟩ hdeclared
    | none =>
      -- the administrative list is the one setting without a key that can be set
      obtain ⟨rfl, rfl⟩ : l = .admin ∧ k = .allow := by
        cases l <;> cases k <;> first
          | exact ⟨rfl, rfl⟩
          | exact Empty.elim v
          | cases hk
      show ¬ Silent d f _ c ↔ f.realmsFrom.isSome
      constructor
      · intro hnot
        by_contra hfrom
        rw [Option.not_isSome_iff_eq_none] at hfrom
        exact hnot fun v' => (admin_allow_silent hfrom v').trans hload
      · exact admin_allow_not_silent

/-- The list of a public listener with a certificate is heard. -/
theorem setting_heard_listing : ∃ c,
    testDeployment.config (listingFile ["cn:billing"]) [] [] = .ok c ∧
      ∃ v', v' ≠ ["cn:billing"] ∧ testDeployment.config
        ((Leaf.tls .publicHttp .allow).slot.set v' (listingFile ["cn:billing"])) [] [] ≠ .ok c := by
  have hok : (testDeployment.config (listingFile ["cn:billing"]) [] []).isOk = true := by
    decide +kernel
  cases h : testDeployment.config (listingFile ["cn:billing"]) [] [] with
  | error e => rw [h] at hok; cases hok
  | ok c =>
    have hset : (Leaf.tls .publicHttp .allow).slot.get (listingFile ["cn:billing"]) =
        some ["cn:billing"] := rfl
    exact ⟨c, rfl, (setting_heard_iff hset h).mpr (Or.inl ⟨"tls/server.pem", rfl, by decide⟩)⟩

/-! ## A list in the wrong block -/

/-- The peers of the administrative surface, in its TLS block. -/
def misplacedFile : ConfigFile where
  admin := { tls := { allow := some ["cn:ops"] } }

/-- The file loads and the list is nowhere, whoever it names. -/
theorem misplaced_allow_ignored :
    (Leaf.tls .admin .allow).slot.get misplacedFile = some ["cn:ops"] ∧ ∃ c,
      testDeployment.config misplacedFile [] [] = .ok c ∧ ∀ v,
        testDeployment.config ((Leaf.tls .admin .allow).slot.set v misplacedFile) [] [] =
          .ok c := by
  refine ⟨rfl, ?_⟩
  have hok : (testDeployment.config misplacedFile [] []).isOk = true := by decide +kernel
  cases h : testDeployment.config misplacedFile [] [] with
  | error e => rw [h] at hok; cases hok
  | ok c => exact ⟨c, rfl, fun v => (admin_allow_silent rfl v).trans h⟩

end PicX.Core
