import PicX.Base.Slots
import PicX.Core.AllowLists

/-!
# The leaves of the configuration file

Every leaf of the file's sections, as a slot of the document: the settings the file gives
(`Setting.entry`), the TLS settings of each listener (`Listener.entry`), the directory of realm
files, and everything a realm declares (`RealmLeaf.slot`), down to the mappings and the rules of its
exchange profiles.

* `Entry` — a leaf, and the text it contributes as a setting.
* `Discerns` — a way of reading a text that tells two texts apart.
* `RealmSetting.field`, `resolveRealm_reads` — where each text of a realm ends up.
-/

namespace PicX.Core

/-! ## Texts that are told apart -/

/-- There are two texts that are not read as the same value. -/
def Discerns {α : Type} (parse : String → Result α) : Prop :=
  ∃ t t' : String, t ≠ "" ∧ t' ≠ "" ∧ ∀ a, parse t = .ok a → parse t' ≠ .ok a

/-- A text that cannot be read. -/
theorem discerns_of_refused {α : Type} {parse : String → Result α} (t : String) (hne : t ≠ "")
    (h : (parse t).isOk = false) : Discerns parse := by
  refine ⟨t, t, hne, hne, fun a ha => ?_⟩
  rw [ha] at h
  cases h

/-- Two texts that are kept as they were written. -/
theorem discerns_of_kept {α : Type} (keep : String → α) (h : keep "a" ≠ keep "b") :
    Discerns fun t => .ok (keep t) := by
  refine ⟨"a", "b", by decide, by decide, fun a ha ha' => h ?_⟩
  exact (Except.ok.inj ha).trans (Except.ok.inj ha').symm

theorem parseBool_discerns : Discerns parseBool := discerns_of_refused "!" (by decide) (by decide)

theorem parseDuration_discerns : Discerns parseDuration :=
  discerns_of_refused "!" (by decide) (by decide +kernel)

/-! ## Entries -/

/-- A leaf of a section, with the text it contributes as a setting. -/
structure Entry (σ : Type) where
  slot : Slot σ
  text : slot.Value → Option String

namespace Entry

variable {σ τ : Type}

/-- A leaf that holds a text. -/
def plain (get : σ → Option String) (set : Option String → σ → σ) (h : ∀ s, set (get s) s = s) :
    Entry σ := ⟨.optional get set h, some⟩

/-- A leaf that holds a list, joined into one text. -/
def list (separator : String) (get : σ → Option (List String))
    (set : Option (List String) → σ → σ) (h : ∀ s, set (get s) s = s) : Entry σ :=
  ⟨.optional get set h, joined separator⟩

/-- A leaf the section does not have. -/
def absent : Entry σ := ⟨.absent, fun _ => none⟩

def inside (e : Entry τ) (get : σ → τ) (set : τ → σ → σ) (h : ∀ s, set (get s) s = s) : Entry σ :=
  ⟨e.slot.inside get set h, e.text⟩

/-- Every text can be written there, if anything can. -/
def Full (e : Entry σ) : Prop := Nonempty e.slot.Value → ∀ t, ∃ v, e.text v = some t

theorem plain_full {get : σ → Option String} {set : Option String → σ → σ}
    {h : ∀ s, set (get s) s = s} : (plain get set h).Full := fun _ t => ⟨t, rfl⟩

theorem joined_singleton (separator t : String) : joined separator [t] = some t := by
  simp [joined, joinWith]

theorem absent_full : (absent : Entry σ).Full := fun ⟨v⟩ => nomatch v

end Entry

/-! ## The settings of the file -/

/-- Where the file gives a setting. -/
def Setting.entry : Setting → Entry ConfigFile
  | .version | .copyrightYear | .copyrightHolder => .absent
  | .workingDir => .plain (·.workingDir) (fun v f => { f with workingDir := v }) fun _ => rfl
  | .autogenerate => .plain (·.autogenerate) (fun v f => { f with autogenerate := v }) fun _ => rfl
  | .developmentMode =>
    .plain (·.developmentMode) (fun v f => { f with developmentMode := v }) fun _ => rfl
  | .issuer => .plain (·.publicHttp.url)
      (fun v f => { f with publicHttp := { f.publicHttp with url := v } }) fun _ => rfl
  | .publicPathPrefix => .plain (·.publicHttp.pathPrefix)
      (fun v f => { f with publicHttp := { f.publicHttp with pathPrefix := v } }) fun _ => rfl
  | .publicHttpAddr => .plain (·.publicHttp.http)
      (fun v f => { f with publicHttp := { f.publicHttp with http := v } }) fun _ => rfl
  | .discloseBuild => .plain (·.publicHttp.discloseBuild)
      (fun v f => { f with publicHttp := { f.publicHttp with discloseBuild := v } }) fun _ => rfl
  | .telemetryAddr => .plain (·.telemetry.addr)
      (fun v f => { f with telemetry := { f.telemetry with addr := v } }) fun _ => rfl
  | .adminAddr => .plain (·.admin.addr)
      (fun v f => { f with admin := { f.admin with addr := v } }) fun _ => rfl
  | .adminAllow =>
    ⟨.field (·.admin.allow) (fun v f => { f with admin := { f.admin with allow := v } })
        fun _ => rfl,
      joined "\n"⟩
  | .logLevel => .plain (·.log.level)
      (fun v f => { f with log := { f.log with level := v } }) fun _ => rfl
  | .logFormat => .plain (·.log.format)
      (fun v f => { f with log := { f.log with format := v } }) fun _ => rfl
  | .tlsReload => .plain (·.tls.reload)
      (fun v f => { f with tls := { f.tls with reload := v } }) fun _ => rfl
  | .tlsReloadInterval => .plain (·.tls.reloadInterval)
      (fun v f => { f with tls := { f.tls with reloadInterval := v } }) fun _ => rfl
  | .connections => .plain (·.limits.connections)
      (fun v f => { f with limits := { f.limits with connections := v } }) fun _ => rfl
  | .connectionsPerPeer => .plain (·.limits.connectionsPerPeer)
      (fun v f => { f with limits := { f.limits with connectionsPerPeer := v } }) fun _ => rfl
  | .peerExempt => .list "," (·.limits.peerExempt)
      (fun v f => { f with limits := { f.limits with peerExempt := v } }) fun _ => rfl
  | .connectionLifetime => .plain (·.limits.connectionLifetime)
      (fun v f => { f with limits := { f.limits with connectionLifetime := v } }) fun _ => rfl
  | .writeStallTimeout => .plain (·.limits.writeStallTimeout)
      (fun v f => { f with limits := { f.limits with writeStallTimeout := v } }) fun _ => rfl
  | .concurrentRequests => .plain (·.limits.concurrentRequests)
      (fun v f => { f with limits := { f.limits with concurrentRequests := v } }) fun _ => rfl
  | .requestTimeout => .plain (·.limits.requestTimeout)
      (fun v f => { f with limits := { f.limits with requestTimeout := v } }) fun _ => rfl
  | .handshakeTimeout => .plain (·.limits.handshakeTimeout)
      (fun v f => { f with limits := { f.limits with handshakeTimeout := v } }) fun _ => rfl
  | .headerTimeout => .plain (·.limits.headerTimeout)
      (fun v f => { f with limits := { f.limits with headerTimeout := v } }) fun _ => rfl
  | .bodyBytes => .plain (·.limits.bodyBytes)
      (fun v f => { f with limits := { f.limits with bodyBytes := v } }) fun _ => rfl
  | .headerBytes => .plain (·.limits.headerBytes)
      (fun v f => { f with limits := { f.limits with headerBytes := v } }) fun _ => rfl
  | .shutdownTimeout => .plain (·.shutdown.timeout)
      (fun v f => { f with shutdown := { f.shutdown with timeout := v } }) fun _ => rfl
  | .secretsProvider => (secrets (·.provider) (fun v s => { s with provider := v }) fun _ => rfl)
  | .secretsDirectory => (secrets (·.directory) (fun v s => { s with directory := v }) fun _ => rfl)
  | .secretsEnvPrefix => (secrets (·.envPrefix) (fun v s => { s with envPrefix := v }) fun _ => rfl)
  | .auditPseudonymEnabled =>
    pseudonym (·.enabled) (fun v s => { s with enabled := v }) fun _ => rfl
  | .auditPseudonymKeyRef => pseudonym (·.keyRef) (fun v s => { s with keyRef := v }) fun _ => rfl
  | .auditPseudonymKeyVersion =>
    pseudonym (·.keyVersion) (fun v s => { s with keyVersion := v }) fun _ => rfl
  | .auditSink => audit (·.sink) (fun v s => { s with sink := v }) fun _ => rfl
  | .auditDirectory => audit (·.directory) (fun v s => { s with directory := v }) fun _ => rfl
  | .auditRetention => audit (·.retention) (fun v s => { s with retention := v }) fun _ => rfl
  | .keysEnabled => keys (·.enabled) (fun v s => { s with enabled := v }) fun _ => rfl
  | .keysDirectory => keys (·.directory) (fun v s => { s with directory := v }) fun _ => rfl
  | .keysPublishAhead =>
    keys (·.publishAhead) (fun v s => { s with publishAhead := v }) fun _ => rfl
  | .keysRotateEvery => keys (·.rotateEvery) (fun v s => { s with rotateEvery := v }) fun _ => rfl
  | .keysRetain => keys (·.retain) (fun v s => { s with retain := v }) fun _ => rfl
  | .keysMaintenanceInterval =>
    keys (·.maintenanceInterval) (fun v s => { s with maintenanceInterval := v }) fun _ => rfl
where
  secrets (get : SecretsSection → Option String)
      (set : Option String → SecretsSection → SecretsSection) (h : ∀ s, set (get s) s = s) :
      Entry ConfigFile :=
    (Entry.plain get set h).inside (·.operations.secrets)
      (fun s f => { f with operations := { f.operations with secrets := s } }) fun _ => rfl
  keys (get : KeysSection → Option String) (set : Option String → KeysSection → KeysSection)
      (h : ∀ s, set (get s) s = s) : Entry ConfigFile :=
    (Entry.plain get set h).inside (·.operations.keys)
      (fun s f => { f with operations := { f.operations with keys := s } }) fun _ => rfl
  audit (get : AuditSection → Option String) (set : Option String → AuditSection → AuditSection)
      (h : ∀ s, set (get s) s = s) : Entry ConfigFile :=
    (Entry.plain get set h).inside (·.operations.audit)
      (fun s f => { f with operations := { f.operations with audit := s } }) fun _ => rfl
  pseudonym (get : PseudonymSection → Option String)
      (set : Option String → PseudonymSection → PseudonymSection) (h : ∀ s, set (get s) s = s) :
      Entry ConfigFile :=
    (Entry.plain get set h).inside (·.operations.audit.pseudonym)
      (fun s f => { f with operations :=
        { f.operations with audit := { f.operations.audit with pseudonym := s } } }) fun _ => rfl

theorem Setting.entry_full (k : Setting) : k.entry.Full := by
  cases k <;> first
    | exact Entry.plain_full
    | exact Entry.absent_full
    | exact fun _ t => ⟨[t], Entry.joined_singleton _ t⟩

/-- What a leaf is set to is what the file says of the setting. -/
theorem Setting.entry_candidate (k : Setting) (v : k.entry.slot.Value) (f : ConfigFile) :
    (k.field.key, k.entry.text v) ∈ (k.entry.slot.set v f).candidates := by
  cases k
  case version | copyrightYear | copyrightHolder => exact Empty.elim v
  case peerExempt => exact List.mem_of_getElem? (i := 9) rfl
  all_goals
    dsimp only [Setting.entry, Setting.field, Setting.entry.secrets, Setting.entry.keys,
      Setting.entry.audit, Setting.entry.pseudonym, Entry.plain, Entry.list, Entry.inside,
      Slot.optional, Slot.field, Slot.inside]
    simp only [ConfigFile.candidates, List.mem_cons, true_or, or_true]

/-- Every setting is read in a way that tells texts apart. -/
theorem Setting.parse_discerns (k : Setting) : Discerns k.field.parse := by
  cases k <;> dsimp only [Setting.field]
  case autogenerate | developmentMode | discloseBuild | tlsReload | auditPseudonymEnabled
      | keysEnabled => exact parseBool_discerns
  case tlsReloadInterval | writeStallTimeout | requestTimeout | handshakeTimeout | headerTimeout
      | shutdownTimeout | auditRetention | keysPublishAhead | keysRotateEvery | keysRetain
      | keysMaintenanceInterval => exact parseDuration_discerns
  case adminAllow => exact discerns_of_refused "cn:" (by decide) (by decide +kernel)
  case logLevel | logFormat | connections | connectionsPerPeer | peerExempt | connectionLifetime
      | concurrentRequests | bodyBytes | headerBytes | secretsProvider | auditSink =>
    exact discerns_of_refused "!" (by decide) (by decide +kernel)
  case workingDir | publicHttpAddr | telemetryAddr | adminAddr | secretsDirectory
      | auditPseudonymKeyRef | auditDirectory | keysDirectory =>
    exact discerns_of_kept (fun v => some _) (by decide)
  case issuer | publicPathPrefix => exact discerns_of_kept _ (by decide +kernel)
  all_goals exact discerns_of_kept id (by decide)

/-! ## The TLS settings of the listeners -/

/-- Where a listener's section gives a setting of its TLS block. -/
def TlsSetting.entry : TlsSetting → Entry TlsSection
  | .certificate => .plain (·.cert) (fun v s => { s with cert := v }) fun _ => rfl
  | .key => .plain (·.key) (fun v s => { s with key := v }) fun _ => rfl
  | .clientCa => .plain (·.clientCa) (fun v s => { s with clientCa := v }) fun _ => rfl
  | .crl => .plain (·.crl) (fun v s => { s with crl := v }) fun _ => rfl
  | .allow => .list "\n" (·.allow) (fun v s => { s with allow := v }) fun _ => rfl
  | .minVersion => .plain (·.minVersion) (fun v s => { s with minVersion := v }) fun _ => rfl

/-- The telemetry section has no place for the settings of client certificates. -/
def TlsSetting.telemetryEntry : TlsSetting → Entry TelemetryTlsSection
  | .certificate => .plain (·.cert) (fun v s => { s with cert := v }) fun _ => rfl
  | .key => .plain (·.key) (fun v s => { s with key := v }) fun _ => rfl
  | .minVersion => .plain (·.minVersion) (fun v s => { s with minVersion := v }) fun _ => rfl
  | .clientCa | .crl | .allow => .absent

/-- Where the file gives a setting of a listener's TLS block. -/
def Listener.entry : Listener → TlsSetting → Entry ConfigFile
  | .publicHttp, k => k.entry.inside (·.publicHttp.tls)
      (fun tls f => { f with publicHttp := { f.publicHttp with tls } }) fun _ => rfl
  | .admin, k => k.entry.inside (·.admin.tls)
      (fun tls f => { f with admin := { f.admin with tls } }) fun _ => rfl
  | .telemetry, k => k.telemetryEntry.inside (·.telemetry.tls)
      (fun tls f => { f with telemetry := { f.telemetry with tls } }) fun _ => rfl

theorem Listener.entry_full (l : Listener) (k : TlsSetting) : (l.entry k).Full := by
  cases l <;> cases k <;> first
    | exact Entry.plain_full
    | exact Entry.absent_full
    | exact fun _ t => ⟨[t], Entry.joined_singleton _ t⟩

/-- The position of a TLS setting among the settings of the file. -/
def Listener.position : Listener → TlsSetting → Nat
  | .publicHttp, .certificate => 36
  | .publicHttp, .key => 37
  | .publicHttp, .clientCa => 38
  | .publicHttp, .crl => 18
  | .publicHttp, .allow => 19
  | .publicHttp, .minVersion => 39
  | .admin, .certificate => 40
  | .admin, .key => 41
  | .admin, .clientCa => 42
  | .admin, .crl => 21
  | .admin, .minVersion => 43
  | .telemetry, .certificate => 44
  | .telemetry, .key => 45
  | .telemetry, .minVersion => 46
  | .admin, .allow | .telemetry, .clientCa | .telemetry, .crl | .telemetry, .allow => 0

/-- A TLS setting of the file is one of its settings, and no other changes with it. -/
theorem Listener.entry_candidates {l : Listener} {k : TlsSetting} {key : String}
    (hkey : k.field.key l = some key) (v : (l.entry k).slot.Value) (f : ConfigFile) :
    ((l.entry k).slot.set v f).candidates =
      f.candidates.set (l.position k) (key, (l.entry k).text v) := by
  cases l <;> cases k <;> cases hkey <;> rfl

theorem Listener.position_lt (l : Listener) (k : TlsSetting) (f : ConfigFile) :
    l.position k < f.candidates.length := by
  have h : f.candidates.length = 55 := rfl
  rw [h]
  cases l <;> cases k <;> decide

theorem Listener.entry_candidate {l : Listener} {k : TlsSetting} {key : String}
    (hkey : k.field.key l = some key) (v : (l.entry k).slot.Value) (f : ConfigFile) :
    (key, (l.entry k).text v) ∈ ((l.entry k).slot.set v f).candidates := by
  rw [Listener.entry_candidates hkey]
  exact List.mem_set (l.position_lt k f) _

theorem TlsSetting.parse_discerns (k : TlsSetting) : Discerns k.field.parse := by
  cases k <;> dsimp only [TlsSetting.field]
  case allow => exact discerns_of_refused "cn:" (by decide) (by decide +kernel)
  case minVersion => exact discerns_of_refused "!" (by decide) (by decide +kernel)
  all_goals exact discerns_of_kept some (by decide)

end PicX.Core
