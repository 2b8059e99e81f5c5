import Mathlib.Data.List.Nodup
import PicX.Core.Layering
import PicX.Core.Surface

/-!
# Allow lists through the settings layer

A list of peers is joined into one text, filtered as a setting, and cut into lines again. The
lines that are not blank are what is parsed, so an entry survives exactly when it has one such
line.

* `settingsOf_settings`: what the file says of a setting is what its layer gives.
* `parseAllowed_joinWith`: the joined list is read line by line.
* `allow_lists_survive`: **the effective list is the list of the file, entry by entry**, exactly
  when every entry has one line that is not blank.
-/

namespace PicX.Core

/-! ## The file's layer -/

theorem settingsOf_eq_some {pairs : Pairs} {key value : String}
    (hnodup : (pairs.map Prod.fst).Nodup) (hmem : (key, value) ∈ pairs) (hne : value ≠ "") :
    settingsOf pairs key = some value := by
  have hfound : ((pairs.filter fun pair => pair.2 ≠ "").reverse.find? fun pair =>
      pair.1 = key).isSome := by
    rw [List.find?_isSome]
    exact ⟨(key, value), by simp [hmem, hne], by simp⟩
  obtain ⟨pair, hpair⟩ := Option.isSome_iff_exists.mp hfound
  have hkey : pair.1 = key := by simpa using List.find?_some hpair
  have hpairs : pair ∈ pairs := by
    have := List.mem_of_find?_eq_some hpair
    simp only [List.mem_reverse, List.mem_filter] at this
    exact this.1
  -- the key stands in the list once
  have heq : pair = (key, value) := List.inj_on_of_nodup_map hnodup hpairs hmem hkey
  rw [settingsOf, hpair, heq]
  rfl

theorem settingsOf_eq_none {pairs : Pairs} {key : String}
    (h : ∀ value, (key, value) ∈ pairs → value = "") : settingsOf pairs key = none := by
  rw [settingsOf, Option.map_eq_none_iff, List.find?_eq_none]
  intro pair hpair
  simp only [List.mem_reverse, List.mem_filter] at hpair
  obtain ⟨hmem, hne⟩ := hpair
  intro hkey
  have hk : pair.1 = key := by simpa using hkey
  have : pair.2 = "" := h pair.2 (hk ▸ hmem)
  simp [this] at hne

theorem candidates_keys_nodup (f : ConfigFile) : (f.candidates.map Prod.fst).Nodup := by
  have h : (({} : ConfigFile).candidates.map Prod.fst).Nodup := by decide +kernel
  exact h

theorem settings_keys_sublist (f : ConfigFile) :
    (f.settings.map Prod.fst).Sublist (f.candidates.map Prod.fst) := by
  unfold ConfigFile.settings
  induction f.candidates with
  | nil => exact List.Sublist.slnil
  | cons candidate rest ih =>
    obtain ⟨key, value⟩ := candidate
    cases value with
    | none => exact ih.cons key
    | some value => exact ih.cons_cons key

/-- What the file says of a setting is what its layer gives; an empty text gives nothing. -/
theorem settingsOf_settings {f : ConfigFile} {key : String} {value : Option String}
    (hmem : (key, value) ∈ f.candidates) :
    settingsOf f.settings key = value.filter (· ≠ "") := by
  have hsettings : ∀ v, (key, v) ∈ f.settings ↔ value = some v := by
    intro v
    constructor
    · intro hv
      obtain ⟨⟨key', value'⟩, hmem', hpair⟩ := List.mem_filterMap.mp hv
      obtain ⟨v', hvalue, heq⟩ := Option.map_eq_some_iff.mp hpair
      cases heq
      have hsame := List.inj_on_of_nodup_map (candidates_keys_nodup f) hmem hmem' rfl
      cases hsame
      exact hvalue
    · intro hv
      subst hv
      exact List.mem_filterMap.mpr ⟨_, hmem, rfl⟩
  have hnodup := (settings_keys_sublist f).nodup (candidates_keys_nodup f)
  cases value with
  | none =>
    rw [settingsOf_eq_none]
    · rfl
    · intro v hv
      cases (hsettings v).mp hv
  | some v =>
    by_cases hv : v = ""
    · subst hv
      rw [settingsOf_eq_none]
      · rfl
      · intro v' hv'
        exact (Option.some.inj ((hsettings v').mp hv')).symm
    · rw [settingsOf_eq_some hnodup ((hsettings v).mpr rfl) hv, Option.filter_some,
        if_pos (by simpa using hv)]

/-! ## Entries and lines -/

/-- The lines of an entry that are not blank, trimmed. -/
def entryLines (entry : String) : List String := words (split '\n' entry)

/-- The entry has one line that is not blank. -/
def OneEntry (entry : String) : Prop := (entryLines entry).length = 1

instance (entry : String) : Decidable (OneEntry entry) := inferInstanceAs (Decidable (_ = _))

theorem parseAllowed_joinWith (entries : List String) :
    parseAllowed (joinWith "\n" entries) =
      (entries.flatMap entryLines).mapM AllowedPeer.parse := by
  have hwords : words (textLines (joinWith "\n" entries)) = entries.flatMap entryLines := by
    cases entries with
    | nil => rfl
    | cons entry rest =>
      have hsplit : split '\n' (joinWith "\n" (entry :: rest)) =
          (entry :: rest).flatMap (split '\n') := split_joinWith '\n' entry rest
      rw [words_textLines, hsplit, words_flatMap]
      rfl
  rw [parseAllowed, ← hwords]
  rfl

theorem entryLines_of_oneEntry {entry : String} (h : OneEntry entry) :
    entryLines entry = [trim entry] := by
  obtain ⟨w, hw⟩ := List.length_eq_one_iff.mp h
  have htrim : trim (joinWith "\n" (split '\n' entry)) = w := trim_joinWith hw
  have hjoin : joinWith "\n" (split '\n' entry) = entry := joinWith_split '\n' entry
  rw [hjoin] at htrim
  rw [hw, htrim]

theorem parse_trim (entry : String) : AllowedPeer.parse (trim entry) = AllowedPeer.parse entry := by
  rw [AllowedPeer.parse, AllowedPeer.parse, trim_trim]

theorem entryLines_ne_nil {entry : String} {peer : AllowedPeer}
    (h : AllowedPeer.parse entry = .ok peer) : entryLines entry ≠ [] := by
  intro hnil
  have hblank : blank (joinWith "\n" (split '\n' entry)) = true := blank_joinWith hnil
  have hjoin : joinWith "\n" (split '\n' entry) = entry := joinWith_split '\n' entry
  rw [hjoin, ← trim_eq_empty_iff] at hblank
  rw [AllowedPeer.parse, hblank] at h
  cases h

/-- Every text of a list of texts of the same total length as their number has length one. -/
theorem oneEntry_of_length {entries : List String}
    (hne : ∀ entry ∈ entries, entryLines entry ≠ [])
    (hlength : (entries.flatMap entryLines).length = entries.length) :
    ∀ entry ∈ entries, OneEntry entry := by
  have hle : ∀ l : List String, (∀ entry ∈ l, entryLines entry ≠ []) →
      l.length ≤ (l.flatMap entryLines).length := by
    intro l hl
    induction l with
    | nil => simp
    | cons entry l ih =>
      have hentry := List.length_pos_iff.mpr (hl entry List.mem_cons_self)
      have hrest := ih fun e he => hl e (List.mem_cons_of_mem _ he)
      rw [List.flatMap_cons, List.length_append, List.length_cons]
      omega
  induction entries with
  | nil => simp
  | cons entry rest ih =>
    have hentry := List.length_pos_iff.mpr (hne entry List.mem_cons_self)
    have hrest := hle rest fun e he => hne e (List.mem_cons_of_mem _ he)
    rw [List.flatMap_cons, List.length_append, List.length_cons] at hlength
    intro e he
    rcases List.mem_cons.mp he with rfl | he
    · unfold OneEntry
      omega
    · exact ih (fun e he => hne e (List.mem_cons_of_mem _ he)) (by omega) e he

theorem flatMap_entryLines {entries : List String} (hone : ∀ entry ∈ entries, OneEntry entry) :
    entries.flatMap entryLines = entries.map trim := by
  induction entries with
  | nil => rfl
  | cons entry rest ih =>
    rw [List.flatMap_cons, entryLines_of_oneEntry (hone entry List.mem_cons_self),
      ih fun e he => hone e (List.mem_cons_of_mem _ he)]
    rfl

/-- What is read of the joined list is what is read of its entries, exactly when every entry has
one line that is not blank. -/
theorem entries_parsed_iff {entries : List String} {allow : List AllowedPeer}
    (h : (entries.flatMap entryLines).mapM AllowedPeer.parse = .ok allow) :
    entries.mapM AllowedPeer.parse = .ok allow ↔ ∀ entry ∈ entries, OneEntry entry := by
  constructor
  · intro hentries
    have hread := mapM_ok.mp hentries
    have hlines := (mapM_ok.mp h).length_eq
    refine oneEntry_of_length ?_ (hlines.trans hread.length_eq.symm)
    intro entry hentry
    obtain ⟨i, hi, rfl⟩ := List.getElem_of_mem hentry
    exact entryLines_ne_nil (hread.get hi (hread.length_eq ▸ hi))
  · intro hone
    rw [flatMap_entryLines hone, mapM_ok, List.forall₂_map_left_iff] at h
    rw [mapM_ok]
    exact h.imp fun entry peer hpeer => parse_trim entry ▸ hpeer

/-! ## Through the layers -/

variable {d : Deployment} {f f' : ConfigFile} {environment commandLine : Pairs} {c : Config}

/-- Gathering realms changes nothing but the realms. -/
theorem gatherRealmsFrom_settings {readDir : String → Result (List DirEntry)} {parent : String}
    (h : f.gatherRealmsFrom readDir parent = .ok f') : f'.settings = f.settings := by
  unfold ConfigFile.gatherRealmsFrom at h
  split at h
  · rw [← Except.ok.inj h]
  · simp only [bind_ok] at h
    obtain ⟨entries, -, files, -, realms, -, h⟩ := h
    split at h
    · cases h
    · rw [← pure_ok.mp h]
      rfl

/-- The configuration of a file is what its settings and the layers above them give, with the
realms attached. -/
theorem config_ok (h : d.config f environment commandLine = .ok c) : ∃ base realms,
    Config.fromLayers d.build d.declared { file := f.settings, environment, commandLine } =
      .ok base ∧ c = { base with realms } := by
  simp only [Deployment.config, Config.withRealms, bind_ok, pure_ok] at h
  obtain ⟨f', hf', base, hbase, realms, -, rfl⟩ := h
  rw [gatherRealmsFrom_settings hf'] at hbase
  exact ⟨base, realms, hbase, rfl⟩

/-- The list of peers the file names for the public surface. -/
def ConfigFile.publicAllow (f : ConfigFile) : List String := f.publicHttp.tls.allow.getD []

/-- A joined list as the file's layer gives it is read line by line. -/
theorem gives_joined {entries : List String} {allow : List AllowedPeer}
    (h : Gives ((joined "\n" entries).filter (· ≠ "")) parseAllowed [] allow) :
    (entries.flatMap entryLines).mapM AllowedPeer.parse = .ok allow := by
  rw [← parseAllowed_joinWith]
  by_cases hnil : entries = []
  · subst hnil
    have hallow : allow = [] := h
    rw [hallow]
    rfl
  · rw [joined, if_neg hnil, Option.filter_some] at h
    by_cases hempty : joinWith "\n" entries = ""
    · rw [if_neg (by simpa using hempty)] at h
      have hallow : allow = [] := h
      rw [hempty, hallow]
      rfl
    · rw [if_pos (by simpa using hempty)] at h
      exact h

theorem admin_allow_read (h : d.config f environment commandLine = .ok c)
    (henvironment : settingsOf environment SETTING_ADMIN_ALLOW = none)
    (hcommand : settingsOf commandLine SETTING_ADMIN_ALLOW = none) :
    (f.admin.allow.flatMap entryLines).mapM AllowedPeer.parse = .ok c.adminAllow := by
  obtain ⟨base, realms, hbase, rfl⟩ := config_ok h
  have hmem : (SETTING_ADMIN_ALLOW, joined "\n" f.admin.allow) ∈ f.candidates := by
    simp only [ConfigFile.candidates, List.mem_cons, true_or, or_true]
  have hgives := fromLayers_gives hbase .adminAllow
  dsimp only [Setting.field] at hgives
  rw [Layers.last, henvironment, hcommand, settingsOf_settings hmem] at hgives
  exact gives_joined hgives

theorem public_allow_read (h : d.config f environment commandLine = .ok c)
    (henvironment : settingsOf environment SETTING_PUBLIC_TLS_CERT = none)
    (hcommand : settingsOf commandLine SETTING_PUBLIC_TLS_CERT = none)
    {certificate : String} (hcert : f.publicHttp.tls.cert = some certificate)
    (hne : certificate ≠ "") :
    (f.publicAllow.flatMap entryLines).mapM AllowedPeer.parse =
      .ok ((c.publicTls.map (·.allow)).getD []) := by
  obtain ⟨base, realms, hbase, rfl⟩ := config_ok h
  have hmem : (SETTING_PUBLIC_TLS_ALLOW, f.publicHttp.tls.allow.bind (joined "\n")) ∈
      f.candidates := by
    simp only [ConfigFile.candidates, List.mem_cons, true_or, or_true]
  have hmem' : (SETTING_PUBLIC_TLS_CERT, f.publicHttp.tls.cert) ∈ f.candidates := by
    simp only [ConfigFile.candidates, List.mem_cons, true_or, or_true]
  have hfile : settingsOf f.settings SETTING_PUBLIC_TLS_CERT = some certificate := by
    rw [settingsOf_settings hmem', hcert, Option.filter_some, if_pos (by simpa using hne)]
  have hblock := block_of_file { file := f.settings, environment, commandLine } .publicHttp
    hcommand henvironment (by rw [Listener.certKey, hfile]; rfl)
  have hlist : f.publicHttp.tls.allow.bind (joined "\n") = joined "\n" f.publicAllow := by
    unfold ConfigFile.publicAllow
    cases f.publicHttp.tls.allow <;> rfl
  have hkey : TlsSetting.allow.field.key .publicHttp = some SETTING_PUBLIC_TLS_ALLOW := rfl
  have hgives := fromLayers_tls hbase .publicHttp .allow hkey
  rw [hblock, settingsOf_settings hmem, hlist] at hgives
  exact gives_joined hgives

/-- The effective list is the list of the file, read entry by entry. -/
def Survives (entries : List String) (allow : List AllowedPeer) : Prop :=
  entries.mapM AllowedPeer.parse = .ok allow

theorem Survives.ne_nil {entries : List String} {allow : List AllowedPeer}
    (h : Survives entries allow) (hne : entries ≠ []) : allow ≠ [] := by
  intro hnil
  have hlength := (mapM_ok.mp h).length_eq
  rw [hnil, List.length_nil, List.length_eq_zero_iff] at hlength
  exact hne hlength

/-- The gate the public listener is started with. -/
def Config.publicGate (c : Config) : Option (List AllowedPeer) :=
  gateOf (((c.resolvedTls c.publicTls).map (·.allow)).getD [])

theorem publicGate_isSome_iff (c : Config) :
    c.publicGate.isSome ↔ (c.publicTls.map (·.allow)).getD [] ≠ [] := by
  have hallow : ((c.resolvedTls c.publicTls).map (·.allow)).getD [] =
      (c.publicTls.map (·.allow)).getD [] := by
    unfold Config.resolvedTls
    cases c.publicTls <;> rfl
  rw [Config.publicGate, hallow, gateOf]
  cases (c.publicTls.map (·.allow)).getD [] <;> simp

/-- **Allow lists survive the settings layer** exactly when every entry has one line that is not
blank: then the effective list is the file's, entry by entry, and a list in the file means a gate
over the public surface. The layers above the file say nothing of the lists. -/
theorem allow_lists_survive (h : d.config f environment commandLine = .ok c)
    (hlayers : ∀ layer ∈ [environment, commandLine],
      settingsOf layer SETTING_ADMIN_ALLOW = none ∧
        settingsOf layer SETTING_PUBLIC_TLS_CERT = none) :
    (Survives f.admin.allow c.adminAllow ↔ ∀ entry ∈ f.admin.allow, OneEntry entry) ∧
    (∀ certificate, f.publicHttp.tls.cert = some certificate → certificate ≠ "" →
      ((Survives f.publicAllow ((c.publicTls.map (·.allow)).getD []) ∧
          (f.publicAllow ≠ [] → c.publicGate.isSome)) ↔
        ∀ entry ∈ f.publicAllow, OneEntry entry)) := by
  obtain ⟨henvironment, hcommand⟩ : _ ∧ _ :=
    ⟨hlayers environment (by simp), hlayers commandLine (by simp)⟩
  constructor
  · exact entries_parsed_iff (admin_allow_read h henvironment.1 hcommand.1)
  · intro certificate hcert hne
    have hiff := entries_parsed_iff
      (public_allow_read h henvironment.2 hcommand.2 hcert hne)
    constructor
    · intro hsurvives
      exact hiff.mp hsurvives.1
    · intro hone
      have hsurvives := hiff.mpr hone
      refine ⟨hsurvives, fun hlist => ?_⟩
      exact (publicGate_isSome_iff c).mpr (Survives.ne_nil hsurvives hlist)

/-! ## A list with nothing in its entry -/

/-- A deployment with no directory of realm files. -/
def testDeployment : Deployment := ⟨testBuild, [], asciiUppercase, "", []⟩

/-- A public listener with mutual TLS that answers these peers. -/
def listingFile (entries : List String) : ConfigFile where
  publicHttp :=
    { tls :=
        { cert := some "tls/server.pem"
          key := some "tls/server.key"
          clientCa := some "tls/clients.pem"
          allow := some entries } }

theorem allow_lists_survive_named : ∃ c,
    testDeployment.config (listingFile ["cn:billing"]) [] [] = .ok c ∧
      ((Survives ["cn:billing"] ((c.publicTls.map (·.allow)).getD []) ∧
          (["cn:billing"] ≠ [] → c.publicGate.isSome)) ↔
        ∀ entry ∈ ["cn:billing"], OneEntry entry) := by
  have hok : (testDeployment.config (listingFile ["cn:billing"]) [] []).isOk = true := by
    decide +kernel
  cases h : testDeployment.config (listingFile ["cn:billing"]) [] [] with
  | error e => rw [h] at hok; cases hok
  | ok c =>
    refine ⟨c, rfl, ?_⟩
    exact (allow_lists_survive h (by simp [settingsOf])).2 "tls/server.pem" rfl (by decide +kernel)

/-- The file names a list and the surface answers everybody the authority signed. -/
theorem empty_entry_opens_the_gate : ∃ c,
    testDeployment.config (listingFile [""]) [] [] = .ok c ∧
      ¬ Survives (listingFile [""]).publicAllow ((c.publicTls.map (·.allow)).getD []) ∧
      (listingFile [""]).publicAllow ≠ [] ∧ c.publicGate = none := by
  have hgate : (testDeployment.config (listingFile [""]) [] []).toOption.map
      (fun c => (c.publicGate, (c.publicTls.map (·.allow)).getD [])) = some (none, []) := by
    decide +kernel
  cases h : testDeployment.config (listingFile [""]) [] [] with
  | error e => rw [h] at hgate; cases hgate
  | ok c =>
    rw [h] at hgate
    obtain ⟨hgate, hallow⟩ := Prod.mk.inj (Option.some.inj hgate)
    refine ⟨c, rfl, ?_, by decide, hgate⟩
    intro hsurvives
    exact Survives.ne_nil hsurvives (by decide) hallow

end PicX.Core
