import PicX.Base.Path
import PicX.Base.Program
import PicX.Server.Compose

/-!
# Preparing the volume (`pic-x-std/src/provision.rs`, `app.rs`)

`serve` prepares the volume before it validates the configuration, so that validation sees the
finished picture. What it prepares are directories and, with `autogenerate`, the secrets and the
certificates that are missing. Whether an operation succeeds is decided from outside, but none does
what the file system cannot: create a directory through a file, or write one over a directory or
below a directory that is not there. Permissions and the bytes of the material are left out, a node
of the file system says what was put there.

* `prepare`, `serve` — the code, as programs over a file system without links.
* `Allowed` — the working directory and the directories the configuration names.
* `refused_configuration` — what a configuration that is refused leaves behind.
-/

namespace PicX.Server

open PicX.Core Program

/-! ## The file system -/

/-- What stands at a place. -/
inductive Node where
  | directory
  | supplied
  | secret
  | certificate
  | key
  | revocations
  deriving DecidableEq, Repr

/-- Material that provisioning made. -/
def Node.generated : Node → Bool
  | .directory | .supplied => false
  | .secret | .certificate | .key | .revocations => true

structure Disk where
  nodes : Place → Option Node

inductive ProvisionOp where
  | createDir (path : String)
  | restrict (path : String)
  | drawSecret (path : String)
  | write (path : String)
  /-- A step of `rcgen`, under the context of its error. -/
  | make (what : String)
  deriving DecidableEq, Repr

abbrev Provisioning (α : Type) := Program ProvisionOp Disk Error α

variable (cwd : Place)

/-- The places a path goes through before its own are directories. -/
def Disk.leads (w : Disk) (path : String) : Bool :=
  (way cwd path).dropLast.all fun p => w.nodes p = some .directory

/-- `Path::exists`. -/
def Disk.present (w : Disk) (path : String) : Bool :=
  w.leads cwd path && (w.nodes (place cwd path)).isSome

/-- `Path::is_file`. -/
def Disk.isFile (w : Disk) (path : String) : Bool :=
  w.leads cwd path && (w.nodes (place cwd path)).any fun node => node ≠ .directory

/-- A file stands where a directory is to be. -/
def Disk.blocked (w : Disk) (path : String) : Bool :=
  (way cwd path).any fun p => (w.nodes p).any fun node => node ≠ .directory

/-- A file can be there. -/
def Disk.writable (w : Disk) (path : String) : Bool :=
  w.leads cwd path && w.nodes (place cwd path) ≠ some .directory

/-- Directories at the places where nothing stands. -/
def Disk.create (w : Disk) (places : List Place) : Disk where
  nodes p := if p ∈ places ∧ w.nodes p = none then some .directory else w.nodes p

def Disk.put (w : Disk) (p : Place) (node : Node) : Disk where
  nodes := Function.update w.nodes p (some node)

/-- What the system says when it cannot create a directory, -/
def Disk.blockedReason (w : Disk) (path : String) : String :=
  if (w.nodes (place cwd path)).any fun node => node ≠ .directory then "File exists (os error 17)"
  else "Not a directory (os error 20)"

/-- and when it cannot write a file. -/
def Disk.unwritableReason (w : Disk) (path : String) : String :=
  if w.leads cwd path then "Is a directory (os error 21)"
  else if (way cwd path).dropLast.any fun p => (w.nodes p).any fun node => node ≠ .directory then
    "Not a directory (os error 20)"
  else "No such file or directory (os error 2)"

/-- Narrows permissions. -/
def restrict (path : String) : Provisioning Unit :=
  perform (.restrict path) (fun w => .ok () w)
    (fun _ reason w => .error [s!"restricting {path}", reason] w)

/-- Creates a directory nobody else can enter, and what leads to it. -/
def createDirectory (path : String) : Provisioning Unit := do
  perform (.createDir path)
    (fun w => if w.blocked cwd path then .error [s!"creating {path}", w.blockedReason cwd path] w
      else .ok () (w.create (way cwd path)))
    (fun n reason w => .error [s!"creating {path}", reason]
      (if w.blocked cwd path then w else w.create ((way cwd path).take n)))
  restrict path

/-- `fs::write`; one that fails may have left the file. -/
def write (path : String) (node : Node) : Provisioning Unit :=
  perform (.write path)
    (fun w => if w.writable cwd path then .ok () (w.put (place cwd path) node)
      else .error [s!"writing {path}", w.unwritableReason cwd path] w)
    (fun n reason w => .error [s!"writing {path}", reason]
      (if n = 0 ∨ w.writable cwd path = false then w else w.put (place cwd path) node))

/-- Writes material that is meant to be readable. -/
def writePublic (path : String) (node : Node) : Provisioning Unit := write cwd path node

/-- Writes material only this user may read. -/
def writePrivate (path : String) (node : Node) : Provisioning Unit := do
  write cwd path node
  restrict path

/-! ## Secrets -/

/-- Random material at a path, unless something is already there. -/
def generateSecret (path : String) : Provisioning Unit := do
  let w ← get
  if w.present cwd path then pure ()
  else do
    perform (.drawSecret path) (fun w => .ok () w) fun _ _ w =>
      .error ["drawing random bytes for a generated secret",
        "the system random number generator refused"] w
    writePrivate cwd path .secret

/-- The server's own key, when the server pseudonymises. -/
def serverSecret (c : Config) : Provisioning Unit :=
  match c.auditPseudonymEnabled, c.auditPseudonymKeyRef with
  | true, some reference => generateSecret cwd (resolvePath (secretsDirectory c) reference.name)
  | _, _ => pure ()

/-- The key of a realm that pseudonymises from a directory. -/
def realmSecret (c : Config) (realm : RealmConfig) : Provisioning Unit :=
  if !realm.auditPseudonymEnabled || realm.secretsProvider ≠ .directory then pure ()
  else match realm.auditPseudonymKeyRef with
    | none => pure ()
    | some reference => do
      createDirectory cwd (realmSecretsDirectory c realm.name)
      generateSecret cwd (resolvePath (realmSecretsDirectory c realm.name) reference.name)

def prepareSecrets (c : Config) : Provisioning Unit := do
  serverSecret cwd c
  c.realms.forM (realmSecret cwd c)

/-! ## Certificates -/

/-- A step of the certificate library. -/
def make (what : String) : Provisioning Unit :=
  perform (.make what) (fun w => .ok () w) (fun _ reason w => .error [what, reason] w)

/-- Issues the authority, the two certificates it signs and an empty revocation list. -/
def issue (tls : String) : Provisioning Unit := do
  make "describing the local certificate authority"
  make "generating the authority key"
  make "signing the authority certificate"
  writePublic cwd (join tls "ca.pem") .certificate
  writePrivate cwd (join tls "ca.key") .key
  make "describing the server certificate"
  make "generating the server key"
  make "signing the server certificate"
  writePublic cwd (join tls "server.pem") .certificate
  writePrivate cwd (join tls "server.key") .key
  make "describing the client certificate"
  make "generating the client key"
  make "signing the client certificate"
  writePublic cwd (join tls "client.pem") .certificate
  writePrivate cwd (join tls "client.key") .key
  make "signing the revocation list"
  make "writing the revocation list"
  writePublic cwd (join tls "ca.crl") .revocations

def tlsDirectory (c : Config) : String := join c.workingDirectory "tls"

/-- How many of the three pairs are there. -/
@[irreducible] def pairsPresent (w : Disk) (tls : String) : Nat :=
  ([("ca.pem", "ca.key"), ("server.pem", "server.key"), ("client.pem", "client.key")].filter
    fun pair => w.present cwd (join tls pair.1) && w.present cwd (join tls pair.2)).length

/-- Every piece is generated together, or none is. -/
def prepareCertificates (c : Config) : Provisioning Unit :=
  if c.publicTls = none ∧ c.adminTls = none ∧ c.telemetryTls = none then pure ()
  else do
    let w ← get
    let tls := tlsDirectory c
    if pairsPresent cwd w tls = 3 then pure ()
    else if 0 < pairsPresent cwd w tls then
      throw [(s!"the generated certificates under {tls} are incomplete: remove them and start " ++
        "again, because a server certificate signed by an authority that is no longer there " ++
        "verifies against nothing")]
    else issue cwd tls

/-! ## The volume -/

def DEFAULT_KEYS_SUBDIRECTORY : String := "operations/keys"

def DEFAULT_AUDIT_SUBDIRECTORY : String := "operations/audit"

def keysDirectory (c : Config) : String :=
  resolvePath c.workingDirectory (c.keysDirectory.getD DEFAULT_KEYS_SUBDIRECTORY)

def auditDirectory (c : Config) : String :=
  resolvePath c.workingDirectory (c.auditDirectory.getD DEFAULT_AUDIT_SUBDIRECTORY)

/-- The directories of every volume. -/
def volumeDirectories (c : Config) : List String :=
  let operations := join c.workingDirectory "operations"
  [join c.workingDirectory "data", operations, join operations "state"]

/-- The directories that a setting asks for. -/
def chosenDirectories (c : Config) : List String :=
  (if c.keysEnabled then [keysDirectory c] else []) ++
    if c.auditDestination = .file then [auditDirectory c] else []

/-- The material that is missing. -/
def generateMissing (c : Config) : Provisioning Unit := do
  [secretsDirectory c, tlsDirectory c].forM (createDirectory cwd)
  prepareSecrets cwd c
  prepareCertificates cwd c

/-- Creates whatever the configuration needs and does not have. -/
def prepare (c : Config) : Provisioning Unit := do
  mapError (s!"preparing the volume at {c.workingDirectory}" :: ·)
    (createDirectory cwd c.workingDirectory)
  (volumeDirectories c ++ chosenDirectories c).forM (createDirectory cwd)
  if c.autogenerate then generateMissing cwd c else pure ()

/-- `App::serve`: the volume is prepared, the configuration validated, and the rest follows. -/
def serve (c : Config) (configFile : String) (rest : Provisioning Unit) : Provisioning Unit := do
  mapError (s!"preparing the volume at {c.workingDirectory}" :: ·) (prepare cwd c)
  let w ← get
  ofExcept (withContext s!"validating the configuration loaded from {configFile}"
    (c.validate (w.isFile cwd)))
  rest

/-! ## Where things are put -/

/-- The working directory and the directories the configuration names. -/
def namedDirectories (c : Config) : List String :=
  [c.workingDirectory, keysDirectory c, auditDirectory c, secretsDirectory c]

/-- Below one of these directories, or on the way to it. -/
def Allowed (c : Config) (p : Place) : Prop :=
  ∃ d ∈ namedDirectories c, p ∈ way cwd d ∨ place cwd d <+: p

/-- A path that leads below one of these directories and nowhere else. -/
structure Inside (c : Config) (path : String) : Prop where
  allowed : ∀ p ∈ way cwd path, Allowed cwd c p
  below : ∃ d ∈ namedDirectories c, place cwd d <+: place cwd path

variable {cwd} {c : Config} {w before : Disk} {path name : String} {node : Node}

@[simp] theorem Disk.put_self (w : Disk) (p : Place) (node : Node) :
    (w.put p node).nodes p = some node := by
  simp [Disk.put]

theorem Disk.put_of_ne (w : Disk) {p q : Place} (node : Node) (h : q ≠ p) :
    (w.put p node).nodes q = w.nodes q := by
  simp [Disk.put, Function.update_of_ne h]

@[simp] theorem Disk.put_put (w : Disk) (p : Place) (node node' : Node) :
    (w.put p node).put p node' = w.put p node' := by
  simp [Disk.put]

theorem Inside.of_mem (h : path ∈ namedDirectories c) : Inside cwd c path :=
  ⟨fun _ hp => ⟨path, h, Or.inl hp⟩, path, h, List.prefix_rfl⟩

theorem Inside.place (h : Inside cwd c path) : Allowed cwd c (place cwd path) :=
  h.allowed _ (place_mem_way cwd path)

theorem Inside.join (h : Inside cwd c path) (habsolute : isAbsolute name = false)
    (hclimb : ".." ∉ split '/' name) : Inside cwd c (join path name) := by
  obtain ⟨d, hd, hbelow⟩ := h.below
  refine ⟨fun p hp => ?_, d, hd, hbelow.trans (place_below_join habsolute hclimb)⟩
  rcases mem_way_join habsolute hclimb p hp with hway | hpath
  · exact h.allowed p hway
  · exact ⟨d, hd, Or.inr (hbelow.trans hpath)⟩

theorem Inside.resolvePath (h : Inside cwd c path) (habsolute : isAbsolute name = false)
    (hclimb : ".." ∉ split '/' name) : Inside cwd c (resolvePath path name) := by
  have habsolute' : ¬name.toList.head? = some '/' := by simpa [isAbsolute] using habsolute
  rw [Core.resolvePath, if_neg habsolute']
  exact h.join habsolute hclimb

theorem volumeDirectories_inside : ∀ d ∈ volumeDirectories c, Inside cwd c d := by
  have hroot : Inside cwd c c.workingDirectory := .of_mem (by simp [namedDirectories])
  have hoperations : Inside cwd c (join c.workingDirectory "operations") :=
    hroot.join (by decide) (by decide)
  intro d hd
  simp only [volumeDirectories, List.mem_cons, List.not_mem_nil, or_false] at hd
  rcases hd with rfl | rfl | rfl
  · exact hroot.join (by decide) (by decide)
  · exact hoperations
  · exact hoperations.join (by decide) (by decide)

theorem chosenDirectories_inside : ∀ d ∈ chosenDirectories c, Inside cwd c d := by
  intro d hd
  refine .of_mem ?_
  rcases List.mem_append.mp hd with hkeys | haudit
  · split_ifs at hkeys
    · simp [namedDirectories, List.mem_singleton.mp hkeys]
    · simp at hkeys
  · split_ifs at haudit
    · simp [namedDirectories, List.mem_singleton.mp haudit]
    · simp at haudit

theorem tlsDirectory_inside : Inside cwd c (tlsDirectory c) :=
  (Inside.of_mem (by simp [namedDirectories])).join (by decide) (by decide)

/-! ## Names that do not climb -/

/-- A reference that a directory of secrets resolves. -/
def PlainReference (reference : SecretRef) : Prop := pathOf "" reference ≠ none

/-- Realms have the names that validation accepts, and secrets names that a directory resolves. -/
structure Plain (c : Config) : Prop where
  realms : ∀ realm ∈ c.realms, isRealmName realm.name = true
  server : ∀ reference, c.auditPseudonymKeyRef = some reference → PlainReference reference
  secrets : ∀ realm ∈ c.realms, ∀ reference, realm.auditPseudonymKeyRef = some reference →
    PlainReference reference

theorem plainReference_chars {reference : SecretRef} (h : PlainReference reference) :
    '/' ∉ reference.name.toList ∧ reference.name ≠ ".." := by
  unfold PlainReference pathOf at h
  dsimp only at h
  split_ifs at h with hbad
  · exact absurd rfl h
  · push Not at hbad
    refine ⟨hbad.2.2.1, fun hdots => hbad.2.1 ?_⟩
    rw [hdots]
    decide

/-- A name without a slash that does not mean the parent stays in its directory. -/
theorem stays_of_chars (hslash : '/' ∉ name.toList) (hdots : name ≠ "..") :
    isAbsolute name = false ∧ ".." ∉ split '/' name := by
  constructor
  · refine decide_eq_false fun hhead => hslash ?_
    exact List.mem_of_mem_head? hhead
  · rw [split_of_notMem hslash]
    simpa using hdots.symm

theorem realmSecretsDirectory_inside {realm : String} (h : isRealmName realm = true) :
    Inside cwd c (realmSecretsDirectory c realm) := by
  have hchars := isRealmName_chars h
  have hslash : '/' ∉ realm.toList := fun hin => absurd (hchars '/' hin) (by decide)
  have hdots : realm ≠ ".." := by
    rintro rfl
    exact absurd h (by decide)
  have hname : s!"realms/{realm}/operations/secrets" =
      "realms" ++ "/" ++ (realm ++ "/" ++ ("operations" ++ "/" ++ "secrets")) := by
    apply String.toList_injective
    simp [toString]
  have hcut : ∀ s t, split '/' (s ++ "/" ++ t) = split '/' s ++ split '/' t :=
    fun s t => split_append_separator '/' s t
  refine Inside.resolvePath (.of_mem (by simp [namedDirectories])) ?_ ?_
  · rw [hname]
    simp [isAbsolute]
  · rw [hname, hcut, hcut, hcut, split_of_notMem hslash]
    simp only [List.mem_append, List.mem_singleton, not_or]
    exact ⟨by decide, hdots.symm, by decide, by decide⟩

/-! ## What preparing keeps -/

variable (cwd) in
/-- What changed since `before` is inside the directories of the configuration. -/
def Confined (c : Config) (before w : Disk) : Prop :=
  ∀ p, w.nodes p ≠ before.nodes p → Allowed cwd c p

/-- No material was made since `before`. -/
def NothingMade (before w : Disk) : Prop :=
  ∀ p node, w.nodes p = some node → node.generated = true → before.nodes p = some node

theorem Confined.create (h : Confined cwd c before w) {places : List Place}
    (hplaces : ∀ p ∈ places, Allowed cwd c p) : Confined cwd c before (w.create places) := by
  intro p hp
  by_cases hin : p ∈ places
  · exact hplaces p hin
  · exact h p (by simpa [Disk.create, hin] using hp)

theorem Confined.put (h : Confined cwd c before w) {p : Place} (hp : Allowed cwd c p) :
    Confined cwd c before (w.put p node) := by
  intro q hq
  by_cases heq : q = p
  · exact heq ▸ hp
  · exact h q (by rwa [w.put_of_ne node heq] at hq)

theorem NothingMade.create (h : NothingMade before w) (places : List Place) :
    NothingMade before (w.create places) := by
  intro p node hnode hgenerated
  unfold Disk.create at hnode
  dsimp only at hnode
  split_ifs at hnode
  · cases hnode
    simp [Node.generated] at hgenerated
  · exact h p node hnode hgenerated

theorem keeps_restrict {I : Disk → Prop} : Keeps (restrict path) I :=
  keeps_perform (fun _ h => h) (fun _ _ _ h => h)

theorem keeps_make {I : Disk → Prop} {what : String} : Keeps (make what) I :=
  keeps_perform (fun _ h => h) (fun _ _ _ h => h)

/-- Creating a directory keeps what directories at the places on its way keep. -/
theorem keeps_createDirectory {I : Disk → Prop}
    (hcreate : ∀ w places, (∀ p ∈ places, p ∈ way cwd path) → I w → I (w.create places)) :
    Keeps (createDirectory cwd path) I := by
  refine Keeps.bind (keeps_perform ?_ ?_) fun _ => keeps_restrict
  · intro w h
    split_ifs
    · exact h
    · exact hcreate w _ (fun _ hp => hp) h
  · intro n reason w h
    show I (if _ then w else _)
    split_ifs
    · exact h
    · exact hcreate w _ (fun _ hp => List.mem_of_mem_take hp) h

/-- Writing a file keeps what a file keeps where one can be. -/
theorem keeps_write {I : Disk → Prop}
    (hput : ∀ w, w.writable cwd path = true → I w → I (w.put (place cwd path) node)) :
    Keeps (write cwd path node) I := by
  refine keeps_perform ?_ ?_
  · intro w h
    split_ifs with hwritable
    · exact hput w hwritable h
    · exact h
  · intro n reason w h
    show I (if _ then w else _)
    split_ifs with hrefused
    · exact h
    · exact hput w (by simpa using (not_or.mp hrefused).2) h

theorem createDirectory_nothingMade :
    Keeps (createDirectory cwd path) (NothingMade before) :=
  keeps_createDirectory fun _ places _ h => h.create places

theorem createDirectory_confined (hinside : Inside cwd c path) :
    Keeps (createDirectory cwd path) (Confined cwd c before) :=
  keeps_createDirectory fun _ _ hplaces h => h.create fun p hp => hinside.allowed p (hplaces p hp)

theorem write_confined (hinside : Inside cwd c path) :
    Keeps (write cwd path node) (Confined cwd c before) :=
  keeps_write fun _ _ h => h.put hinside.place

theorem writePrivate_confined (hinside : Inside cwd c path) :
    Keeps (writePrivate cwd path node) (Confined cwd c before) :=
  Keeps.bind (write_confined hinside) fun _ => keeps_restrict

theorem generateSecret_confined (hinside : Inside cwd c path) :
    Keeps (generateSecret cwd path) (Confined cwd c before) := by
  refine Keeps.bind keeps_get fun w => ?_
  split_ifs
  · exact keeps_pure _
  · refine Keeps.bind (keeps_perform (fun _ h => h) (fun _ _ _ h => h)) fun _ => ?_
    exact writePrivate_confined hinside

theorem prepareSecrets_confined (hplain : Plain c) :
    Keeps (prepareSecrets cwd c) (Confined cwd c before) := by
  have hstays : ∀ {directory reference}, Inside cwd c directory → PlainReference reference →
      Inside cwd c (resolvePath directory reference.name) := by
    intro directory reference hdirectory hreference
    obtain ⟨hslash, hdots⟩ := plainReference_chars hreference
    obtain ⟨habsolute, hclimb⟩ := stays_of_chars hslash hdots
    exact hdirectory.resolvePath habsolute hclimb
  refine Keeps.bind ?_ fun _ => Keeps.forM fun realm hrealm => ?_
  · unfold serverSecret
    split
    · rename_i reference _ href
      refine generateSecret_confined (hstays (.of_mem ?_) (hplain.server reference href))
      simp [namedDirectories]
    · exact keeps_pure _
  · have hdirectory : Inside cwd c (realmSecretsDirectory c realm.name) :=
      realmSecretsDirectory_inside (hplain.realms realm hrealm)
    unfold realmSecret
    split_ifs
    · exact keeps_pure _
    · cases href : realm.auditPseudonymKeyRef with
      | none => exact keeps_pure _
      | some reference =>
        refine Keeps.bind (createDirectory_confined hdirectory) fun _ => ?_
        exact generateSecret_confined (hstays hdirectory (hplain.secrets realm hrealm _ href))

theorem issue_confined : Keeps (issue cwd (tlsDirectory c)) (Confined cwd c before) := by
  have hfile : ∀ name, isAbsolute name = false → ".." ∉ split '/' name →
      Inside cwd c (join (tlsDirectory c) name) :=
    fun name habsolute hclimb => tlsDirectory_inside.join habsolute hclimb
  have hpair : ∀ certificate key, isAbsolute certificate = false → ".." ∉ split '/' certificate →
      isAbsolute key = false → ".." ∉ split '/' key → ∀ {next : Provisioning Unit},
      Keeps next (Confined cwd c before) → ∀ {describing generating signing : String},
      Keeps (make describing >>= fun _ => make generating >>= fun _ => make signing >>= fun _ =>
        writePublic cwd (join (tlsDirectory c) certificate) .certificate >>= fun _ =>
        writePrivate cwd (join (tlsDirectory c) key) .key >>= fun _ => next)
        (Confined cwd c before) := by
    intro certificate key hc hc' hk hk' next hnext _ _ _
    exact keeps_make.bind fun _ => keeps_make.bind fun _ => keeps_make.bind fun _ =>
      (write_confined (hfile _ hc hc')).bind fun _ =>
        (writePrivate_confined (hfile _ hk hk')).bind fun _ => hnext
  refine hpair _ _ (by decide) (by decide) (by decide) (by decide) ?_
  refine hpair _ _ (by decide) (by decide) (by decide) (by decide) ?_
  refine hpair _ _ (by decide) (by decide) (by decide) (by decide) ?_
  exact keeps_make.bind fun _ => keeps_make.bind fun _ =>
    write_confined (hfile _ (by decide) (by decide))

/-- The certificates keep what issuing them keeps. -/
theorem keeps_prepareCertificates {I : Disk → Prop} (h : Keeps (issue cwd (tlsDirectory c)) I) :
    Keeps (prepareCertificates cwd c) I := by
  unfold prepareCertificates
  split_ifs
  · exact keeps_pure _
  · refine Keeps.bind keeps_get fun w => ?_
    dsimp only
    generalize pairsPresent cwd w (tlsDirectory c) = pairs
    split_ifs
    · exact keeps_pure _
    · exact keeps_throw _
    · exact h

theorem prepare_confined (hplain : c.autogenerate = true → Plain c) :
    Keeps (prepare cwd c) (Confined cwd c before) := by
  have hroot : Inside cwd c c.workingDirectory := .of_mem (by simp [namedDirectories])
  refine Keeps.bind ((createDirectory_confined hroot).mapError _) fun _ =>
    Keeps.bind (Keeps.forM fun d hd => ?_) fun _ => ?_
  · rcases List.mem_append.mp hd with hd | hd
    · exact createDirectory_confined (volumeDirectories_inside d hd)
    · exact createDirectory_confined (chosenDirectories_inside d hd)
  · split_ifs with hgenerate
    · refine Keeps.bind (Keeps.forM fun d hd => createDirectory_confined ?_) fun _ =>
        Keeps.bind (prepareSecrets_confined (hplain hgenerate)) fun _ =>
          keeps_prepareCertificates issue_confined
      simp only [List.mem_cons, List.not_mem_nil, or_false] at hd
      rcases hd with rfl | rfl
      · exact .of_mem (by simp [namedDirectories])
      · exact tlsDirectory_inside
    · exact keeps_pure _

theorem prepare_nothingMade (hoff : c.autogenerate = false) :
    Keeps (prepare cwd c) (NothingMade before) := by
  refine Keeps.bind (createDirectory_nothingMade.mapError _) fun _ =>
    Keeps.bind (Keeps.forM fun d _ => createDirectory_nothingMade) fun _ => ?_
  rw [if_neg (by simp [hoff])]
  exact keeps_pure _

/-- A configuration that is refused leaves what preparing the volume left. -/
theorem serve_refused {configFile : String} {rest : Provisioning Unit} {f : ProvisionOp → Outcome}
    (hrefused : c.validate ((prepare cwd c f w).world.isFile cwd) ≠ .ok ()) :
    (serve cwd c configFile rest f w).world = (prepare cwd c f w).world := by
  have hnotOk : ∀ w', (prepare cwd c f w).world = w' → ∃ e,
      withContext s!"validating the configuration loaded from {configFile}"
        (c.validate (w'.isFile cwd)) = .error e := by
    rintro w' rfl
    cases hvalid : c.validate ((prepare cwd c f w).world.isFile cwd) with
    | ok u => exact absurd hvalid hrefused
    | error e => exact ⟨_, rfl⟩
  cases hprepared : prepare cwd c f w with
  | ok u w' =>
    obtain ⟨e, he⟩ := hnotOk w' (by rw [hprepared]; rfl)
    have hmapped : mapError (s!"preparing the volume at {c.workingDirectory}" :: ·)
        (prepare cwd c) f w = .ok u w' := by simp [mapError, hprepared]
    unfold serve
    rw [bind_of_ok hmapped, bind_of_ok (show Program.get f w' = .ok w' w' from rfl), he]
    rfl
  | error e w' =>
    have hmapped : mapError (s!"preparing the volume at {c.workingDirectory}" :: ·)
        (prepare cwd c) f w =
          .error (s!"preparing the volume at {c.workingDirectory}" :: e) w' := by
      simp [mapError, hprepared]
    unfold serve
    show (Program.bind _ _ f w).world = _
    simp only [Program.bind, hmapped]
    rfl
  | crash w' =>
    have hmapped : mapError (s!"preparing the volume at {c.workingDirectory}" :: ·)
        (prepare cwd c) f w = .crash w' := by simp [mapError, hprepared]
    unfold serve
    show (Program.bind _ _ f w).world = _
    simp only [Program.bind, hmapped]

/-- **What a refused configuration leaves behind.** For every configuration that validation
refuses, every file system and every outcome of the operations on it: without `autogenerate` no
secret, key or certificate is made; and without it, or when the names of realms and secrets are
plain, nothing is created outside the working directory and the directories the configuration
names. -/
theorem refused_configuration {configFile : String} {rest : Provisioning Unit}
    {f : ProvisionOp → Outcome}
    (hrefused : c.validate ((prepare cwd c f w).world.isFile cwd) ≠ .ok ()) :
    (c.autogenerate = false → NothingMade w (serve cwd c configFile rest f w).world) ∧
    (c.autogenerate = false ∨ Plain c →
      Confined cwd c w (serve cwd c configFile rest f w).world) := by
  rw [serve_refused hrefused]
  constructor
  · intro hoff
    exact (prepare_nothingMade hoff f w fun _ _ h _ => h).world
  · intro hcondition
    have hplain : c.autogenerate = true → Plain c := by
      intro hon
      rcases hcondition with hoff | hplain
      · rw [hoff] at hon
        cases hon
      · exact hplain
    exact (prepare_confined hplain f w fun p hp => absurd rfl hp).world

/-! ### Deployments without an address -/

/-- Pseudonymisation in development with a key that is not there, and no public address. -/
def addressless (autogenerate : Bool) : Config :=
  { developmentMode := true
    autogenerate
    auditPseudonymEnabled := true
    auditPseudonymKeyRef := some ⟨"audit-pseudonym"⟩
    secretsProvider := .directory }

theorem addressless_refused (autogenerate : Bool) (isFile : String → Bool) :
    (addressless autogenerate).validate isFile ≠ .ok () := by
  intro h
  obtain ⟨_, -, h⟩ := bind_ok.mp h
  obtain ⟨_, haddress, -⟩ := bind_ok.mp h
  exact refuse_ok.mp haddress rfl

/-- Only the directory the process works in. -/
def bareDisk : Disk := ⟨fun p => if p = [] ∨ p = ["srv"] then some .directory else none⟩

/-- What `serve` leaves on it with every operation done. -/
def served (c : Config) : Disk :=
  (serve ["srv"] c "pic-x.yaml" (pure ()) (fun _ => .done) bareDisk).world

/-- It has no realm, and the name of its secret is plain. -/
theorem addressless_plain (autogenerate : Bool) : Plain (addressless autogenerate) := by
  refine ⟨fun realm hrealm => absurd hrealm List.not_mem_nil, ?_,
    fun realm hrealm => absurd hrealm List.not_mem_nil⟩
  rintro reference ⟨⟩
  unfold PlainReference
  decide

theorem refused_configuration_addressless :
    ((served (addressless false)).nodes ["srv", ".volume", "operations", "state"] =
        some .directory ∧
      NothingMade bareDisk (served (addressless false)) ∧
      Confined ["srv"] (addressless false) bareDisk (served (addressless false))) ∧
    (served (addressless true)).nodes
        ["srv", ".volume", "operations", "secrets", "audit-pseudonym"] = some .secret ∧
      Confined ["srv"] (addressless true) bareDisk (served (addressless true)) := by
  have hleft : ∀ autogenerate, ((addressless autogenerate).autogenerate = false →
        NothingMade bareDisk (served (addressless autogenerate))) ∧
      ((addressless autogenerate).autogenerate = false ∨ Plain (addressless autogenerate) →
        Confined ["srv"] (addressless autogenerate) bareDisk
          (served (addressless autogenerate))) := fun autogenerate =>
    refused_configuration (addressless_refused autogenerate _)
  refine ⟨⟨by decide +kernel, (hleft false).1 rfl, (hleft false).2 (Or.inl rfl)⟩, ?_, ?_⟩
  · decide +kernel
  · exact (hleft true).2 (Or.inr (addressless_plain true))

/-- Provisioning comes first: the secret of a configuration that is then refused stays. -/
theorem secret_before_refusal :
    (∀ isFile, (addressless true).validate isFile ≠ .ok ()) ∧
    ¬NothingMade bareDisk (served (addressless true)) := by
  refine ⟨addressless_refused true, fun hnothing => ?_⟩
  have hmade : (served (addressless true)).nodes
      ["srv", ".volume", "operations", "secrets", "audit-pseudonym"] = some .secret := by
    decide +kernel
  have hbefore := hnothing _ _ hmade rfl
  simp [bareDisk] at hbefore

end PicX.Server
