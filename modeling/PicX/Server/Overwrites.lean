import PicX.Server.Provision

/-!
# What provisioning writes over

The secret of a reference is written where nothing stands. The certificates are written all seven
together when none of the three pairs is complete, and a file whose counterpart is missing does not
count as there.

* `Untouched` — a file that stood before stands as it was.
* `Written` — the files the certificates get to, in the order they are written.
* `never_overwrites_iff` — when no file is touched, however the operations turn out.
-/

namespace PicX.Server

open PicX.Core Program

variable (cwd : Place)

/-! ## Files that stood before -/

/-- The disk provisioning finds, every file on it taken as one that was there. -/
def Disk.found (w : Disk) : Disk where
  nodes p := (w.nodes p).map fun node => if node = .directory then .directory else .supplied

/-- What stood before as a file stands as it was. -/
def Untouched (before w : Disk) : Prop :=
  ∀ p, before.nodes p = some .supplied → w.nodes p = some .supplied

/-- Every file has the content it had, whether preparing succeeds or fails. -/
def NeverOverwrites (c : Config) (w : Disk) : Prop :=
  ∀ f, Untouched w.found (prepare cwd c f w.found).world

/-! ## What comes before the certificates -/

/-- The directories, which are there whatever `autogenerate` says. -/
def prepareDirectories (c : Config) : Provisioning Unit := do
  mapError (s!"preparing the volume at {c.workingDirectory}" :: ·)
    (createDirectory cwd c.workingDirectory)
  (volumeDirectories c ++ chosenDirectories c).forM (createDirectory cwd)

/-- All that is made before the certificates are looked at. -/
def beforeCertificates (c : Config) : Provisioning Unit := do
  prepareDirectories cwd c
  [secretsDirectory c, tlsDirectory c].forM (createDirectory cwd)
  prepareSecrets cwd c

/-- The files of the certificates, in the order they are written. -/
def tlsFiles : List String :=
  ["ca.pem", "ca.key", "server.pem", "server.key", "client.pem", "client.key", "ca.crl"]

def tlsPaths (c : Config) : List String := tlsFiles.map (join (tlsDirectory c))

/-- The files that are got to when they are written one after the other, up to the first that cannot
be. -/
def Written (w : Disk) (paths : List String) (path : String) : Prop :=
  ∃ before after, paths = before ++ path :: after ∧
    ∀ x ∈ before ++ [path], w.writable cwd x = true

/-- The certificates spare what stood before: they are not asked for, or not got to, or a pair is
complete, or no file stands where one is written. -/
def Spares (c : Config) (w : Disk) : Prop :=
  c.autogenerate = true → ¬(c.publicTls = none ∧ c.adminTls = none ∧ c.telemetryTls = none) →
  ∀ w', beforeCertificates cwd c (fun _ => .done) w.found = .ok () w' →
    pairsPresent cwd w' (tlsDirectory c) = 0 →
    ∀ path, Written cwd w' (tlsPaths c) path → w.found.nodes (place cwd path) ≠ some .supplied

variable {cwd} {c : Config} {w w' before : Disk} {path : String} {node : Node}

/-! ## Directories and secrets -/

theorem Untouched.create (h : Untouched before w) (places : List Place) :
    Untouched before (w.create places) := by
  intro p hp
  have hw := h p hp
  simp [Disk.create, hw]

theorem createDirectory_untouched : Keeps (createDirectory cwd path) (Untouched before) :=
  keeps_createDirectory fun _ places _ h => h.create places

/-- A secret is put where nothing stands, or nothing is done. -/
theorem generateSecret_world (f : ProvisionOp → Outcome) :
    (generateSecret cwd path f w).world = w ∨
      w.present cwd path = false ∧ w.writable cwd path = true ∧
        (generateSecret cwd path f w).world = w.put (place cwd path) .secret := by
  unfold generateSecret
  rw [bind_of_ok (show Program.get f w = .ok w w from rfl)]
  split_ifs with hpresent
  · exact Or.inl rfl
  · -- Drawing the bytes leaves the disk as it is, so what was looked at is what is written to.
    have hkeeps : Keeps (perform (.drawSecret path) (fun w => .ok () w) (fun _ _ w =>
        .error ["drawing random bytes for a generated secret",
          "the system random number generator refused"] w) >>= fun _ =>
        writePrivate cwd path .secret) fun w' => w' = w ∨
          w.writable cwd path = true ∧ w' = w.put (place cwd path) .secret := by
      refine Keeps.bind (keeps_perform (fun _ h => h) (fun _ _ _ h => h)) fun _ =>
        Keeps.bind (keeps_write ?_) fun _ => keeps_restrict
      intro w' hwritable h
      rcases h with rfl | ⟨hw, rfl⟩
      · exact Or.inr ⟨hwritable, rfl⟩
      · exact Or.inr ⟨hw, w.put_put _ _ _⟩
    exact (hkeeps f w (Or.inl rfl)).world.imp_right fun ⟨hwritable, hworld⟩ =>
      ⟨by simpa using hpresent, hwritable, hworld⟩

/-- Nothing stands where a secret is put. -/
theorem absent_of_not_present (hpresent : w.present cwd path = false)
    (hwritable : w.writable cwd path = true) : w.nodes (place cwd path) = none := by
  simp only [Disk.present, Disk.writable, Bool.and_eq_true, Bool.and_eq_false_iff] at *
  rcases hpresent with hleads | hnone
  · rw [hwritable.1] at hleads
    cases hleads
  · exact Option.not_isSome_iff_eq_none.mp (by simp [hnone])

theorem generateSecret_untouched : Keeps (generateSecret cwd path) (Untouched before) := by
  intro f w h
  refine WP.of_world ?_
  rcases generateSecret_world f with hsame | ⟨hpresent, hwritable, hput⟩
  · rw [hsame]
    exact h
  · rw [hput]
    intro p hp
    have hne : p ≠ place cwd path := by
      intro heq
      have hnone := absent_of_not_present hpresent hwritable
      rw [← heq, h p hp] at hnone
      cases hnone
    rw [w.put_of_ne _ hne]
    exact h p hp

theorem prepareDirectories_untouched : Keeps (prepareDirectories cwd c) (Untouched before) :=
  Keeps.bind (createDirectory_untouched.mapError _) fun _ =>
    Keeps.forM fun _ _ => createDirectory_untouched

theorem prepareSecrets_untouched : Keeps (prepareSecrets cwd c) (Untouched before) := by
  refine Keeps.bind ?_ fun _ => Keeps.forM fun realm _ => ?_
  · unfold serverSecret
    split
    · exact generateSecret_untouched
    · exact keeps_pure _
  · unfold realmSecret
    split_ifs
    · exact keeps_pure _
    · cases realm.auditPseudonymKeyRef with
      | none => exact keeps_pure _
      | some reference =>
        exact Keeps.bind createDirectory_untouched fun _ => generateSecret_untouched

theorem beforeCertificates_untouched : Keeps (beforeCertificates cwd c) (Untouched before) :=
  Keeps.bind prepareDirectories_untouched fun _ =>
    Keeps.bind (Keeps.forM fun _ _ => createDirectory_untouched) fun _ => prepareSecrets_untouched

/-! ## A success takes every operation -/

theorem steady_restrict : Steady (restrict path) := steady_perform

theorem steady_createDirectory : Steady (createDirectory cwd path) :=
  Steady.bind steady_perform fun _ => steady_restrict

theorem steady_generateSecret : Steady (generateSecret cwd path) := by
  refine Steady.bind steady_get fun w => ?_
  split_ifs
  · exact steady_pure _
  · exact Steady.bind steady_perform fun _ => Steady.bind steady_perform fun _ => steady_restrict

theorem steady_prepareSecrets : Steady (prepareSecrets cwd c) := by
  refine Steady.bind ?_ fun _ => Steady.forM fun realm _ => ?_
  · unfold serverSecret
    split
    · exact steady_generateSecret
    · exact steady_pure _
  · unfold realmSecret
    split_ifs
    · exact steady_pure _
    · cases realm.auditPseudonymKeyRef with
      | none => exact steady_pure _
      | some reference =>
        exact Steady.bind steady_createDirectory fun _ => steady_generateSecret

theorem steady_beforeCertificates : Steady (beforeCertificates cwd c) :=
  Steady.bind (Steady.bind (steady_createDirectory.mapError _) fun _ =>
    Steady.forM fun _ _ => steady_createDirectory) fun _ =>
      Steady.bind (Steady.forM fun _ _ => steady_createDirectory) fun _ => steady_prepareSecrets

theorem prepare_eq (hon : c.autogenerate = true) :
    prepare cwd c = beforeCertificates cwd c >>= fun _ => prepareCertificates cwd c := by
  unfold beforeCertificates prepareDirectories prepare generateMissing
  simp only [bind_assoc, hon, if_true]

/-! ## Writing the certificates -/

/-- A file where one can be changes nothing for the others. -/
theorem writable_put (hwritable : w.writable cwd path = true) (hnode : node ≠ .directory)
    (path' : String) :
    (w.put (place cwd path) node).writable cwd path' = w.writable cwd path' := by
  have hdirectory : w.nodes (place cwd path) ≠ some .directory := by
    simpa using (Bool.and_eq_true_iff.mp hwritable).2
  have hsame : ∀ p, (w.put (place cwd path) node).nodes p = some .directory ↔
      w.nodes p = some .directory := by
    intro p
    by_cases hp : p = place cwd path
    · rw [hp, w.put_self]
      exact iff_of_false (fun h => hnode (Option.some.inj h)) hdirectory
    · rw [w.put_of_ne _ hp]
  simp only [Disk.writable, Disk.leads, hsame, ne_eq]

/-- What was made stands there as what was made. -/
def Made (w : Disk) (p : Place) : Prop := ∃ node, w.nodes p = some node ∧ node.generated = true

theorem Made.put {p q : Place} (h : Made w q) (hnode : node.generated = true) :
    Made (w.put p node) q := by
  by_cases hq : q = p
  · rw [hq]
    exact ⟨node, w.put_self p node, hnode⟩
  · obtain ⟨node', hnode', hgenerated⟩ := h
    exact ⟨node', (w.put_of_ne node hq).trans hnode', hgenerated⟩

theorem Written.tail {paths : List String} {path' : String} (hnode : node ≠ .directory)
    (hwritable : w.writable cwd path = true)
    (h : Written cwd (w.put (place cwd path) node) paths path') :
    Written cwd w (path :: paths) path' := by
  obtain ⟨before, after, rfl, hall⟩ := h
  refine ⟨path :: before, after, rfl, ?_⟩
  intro x hx
  rcases List.mem_cons.mp hx with rfl | hx
  · exact hwritable
  · rw [← writable_put hwritable hnode]
    exact hall x hx

theorem Written.cases {paths : List String} {path' : String} (hnode : node ≠ .directory)
    (h : Written cwd w (path :: paths) path') : w.writable cwd path = true ∧
      (path' = path ∨ Written cwd (w.put (place cwd path) node) paths path') := by
  obtain ⟨before, after, hsplit, hall⟩ := h
  cases before with
  | nil =>
    obtain ⟨rfl, rfl⟩ := List.cons.inj hsplit
    exact ⟨hall _ (by simp), Or.inl rfl⟩
  | cons first rest =>
    obtain ⟨rfl, rfl⟩ := List.cons.inj hsplit
    have hwritable := hall path (by simp)
    refine ⟨hwritable, Or.inr ⟨rest, after, rfl, ?_⟩⟩
    intro x hx
    rw [writable_put hwritable hnode]
    exact hall x (List.mem_cons_of_mem _ hx)

variable (cwd) in
/-- A program that writes these files one after the other: it changes nothing else, and without a
failure every one it gets to is written. -/
structure Writes (p : Provisioning Unit) (paths : List String) : Prop where
  only : ∀ f w q, (p f w).world.nodes q ≠ w.nodes q →
    ∃ path, Written cwd w paths path ∧ q = place cwd path
  all : ∀ w path, Written cwd w paths path → Made (p (fun _ => .done) w).world (place cwd path)
  keeps : ∀ w q, Made w q → Made (p (fun _ => .done) w).world q

/-- A program that leaves the disk as it is. -/
structure Quiet (p : Provisioning Unit) : Prop where
  world : ∀ f w, (p f w).world = w
  done : ∀ w, p (fun _ => .done) w = .ok () w

theorem quiet_make (what : String) : Quiet (make what) where
  world f w := by
    unfold make perform
    cases f (.make what) <;> rfl
  done _ := rfl

theorem quiet_restrict (path : String) : Quiet (restrict path) where
  world f w := by
    unfold restrict perform
    cases f (.restrict path) <;> rfl
  done _ := rfl

/-- What such a program is followed by writes what it writes. -/
theorem Quiet.writes {p q : Provisioning Unit} {paths : List String} (hq : Quiet q)
    (h : Writes cwd p paths) : Writes cwd (q >>= fun _ => p) paths where
  only f w place hplace := by
    have hworld := hq.world f w
    change (Program.bind q _ f w).world.nodes place ≠ _ at hplace
    unfold Program.bind at hplace
    cases hend : q f w with
    | ok u w₁ =>
      rw [hend] at hplace hworld
      obtain rfl : w₁ = w := hworld
      exact h.only f w₁ place hplace
    | error e w₁ =>
      rw [hend] at hplace hworld
      exact absurd (congrArg (fun w : Disk => w.nodes place) hworld) hplace
    | crash w₁ =>
      rw [hend] at hplace hworld
      exact absurd (congrArg (fun w : Disk => w.nodes place) hworld) hplace
  all w path hpath := by
    rw [bind_of_ok (hq.done w)]
    exact h.all w path hpath
  keeps w place hplace := by
    rw [bind_of_ok (hq.done w)]
    exact h.keeps w place hplace

/-- A program that writes nothing. -/
theorem writes_nothing : Writes cwd (pure ()) [] where
  only f w place hplace := absurd rfl hplace
  all w path hpath := by
    obtain ⟨before, after, hsplit, -⟩ := hpath
    simp at hsplit
  keeps w place hplace := hplace

/-- What is followed by a program writes its own file first, where it can be. -/
theorem Writes.write {p : Provisioning Unit} {paths : List String} (h : Writes cwd p paths)
    (hnode : node.generated = true) :
    Writes cwd (Server.write cwd path node >>= fun _ => p) (path :: paths) := by
  have hfile : node ≠ .directory := by
    intro hdirectory
    rw [hdirectory] at hnode
    cases hnode
  have hfirst : ∀ w : Disk, w.writable cwd path = true → ∀ place',
      (w.put (place cwd path) node).nodes place' ≠ w.nodes place' →
      ∃ path', Written cwd w (path :: paths) path' ∧ place' = place cwd path' := by
    intro w hwritable place' hplace'
    refine ⟨path, ⟨[], paths, rfl, by simpa using hwritable⟩, ?_⟩
    by_contra hne
    exact hplace' (w.put_of_ne node hne)
  constructor
  · intro f w place' hplace'
    change (Program.bind (Server.write cwd path node) _ f w).world.nodes place' ≠ _ at hplace'
    unfold Program.bind Server.write perform at hplace'
    cases hf : f (.write path) with
    | done =>
      rw [hf] at hplace'
      dsimp only at hplace'
      by_cases hwritable : w.writable cwd path = true
      · rw [if_pos hwritable] at hplace'
        by_cases hlater : (p f (w.put (place cwd path) node)).world.nodes place' =
            (w.put (place cwd path) node).nodes place'
        · exact hfirst w hwritable place' (hlater ▸ hplace')
        · obtain ⟨path', hpath', rfl⟩ := h.only f _ place' hlater
          exact ⟨path', hpath'.tail hfile hwritable, rfl⟩
      · rw [if_neg hwritable] at hplace'
        exact absurd rfl hplace'
    | failed n reason =>
      rw [hf] at hplace'
      dsimp only at hplace'
      by_cases hrefused : n = 0 ∨ w.writable cwd path = false
      · rw [if_pos hrefused] at hplace'
        exact absurd rfl hplace'
      · rw [if_neg hrefused] at hplace'
        exact hfirst w (by simpa using (not_or.mp hrefused).2) place' hplace'
    | crashed =>
      rw [hf] at hplace'
      exact absurd rfl hplace'
  · intro w path' hpath'
    obtain ⟨hwritable, hcases⟩ := hpath'.cases hfile
    have hrun : Server.write cwd path node (fun _ => .done) w =
        .ok () (w.put (place cwd path) node) := if_pos hwritable
    rw [bind_of_ok hrun]
    rcases hcases with rfl | hlater
    · exact h.keeps _ _ ⟨node, w.put_self _ node, hnode⟩
    · exact h.all _ path' hlater
  · intro w place' hplace'
    by_cases hwritable : w.writable cwd path = true
    · have hrun : Server.write cwd path node (fun _ => .done) w =
          .ok () (w.put (place cwd path) node) := if_pos hwritable
      rw [bind_of_ok hrun]
      exact h.keeps _ _ (hplace'.put hnode)
    · have hrun : Server.write cwd path node (fun _ => .done) w =
          .error [s!"writing {path}", w.unwritableReason cwd path] w := if_neg hwritable
      show Made (Program.bind (Server.write cwd path node) _ _ w).world _
      unfold Program.bind
      rw [hrun]
      exact hplace'

theorem Writes.writePrivate {p : Provisioning Unit} {paths : List String} (h : Writes cwd p paths)
    (hnode : node.generated = true) :
    Writes cwd (Server.writePrivate cwd path node >>= fun _ => p) (path :: paths) := by
  unfold Server.writePrivate
  rw [bind_assoc]
  exact ((quiet_restrict path).writes h).write hnode

/-- Issuing the certificates writes the seven files. -/
theorem issue_writes : Writes cwd (issue cwd (tlsDirectory c)) (tlsPaths c) := by
  have hpair : ∀ certificate key : String, ∀ {next : Provisioning Unit} {paths : List String},
      Writes cwd next paths → ∀ {describing generating signing : String},
      Writes cwd (make describing >>= fun _ => make generating >>= fun _ =>
        make signing >>= fun _ =>
        writePublic cwd (join (tlsDirectory c) certificate) .certificate >>= fun _ =>
        writePrivate cwd (join (tlsDirectory c) key) .key >>= fun _ => next)
        (join (tlsDirectory c) certificate :: join (tlsDirectory c) key :: paths) := by
    intro certificate key next paths hnext describing generating signing
    exact (quiet_make describing).writes ((quiet_make generating).writes
      ((quiet_make signing).writes ((hnext.writePrivate rfl).write rfl)))
  have hlast : Writes cwd (writePublic cwd (join (tlsDirectory c) "ca.crl") .revocations)
      [join (tlsDirectory c) "ca.crl"] := by
    rw [← bind_unit (writePublic cwd _ _)]
    exact writes_nothing.write rfl
  refine hpair _ _ (hpair _ _ (hpair _ _ ?_))
  exact (quiet_make _).writes ((quiet_make _).writes hlast)

/-! ## Preparing the volume -/

/-- The certificates change the disk only by issuing them, when no pair is complete. -/
theorem prepareCertificates_world (f : ProvisionOp → Outcome) (w : Disk) :
    (prepareCertificates cwd c f w).world = w ∨
      ¬(c.publicTls = none ∧ c.adminTls = none ∧ c.telemetryTls = none) ∧
        pairsPresent cwd w (tlsDirectory c) = 0 ∧
        (prepareCertificates cwd c f w).world = (issue cwd (tlsDirectory c) f w).world := by
  unfold prepareCertificates
  split_ifs with htls
  · exact Or.inl rfl
  · rw [bind_of_ok (show Program.get f w = .ok w w from rfl)]
    generalize hpairs : pairsPresent cwd w (tlsDirectory c) = pairs
    split_ifs with hthree hsome
    · exact Or.inl rfl
    · exact Or.inl rfl
    · exact Or.inr ⟨htls, by omega, rfl⟩

theorem prepareCertificates_issues {f : ProvisionOp → Outcome}
    (htls : ¬(c.publicTls = none ∧ c.adminTls = none ∧ c.telemetryTls = none))
    (hpairs : pairsPresent cwd w (tlsDirectory c) = 0) :
    prepareCertificates cwd c f w = issue cwd (tlsDirectory c) f w := by
  unfold prepareCertificates
  rw [if_neg htls, bind_of_ok (show Program.get f w = .ok w w from rfl), hpairs]
  rfl

theorem prepare_untouched (hoff : c.autogenerate = false) :
    Keeps (prepare cwd c) (Untouched before) := by
  unfold prepare
  rw [hoff]
  exact Keeps.bind (createDirectory_untouched.mapError _) fun _ =>
    Keeps.bind (Keeps.forM fun _ _ => createDirectory_untouched) fun _ => keeps_pure _

/-- What is before the certificates ends early, or as it does without a failure. -/
theorem prepare_world (hon : c.autogenerate = true) (f : ProvisionOp → Outcome) (w : Disk) :
    (prepare cwd c f w).world = (beforeCertificates cwd c f w).world ∨
      ∃ w', beforeCertificates cwd c f w = .ok () w' ∧
        beforeCertificates cwd c (fun _ => .done) w = .ok () w' ∧
        (prepare cwd c f w).world = (prepareCertificates cwd c f w').world := by
  rw [prepare_eq hon]
  cases hbefore : beforeCertificates cwd c f w with
  | ok u w' =>
    rw [bind_of_ok hbefore]
    exact Or.inr ⟨w', rfl, steady_beforeCertificates f w u w' hbefore, rfl⟩
  | error e w' =>
    left
    show (Program.bind _ _ f w).world = _
    unfold Program.bind
    rw [hbefore]
  | crash w' =>
    left
    show (Program.bind _ _ f w).world = _
    unfold Program.bind
    rw [hbefore]

/-- **Provisioning overwrites nothing exactly when the certificates spare what stood before**, for
every configuration and every content of the volume: `autogenerate` is off, or no surface has TLS,
or something before the certificates cannot be done, or one of the three pairs is complete by then,
or no file stands where one of the seven is written. -/
theorem never_overwrites_iff (c : Config) (w : Disk) :
    NeverOverwrites cwd c w ↔ Spares cwd c w := by
  constructor
  · intro hnever hon htls w' hbefore hpairs path hwritten hsupplied
    have hkept := hnever (fun _ => .done) (place cwd path) hsupplied
    rw [prepare_eq hon, bind_of_ok hbefore, prepareCertificates_issues htls hpairs] at hkept
    obtain ⟨node, hnode, hgenerated⟩ := issue_writes.all w' path hwritten
    cases hkept.symm.trans hnode
    cases hgenerated
  · intro hspares f
    cases hon : c.autogenerate with
    | false => exact (prepare_untouched hon f w.found fun _ hp => hp).world
    | true =>
      have huntouched : Untouched w.found (beforeCertificates cwd c f w.found).world :=
        (beforeCertificates_untouched f w.found fun _ hp => hp).world
      rcases prepare_world hon f w.found with hsame | ⟨w', hrun, hdone, hworld⟩
      · rw [hsame]
        exact huntouched
      · rw [hrun] at huntouched
        rw [hworld]
        rcases prepareCertificates_world f w' with hsame | ⟨htls, hpairs, hissue⟩
        · rw [hsame]
          exact huntouched
        · rw [hissue]
          intro p hp
          by_contra hchanged
          have hne : (issue cwd (tlsDirectory c) f w').world.nodes p ≠ w'.nodes p := by
            intro hsame
            exact hchanged (hsame.trans (huntouched p hp))
          obtain ⟨path, hwritten, rfl⟩ := issue_writes.only f w' p hne
          exact hspares hon htls w' hdone hpairs path hwritten hp

/-- A server that may generate what is missing, with TLS. -/
def generous : Config :=
  { developmentMode := true
    autogenerate := true
    publicTls := some (.new "tls/server.pem" "tls/server.key") }

/-- A volume with the certificate of an authority whose key is kept elsewhere. -/
def loneAuthority : Disk where
  nodes p := if p = ["srv", ".volume", "tls", "ca.pem"] then some .supplied
    else if p = [] ∨ p = ["srv"] ∨ p = ["srv", ".volume"] ∨ p = ["srv", ".volume", "tls"] then
      some .directory
    else none

/-- It is replaced by one that was made up. -/
theorem lone_authority_overwritten : ¬NeverOverwrites ["srv"] generous loneAuthority := by
  intro h
  have hkept := h (fun _ => .done) ["srv", ".volume", "tls", "ca.pem"] rfl
  have hmade : (prepare ["srv"] generous (fun _ => .done) loneAuthority.found).world.nodes
      ["srv", ".volume", "tls", "ca.pem"] = some .certificate := by
    decide +kernel
  cases hkept.symm.trans hmade

end PicX.Server
