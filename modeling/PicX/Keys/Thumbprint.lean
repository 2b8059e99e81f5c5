import PicX.Base.Json
import PicX.Keys.Base64
import PicX.Keys.Migration

/-!
# A published key is named after itself

The name of a key is worked out once, when the key is created; the JWK a client fetches is made
again on every read from what the ring file says. What the two have in common is stated on the JWK
alone: the thumbprint of RFC 7638 over the members that are published.

* `rfc7638` — the thumbprint of a JWK.
* `Describes` — what the JWK of a key pair has to say.
* `Created.describes` — **the entry of a new key describes its key pair**.
* `maintain_published` — no pass changes what the JWK of an entry says.

Main result: `published_under_own_name`.
-/

namespace PicX.Keys

open PicX Program Encoding Bits

variable {c : Crates} {m : DirectoryKeyManager} {now n : Nat} {keys : List Entry} {p p' : Pass}
  {f : Op → Outcome} {w w' w₀ : World} {e : Entry} {P : Jwk → Prop}

/-! ## The thumbprint of a JWK -/

/-- The members RFC 7638 requires of a key of this type, by their names. -/
def requiredMembers (jwk : Jwk) : List (String × Option String) :=
  if jwk.kty = "OKP" then [("crv", jwk.crv), ("kty", some jwk.kty), ("x", some jwk.x)]
  else if jwk.kty = "EC" then
    [("crv", jwk.crv), ("kty", some jwk.kty), ("x", some jwk.x), ("y", jwk.y)]
  else []

/-- They are in lexicographic order. -/
theorem requiredMembers_sorted (jwk : Jwk) :
    ((requiredMembers jwk).map Prod.fst).Pairwise (· < ·) := by
  unfold requiredMembers
  split_ifs
  · show ["crv", "kty", "x"].Pairwise (· < ·)
    decide
  · show ["crv", "kty", "x", "y"].Pairwise (· < ·)
    decide
  · exact .nil

/-- A member of a JSON object, without whitespace. -/
def member (name value : String) : List Char :=
  Json.writeString name ++ ':' :: Json.writeString value

/-- The JSON object of some members, without whitespace. -/
def object (members : List (String × String)) : List Char :=
  '\x7b' :: (List.intercalate [','] (members.map fun nv => member nv.1 nv.2) ++ ['\x7d'])

/-- The thumbprint of a JWK that has the members it needs. -/
def rfc7638 (sha256 : Bytes → Bytes) (jwk : Jwk) : Option String := do
  guard (requiredMembers jwk ≠ [])
  let members ← (requiredMembers jwk).mapM fun nv => nv.2.map fun value => (nv.1, value)
  pure (unpaddedUrl (sha256 (utf8 (String.ofList (object members)))))

/-! ## What a JSON text of a key looks like -/

/-- No character has to be escaped. -/
def Unescaped (s : String) : Prop := ∀ ch ∈ s.toList, Json.escape ch = [ch]

instance (s : String) : Decidable (Unescaped s) :=
  decidable_of_iff (s.toList.all (fun ch => Json.escape ch = [ch]) = true) (by simp [Unescaped])

theorem writeString_unescaped {s : String} (h : Unescaped s) :
    Json.writeString s = '"' :: s.toList ++ ['"'] := by
  have hsame : s.toList.flatMap Json.escape = s.toList.flatMap fun ch => [ch] :=
    List.flatMap_congr h
  unfold Json.writeString
  rw [hsame, List.flatMap_singleton']

theorem unescaped_base64url (input : Bytes) : Unescaped (base64url input) := by
  have hsymbol : ∀ value < 64, Json.escape (symbol URL_SAFE value) = [symbol URL_SAFE value] := by
    decide +kernel
  intro ch hch
  unfold base64url at hch
  rw [String.toList_ofList, encode_eq] at hch
  rcases List.mem_append.mp hch with h | h
  · obtain ⟨value, hvalue, rfl⟩ := List.mem_map.mp h
    exact hsymbol value (lt_of_mem_sextets hvalue)
  · cases h

/-- A member whose name and value need no escape. -/
theorem member_unescaped {name value : String} (hname : Unescaped name) (hvalue : Unescaped value) :
    member name value = '"' :: name.toList ++ '"' :: ':' :: '"' :: value.toList ++ ['"'] := by
  simp [member, writeString_unescaped hname, writeString_unescaped hvalue]

theorem canonical_ed25519 {x : String} (hx : Unescaped x) : (canonical .ed25519 x).toList =
    object [("crv", CURVE), ("kty", "OKP"), ("x", x)] := by
  have hcrv : member "crv" CURVE = _ := member_unescaped (by decide) (by decide)
  have hkty : member "kty" "OKP" = _ := member_unescaped (by decide) (by decide)
  have hmember : member "x" x = _ := member_unescaped (by decide) hx
  simp [object, hcrv, hkty, hmember, canonical]

theorem canonical_es256 {publicKey x y : String} (hsplit : splitP256Point publicKey = (x, y))
    (hx : Unescaped x) (hy : Unescaped y) : (canonical .es256 publicKey).toList =
      object [("crv", P256_CURVE), ("kty", "EC"), ("x", x), ("y", y)] := by
  have hcrv : member "crv" P256_CURVE = _ := member_unescaped (by decide) (by decide)
  have hkty : member "kty" "EC" = _ := member_unescaped (by decide) (by decide)
  have hxmember : member "x" x = _ := member_unescaped (by decide) hx
  have hymember : member "y" y = _ := member_unescaped (by decide) hy
  simp [object, hcrv, hkty, hxmember, hymember, canonical, hsplit]

/-! ## What the JWK of a key pair says -/

/-- The ring generates key pairs with this public half. -/
def KeyPair (c : Crates) (algorithm : RingAlgorithm) (point : Bytes) : Prop :=
  ∃ draw, c.fromPkcs8 algorithm (c.generatePkcs8 algorithm draw) = .ok point

/-- What the crate promises: a P-256 public key is an uncompressed point, `0x04 || x || y`. -/
def Uncompressed (c : Crates) : Prop :=
  ∀ point, KeyPair c .es256 point → point.length = 65 ∧ point.head? = some 4

/-- The members of a JWK from which an Ed25519 public key is read. -/
def SaysEd25519 (point : Bytes) (jwk : Jwk) : Prop :=
  jwk.kty = "OKP" ∧ jwk.crv = some "Ed25519" ∧ jwk.y = none ∧ fromBase64url jwk.x = some point

/-- The members of a JWK from which a P-256 public key is read. -/
def SaysP256 (point : Bytes) (jwk : Jwk) : Prop :=
  jwk.kty = "EC" ∧ jwk.crv = some "P-256" ∧ ∃ text x y, jwk.y = some text ∧
    fromBase64url jwk.x = some x ∧ fromBase64url text = some y ∧
      x.length = 32 ∧ y.length = 32 ∧ point = 0x04 :: (x ++ y)

/-- The members of a JWK from which a public key is read. -/
def Says (algorithm : RingAlgorithm) (point : Bytes) (jwk : Jwk) : Prop :=
  match algorithm with
  | .ed25519 => SaysEd25519 point jwk
  | .es256 => SaysP256 point jwk

/-- `jwk` is called what its own members make of it, which is the name the key pair was created
under, and these members say what the public half is. -/
structure Describes (c : Crates) (algorithm : RingAlgorithm) (point : Bytes) (jwk : Jwk) :
    Prop where
  own_name : rfc7638 c.sha256 jwk = some jwk.kid
  created_as : jwk.kid = thumbprint c algorithm (base64url point)
  members : Says algorithm point jwk

/-- An uncompressed point in its two coordinates. -/
theorem splitP256Point_base64url {point : Bytes} (hlength : point.length = 65)
    (hhead : point.head? = some 4) : splitP256Point (base64url point) =
      (base64url ((point.drop 1).take 32), base64url ((point.drop 33).take 32)) := by
  have hgood : ¬(point.length ≠ 65 ∨ point.head? ≠ some 4) := by
    rintro (hbad | hbad)
    · exact hbad hlength
    · exact hbad hhead
  unfold splitP256Point
  rw [fromBase64url_base64url]
  exact if_neg hgood

theorem point_eq {point : Bytes} (hlength : point.length = 65) (hhead : point.head? = some 4) :
    point = 0x04 :: ((point.drop 1).take 32 ++ (point.drop 33).take 32) := by
  cases point with
  | nil => cases hhead
  | cons b rest =>
    rw [List.head?_cons, Option.some.injEq] at hhead
    have hrest : rest.length = 32 + 32 := Nat.succ.inj hlength
    rw [hhead, List.drop_succ_cons, List.drop_zero, List.drop_succ_cons,
      List.take_of_length_le (l := rest.drop 32) (by simp [hrest]), List.take_append_drop]

/-- The thumbprint of a JWK whose members are the ones that were hashed. -/
theorem rfc7638_eq {jwk : Jwk} {algorithm : RingAlgorithm} {publicKey : String}
    {members : List (String × String)} (hne : requiredMembers jwk ≠ [])
    (hmembers : (requiredMembers jwk).mapM (fun nv => nv.2.map fun value => (nv.1, value)) =
      some members)
    (hcanonical : (canonical algorithm publicKey).toList = object members) :
    rfc7638 c.sha256 jwk = some (thumbprint c algorithm publicKey) := by
  unfold rfc7638 thumbprint
  simp [guard, hne, hmembers, ← hcanonical, base64url_eq]

/-- **The entry of a new key describes its key pair.** -/
theorem newEntry_describes (hpoints : Uncompressed c) {signing : Bool} {point : Bytes}
    (hpair : KeyPair c m.algorithm point) :
    Describes c m.algorithm point (newEntry c m now signing point).toJwk := by
  cases halgorithm : m.algorithm with
  | ed25519 =>
    have hjwk : (newEntry c m now signing point).toJwk =
        Jwk.okp (thumbprint c .ed25519 (base64url point)) CURVE ALGORITHM (base64url point) := by
      simp [newEntry, Entry.toJwk, halgorithm]
    rw [hjwk]
    refine ⟨?_, rfl, rfl, rfl, rfl, fromBase64url_base64url point⟩
    exact rfc7638_eq (by simp [requiredMembers, Jwk.okp]) rfl
      (canonical_ed25519 (unescaped_base64url point))
  | es256 =>
    rw [halgorithm] at hpair
    obtain ⟨hlength, hhead⟩ := hpoints point hpair
    have hsplit := splitP256Point_base64url hlength hhead
    have hjwk : (newEntry c m now signing point).toJwk =
        Jwk.ec (thumbprint c .es256 (base64url point)) P256_CURVE P256_ALGORITHM
          (base64url ((point.drop 1).take 32)) (base64url ((point.drop 33).take 32)) := by
      simp [newEntry, Entry.toJwk, halgorithm, hsplit]
    rw [hjwk]
    refine ⟨?_, rfl, rfl, rfl, _, _, _, rfl, fromBase64url_base64url _, fromBase64url_base64url _,
      by simp [hlength], by simp [hlength], point_eq hlength hhead⟩
    exact rfc7638_eq (by simp [requiredMembers, Jwk.ec]) rfl
      (canonical_es256 hsplit (unescaped_base64url _) (unescaped_base64url _))

theorem Created.describes (hpoints : Uncompressed c) {signing : Bool}
    (h : Created c m now signing n e) :
    ∃ point, KeyPair c m.algorithm point ∧ Describes c m.algorithm point e.toJwk := by
  obtain ⟨point, hread, rfl⟩ := h
  exact ⟨point, ⟨n, hread⟩, newEntry_describes hpoints ⟨n, hread⟩⟩

/-! ## What a pass makes of it -/

/-- What is published for every entry has the property. -/
def Publishes (P : Jwk → Prop) (keys : List Entry) : Prop := ∀ e ∈ keys, P e.toJwk

/-- What is published for every key that is created has the property. -/
def Creates (c : Crates) (P : Jwk → Prop) : Prop :=
  ∀ m now signing n e, Created c m now signing n e → P e.toJwk

theorem Publishes.concat (h : Publishes P keys) (he : P e.toJwk) : Publishes P (keys ++ [e]) := by
  intro e' he'
  rcases List.mem_append.mp he' with hold | hlast
  · exact h e' hold
  · rw [List.mem_singleton.mp hlast]
    exact he

theorem Publishes.retireActive (h : Publishes P keys) : Publishes P (retireActive now keys) := by
  intro e' he'
  obtain ⟨e, he, ⟨-, rfl⟩ | ⟨-, rfl⟩⟩ := mem_retireActive.mp he'
  · exact h e he
  · exact h e' he

theorem Publishes.activateKey (h : Publishes P keys) (kid : String) :
    Publishes P (activateKey now kid keys) := by
  induction keys with
  | nil => exact h
  | cons e rest ih =>
    have hrest : Publishes P rest := fun e' he' => h e' (List.mem_cons_of_mem e he')
    have hhead : P e.toJwk := h e List.mem_cons_self
    unfold Keys.activateKey
    split_ifs
    · exact List.forall_mem_cons.mpr ⟨hhead, hrest⟩
    · exact List.forall_mem_cons.mpr ⟨hhead, ih hrest⟩

theorem Publishes.catchUp (h : Publishes P p.keys) {fuel : Nat}
    (hloop : catchUp m now fuel p = some p') : Publishes P p'.keys := by
  induction fuel generalizing p with
  | zero => cases hloop
  | succ fuel ih =>
    unfold Keys.catchUp at hloop
    cases hdue : dueKey m now p.keys with
    | none =>
      rw [hdue] at hloop
      cases hloop
      exact h
    | some kid =>
      rw [hdue] at hloop
      exact ih (h.retireActive.activateKey kid) hloop

theorem toJwk_of_agedEntry {archiving forgetting : List String} {e' : Entry}
    (h : agedEntry archiving forgetting e = some e') : e'.toJwk = e.toJwk := by
  by_cases hin : e.kid ∈ archiving <;> by_cases hgone : e.kid ∈ forgetting <;>
    simp [agedEntry, hin, hgone] at h
  · rw [← h]
    rfl
  · rw [h]

theorem Publishes.aged (h : Publishes P keys) : Publishes P (aged m now keys) := by
  intro e' he'
  obtain ⟨e, he, hentry⟩ := List.mem_filterMap.mp he'
  rw [toJwk_of_agedEntry hentry]
  exact h e he

/-- What is published for the keys of a pass has the property, and so has what the ring file
says. -/
def Both (P : Jwk → Prop) (p : Pass) (w : World) : Prop :=
  Publishes P p.keys ∧ Publishes P w.entries

theorem Publishes.touched (h : Publishes P w.entries) (htouched : Touched c w w') :
    Publishes P w'.entries := htouched.entries ▸ h

/-- The end of a stage that puts a new key on the ring. -/
theorem create_published (hcreates : Creates c P) {signing : Bool} (h : Publishes P w.entries)
    {Q : Entry → World → Prop}
    (hQ : ∀ e w', P e.toJwk → Publishes P w'.entries → Q e w') :
    WP (create c m now signing) f Q (fun _ w' => Publishes P w'.entries)
      (fun w' => Publishes P w'.entries) w :=
  create_spec.mono
    (fun e w' hspec => hQ e w' (hcreates _ _ _ _ e hspec.1) (h.touched hspec.2.2))
    (fun _ _ htouched => h.touched htouched) (fun _ hspec => h.touched hspec.1)

theorem bootstrap_published (hcreates : Creates c P) (h : Both P p w) :
    WP (bootstrap c m now p) f (Both P) (fun _ w' => Publishes P w'.entries)
      (fun w' => Publishes P w'.entries) w := by
  unfold bootstrap
  split_ifs
  · refine WP.bind (create_published hcreates h.2 fun e w' he hw' => And.intro he hw') ?_
    rintro e w' ⟨he, hw'⟩
    exact ⟨h.1.concat he, hw'⟩
  · exact h

theorem migrate_published (hcreates : Creates c P) (h : Both P p w) :
    WP (migrate c m now p) f (Both P) (fun _ w' => Publishes P w'.entries)
      (fun w' => Publishes P w'.entries) w := by
  unfold migrate
  split_ifs
  · refine WP.bind (create_published hcreates h.2 fun e w' he hw' => And.intro he hw') ?_
    rintro e w' ⟨he, hw'⟩
    exact ⟨h.1.retireActive.concat he, hw'⟩
  · exact h

theorem catchUpAll_published (h : Both P p w) :
    WP (catchUpAll m now p) f (Both P) (fun _ w' => Publishes P w'.entries)
      (fun w' => Publishes P w'.entries) w := by
  unfold catchUpAll
  cases hloop : catchUp m now (p.keys.length + 1) p with
  | none => exact h.2
  | some p' => exact ⟨h.1.catchUp hloop, h.2⟩

theorem succeed_published (hcreates : Creates c P) (h : Both P p w) :
    WP (succeed c m now p) f (Both P) (fun _ w' => Publishes P w'.entries)
      (fun w' => Publishes P w'.entries) w := by
  unfold succeed
  split_ifs
  · refine WP.bind (create_published hcreates h.2 fun e w' he hw' => And.intro he hw') ?_
    rintro e w' ⟨he, hw'⟩
    exact ⟨h.1.concat he, hw'⟩
  · exact h

theorem age_published (c : Crates) (h : Both P p w) :
    WP (age m now p) f (Both P) (fun _ w' => Publishes P w'.entries)
      (fun w' => Publishes P w'.entries) w := by
  unfold age
  refine WP.bind ((forgetAll_spec (c := c) _).mono (fun _ _ hspec => h.2.touched hspec.1)
    (fun _ _ htouched => h.2.touched htouched) (fun _ hspec => h.2.touched hspec.1)) ?_
  intro _ w' hw'
  exact ⟨h.1.aged, hw'⟩

/-- **A pass publishes what it published before, and its new keys**, however it ends. -/
theorem maintain_published (hcreates : Creates c P) (h : Publishes P w.entries) :
    WP (maintain c m now) f (fun _ w' => Publishes P w'.entries)
      (fun _ w' => Publishes P w'.entries) (fun w' => Publishes P w'.entries) w := by
  unfold maintain
  refine WP.bind (readRing_spec.mono (fun _ _ h' => h') (fun _ _ h' => h' ▸ h)
    (fun _ h' => h'.1 ▸ h)) ?_
  rintro ring w ⟨rfl, rfl⟩
  refine WP.bind (bootstrap_published hcreates ⟨h, h⟩) fun p₁ w₁ h₁ => ?_
  refine WP.bind (migrate_published hcreates h₁) fun p₂ w₂ h₂ => ?_
  refine WP.bind (catchUpAll_published h₂) fun p₃ w₃ h₃ => ?_
  refine WP.bind (succeed_published hcreates h₃) fun p₄ w₄ h₄ => ?_
  refine WP.bind (age_published c h₄) fun p₅ w₅ h₅ => ?_
  split_ifs
  · refine WP.bind (writeRing_spec.mono (fun _ _ h' => h') (fun _ _ h' => h' ▸ h₅.2)
      (fun _ h' => h'.1 ▸ h₅.2)) ?_
    rintro _ _ rfl
    exact h₅.1
  · exact h₅.2

theorem Takes.published (hcreates : Creates c P) (h : Takes c w w') (hw : Publishes P w.entries) :
    Publishes P w'.entries := by
  obtain ⟨s, rfl⟩ := h
  exact Step.run_of_wp (I := fun w => Publishes P w.entries) (maintain_published hcreates hw)
    fun w' htouched => hw.touched htouched

/-- What any run publishes. -/
theorem runs_published (hcreates : Creates c P) (hrun : Relation.ReflTransGen (Takes c) w₀ w)
    (h₀ : Publishes P w₀.entries) : Publishes P w.entries := by
  induction hrun with
  | refl => exact h₀
  | tail _ htakes ih => exact htakes.published hcreates ih

/-- **A published key is named after itself.** Whatever the calls, the managers, the clocks and the
failures since `w₀`, a read of the key set gives for every entry that was already there what it gave
then, and for every key the ring created since a JWK whose thumbprint over its own members is its
name, and which says what the public half of the key pair is. -/
theorem published_under_own_name (hpoints : Uncompressed c)
    (hrun : Relation.ReflTransGen (Takes c) w₀ w) {jwks : List Jwk}
    (hread : publicKeys f w = .ok jwks w') (jwk : Jwk) (hjwk : jwk ∈ jwks) :
    (∃ e ∈ w₀.entries, jwk = e.toJwk) ∨
      ∃ algorithm point, KeyPair c algorithm point ∧ Describes c algorithm point jwk := by
  have hcreates : Creates c fun jwk => (∃ e ∈ w₀.entries, jwk = e.toJwk) ∨
      ∃ algorithm point, KeyPair c algorithm point ∧ Describes c algorithm point jwk := by
    intro m now signing n e hnew
    obtain ⟨point, hpair, hdescribes⟩ := hnew.describes hpoints
    exact Or.inr ⟨m.algorithm, point, hpair, hdescribes⟩
  have hall := runs_published hcreates hrun fun e he => Or.inl ⟨e, he, rfl⟩
  have hspec : WP publicKeys f (fun jwks _ => jwks = w.entries.map Entry.toJwk) (fun _ _ => True)
      (fun _ => True) w := by
    refine WP.bind (readRing_spec.mono (fun _ _ h => h) (fun _ _ _ => trivial)
      fun _ _ => trivial) ?_
    rintro ring w' ⟨rfl, rfl⟩
    rfl
  rw [hspec.ok hread] at hjwk
  obtain ⟨e, he, rfl⟩ := List.mem_map.mp hjwk
  exact hall e he

theorem bothCrates_uncompressed : Uncompressed bothCrates := by
  rintro point ⟨draw, hread⟩
  have hpoint : point = p256Key.publicKey := by
    by_cases hdraw : draw = 2
    · subst hdraw
      simp only [bothCrates, if_true] at hread
      cases hread
      rfl
    · simp [bothCrates, hdraw, p256Document] at hread
  subst hpoint
  exact ⟨rfl, rfl⟩

/-- A ring with keys of both kinds. -/
def mixedWorld : World :=
  afterwards (maintain bothCrates reconfigured 2 (fun _ => .done) waitingWorld)

/-- Two Ed25519 keys and a P-256 key, each under its own name. -/
theorem published_under_own_name_mixed :
    (mixedWorld.entries.map fun e => e.toJwk.kty) = ["OKP", "OKP", "EC"] ∧
      ∀ jwk ∈ mixedWorld.entries.map Entry.toJwk, ∃ algorithm point,
        KeyPair bothCrates algorithm point ∧ Describes bothCrates algorithm point jwk := by
  refine ⟨by decide +kernel, fun jwk hjwk => ?_⟩
  have hrun : Relation.ReflTransGen (Takes bothCrates) absent mixedWorld :=
    ((Relation.ReflTransGen.single ⟨passAt 0, rfl⟩).tail ⟨passAt 1, rfl⟩).tail
      ⟨⟨reconfigured, 2, .maintain, fun _ => .done⟩, rfl⟩
  rcases published_under_own_name bothCrates_uncompressed hrun (publicKeys_done mixedWorld) jwk hjwk
    with ⟨e, he, -⟩ | hdescribed
  · cases he
  · exact hdescribed

end PicX.Keys
