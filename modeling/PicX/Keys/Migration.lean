import PicX.Keys.Window

/-!
# Changing the algorithm of a ring

A pass under a manager with a new algorithm retires the key that signs and creates one of the new
kind. After that it lets every published key take over that is due, whatever its kind. The two
stages run one after the other on the same keys, so a successor of the old kind that is due takes
the place of the key that was just created.

* `StaleDue` — a successor of another kind is waiting, and due.
* `migration_complete` — **after a pass the key that signs is of the configured kind, unless such a
  successor was waiting.**
-/

namespace PicX.Keys

open PicX Program

variable {c : Crates} {m : DirectoryKeyManager} {now : Nat} {f : Op → Outcome} {w w' : World}
  {p p' : Pass} {keys : List Entry}

/-- A key of the configured kind signs. -/
def Current (m : DirectoryKeyManager) (keys : List Entry) : Prop :=
  ∃ e ∈ keys, e.state = .active ∧ e.algorithm = m.algorithm

/-- A published key of another kind is due to take over. -/
def StaleDue (m : DirectoryKeyManager) (now : Nat) (keys : List Entry) : Prop :=
  ∃ e ∈ keys, e.state = .published ∧ e.algorithm ≠ m.algorithm ∧
    saturatingAdd e.createdAt m.policy.publishAhead ≤ now

theorem activeIsCurrent_iff : activeIsCurrent m keys = true ↔ Current m keys := by
  simp [activeIsCurrent, Current]

theorem Created.current {n : Nat} {e : Entry} (h : Created c m now true n e) :
    Current m (keys ++ [e]) :=
  ⟨e, by simp, h.state, h.algorithm⟩

/-! ## The stages -/

/-- What the first two stages do: the key that signs is current, the keys that wait are the same,
and a pass that did anything says so. -/
structure Settled (m : DirectoryKeyManager) (p p' : Pass) : Prop where
  current : Current m p'.keys
  waiting : ∀ e, e.state = .published → (e ∈ p'.keys ↔ e ∈ p.keys)
  reported : p' = p ∨ 0 < p'.report.published

theorem published_mem_retireActive {e : Entry} (hpub : e.state = .published) :
    e ∈ retireActive now keys ↔ e ∈ keys := by
  rw [mem_retireActive]
  constructor
  · rintro ⟨e', he', ⟨-, rfl⟩ | ⟨-, rfl⟩⟩
    · simp [Entry.retire] at hpub
    · exact he'
  · intro he
    exact ⟨e, he, Or.inr ⟨by simp [hpub], rfl⟩⟩

theorem bootstrap_waiting :
    WP (bootstrap c m now p) f
      (fun p' _ => (p' = p ∧ p.keys ≠ []) ∨ (p.keys = [] ∧ Settled m p p'))
      (fun _ _ => True) (fun _ => True) w := by
  unfold bootstrap
  cases hempty : p.keys.isEmpty with
  | true =>
    have hnil : p.keys = [] := List.isEmpty_iff.mp hempty
    refine WP.bind
      (create_spec.mono (fun _ _ h => h) (fun _ _ _ => trivial) (fun _ _ => trivial)) ?_
    rintro e w' ⟨hnew, -, -⟩
    refine Or.inr ⟨hnil, hnew.current, fun e' hpub => ?_, Or.inr (Nat.succ_pos _)⟩
    rw [Pass.pushActive, hnil, List.nil_append, List.mem_singleton]
    constructor
    · rintro rfl
      rw [hnew.state] at hpub
      simp at hpub
    · intro h
      simp at h
  | false => exact Or.inl ⟨rfl, fun h => by simp [h] at hempty⟩

theorem migrate_settled (hne : p.keys ≠ []) :
    WP (migrate c m now p) f (fun p' _ => Settled m p p') (fun _ _ => True) (fun _ => True) w := by
  unfold migrate
  split_ifs with hchange
  · refine WP.bind
      (create_spec.mono (fun _ _ h => h) (fun _ _ _ => trivial) (fun _ _ => trivial)) ?_
    rintro e w' ⟨hnew, -, -⟩
    refine ⟨hnew.current, fun e' hpub => ?_, Or.inr (Nat.succ_pos _)⟩
    show e' ∈ retireActive now p.keys ++ [e] ↔ e' ∈ p.keys
    rw [List.mem_append, published_mem_retireActive hpub, List.mem_singleton]
    constructor
    · rintro (h | rfl)
      · exact h
      · rw [hnew.state] at hpub
        simp at hpub
    · exact Or.inl
  · refine ⟨?_, fun _ _ => Iff.rfl, Or.inl rfl⟩
    rw [← activeIsCurrent_iff]
    by_contra hnot
    exact hchange (by simp [hnot, hne])

theorem Settled.trans {p'' : Pass} (h : Settled m p p') (h' : Settled m p' p'') :
    Settled m p p'' := by
  refine ⟨h'.current, fun e hpub => (h'.waiting e hpub).trans (h.waiting e hpub), ?_⟩
  rcases h'.reported with rfl | hpos
  · exact h.reported
  · exact Or.inr hpos

/-- The published key that is due is of the configured kind when none is stale. -/
theorem staleDue_iff_of_due (hone : OneWaiting keys) {e : Entry} (he : e ∈ keys)
    (hpub : e.state = .published)
    (hdue : saturatingAdd e.createdAt m.policy.publishAhead ≤ now) :
    StaleDue m now keys ↔ e.algorithm ≠ m.algorithm := by
  constructor
  · rintro ⟨e', he', hpub', hne, -⟩
    rw [hone e he e' he' hpub hpub']
    exact hne
  · intro hne
    exact ⟨e, he, hpub, hne, hdue⟩

/-- **The loop over the keys that are due** leaves a current key exactly when none is stale. -/
theorem catchUpAll_current (hkids : (p.keys.map Entry.kid).Nodup) (hone : OneWaiting p.keys)
    (hcurrent : Current m p.keys) :
    WP (catchUpAll m now p) f
      (fun p' _ => (Current m p'.keys ↔ ¬StaleDue m now p.keys) ∧
        p'.report.published = p.report.published ∧ (p' = p ∨ 0 < p'.report.activated))
      (fun _ _ => True) (fun _ => True) w := by
  unfold catchUpAll
  rcases catchUp_ends p hkids hone with ⟨hcatch, hnone⟩ | ⟨kid, hdue, hcatch⟩
  · rw [hcatch]
    refine ⟨iff_of_true hcurrent ?_, rfl, Or.inl rfl⟩
    rintro ⟨e, he, hpub, -, hlate⟩
    exact dueKey_eq_none_iff.mp hnone e he hpub hlate
  · rw [hcatch]
    obtain ⟨e₀, he₀, hkid, hpub, hlate⟩ := mem_of_dueKey hdue
    have hmem : e₀.activate now ∈ activateKey now kid (retireActive now p.keys) :=
      (mem_handedOver hkids hdue).mpr ⟨e₀, he₀, Or.inl ⟨hkid, hpub, rfl⟩⟩
    have hany : (p.retireActive now).keys.any (fun e => e.kid = kid) = true :=
      List.any_eq_true.mpr ⟨e₀, (published_mem_retireActive hpub).mpr he₀, by simp [hkid]⟩
    refine ⟨?_, rfl, Or.inr ?_⟩
    · rw [staleDue_iff_of_due hone he₀ hpub hlate, not_not]
      constructor
      · rintro ⟨e', he', hactive, hkind⟩
        obtain ⟨e, he, ⟨heq, -, rfl⟩ | ⟨-, -, rfl⟩ | ⟨-, hnot, rfl⟩⟩ :=
          (mem_handedOver hkids hdue).mp he'
        · rw [← eq_of_kid_eq hkids he he₀ (heq.trans hkid.symm)]
          exact hkind
        · simp [Entry.retire] at hactive
        · exact absurd hactive hnot
      · intro hkind
        exact ⟨e₀.activate now, hmem, rfl, hkind⟩
    · rw [Pass.activateKey, hany]
      exact Nat.succ_pos _

theorem succeed_current :
    WP (succeed c m now p) f
      (fun p' _ => (Current m p'.keys ↔ Current m p.keys) ∧
        p'.report.activated = p.report.activated ∧ (p' = p ∨ 0 < p'.report.published))
      (fun _ _ => True) (fun _ => True) w := by
  unfold succeed
  split_ifs with hdue
  · refine WP.bind
      (create_spec.mono (fun _ _ h => h) (fun _ _ _ => trivial) (fun _ _ => trivial)) ?_
    rintro e w' ⟨hnew, -, -⟩
    refine ⟨?_, rfl, Or.inr (Nat.succ_pos _)⟩
    constructor
    · rintro ⟨e', he', hactive, hkind⟩
      rcases List.mem_append.mp he' with hold | hlast
      · exact ⟨e', hold, hactive, hkind⟩
      · rw [List.mem_singleton.mp hlast, hnew.state] at hactive
        simp at hactive
    · rintro ⟨e', he', hactive, hkind⟩
      exact ⟨e', List.mem_append_left _ he', hactive, hkind⟩
  · exact ⟨Iff.rfl, rfl, Or.inl rfl⟩

/-- The end of a life is never that of the key that signs. -/
theorem aged_current (hkids : (keys.map Entry.kid).Nodup) :
    Current m (aged m now keys) ↔ Current m keys := by
  constructor
  · rintro ⟨e', he', hactive, hkind⟩
    obtain ⟨e, he, -, ⟨-, -, rfl⟩ | ⟨-, rfl⟩⟩ := (mem_aged hkids).mp he'
    · simp at hactive
    · exact ⟨e', he, hactive, hkind⟩
  · rintro ⟨e, he, hactive, hkind⟩
    have hkept : ¬Over m now e ∧
        ¬(m.policy.hasArchivePhase = true ∧ retentionOver m now e = true) := by
      simp [Over, retentionOver, archiveOver, hactive]
    exact ⟨e, (mem_aged hkids).mpr ⟨e, he, hkept.1, Or.inr ⟨hkept.2, rfl⟩⟩, hactive, hkind⟩

/-! ## A whole pass -/

theorem staleDue_congr {keys' : List Entry}
    (h : ∀ e, e.state = .published → (e ∈ keys' ↔ e ∈ keys)) :
    StaleDue m now keys' ↔ StaleDue m now keys := by
  constructor
  · rintro ⟨e, he, hpub, hrest⟩
    exact ⟨e, (h e hpub).mp he, hpub, hrest⟩
  · rintro ⟨e, he, hpub, hrest⟩
    exact ⟨e, (h e hpub).mpr he, hpub, hrest⟩

/-- A pass leaves a current key exactly when no stale key was due before it. -/
theorem maintain_current (hdistinct : Distinct c) (hsound : Sound c (w.drawn, w.entries)) :
    WP (maintain c m now) f
      (fun _ w' => Current m w'.entries ↔ ¬StaleDue m now w.entries)
      (fun _ _ => True) (fun _ => True) w := by
  unfold maintain
  refine WP.bind (readRing_spec.mono (fun _ _ h => h) (fun _ _ _ => trivial)
    (fun _ _ => trivial)) ?_
  rintro ring w ⟨rfl, rfl⟩
  refine WP.bind (bootstrap_spec.and bootstrap_waiting |>.mono (fun _ _ h => h)
    (fun _ _ _ => trivial) (fun _ _ => trivial)) ?_
  rintro p₁ w₁ ⟨h₁, hwaiting₁⟩
  refine WP.bind ((migrate_spec h₁).and (migrate_settled h₁.nonempty) |>.mono (fun _ _ h => h)
    (fun _ _ _ => trivial) (fun _ _ => trivial)) ?_
  rintro p₂ w₂ ⟨h₂, hsettled₂⟩
  have hsettled : Settled m ⟨w.entries, .default⟩ p₂ := by
    rcases hwaiting₁ with ⟨rfl, -⟩ | ⟨-, hsettled₁⟩
    · exact hsettled₂
    · exact hsettled₁.trans hsettled₂
  have hsound₂ := h₂.edits.sound hdistinct hsound
  refine WP.bind ((catchUpAll_spec hdistinct hsound h₂).and
    (catchUpAll_current hsound₂.nodup_kid hsound₂.oneWaiting hsettled.current) |>.mono
    (fun _ _ h => h) (fun _ _ _ => trivial) (fun _ _ => trivial)) ?_
  rintro p₃ _ ⟨⟨rfl, h₃⟩, hcurrent₃, hpublished₃, hreported₃⟩
  refine WP.bind ((succeed_spec h₃).and succeed_current |>.mono (fun _ _ h => h)
    (fun _ _ _ => trivial) (fun _ _ => trivial)) ?_
  rintro p₄ w₄ ⟨h₄, hcurrent₄, hactivated₄, hreported₄⟩
  have hkids := (h₄.edits.sound hdistinct hsound).nodup_kid
  have hiff : Current m p₄.keys ↔ ¬StaleDue m now w.entries := by
    rw [hcurrent₄, hcurrent₃, staleDue_congr hsettled.waiting]
  refine WP.bind (Q := fun p₅ w₅ => p₅ = p₄.aged m now ∧ Touched c w₄ w₅) ?_ ?_
  · unfold age
    refine WP.bind ((forgetAll_spec (c := c) _).mono (fun _ _ h => h) (fun _ _ _ => trivial)
      (fun _ _ => trivial)) ?_
    rintro _ w₅ ⟨htouched, -⟩
    exact ⟨rfl, htouched⟩
  rintro _ w₅ ⟨rfl, htouched⟩
  split_ifs with hreport
  · refine WP.bind (writeRing_spec.mono (fun _ _ h => h) (fun _ _ _ => trivial)
      (fun _ _ => trivial)) ?_
    rintro _ _ rfl
    exact (aged_current hkids).trans hiff
  · -- A pass with nothing to report edited nothing.
    have hempty : (p₄.aged m now).report.isEmpty = true := by simpa using hreport
    have hpublished : (p₄.aged m now).report.published = 0 := published_of_isEmpty hempty
    have hactivated : (p₄.aged m now).report.activated = 0 := activated_of_isEmpty hempty
    have hsame : (p₄.aged m now).report.published = p₄.report.published ∧
        (p₄.aged m now).report.activated = p₄.report.activated := ⟨rfl, rfl⟩
    have heq₄ : p₄ = p₃ := hreported₄.resolve_right (by omega)
    have heq₃ : p₃ = p₂ := hreported₃.resolve_right (by omega)
    have heq₂ : p₂ = ⟨w.entries, .default⟩ := by
      refine hsettled.reported.resolve_right ?_
      rw [← heq₃, ← heq₄]
      omega
    have hentries : w₅.entries = w.entries := (h₄.touched.trans htouched).entries
    show Current m w₅.entries ↔ _
    rw [hentries]
    rw [heq₄, heq₃, heq₂] at hiff
    exact hiff

/-- **Whether a migration is complete.** From a ring without keys on, whatever the clock, the
policies, the algorithms and the failures: after every successful pass the key that signs is of the
configured kind exactly when no published key of another kind was due. -/
theorem migration_complete (hdistinct : Distinct c) {w₀ : World} (hempty : w₀.entries = [])
    (hrun : Relation.ReflTransGen (Takes c) w₀ w) {report : Maintenance}
    (hok : maintain c m now f w = .ok report w') :
    (∃! e, e ∈ w'.entries ∧ e.state = .active) ∧
      ((∀ e ∈ w'.entries, e.state = .active → e.algorithm = m.algorithm) ↔
        ¬StaleDue m now w.entries) := by
  have hsound := sound_of_takes hdistinct hempty hrun
  obtain ⟨hsound', hne⟩ := (maintain_sound hdistinct hsound).ok hok
  have hcurrent := (maintain_current hdistinct hsound).ok hok
  have hactive := (hsound'.2 hne).active
  refine ⟨hactive, ?_⟩
  rw [← hcurrent]
  obtain ⟨e₀, ⟨he₀, hstate₀⟩, honly⟩ := hactive
  constructor
  · intro hall
    exact ⟨e₀, he₀, hstate₀, hall e₀ he₀ hstate₀⟩
  · rintro ⟨e, he, hstate, hkind⟩ e' he' hstate'
    rw [honly e' ⟨he', hstate'⟩, ← honly e ⟨he, hstate⟩]
    exact hkind

theorem migration_complete_first :
    ∃ report w', maintain testCrates weekly 1786233600 (fun _ => .done) absent = .ok report w' ∧
      ¬StaleDue weekly 1786233600 absent.entries ∧
      ∀ e ∈ w'.entries, e.state = .active → e.algorithm = .ed25519 := by
  have hok : (maintain testCrates weekly 1786233600 (fun _ => .done) absent).isOk = true := by
    decide +kernel
  have hnone : ¬StaleDue weekly 1786233600 absent.entries := by
    rintro ⟨e, he, -⟩
    simp [World.entries, absent, Ring.default] at he
  cases hend : maintain testCrates weekly 1786233600 (fun _ => .done) absent with
  | ok report w' =>
    exact ⟨report, w', rfl, hnone,
      (migration_complete testCrates_distinct rfl .refl hend).2.mpr hnone⟩
  | error e w' => simp [hend, Ending.isOk] at hok
  | crash w' => simp [hend, Ending.isOk] at hok

/-! ### A migration inside a publication window -/

/-- The P-256 key of RFC 6979. -/
def p256Key : TestKey :=
  ⟨[201, 175, 169, 216, 69, 186, 117, 22, 107, 92, 33, 87, 103, 177, 214, 147, 78, 80, 195, 219,
      54, 232, 155, 18, 123, 138, 98, 43, 18, 15, 103, 33],
    [4, 96, 254, 212, 186, 37, 90, 157, 49, 201, 97, 235, 116, 198, 53, 109, 104, 192, 73, 184,
      146, 59, 97, 250, 108, 230, 105, 98, 46, 96, 242, 159, 182, 121, 3, 254, 16, 8, 184, 188,
      153, 164, 26, 233, 233, 86, 40, 188, 100, 242, 241, 178, 12, 45, 126, 159, 81, 119, 163,
      194, 148, 212, 70, 34, 153],
    [12, 235, 241, 188, 152, 128, 116, 138, 149, 88, 137, 5, 183, 152, 67, 180, 43, 167, 92, 177,
      116, 5, 94, 62, 36, 107, 248, 127, 224, 11, 74, 109]⟩

def p256Document : Bytes :=
  [48, 129, 135, 2, 1, 0, 48, 19, 6, 7, 42, 134, 72, 206, 61, 2, 1, 6, 8, 42, 134, 72, 206, 61, 3,
    1, 7, 4, 109, 48, 107, 2, 1, 1, 4, 32] ++ p256Key.seed ++ [161, 68, 3, 66, 0] ++
    p256Key.publicKey

/-- A random source whose third draw is good for a P-256 key. -/
def bothCrates : Crates :=
  { testCrates with
    sha256 := fun b =>
      if b = utf8 (canonical .es256 (Encoding.base64url p256Key.publicKey)) then p256Key.digest
      else testCrates.sha256 b
    generatePkcs8 := fun algorithm draw => match algorithm with
      | .ed25519 => testCrates.generatePkcs8 .ed25519 draw
      | .es256 => if draw = 2 then p256Document else []
    fromPkcs8 := fun algorithm document => match algorithm with
      | .ed25519 => testCrates.fromPkcs8 .ed25519 document
      | .es256 => if document = p256Document then .ok p256Key.publicKey
          else .error "InvalidEncoding" }

theorem canonical_ne (x y : String) : canonical .ed25519 x ≠ canonical .es256 y := by
  intro h
  have hlist := congrArg String.toList h
  simp [canonical, CURVE, P256_CURVE] at hlist

theorem thumbprint_bothCrates (publicKey : String) :
    thumbprint bothCrates .ed25519 publicKey = thumbprint testCrates .ed25519 publicKey := by
  have hne : utf8 (canonical .ed25519 publicKey) ≠
      utf8 (canonical .es256 (Encoding.base64url p256Key.publicKey)) :=
    utf8_injective.ne (canonical_ne _ _)
  simp only [thumbprint, bothCrates, if_neg hne]

theorem bothCrates_named {draw : Nat} {kid : String} (h : Named bothCrates draw kid) :
    testKids[draw]? = some kid ∨
      draw = 2 ∧ kid = "DOvxvJiAdIqVWIkFt5hDtCunXLF0BV4-JGv4f-ALSm0" := by
  have hkids : testKeys.map (fun k =>
      thumbprint bothCrates .ed25519 (Encoding.base64url k.publicKey)) = testKids := by
    simp only [thumbprint_bothCrates, testKids_eq]
  have hdigest : Encoding.base64url p256Key.digest =
      "DOvxvJiAdIqVWIkFt5hDtCunXLF0BV4-JGv4f-ALSm0" := by
    decide +kernel
  have hkid : thumbprint bothCrates .es256 (Encoding.base64url p256Key.publicKey) =
      "DOvxvJiAdIqVWIkFt5hDtCunXLF0BV4-JGv4f-ALSm0" := by
    simp [thumbprint, bothCrates, hdigest]
  obtain ⟨algorithm, publicKey, hread, rfl⟩ := h
  cases algorithm with
  | ed25519 =>
    refine Or.inl ?_
    rw [← hkids, List.getElem?_map]
    match draw with
    | 0 | 1 | 2 => cases hread; rfl
    | n + 3 => simp [bothCrates, testCrates, testKeys, TestKey.document] at hread
  | es256 =>
    by_cases hdraw : draw = 2
    · subst hdraw
      simp only [bothCrates, if_true] at hread
      cases hread
      exact Or.inr ⟨rfl, hkid⟩
    · simp [bothCrates, hdraw, p256Document] at hread

theorem bothCrates_distinct : Distinct bothCrates := by
  intro draw draw' kid h h'
  have hnodup : testKids.Nodup := by decide
  have hfresh : "DOvxvJiAdIqVWIkFt5hDtCunXLF0BV4-JGv4f-ALSm0" ∉ testKids := by decide
  rcases bothCrates_named h with hk | ⟨rfl, rfl⟩ <;>
    rcases bothCrates_named h' with hk' | ⟨rfl, hk'⟩
  · have hlt := (List.getElem?_eq_some_iff.mp hk).1
    exact (List.getElem?_inj hlt hnodup).mp (hk.trans hk'.symm)
  · subst hk'
    exact absurd (List.mem_of_getElem? hk) hfresh
  · exact absurd (List.mem_of_getElem? hk') hfresh
  · rfl

/-- The manager after the realm was reconfigured. -/
def reconfigured : DirectoryKeyManager := { forever with algorithm := .es256 }

/-- A ring whose second key waits for its turn. -/
def waitingWorld : World := (passAt 1).run bothCrates ((passAt 0).run bothCrates absent)

/-- A migration at the instant an Ed25519 successor is due: the key of the new kind is created, and
the successor takes over from it. -/
theorem stale_successor_signs :
    Distinct bothCrates ∧ Relation.ReflTransGen (Takes bothCrates) absent waitingWorld ∧
      ∃ report w', maintain bothCrates reconfigured 2 (fun _ => .done) waitingWorld =
          .ok report w' ∧
        ¬∀ e ∈ w'.entries, e.state = .active → e.algorithm = reconfigured.algorithm := by
  refine ⟨bothCrates_distinct, ?_, ?_⟩
  · exact (Relation.ReflTransGen.single ⟨passAt 0, rfl⟩).tail ⟨passAt 1, rfl⟩
  obtain ⟨report, w', hend, hstale⟩ : ∃ report w',
      maintain bothCrates reconfigured 2 (fun _ => .done) waitingWorld = .ok report w' ∧
        w'.entries.any (fun e => e.state = .active ∧ ¬e.algorithm = .es256) = true :=
    Ending.eq_ok_of (by decide +kernel)
  refine ⟨report, w', hend, fun hall => ?_⟩
  obtain ⟨e, he, hactive⟩ := List.any_eq_true.mp hstale
  obtain ⟨hstate, hkind⟩ := of_decide_eq_true hactive
  exact hkind (hall e he hstate)

end PicX.Keys
