import PicX.Realm.Recorded

/-!
# The expiry of a new lineage

What the proposal asks for comes first, an absolute expiry before a lifetime; then the policy of the
realm chooses between the expiry of the access token and the default lifetime.

* `ExpiryOf`: the expiry a proposal document leads to.
* `ExpiryFault`: why there is none.
* `proposalExpiry_of`: what the document asks for, once it is read.
* `initial_expiry_precedence`: **an expiry that is returned is the one of that precedence and in the
  future, and it is refused exactly for these faults**.
-/

namespace PicX.Realm

open PicX ExchangeError

/-- An encoded proposal is a document. -/
def Proposes (c : Crates) (encoded : String) (document : Value) : Prop :=
  ∃ bytes, c.base64urlDecode encoded = .ok bytes ∧ c.valueFromSlice bytes = .ok document

/-- The expiry where the proposal asks for none: that of the access token, the default, or the later
of the two. -/
def policyExpiry : TokenInitialExpiryPolicy → Option Int → Int → Int
  | .later, some sourceExpiry, defaultExpiry => max sourceExpiry defaultExpiry
  | .pic, some _, defaultExpiry => defaultExpiry
  | .oauth, some sourceExpiry, _ => sourceExpiry
  | _, none, defaultExpiry => defaultExpiry

section

variable (document : Value) (sourceExpiry : Option Int) (now : Int) (lifetime : Nat)
  (policy : TokenInitialExpiryPolicy)

/-- The expiry a proposal document leads to. -/
inductive ExpiryOf : Int → Prop
  /-- It asks for an expiry. -/
  | expiresAt {value : Value} {expiry : Int} : document.get "tokenExpiresAt" = some value →
      value.asI64 = some expiry → expiry ≤ now + MAX_REQUESTED_LIFETIME → ExpiryOf expiry
  /-- It asks for a lifetime. -/
  | lifetimeSeconds {value : Value} {seconds : Int} : document.get "tokenExpiresAt" = none →
      document.get "tokenLifetimeSeconds" = some value → value.asI64 = some seconds →
      seconds ≤ MAX_REQUESTED_LIFETIME → ExpiryOf (now + seconds)
  /-- It asks for neither. -/
  | realm : document.get "tokenExpiresAt" = none → document.get "tokenLifetimeSeconds" = none →
      ExpiryOf (policyExpiry policy sourceExpiry (now + lifetime))

/-- Why a proposal document leads to none. -/
inductive ExpiryFault : Prop
  /-- The expiry is not a whole number, not in the future or more than a year away. -/
  | expiresAt {value : Value} : document.get "tokenExpiresAt" = some value →
      (∀ expiry, value.asI64 = some expiry →
        ¬(now < expiry ∧ expiry ≤ now + MAX_REQUESTED_LIFETIME)) → ExpiryFault
  /-- The lifetime is not a whole number, not positive or longer than a year. -/
  | lifetimeSeconds {value : Value} : document.get "tokenExpiresAt" = none →
      document.get "tokenLifetimeSeconds" = some value →
      (∀ seconds, value.asI64 = some seconds →
        ¬(0 < seconds ∧ seconds ≤ MAX_REQUESTED_LIFETIME)) → ExpiryFault
  /-- The lifetime overflows. -/
  | overflow {value : Value} {seconds : Int} : document.get "tokenExpiresAt" = none →
      document.get "tokenLifetimeSeconds" = some value → value.asI64 = some seconds →
      2 ^ 63 ≤ now + seconds → ExpiryFault
  /-- The default lifetime overflows. -/
  | realmOverflow : document.get "tokenExpiresAt" = none →
      document.get "tokenLifetimeSeconds" = none → 2 ^ 63 ≤ now + lifetime → ExpiryFault
  /-- The expiry of the policy is not in the future. -/
  | past : document.get "tokenExpiresAt" = none → document.get "tokenLifetimeSeconds" = none →
      policyExpiry policy sourceExpiry (now + lifetime) ≤ now → ExpiryFault

end

variable {c : Crates} {encoded : String} {document : Value} {sourceExpiry : Option Int} {now : Int}
  {lifetime : Nat} {policy : TokenInitialExpiryPolicy}

/-! ## Sums -/

theorem toI64_of_lt (h : lifetime < 2 ^ 63) : toI64 lifetime = lifetime := by
  unfold toI64
  rw [Int.bmod_eq_of_le] <;> omega

theorem checkedAddI64_of_nonneg {a b : Int} (h : 0 ≤ a + b) :
    checkedAddI64 a b = if a + b < 2 ^ 63 then some (a + b) else none := by
  unfold checkedAddI64
  split_ifs with hrange hlt hlt
  · rfl
  · exact absurd hrange.2 hlt
  · exact absurd ⟨by omega, hlt⟩ hrange
  · rfl

/-! ## A number that is asked for -/

/-- It is a whole number above a bound, and passes a check. -/
theorem requested_ok {α : Type} {value : Value} {low n : Int} {p : Int → Prop} [DecidablePred p]
    {e e' : ExchangeError} {k : Int → Except ExchangeError α} (hn : value.asI64 = some n)
    (hlow : low < n) (hp : p n) :
    (okOr (value.asI64.filter fun n => n > low) e >>= fun n => ensure (p n) e' >>= fun _ => k n) =
      k n := by
  have hfilter : value.asI64.filter (fun n => n > low) = some n := by simp [hn, hlow]
  have hensure : ensure (p n) e' = .ok () := ensure_ok.mpr hp
  rw [hfilter]
  show (ensure (p n) e' >>= fun _ => k n) = k n
  rw [hensure]
  rfl

theorem requested_error {α : Type} {value : Value} {low : Int} {p : Int → Prop} [DecidablePred p]
    {e e' : ExchangeError} {k : Int → Except ExchangeError α}
    (h : ∀ n, value.asI64 = some n → ¬(low < n ∧ p n)) :
    ∃ err, (okOr (value.asI64.filter fun n => n > low) e >>= fun n =>
      ensure (p n) e' >>= fun _ => k n) = .error err := by
  cases hn : value.asI64 with
  | none => exact ⟨e, rfl⟩
  | some n =>
    by_cases hlow : low < n
    · have hp : ¬p n := fun hp => h n hn ⟨hlow, hp⟩
      refine ⟨e', bind_error.mpr (Or.inr ⟨n, okOr_ok.mpr (by simp [hlow]), ?_⟩)⟩
      exact bind_error.mpr (Or.inl (ensure_error.mpr ⟨hp, rfl⟩))
    · exact ⟨e, bind_error.mpr (Or.inl (okOr_error.mpr ⟨by simpa using hlow, rfl⟩))⟩

/-! ## The proposal -/

/-- What a document asks for, once it is read. -/
def requestedExpiry (document : Value) (now : Int) : Except ExchangeError (Option Int) :=
  match document.get "tokenExpiresAt" with
  | some value =>
    okOr (value.asI64.filter fun expiresAt => expiresAt > now) (invalidRequest
      "`tokenExpiresAt` must be a future NumericDate in whole seconds") >>= fun expiresAt =>
    ensure (¬expiresAt - now > MAX_REQUESTED_LIFETIME)
      (invalidRequest "`tokenExpiresAt` is more than a year in the future") >>= fun _ =>
    pure (some expiresAt)
  | none =>
    match document.get "tokenLifetimeSeconds" with
    | none => pure none
    | some value =>
      okOr (value.asI64.filter fun seconds => seconds > 0) (invalidRequest
        "`tokenLifetimeSeconds` must be a positive whole number of seconds") >>= fun seconds =>
      ensure (¬seconds > MAX_REQUESTED_LIFETIME)
        (invalidRequest "`tokenLifetimeSeconds` is longer than a year") >>= fun _ =>
      okOr (checkedAddI64 now seconds)
        (invalidRequest "`tokenLifetimeSeconds` overflows time") >>= fun expiresAt =>
      pure (some expiresAt)

theorem proposalExpiry_of (h : Proposes c encoded document) :
    proposalExpiry c encoded now = requestedExpiry document now := by
  obtain ⟨bytes, hbytes, hdocument⟩ := h
  rw [proposalExpiry, hbytes]
  show (mapErr _ (c.valueFromSlice bytes) >>= _) = _
  rw [hdocument]
  rfl

/-- A proposal that is no document asks for nothing that could be given. -/
theorem proposalExpiry_malformed (h : ¬∃ document, Proposes c encoded document) :
    ∃ e, proposalExpiry c encoded now = .error e := by
  cases hbytes : c.base64urlDecode encoded with
  | error error =>
    rw [proposalExpiry, hbytes]
    exact ⟨_, rfl⟩
  | ok bytes =>
    cases hdocument : c.valueFromSlice bytes with
    | error error =>
      refine ⟨invalidRequest ("continuity_proposal is not JSON: " ++ error),
        bind_error.mpr (Or.inr ⟨bytes, mapErr_ok.mpr hbytes, ?_⟩)⟩
      exact bind_error.mpr (Or.inl (mapErr_error.mpr ⟨error, hdocument, rfl⟩))
    | ok document => exact absurd ⟨document, bytes, hbytes, hdocument⟩ h

/-! ## The outcome -/

/-- An answer agrees with a document: an expiry is the one it leads to, in the future, and a refusal
has a fault. -/
def Agrees (document : Value) (sourceExpiry : Option Int) (now : Int) (lifetime : Nat)
    (policy : TokenInitialExpiryPolicy) (answer : Except ExchangeError Int) : Prop :=
  (∀ e, answer = .ok e → now < e ∧ ExpiryOf document sourceExpiry now lifetime policy e) ∧
    ((∃ e, answer = .error e) ↔ ExpiryFault document sourceExpiry now lifetime policy)

theorem Agrees.of_ok {answer : Except ExchangeError Int} {expiry : Int}
    (h : answer = .ok expiry) (hfuture : now < expiry)
    (hexpiry : ExpiryOf document sourceExpiry now lifetime policy expiry)
    (hfault : ¬ExpiryFault document sourceExpiry now lifetime policy) :
    Agrees document sourceExpiry now lifetime policy answer := by
  rw [h]
  refine ⟨?_, iff_of_false (by simp) hfault⟩
  intro e he
  cases he
  exact ⟨hfuture, hexpiry⟩

theorem Agrees.of_error {answer : Except ExchangeError Int} (h : ∃ e, answer = .error e)
    (hfault : ExpiryFault document sourceExpiry now lifetime policy) :
    Agrees document sourceExpiry now lifetime policy answer := by
  refine ⟨?_, iff_of_true h hfault⟩
  obtain ⟨e', he'⟩ := h
  intro e he
  cases he'.symm.trans he

/-- A proposal that asks for an expiry decides alone. -/
theorem agrees_expiresAt {value : Value} (hdocument : Proposes c encoded document)
    (hat : document.get "tokenExpiresAt" = some value) :
    Agrees document sourceExpiry now lifetime policy
      (initialExpiry c encoded sourceExpiry now lifetime policy) := by
  have hrequest : proposalExpiry c encoded now = _ := proposalExpiry_of hdocument
  rw [requestedExpiry, hat] at hrequest
  dsimp only at hrequest
  by_cases hok : ∃ n, value.asI64 = some n ∧ now < n ∧ ¬n - now > MAX_REQUESTED_LIFETIME
  · obtain ⟨n, hn, hfuture, hyear⟩ := hok
    rw [requested_ok hn hfuture hyear] at hrequest
    refine Agrees.of_ok (bind_ok.mpr ⟨some n, hrequest, rfl⟩) hfuture
      (.expiresAt hat hn (by omega)) ?_
    intro hfault
    cases hfault with
    | expiresAt hget hbad =>
      cases hat.symm.trans hget
      exact hbad n hn ⟨hfuture, by omega⟩
    | lifetimeSeconds hget => cases hat.symm.trans hget
    | overflow hget => cases hat.symm.trans hget
    | realmOverflow hget => cases hat.symm.trans hget
    | past hget => cases hat.symm.trans hget
  · have hbad : ∀ n, value.asI64 = some n → ¬(now < n ∧ ¬n - now > MAX_REQUESTED_LIFETIME) :=
      fun n hn hrange => hok ⟨n, hn, hrange⟩
    obtain ⟨e, he⟩ := requested_error hbad
    refine Agrees.of_error ⟨e, bind_error.mpr (Or.inl (hrequest.trans he))⟩ (.expiresAt hat ?_)
    intro n hn hrange
    exact hbad n hn ⟨hrange.1, by omega⟩

/-- So does one that asks for a lifetime, -/
theorem agrees_lifetimeSeconds {value : Value} (hnow : 0 ≤ now)
    (hdocument : Proposes c encoded document) (hat : document.get "tokenExpiresAt" = none)
    (hlifetime : document.get "tokenLifetimeSeconds" = some value) :
    Agrees document sourceExpiry now lifetime policy
      (initialExpiry c encoded sourceExpiry now lifetime policy) := by
  have hrequest : proposalExpiry c encoded now = _ := proposalExpiry_of hdocument
  rw [requestedExpiry, hat] at hrequest
  dsimp only at hrequest
  rw [hlifetime] at hrequest
  dsimp only at hrequest
  by_cases hok : ∃ n, value.asI64 = some n ∧ 0 < n ∧ ¬n > MAX_REQUESTED_LIFETIME
  · obtain ⟨n, hn, hpos, hyear⟩ := hok
    rw [requested_ok hn hpos hyear, checkedAddI64_of_nonneg (by omega)] at hrequest
    by_cases hsum : now + n < 2 ^ 63
    · rw [if_pos hsum] at hrequest
      refine Agrees.of_ok (bind_ok.mpr ⟨some (now + n), hrequest, rfl⟩) (by omega)
        (.lifetimeSeconds hat hlifetime hn (by omega)) ?_
      intro hfault
      cases hfault with
      | expiresAt hget => cases hat.symm.trans hget
      | lifetimeSeconds _ hget hbad =>
        cases hlifetime.symm.trans hget
        exact hbad n hn ⟨hpos, by omega⟩
      | overflow _ hget hn' hover =>
        cases hlifetime.symm.trans hget
        cases hn.symm.trans hn'
        omega
      | realmOverflow _ hget => cases hlifetime.symm.trans hget
      | past _ hget => cases hlifetime.symm.trans hget
    · rw [if_neg hsum] at hrequest
      exact Agrees.of_error ⟨_, bind_error.mpr (Or.inl hrequest)⟩
        (.overflow hat hlifetime hn (by omega))
  · have hbad : ∀ n, value.asI64 = some n → ¬(0 < n ∧ ¬n > MAX_REQUESTED_LIFETIME) :=
      fun n hn hrange => hok ⟨n, hn, hrange⟩
    obtain ⟨e, he⟩ := requested_error hbad
    refine Agrees.of_error ⟨e, bind_error.mpr (Or.inl (hrequest.trans he))⟩
      (.lifetimeSeconds hat hlifetime ?_)
    intro n hn hrange
    exact hbad n hn ⟨hrange.1, by omega⟩

/-- and one that asks for neither leaves it to the policy. -/
theorem agrees_realm (hnow : 0 ≤ now) (hlt : lifetime < 2 ^ 63)
    (hdocument : Proposes c encoded document) (hat : document.get "tokenExpiresAt" = none)
    (hlifetime : document.get "tokenLifetimeSeconds" = none) :
    Agrees document sourceExpiry now lifetime policy
      (initialExpiry c encoded sourceExpiry now lifetime policy) := by
  have hrequest : proposalExpiry c encoded now = .ok none := by
    rw [proposalExpiry_of hdocument, requestedExpiry, hat]
    dsimp only
    rw [hlifetime]
    rfl
  have hanswer : initialExpiry c encoded sourceExpiry now lifetime policy =
      (okOr (checkedAddI64 now lifetime) (invalidRequest "realm token_lifetime overflows time") >>=
        fun defaultExpiry => ensure (¬policyExpiry policy sourceExpiry defaultExpiry ≤ now)
          (invalidGrant "initial PIC Token expiration is not in the future") >>= fun _ =>
        .ok (policyExpiry policy sourceExpiry defaultExpiry)) := by
    rw [initialExpiry, hrequest, toI64_of_lt hlt]
    cases sourceExpiry with
    | none => cases policy <;> rfl
    | some source => cases policy <;> rfl
  rw [hanswer, checkedAddI64_of_nonneg (by omega)]
  by_cases hsum : now + (lifetime : Int) < 2 ^ 63
  · rw [if_pos hsum]
    by_cases hfuture : policyExpiry policy sourceExpiry (now + lifetime) ≤ now
    · refine Agrees.of_error ⟨invalidGrant "initial PIC Token expiration is not in the future", ?_⟩
        (.past hat hlifetime hfuture)
      refine bind_error.mpr (Or.inr ⟨_, rfl, bind_error.mpr (Or.inl ?_)⟩)
      exact ensure_error.mpr ⟨not_not.mpr hfuture, rfl⟩
    · refine Agrees.of_ok (bind_ok.mpr ⟨_, rfl, bind_ok.mpr ⟨(), ensure_ok.mpr hfuture, rfl⟩⟩)
        (by omega) (.realm hat hlifetime) ?_
      intro hfault
      cases hfault with
      | expiresAt hget => cases hat.symm.trans hget
      | lifetimeSeconds _ hget => cases hlifetime.symm.trans hget
      | overflow _ hget => cases hlifetime.symm.trans hget
      | realmOverflow _ _ hover => omega
      | past _ _ hpast => exact hfuture hpast
  · rw [if_neg hsum]
    exact Agrees.of_error ⟨_, rfl⟩ (.realmOverflow hat hlifetime (by omega))

/-- **The precedence of the expiry.** A proposal that is no document is refused. For any other, an
expiry that is returned lies in the future and is the one the document leads to: what it asks for,
at most a year away, or what the policy chooses; and it is refused exactly when what it asks for is
malformed or out of range, a sum overflows, or the policy chooses what is not in the future. -/
theorem initial_expiry_precedence (c : Crates) (encoded : String) (sourceExpiry : Option Int)
    (policy : TokenInitialExpiryPolicy) (hnow : 0 ≤ now) (hlt : lifetime < 2 ^ 63) :
    ((¬∃ document, Proposes c encoded document) →
      ∃ e, initialExpiry c encoded sourceExpiry now lifetime policy = .error e) ∧
    ∀ document, Proposes c encoded document →
      (∀ expiry, initialExpiry c encoded sourceExpiry now lifetime policy = .ok expiry →
        now < expiry ∧ ExpiryOf document sourceExpiry now lifetime policy expiry) ∧
      ((∃ e, initialExpiry c encoded sourceExpiry now lifetime policy = .error e) ↔
        ExpiryFault document sourceExpiry now lifetime policy) := by
  constructor
  · intro h
    obtain ⟨e, he⟩ : ∃ e, proposalExpiry c encoded now = .error e := proposalExpiry_malformed h
    exact ⟨e, bind_error.mpr (Or.inl he)⟩
  · intro document hdocument
    cases hat : document.get "tokenExpiresAt" with
    | some value => exact agrees_expiresAt hdocument hat
    | none =>
      cases hlifetime : document.get "tokenLifetimeSeconds" with
      | some value => exact agrees_lifetimeSeconds hnow hdocument hat hlifetime
      | none => exact agrees_realm hnow hlt hdocument hat hlifetime

/-- The proposal of the tests asks for an hour, which is what it is given. -/
theorem initial_expiry_hour :
    Proposes realmCrates proposalSegment proposalValue ∧
    initialExpiry realmCrates proposalSegment (some 9000) 100 300 .later = .ok 3700 := by
  have h1 : proposalSegment ≠ edDSASegment := by decide +kernel
  have h2 : proposalSegment ≠ accessSegment := by decide +kernel
  have h3 : proposalSegment ≠ accessSignatureSegment := by decide +kernel
  have h4 : utf8 proposalText ≠ utf8 edDSAText := utf8_injective.ne (by decide +kernel)
  have h5 : utf8 proposalText ≠ utf8 accessText := utf8_injective.ne (by decide +kernel)
  have hdocument : Proposes realmCrates proposalSegment proposalValue :=
    ⟨utf8 proposalText, by simp [realmCrates, h1, h2, h3], by simp [realmCrates, h4, h5]⟩
  have hat : proposalValue.get "tokenExpiresAt" = none := by
    simp [proposalValue, Value.get_object]
  have hseconds : proposalValue.get "tokenLifetimeSeconds" = some (.number (.posInt 3600)) := by
    simp [proposalValue, Value.get_object]
  refine ⟨hdocument, ?_⟩
  obtain ⟨hok, herror⟩ := (initial_expiry_precedence realmCrates proposalSegment (some 9000) .later
    (by decide : (0 : Int) ≤ 100) (by decide : 300 < 2 ^ 63)).2 proposalValue hdocument
  cases hanswer : initialExpiry realmCrates proposalSegment (some 9000) 100 300 .later with
  | ok expiry =>
    obtain ⟨-, hexpiry⟩ := hok expiry hanswer
    cases hexpiry with
    | expiresAt hget => cases hat.symm.trans hget
    | lifetimeSeconds _ hget hn =>
      cases hseconds.symm.trans hget
      cases hn
      rfl
    | realm _ hget => cases hseconds.symm.trans hget
  | error e =>
    cases herror.mp ⟨e, hanswer⟩ with
    | expiresAt hget => cases hat.symm.trans hget
    | lifetimeSeconds _ hget hbad =>
      cases hseconds.symm.trans hget
      exact absurd (by decide) (hbad 3600 rfl)
    | overflow _ hget hn hover =>
      cases hseconds.symm.trans hget
      cases hn
      exact absurd hover (by decide)
    | realmOverflow _ hget => cases hseconds.symm.trans hget
    | past _ hget => cases hseconds.symm.trans hget

end PicX.Realm
