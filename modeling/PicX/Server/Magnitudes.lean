import PicX.Realm.KeyCaches
import PicX.Realm.Mapping

/-!
# What configured durations and sizes are added to

A duration or a size is read as whatever fits 64 bits. It is used where less fits: added to an
instant, which is a signed count of seconds and panics beyond it; added to a date after a cast to a
signed integer; cast to 32 bits for HTTP/2.

* `Exact` — the four places compute what they are meant to.
* `Fits` — the magnitudes for which they do.
* `exact_iff_fits` — and for no others.
-/

namespace PicX.Server

open PicX.Core (Config Limits)
open PicX.Realm

/-! ## The uses -/

/-- `Instant + Duration`, in whole seconds; `none` where it panics. -/
def instantAdd (instant : Int) (duration : Nat) : Option Int :=
  if instant + duration < 2 ^ 63 then some (instant + duration) else none

/-- The deadline of the shutdown (`pic-x-server/src/host.rs`). -/
def shutdownDeadline (config : Config) (instant : Int) : Option Int :=
  instantAdd instant config.shutdownTimeout

/-- The deadline of a connection, if it has one (`pic-x-transport/src/guard.rs`). -/
def connectionDeadline (limits : Limits) (instant : Int) : Option (Option Int) :=
  match limits.connectionLifetime with
  | none => some none
  | some lifetime => (instantAdd instant lifetime).map some

/-- What the header list of one HTTP/2 request may total (`pic-x-transport/src/surface.rs`). -/
def maxHeaderListSize (limits : Limits) : Nat := limits.headerBytes % 2 ^ 32

/-! ## What they are meant to compute -/

/-- The expiry of a new lineage, with the sum of the date and the lifetime as it is. -/
def exactExpiry (c : Crates) (encoded : String) (sourceExpiry : Option Int) (now : Int)
    (defaultLifetime : Nat) (policy : TokenInitialExpiryPolicy) : Except ExchangeError Int := do
  let proposed ← proposalExpiry c encoded now
  match proposed with
  | some expiry => pure expiry
  | none => do
    let defaultExpiry := now + defaultLifetime
    let expiry := match sourceExpiry with
      | some sourceExpiry => match policy with
        | .later => max sourceExpiry defaultExpiry
        | .pic => defaultExpiry
        | .oauth => sourceExpiry
      | none => defaultExpiry
    ensure (¬expiry ≤ now)
      (ExchangeError.invalidGrant "initial PIC Token expiration is not in the future")
    pure expiry

/-- Nothing overflows, wraps or is cut off, for a reading of each clock. -/
structure Exact (config : Config) (instant : Int) (now : Nat) : Prop where
  shutdown : shutdownDeadline config instant = some (instant + config.shutdownTimeout)
  connection : connectionDeadline config.limits instant =
    some (config.limits.connectionLifetime.map fun lifetime => instant + lifetime)
  expiry : ∀ realm ∈ config.realms, ∀ c encoded sourceExpiry,
    initialExpiry c encoded sourceExpiry now realm.tokenLifetime realm.tokenInitialExpiryPolicy =
      exactExpiry c encoded sourceExpiry now realm.tokenLifetime realm.tokenInitialExpiryPolicy
  headerList : maxHeaderListSize config.limits = config.limits.headerBytes

/-- Each sum stays below what a signed 64-bit integer holds, and the header below 4 GiB. -/
structure Fits (config : Config) (instant : Int) (now : Nat) : Prop where
  shutdown : instant + config.shutdownTimeout < 2 ^ 63
  connection : ∀ lifetime, config.limits.connectionLifetime = some lifetime →
    instant + lifetime < 2 ^ 63
  expiry : ∀ realm ∈ config.realms, now + realm.tokenLifetime < 2 ^ 63
  headerList : config.limits.headerBytes < 2 ^ 32

/-! ## Instants -/

theorem instantAdd_exact {instant : Int} {duration : Nat} :
    instantAdd instant duration = some (instant + duration) ↔ instant + duration < 2 ^ 63 := by
  unfold instantAdd
  split_ifs with h
  · exact iff_of_true rfl h
  · exact iff_of_false nofun h

theorem connectionDeadline_exact {limits : Limits} {instant : Int} :
    connectionDeadline limits instant =
        some (limits.connectionLifetime.map fun lifetime => instant + lifetime) ↔
      ∀ lifetime, limits.connectionLifetime = some lifetime → instant + lifetime < 2 ^ 63 := by
  cases hlifetime : limits.connectionLifetime with
  | none => simp [connectionDeadline, hlifetime]
  | some lifetime =>
    rw [connectionDeadline, hlifetime]
    dsimp only [Option.map_some]
    rw [Option.map_eq_some_iff]
    constructor
    · intro ⟨deadline, hadd, heq⟩ lifetime' hlifetime'
      cases heq
      cases hlifetime'
      exact instantAdd_exact.mp hadd
    · intro h
      exact ⟨_, instantAdd_exact.mpr (h lifetime rfl), rfl⟩

theorem maxHeaderListSize_exact {limits : Limits} :
    maxHeaderListSize limits = limits.headerBytes ↔ limits.headerBytes < 2 ^ 32 := by
  unfold maxHeaderListSize
  omega

/-! ## Dates -/

variable {now lifetime : Nat}

/-- A sum that fits is not touched by the cast. -/
theorem checkedAddI64_fits (h : now + lifetime < 2 ^ 63) :
    checkedAddI64 now (toI64 lifetime) = some ((now : Int) + lifetime) := by
  have hcast : toI64 lifetime = lifetime := by
    unfold toI64
    rw [Int.bmod_eq_of_le] <;> omega
  rw [checkedAddI64, hcast, if_pos (by omega)]

/-- One that does not is refused or wrong. -/
theorem checkedAddI64_overflows (h : ¬now + lifetime < 2 ^ 63) {sum : Int}
    (hsum : checkedAddI64 now (toI64 lifetime) = some sum) :
    sum ≠ (now : Int) + lifetime ∧ 0 < lifetime := by
  unfold checkedAddI64 at hsum
  split_ifs at hsum with hrange
  have heq := Option.some.inj hsum
  constructor
  · omega
  · by_contra hzero
    have hnone : lifetime = 0 := by omega
    have hcast : toI64 lifetime = 0 := by rw [hnone]; rfl
    omega

/-- A proposal that asks for no expiry, whatever it is written as. -/
def silentCrates : Crates :=
  { testCrates with
    base64urlDecode := fun _ => .ok []
    valueFromSlice := fun _ => .ok (.object []) }

theorem proposalExpiry_silent {encoded : String} {now : Int} :
    proposalExpiry silentCrates encoded now = .ok none := by
  rfl

/-- Without a proposal and without a source, the expiry is the sum, or there is none, -/
theorem initialExpiry_silent {policy : TokenInitialExpiryPolicy} {expiry : Int}
    (h : initialExpiry silentCrates "" none now lifetime policy = .ok expiry) :
    checkedAddI64 now (toI64 lifetime) = some expiry := by
  obtain ⟨proposed, hproposed, h⟩ := bind_ok.mp h
  cases proposalExpiry_silent.symm.trans hproposed
  obtain ⟨sum, hsum, h⟩ := bind_ok.mp h
  obtain ⟨_, -, h⟩ := bind_ok.mp h
  obtain rfl := pure_ok.mp h
  exact okOr_ok.mp hsum

theorem initialExpiry_overflows {policy : TokenInitialExpiryPolicy}
    (h : checkedAddI64 now (toI64 lifetime) = none) :
    initialExpiry silentCrates "" none now lifetime policy =
      .error (ExchangeError.invalidRequest "realm token_lifetime overflows time") :=
  bind_error.mpr (Or.inr ⟨none, proposalExpiry_silent,
    bind_error.mpr (Or.inl (okOr_error.mpr ⟨h, rfl⟩))⟩)

/-- and meant to be it as it is. -/
theorem exactExpiry_silent {policy : TokenInitialExpiryPolicy} (hpos : 0 < lifetime) :
    exactExpiry silentCrates "" none now lifetime policy = .ok ((now : Int) + lifetime) := by
  have hlater : ¬(now : Int) + lifetime ≤ now := by omega
  exact bind_ok.mpr ⟨none, proposalExpiry_silent, bind_ok.mpr ⟨(), ensure_ok.mpr hlater, rfl⟩⟩

theorem initialExpiry_exact {policy : TokenInitialExpiryPolicy} :
    (∀ c encoded sourceExpiry, initialExpiry c encoded sourceExpiry now lifetime policy =
      exactExpiry c encoded sourceExpiry now lifetime policy) ↔ now + lifetime < 2 ^ 63 := by
  constructor
  · intro hall
    have h := hall silentCrates "" none
    by_contra hbig
    cases hsum : checkedAddI64 now (toI64 lifetime) with
    | none =>
      -- The sum is refused with an error the exact one never gives.
      have hexact := h.symm.trans (initialExpiry_overflows hsum)
      rcases bind_error.mp hexact with hproposal | ⟨proposed, hproposed, hexact⟩
      · cases proposalExpiry_silent.symm.trans hproposal
      · cases proposalExpiry_silent.symm.trans hproposed
        rcases bind_error.mp hexact with hensure | ⟨_, -, hpure⟩
        · have hcode := congrArg ExchangeError.code (ensure_error.mp hensure).2
          exact absurd hcode (by decide)
        · cases hpure
    | some sum =>
      obtain ⟨hne, hpos⟩ := checkedAddI64_overflows hbig hsum
      have hwrong := initialExpiry_silent (h.trans (exactExpiry_silent hpos))
      exact hne (Option.some.inj (hsum.symm.trans hwrong))
  · intro hfits c encoded sourceExpiry
    have hok : okOr (checkedAddI64 now (toI64 lifetime))
        (ExchangeError.invalidRequest "realm token_lifetime overflows time") =
          .ok ((now : Int) + lifetime) := by
      rw [checkedAddI64_fits hfits]
      rfl
    unfold initialExpiry exactExpiry
    rw [hok]
    rfl

/-! ## Configurations -/

/-- **The four places compute what they are meant to exactly when the magnitudes fit**, whatever the
configuration and whatever the clocks read. -/
theorem exact_iff_fits (config : Config) (instant : Int) (now : Nat) :
    Exact config instant now ↔ Fits config instant now := by
  constructor
  · intro h
    exact {
      shutdown := instantAdd_exact.mp h.shutdown
      connection := connectionDeadline_exact.mp h.connection
      expiry := fun realm hrealm => initialExpiry_exact.mp (h.expiry realm hrealm)
      headerList := maxHeaderListSize_exact.mp h.headerList }
  · intro h
    exact {
      shutdown := instantAdd_exact.mpr h.shutdown
      connection := connectionDeadline_exact.mpr h.connection
      expiry := fun realm hrealm => initialExpiry_exact.mpr (h.expiry realm hrealm)
      headerList := maxHeaderListSize_exact.mpr h.headerList }

/-- A server whose request heads may have 4 GiB, and whose shutdown may take `2 ^ 63` seconds. -/
def vast : Config :=
  { acmeConfig testProfile with limits := { headerBytes := 2 ^ 32 }, shutdownTimeout := 2 ^ 63 }

/-- Both are read and accepted. The one becomes a limit of no bytes at all, and the other a panic
when the shutdown starts. -/
theorem vast_accepted :
    Core.parseBytes "4G" = .ok vast.limits.headerBytes ∧
    Core.parseDuration "9223372036854775808" = .ok vast.shutdownTimeout ∧
    vast.validate (fun _ => true) = .ok () ∧
    maxHeaderListSize vast.limits = 0 ∧ shutdownDeadline vast 0 = none ∧ ¬Exact vast 0 0 := by
  refine ⟨by decide +kernel, by decide +kernel, by decide +kernel, by decide +kernel,
    by decide +kernel, ?_⟩
  intro h
  have hnone : shutdownDeadline vast 0 = none := by decide +kernel
  cases hnone.symm.trans h.shutdown

end PicX.Server
