import Mathlib.Data.List.AList
import Mathlib.Logic.Relation
import PicX.Base.Machine
import PicX.Core.Settings

/-!
# Bounding the connections of a surface (`pic-x-transport/src/guard.rs`)

A connection takes a permit of the pool before anything else, then a share of its address, and
gives both back when its guards are dropped. The guards are separate values, so a surface with
several connections can be between any two of these steps on each of them: a state holds every
connection with the guards it still has, and each step takes or drops one guard.

The lock of the map is not modelled: the code that runs under it cannot panic, so it is never
poisoned, and each use of the map is one step.

* `LimitedAcceptor.step` — one step of one connection.
* `Accounts` — the invariant: what is taken and what is free add up.
* `connection_accounting` — the bounds hold in every reachable state, and nothing leaks.
-/

namespace PicX.Core

/-- Whether an address is inside a block: the first `width` bits, compared. There is no answer where
the arithmetic of the mask leaves its type. -/
def PeerBlock.contains (block : PeerBlock) (address : Net.IpAddr) : Option Bool :=
  match block.address, address with
  | .v4 inside, .v4 candidate => do
    let mask ← Machine.prefixMask 32 block.width
    pure (inside.bits &&& mask == candidate.bits &&& mask)
  | .v6 inside, .v6 candidate => do
    let mask ← Machine.prefixMask 128 block.width
    pure (inside.bits &&& mask == candidate.bits &&& mask)
  | _, _ => some false

/-- A block always answers (`contains_isSome`). -/
def Limits.isPeerExempt (limits : Limits) (address : Net.IpAddr) : Bool :=
  limits.peerExempt.any fun block => block.contains address = some true

end PicX.Core

namespace PicX.Transport

open PicX.Core (Limits)
open PicX.Net (IpAddr)

/-! ## The acceptor -/

/-- One address's standing with the acceptor. -/
structure PeerHeld where
  held : Nat
  warned : Bool
  deriving DecidableEq, Repr

/-- How many sockets each address is holding. -/
abbrev Peers := AList fun _ : IpAddr => PeerHeld

/-- Where a connection is. -/
inductive Stage where
  /-- It has its permit, and its address has not been asked about. -/
  | admitting
  /-- Its address was refused. -/
  | refused
  | handshaking
  | established
  /-- It ended, and its guards are being dropped. -/
  | closing
  deriving DecidableEq, Repr

/-- A connection, and the guards it holds. -/
structure Connection where
  address : Option IpAddr
  stage : Stage
  /-- `OwnedSemaphorePermit`. -/
  permit : Bool
  /-- `PeerReleased`, with the address it counts for. -/
  peer : Option IpAddr
  /-- `Released`. -/
  released : Bool
  deriving DecidableEq, Repr

/-- A connection that has just got its permit. -/
def Connection.new (address : Option IpAddr) : Connection :=
  { address, stage := .admitting, permit := true, peer := none, released := false }

structure LimitedAcceptor where
  limits : Limits
  permits : Nat
  peers : Peers
  saturated : Bool
  held : Int
  /-- The connections that hold anything. -/
  connections : List Connection

/-- An acceptor nobody has connected to. -/
def LimitedAcceptor.new (limits : Limits) : LimitedAcceptor :=
  { limits, permits := limits.connections, peers := ∅, saturated := false, held := 0
    connections := [] }

/-- Admits an address against its bound, with the guard it then holds; `none` when it is refused. -/
def admitPeer (limits : Limits) (peers : Peers) : Option IpAddr → Option (Option IpAddr) × Peers
  | none => (some none, peers)
  | some address =>
    if limits.connectionsPerPeer = 0 ∨ limits.isPeerExempt address then (some none, peers)
    else
      let entry := (peers.lookup address).getD { held := 0, warned := false }
      if limits.connectionsPerPeer ≤ entry.held then
        (none, peers.insert address { entry with warned := true })
      else (some (some address), peers.insert address { entry with held := entry.held + 1 })

/-- `PeerReleased::drop`. -/
def releasePeer (peers : Peers) (address : IpAddr) : Peers :=
  match peers.lookup address with
  | none => peers
  | some entry =>
    if entry.held - 1 = 0 then peers.erase address
    else peers.insert address { entry with held := entry.held - 1 }

/-! ## Steps -/

/-- What can happen on a surface; a connection is named by its place in the list. -/
inductive Event where
  /-- A socket arrives, and asks for a permit. -/
  | accept (address : Option IpAddr)
  /-- The connection asks for its address's share. -/
  | askPeer (i : Nat)
  /-- A refused connection gives its permit back. -/
  | refuse (i : Nat)
  | handshake (i : Nat) (succeeds : Bool)
  /-- The stream, or the future that would have made it, is dropped. -/
  | close (i : Nat)
  | dropPermit (i : Nat)
  | dropReleased (i : Nat)
  | dropPeer (i : Nat)
  /-- The last of its guards is gone. -/
  | forget (i : Nat)
  deriving DecidableEq, Repr

variable (a : LimitedAcceptor)

/-- The connection at `i` moves on. -/
def LimitedAcceptor.update (i : Nat) (conn : Connection) : LimitedAcceptor :=
  { a with connections := a.connections.set i conn }

/-- The first part of `accept`: a permit, or a refusal. -/
def LimitedAcceptor.accept (address : Option IpAddr) : LimitedAcceptor :=
  if a.permits = 0 then { a with saturated := true }
  else { a with
    permits := a.permits - 1
    connections := a.connections ++ [.new address] }

/-- The rest of `accept`, up to the handshake. -/
def LimitedAcceptor.acceptPeer (i : Nat) (conn : Connection) : LimitedAcceptor :=
  match admitPeer a.limits a.peers conn.address with
  | (none, peers) => { a.update i { conn with stage := .refused } with peers }
  | (some peer, peers) =>
    { a.update i { conn with stage := .handshaking, peer, released := true } with
      peers, saturated := false, held := a.held + 1 }

/-- One step, where it is possible. -/
def LimitedAcceptor.step : Event → Option LimitedAcceptor
  | .accept address => some (a.accept address)
  | .askPeer i => do
    let conn ← a.connections[i]?
    if conn.stage = .admitting then some (a.acceptPeer i conn) else none
  | .refuse i => do
    let conn ← a.connections[i]?
    if conn.stage = .refused then
      some { a with permits := a.permits + 1, connections := a.connections.eraseIdx i }
    else none
  | .handshake i succeeds => do
    let conn ← a.connections[i]?
    if conn.stage = .handshaking then
      some (a.update i { conn with stage := if succeeds then .established else .closing })
    else none
  | .close i => do
    let conn ← a.connections[i]?
    if conn.stage = .handshaking ∨ conn.stage = .established then
      some (a.update i { conn with stage := .closing })
    else none
  | .dropPermit i => do
    let conn ← a.connections[i]?
    if conn.stage = .closing ∧ conn.permit then
      some { a.update i { conn with permit := false } with permits := a.permits + 1 }
    else none
  | .dropReleased i => do
    let conn ← a.connections[i]?
    if conn.stage = .closing ∧ conn.released then
      some { a.update i { conn with released := false } with held := a.held - 1 }
    else none
  | .dropPeer i => do
    let conn ← a.connections[i]?
    let address ← conn.peer
    if conn.stage = .closing then
      some { a.update i { conn with peer := none } with peers := releasePeer a.peers address }
    else none
  | .forget i => do
    let conn ← a.connections[i]?
    if conn.stage = .closing ∧ !conn.permit ∧ !conn.released ∧ conn.peer = none then
      some { a with connections := a.connections.eraseIdx i }
    else none

/-- Some step takes one acceptor to the next. -/
def Steps (a a' : LimitedAcceptor) : Prop := ∃ event, a.step event = some a'

/-- Handshaking or established. -/
def Connection.live (conn : Connection) : Bool :=
  conn.stage = .handshaking || conn.stage = .established

/-- How many connections hold a share of an address. -/
def shares (connections : List Connection) (address : IpAddr) : Nat :=
  connections.countP fun conn => conn.peer = some address

/-! ## What is taken and what is free -/

/-- The address is bounded. -/
def Bounded (limits : Limits) (address : IpAddr) : Prop :=
  limits.connectionsPerPeer ≠ 0 ∧ limits.isPeerExempt address = false

/-- The guards a connection holds go with its stage. -/
structure Holds (limits : Limits) (conn : Connection) : Prop where
  permit : conn.stage ≠ .closing → conn.permit = true
  early : conn.stage = .admitting ∨ conn.stage = .refused → conn.peer = none ∧ conn.released = false
  live : conn.live = true → conn.released = true ∧
    ∀ address, conn.address = some address → Bounded limits address → conn.peer = some address
  bounded : ∀ address, conn.peer = some address → conn.address = some address ∧
    Bounded limits address

/-- The map says how many shares of an address are taken, and does not mention the others. -/
def Tallies (peers : Peers) (n : IpAddr → Nat) : Prop :=
  ∀ address,
    (peers.lookup address).map PeerHeld.held = if n address = 0 then none else some (n address)

/-- What holds of an acceptor at any time. -/
structure Accounts (a : LimitedAcceptor) : Prop where
  permits : a.permits + a.connections.countP (fun conn => conn.permit) = a.limits.connections
  held : a.held = a.connections.countP fun conn => conn.released
  tallies : Tallies a.peers (shares a.connections)
  bound : ∀ address, shares a.connections address ≤ a.limits.connectionsPerPeer
  holds : ∀ conn ∈ a.connections, Holds a.limits conn

variable {a a' : LimitedAcceptor} {limits : Limits} {conn : Connection} {i : Nat}

@[simp] theorem shares_append (l l' : List Connection) (address : IpAddr) :
    shares (l ++ l') address = shares l address + shares l' address :=
  List.countP_append

@[simp] theorem shares_cons (conn : Connection) (l : List Connection) (address : IpAddr) :
    shares (conn :: l) address = shares l address + if conn.peer = some address then 1 else 0 := by
  simp [shares, List.countP_cons]

@[simp] theorem shares_nil (address : IpAddr) : shares [] address = 0 := rfl

theorem Accounts.new (limits : Limits) : Accounts (.new limits) where
  permits := by simp [LimitedAcceptor.new]
  held := by simp [LimitedAcceptor.new]
  tallies := fun address => by simp [LimitedAcceptor.new, shares]
  bound := by simp [LimitedAcceptor.new, shares]
  holds := by simp [LimitedAcceptor.new]

/-- A connection among the others. -/
theorem exists_split {l : List Connection} (h : l[i]? = some conn) :
    ∃ l₁ l₂, l = l₁ ++ conn :: l₂ ∧ (∀ conn', l.set i conn' = l₁ ++ [conn'] ++ l₂) ∧
      l.eraseIdx i = l₁ ++ l₂ := by
  obtain ⟨hlt, rfl⟩ := List.getElem?_eq_some_iff.mp h
  refine ⟨l.take i, l.drop (i + 1), ?_, fun conn' => ?_, ?_⟩
  · rw [List.getElem_cons_drop, List.take_append_drop]
  · rw [List.set_eq_take_append_cons_drop, if_pos hlt, List.append_assoc, List.singleton_append]
  · exact List.eraseIdx_eq_take_drop_succ ..

/-- What a step that moves one connection on leaves: the guards that were dropped are free, and
nothing else changed. -/
theorem Accounts.replace (h : Accounts a) {l₁ l₂ new : List Connection} {permits : Nat}
    {peers : Peers} {saturated : Bool} {held : Int}
    (hconnections : a.connections = l₁ ++ conn :: l₂)
    (hpermits : permits + new.countP (fun conn => conn.permit) =
      a.permits + [conn].countP fun conn => conn.permit)
    (hheld : held - new.countP (fun conn => conn.released) =
      a.held - [conn].countP fun conn => conn.released)
    (hpeers : Tallies peers (shares (l₁ ++ new ++ l₂)))
    (hbound : ∀ address, shares (l₁ ++ new ++ l₂) address ≤ a.limits.connectionsPerPeer)
    (hholds : ∀ conn ∈ new, Holds a.limits conn) :
    Accounts { limits := a.limits, permits, peers, saturated, held
               connections := l₁ ++ new ++ l₂ } where
  permits := by
    have := h.permits
    simp only [hconnections, List.countP_append, List.countP_cons, List.countP_nil]
      at this hpermits ⊢
    omega
  held := by
    have := h.held
    simp only [hconnections, List.countP_append, List.countP_cons, List.countP_nil] at this hheld ⊢
    omega
  tallies := hpeers
  bound := hbound
  holds := by
    intro conn' hconn'
    simp only [List.mem_append] at hconn'
    rcases hconn' with (hleft | hnew) | hright
    · exact h.holds conn' (by simp [hconnections, hleft])
    · exact hholds conn' hnew
    · exact h.holds conn' (by simp [hconnections, hright])

/-- The same, for a step that leaves the shares of every address as they were. -/
theorem Accounts.replace_same (h : Accounts a) {l₁ l₂ new : List Connection} {permits : Nat}
    {saturated : Bool} {held : Int} (hconnections : a.connections = l₁ ++ conn :: l₂)
    (hpermits : permits + new.countP (fun conn => conn.permit) =
      a.permits + [conn].countP fun conn => conn.permit)
    (hheld : held - new.countP (fun conn => conn.released) =
      a.held - [conn].countP fun conn => conn.released)
    (hpeers : ∀ address, shares new address = shares [conn] address)
    (hholds : ∀ conn ∈ new, Holds a.limits conn) :
    Accounts { limits := a.limits, permits, peers := a.peers, saturated, held
               connections := l₁ ++ new ++ l₂ } := by
  have hshares : shares (l₁ ++ new ++ l₂) = shares a.connections := by
    funext address
    have := hpeers address
    simp only [hconnections, shares_append, shares_cons, shares_nil] at this ⊢
    omega
  refine h.replace hconnections hpermits hheld ?_ ?_ hholds
  · rw [hshares]
    exact h.tallies
  · rw [hshares]
    exact h.bound

/-! ## The map of addresses -/

section Map

variable {peers peers' : Peers} {n : IpAddr → Nat} {address : IpAddr}

theorem Tallies.insert (h : Tallies peers n) (address : IpAddr) (entry : PeerHeld)
    (hpos : entry.held ≠ 0) :
    Tallies (peers.insert address entry) (Function.update n address entry.held) := by
  intro address'
  by_cases heq : address' = address
  · subst heq
    simp [AList.lookup_insert, hpos]
  · rw [AList.lookup_insert_ne heq, Function.update_of_ne heq]
    exact h address'

theorem Tallies.erase (h : Tallies peers n) (address : IpAddr) :
    Tallies (peers.erase address) (Function.update n address 0) := by
  intro address'
  by_cases heq : address' = address
  · subst heq
    simp [AList.lookup_erase]
  · rw [AList.lookup_erase_ne heq, Function.update_of_ne heq]
    exact h address'

/-- What an address is found to hold, whether or not the map mentions it. -/
theorem Tallies.held_getD (h : Tallies peers n) (address : IpAddr) (warned : Bool) :
    ((peers.lookup address).getD { held := 0, warned }).held = n address := by
  have haddress := h address
  cases hlookup : peers.lookup address with
  | none =>
    rw [hlookup, Option.map_none] at haddress
    split_ifs at haddress with hzero
    simp [hzero]
  | some entry =>
    rw [hlookup, Option.map_some] at haddress
    split_ifs at haddress with hzero
    simpa using haddress

/-- **What an address is given**: nothing when it is not bounded, a share while it is under its
bound, and a refusal that leaves the shares as they were otherwise. -/
theorem admitPeer_cases (h : Tallies peers n) {address : Option IpAddr}
    {answer : Option (Option IpAddr)}
    (hanswer : admitPeer limits peers address = (answer, peers')) :
    (answer = none ∧ Tallies peers' n) ∨
    (answer = some none ∧ peers' = peers ∧ ∀ x, address = some x → ¬Bounded limits x) ∨
    ∃ x, answer = some (some x) ∧ address = some x ∧ Bounded limits x ∧
      n x < limits.connectionsPerPeer ∧ Tallies peers' (Function.update n x (n x + 1)) := by
  cases address with
  | none =>
    cases hanswer
    exact Or.inr (Or.inl ⟨rfl, rfl, by simp⟩)
  | some x =>
    simp only [admitPeer] at hanswer
    split_ifs at hanswer with hfree hfull
    · cases hanswer
      refine Or.inr (Or.inl ⟨rfl, rfl, ?_⟩)
      rintro _ ⟨rfl⟩ ⟨hbound, hexempt⟩
      rcases hfree with hzero | hfree
      · exact hbound hzero
      · simp [hexempt] at hfree
    · cases hanswer
      rw [not_or] at hfree
      rw [h.held_getD] at hfull
      refine Or.inl ⟨rfl, ?_⟩
      have hpos : n x ≠ 0 := by omega
      have hsame := h.insert x
        { (peers.lookup x).getD { held := 0, warned := false } with warned := true }
        (by simpa only [h.held_getD] using hpos)
      simpa only [h.held_getD, Function.update_eq_self] using hsame
    · cases hanswer
      rw [not_or] at hfree
      rw [h.held_getD] at hfull
      refine Or.inr (Or.inr ⟨x, rfl, rfl, ⟨hfree.1, by simpa using hfree.2⟩, by omega, ?_⟩)
      rw [← h.held_getD x false]
      exact h.insert x _ (Nat.succ_ne_zero _)

/-- A share that is given back. -/
theorem releasePeer_tallies (h : Tallies peers n) (hpos : n address ≠ 0) :
    Tallies (releasePeer peers address) (Function.update n address (n address - 1)) := by
  have hheld := h address
  rw [if_neg hpos, Option.map_eq_some_iff] at hheld
  obtain ⟨entry, hentry, hcount⟩ := hheld
  simp only [releasePeer, hentry, ← hcount]
  split_ifs with hlast
  · rw [hlast]
    exact h.erase address
  · exact h.insert address _ hlast

end Map

/-! ## One step -/

theorem Accounts.accept (h : Accounts a) (address : Option IpAddr) :
    Accounts (a.accept address) := by
  unfold LimitedAcceptor.accept
  split_ifs with hfull
  · exact ⟨h.permits, h.held, h.tallies, h.bound, h.holds⟩
  · have hshares : shares (a.connections ++ [.new address]) = shares a.connections := by
      funext address'
      simp [Connection.new]
    refine ⟨?_, ?_, ?_, ?_, ?_⟩
    · have := h.permits
      simp only [List.countP_append, List.countP_cons, List.countP_nil, Connection.new, if_true]
      omega
    · have := h.held
      simpa [Connection.new] using this
    · show Tallies a.peers (shares (a.connections ++ [.new address]))
      rw [hshares]
      exact h.tallies
    · intro address'
      exact (congrFun hshares address').trans_le (h.bound address')
    · intro conn hconn
      rcases List.mem_append.mp hconn with hold | hnew
      · exact h.holds conn hold
      · cases List.mem_singleton.mp hnew
        exact ⟨fun _ => rfl, fun _ => ⟨rfl, rfl⟩, by simp [Connection.live, Connection.new],
          by simp [Connection.new]⟩

theorem Accounts.acceptPeer (h : Accounts a) (hconn : a.connections[i]? = some conn)
    (hstage : conn.stage = .admitting) : Accounts (a.acceptPeer i conn) := by
  obtain ⟨l₁, l₂, hconnections, hset, -⟩ := exists_split hconn
  have hholds := h.holds conn (by simp [hconnections])
  have hpermit : conn.permit = true := hholds.permit (by simp [hstage])
  obtain ⟨hpeer, hreleased⟩ := hholds.early (Or.inl hstage)
  have hshares : shares a.connections = shares (l₁ ++ l₂) := by
    funext address
    simp [hconnections, hpeer]
  unfold LimitedAcceptor.acceptPeer
  cases hanswer : admitPeer a.limits a.peers conn.address with
  | mk answer peers =>
  rcases admitPeer_cases h.tallies hanswer with ⟨rfl, htallies⟩ | ⟨rfl, rfl, hfree⟩ |
    ⟨x, rfl, hx, hbounded, hroom, htallies⟩
  · -- Refused: only the map was looked at.
    simp only [LimitedAcceptor.update, hset]
    refine h.replace hconnections ?_ ?_ ?_ ?_ ?_
    · simp
    · simp
    · have hsame :
          shares (l₁ ++ [{ conn with stage := .refused }] ++ l₂) = shares a.connections := by
        funext address
        simp [hconnections, hpeer]
      rw [hsame]
      exact htallies
    · intro address
      have := h.bound address
      rw [hshares] at this
      simpa [hpeer] using this
    · rintro _ hnew
      cases List.mem_singleton.mp hnew
      exact ⟨fun _ => hpermit, fun _ => ⟨hpeer, hreleased⟩, by simp [Connection.live],
        by simp [hpeer]⟩
  · -- An address that is not bounded takes no share.
    simp only [LimitedAcceptor.update, hset]
    refine h.replace_same hconnections ?_ ?_ ?_ ?_
    · simp
    · simp [hreleased]
    · simp [hpeer]
    · rintro _ hnew
      cases List.mem_singleton.mp hnew
      refine ⟨fun _ => hpermit, by simp, fun _ => ⟨rfl, ?_⟩, by simp⟩
      intro address haddress hbounded
      exact absurd hbounded (hfree address haddress)
  · simp only [LimitedAcceptor.update, hset]
    have hmore :
      shares (l₁ ++ [{ conn with stage := .handshaking, peer := some x, released := true }] ++
        l₂) = Function.update (shares a.connections) x (shares a.connections x + 1) := by
      funext address
      by_cases heq : address = x
      · subst heq
        simp only [shares_append, shares_cons, shares_nil, hshares, Function.update_self, if_true]
        omega
      · simp [hshares, Function.update_of_ne heq, Ne.symm heq]
    refine h.replace hconnections ?_ ?_ ?_ ?_ ?_
    · simp
    · simp [hreleased]
    · rw [hmore]
      exact htallies
    · intro address
      rw [hmore]
      by_cases heq : address = x
      · subst heq
        rw [Function.update_self]
        omega
      · rw [Function.update_of_ne heq]
        exact h.bound address
    · rintro _ hnew
      cases List.mem_singleton.mp hnew
      refine ⟨fun _ => hpermit, by simp, fun _ => ⟨rfl, ?_⟩, ?_⟩
      · intro address haddress _
        exact hx.symm.trans haddress
      · rintro _ ⟨rfl⟩
        exact ⟨hx, hbounded⟩

/-- A connection that only moves to another stage keeps its guards. -/
theorem Accounts.move (h : Accounts a) (hconn : a.connections[i]? = some conn) {stage : Stage}
    (hstage : conn.stage = .handshaking ∨ conn.stage = .established)
    (hnext : stage = .established ∨ stage = .closing) :
    Accounts (a.update i { conn with stage }) := by
  obtain ⟨l₁, l₂, hconnections, hset, -⟩ := exists_split hconn
  have hholds := h.holds conn (by simp [hconnections])
  have hlive : conn.live = true := by
    rcases hstage with hstage | hstage
    · simp [Connection.live, hstage]
    · simp [Connection.live, hstage]
  have hpermit : conn.permit = true := by
    refine hholds.permit fun hclosing => ?_
    rcases hstage with hstage | hstage
    · simp [hclosing] at hstage
    · simp [hclosing] at hstage
  simp only [LimitedAcceptor.update, hset]
  refine h.replace_same hconnections ?_ ?_ ?_ ?_
  · simp
  · simp
  · simp
  · intro conn' hnew
    cases List.mem_singleton.mp hnew
    refine ⟨fun _ => hpermit, ?_, fun _ => hholds.live hlive, hholds.bounded⟩
    rcases hnext with rfl | rfl
    · simp
    · simp

/-- The guards of a connection that is closing. -/
theorem Holds.closing (h : Holds limits conn) (hstage : conn.stage = .closing)
    {permit released : Bool}
    {peer : Option IpAddr} (hpeer : peer = conn.peer ∨ peer = none) :
    Holds limits { conn with permit, released, peer } where
  permit := by simp [hstage]
  early := by simp [hstage]
  live := by simp [Connection.live, hstage]
  bounded := by
    rcases hpeer with rfl | rfl
    · exact h.bounded
    · simp

/-- **Every step keeps the accounts.** -/
theorem Accounts.step {event : Event} (h : Accounts a) (hstep : a.step event = some a') :
    Accounts a' := by
  cases event with
  | accept address =>
    cases hstep
    exact h.accept address
  | askPeer i =>
    obtain ⟨conn, hconn, hstep⟩ := Option.bind_eq_some_iff.mp hstep
    split_ifs at hstep with hstage
    cases hstep
    exact h.acceptPeer hconn hstage
  | refuse i =>
    obtain ⟨conn, hconn, hstep⟩ := Option.bind_eq_some_iff.mp hstep
    split_ifs at hstep with hstage
    cases hstep
    obtain ⟨l₁, l₂, hconnections, -, herase⟩ := exists_split hconn
    have hholds := h.holds conn (by simp [hconnections])
    obtain ⟨hpeer, hreleased⟩ := hholds.early (Or.inr hstage)
    have hpermit : conn.permit = true := hholds.permit (by simp [hstage])
    rw [herase, ← List.append_nil l₁]
    exact h.replace_same hconnections (by simp [hpermit]) (by simp [hreleased]) (by simp [hpeer])
      (by simp)
  | handshake i succeeds =>
    obtain ⟨conn, hconn, hstep⟩ := Option.bind_eq_some_iff.mp hstep
    split_ifs at hstep with hstage hsucceeds
    · cases hstep
      exact h.move hconn (Or.inl hstage) (Or.inl rfl)
    · cases hstep
      exact h.move hconn (Or.inl hstage) (Or.inr rfl)
  | close i =>
    obtain ⟨conn, hconn, hstep⟩ := Option.bind_eq_some_iff.mp hstep
    split_ifs at hstep with hstage
    cases hstep
    exact h.move hconn hstage (Or.inr rfl)
  | dropPermit i =>
    obtain ⟨conn, hconn, hstep⟩ := Option.bind_eq_some_iff.mp hstep
    split_ifs at hstep with hstage
    cases hstep
    obtain ⟨l₁, l₂, hconnections, hset, -⟩ := exists_split hconn
    have hholds := h.holds conn (by simp [hconnections])
    simp only [LimitedAcceptor.update, hset]
    refine h.replace_same hconnections (by simp [hstage.2]) (by simp) (by simp) fun conn' hnew => ?_
    cases List.mem_singleton.mp hnew
    exact hholds.closing hstage.1 (Or.inl rfl)
  | dropReleased i =>
    obtain ⟨conn, hconn, hstep⟩ := Option.bind_eq_some_iff.mp hstep
    split_ifs at hstep with hstage
    cases hstep
    obtain ⟨l₁, l₂, hconnections, hset, -⟩ := exists_split hconn
    have hholds := h.holds conn (by simp [hconnections])
    simp only [LimitedAcceptor.update, hset]
    refine h.replace_same hconnections (by simp) (by simp [hstage.2]) (by simp) fun conn' hnew => ?_
    cases List.mem_singleton.mp hnew
    exact hholds.closing hstage.1 (Or.inl rfl)
  | dropPeer i =>
    obtain ⟨conn, hconn, hstep⟩ := Option.bind_eq_some_iff.mp hstep
    obtain ⟨address, haddress, hstep⟩ := Option.bind_eq_some_iff.mp hstep
    split_ifs at hstep with hstage
    cases hstep
    obtain ⟨l₁, l₂, hconnections, hset, -⟩ := exists_split hconn
    have hholds := h.holds conn (by simp [hconnections])
    have hless : shares (l₁ ++ [{ conn with peer := none }] ++ l₂) =
        Function.update (shares a.connections) address (shares a.connections address - 1) := by
      funext address'
      by_cases heq : address' = address
      · subst heq
        simp only [hconnections, shares_append, shares_cons, shares_nil, haddress,
          Function.update_self, if_true, reduceCtorEq, if_false]
        omega
      · simp [hconnections, haddress, Function.update_of_ne heq, Ne.symm heq]
    have hpos : shares a.connections address ≠ 0 := by
      simp [hconnections, haddress]
    simp only [LimitedAcceptor.update, hset]
    refine h.replace hconnections (by simp) (by simp) ?_ ?_ ?_
    · rw [hless]
      exact releasePeer_tallies h.tallies hpos
    · intro address'
      have := h.bound address'
      rw [hless]
      by_cases heq : address' = address
      · subst heq
        rw [Function.update_self]
        omega
      · rwa [Function.update_of_ne heq]
    · intro conn' hnew
      cases List.mem_singleton.mp hnew
      exact hholds.closing hstage (Or.inr rfl)
  | forget i =>
    obtain ⟨conn, hconn, hstep⟩ := Option.bind_eq_some_iff.mp hstep
    split_ifs at hstep with hstage
    cases hstep
    obtain ⟨-, hpermit, hreleased, hpeer⟩ := hstage
    obtain ⟨l₁, l₂, hconnections, -, herase⟩ := exists_split hconn
    rw [herase, ← List.append_nil l₁]
    rw [Bool.not_eq_true'] at hpermit hreleased
    exact h.replace_same hconnections (by simp [hpermit]) (by simp [hreleased]) (by simp [hpeer])
      (by simp)

theorem LimitedAcceptor.acceptPeer_limits : (a.acceptPeer i conn).limits = a.limits := by
  unfold LimitedAcceptor.acceptPeer
  split
  · rfl
  · rfl

theorem step_limits {event : Event} (hstep : a.step event = some a') : a'.limits = a.limits := by
  cases event with
  | accept address =>
    cases hstep
    unfold LimitedAcceptor.accept
    split_ifs <;> rfl
  | askPeer i =>
    obtain ⟨conn, -, hstep⟩ := Option.bind_eq_some_iff.mp hstep
    split_ifs at hstep
    cases hstep
    exact LimitedAcceptor.acceptPeer_limits
  | dropPeer i =>
    obtain ⟨conn, -, hstep⟩ := Option.bind_eq_some_iff.mp hstep
    obtain ⟨address, -, hstep⟩ := Option.bind_eq_some_iff.mp hstep
    split_ifs at hstep
    cases hstep
    rfl
  | handshake i succeeds | refuse i | close i | dropPermit i | dropReleased i | forget i =>
    obtain ⟨conn, -, hstep⟩ := Option.bind_eq_some_iff.mp hstep
    split_ifs at hstep <;> cases hstep <;> rfl

/-! ## Whole runs -/

theorem accounts_of_steps (hruns : Relation.ReflTransGen Steps (.new limits) a) :
    Accounts a ∧ a.limits = limits := by
  induction hruns with
  | refl => exact ⟨.new limits, rfl⟩
  | tail _ hstep ih =>
    obtain ⟨event, hstep⟩ := hstep
    exact ⟨ih.1.step hstep, (step_limits hstep).trans ih.2⟩

/-- **Connection accounting.** In every state a surface can reach: no more connections are live than
the pool allows, none of the bounded addresses has more of them than its bound, the map has for each
address exactly the shares that are taken and no zero, and a surface whose connections are all gone
has all its permits and an empty map. -/
theorem connection_accounting (hruns : Relation.ReflTransGen Steps (.new limits) a) :
    a.connections.countP Connection.live ≤ limits.connections ∧
    (∀ address, limits.isPeerExempt address = false → limits.connectionsPerPeer ≠ 0 →
      a.connections.countP (fun conn => conn.live && conn.address = some address) ≤
        limits.connectionsPerPeer) ∧
    (∀ address, (a.peers.lookup address).map PeerHeld.held =
      if shares a.connections address = 0 then none else some (shares a.connections address)) ∧
    (∀ address, limits.isPeerExempt address = false → limits.connectionsPerPeer ≠ 0 →
      (∀ conn ∈ a.connections, conn.stage ≠ .closing) → shares a.connections address =
        a.connections.countP fun conn => conn.live && conn.address = some address) ∧
    (a.connections = [] → a.permits = limits.connections ∧ a.peers = ∅ ∧ a.held = 0) := by
  obtain ⟨haccounts, rfl⟩ := accounts_of_steps hruns
  have hpermit : ∀ conn ∈ a.connections, conn.live = true → conn.permit = true := by
    intro conn hconn hlive
    refine (haccounts.holds conn hconn).permit fun hclosing => ?_
    simp [Connection.live, hclosing] at hlive
  have hshare : ∀ address, a.limits.isPeerExempt address = false → a.limits.connectionsPerPeer ≠ 0 →
      ∀ conn ∈ a.connections, (conn.live && conn.address = some address) = true →
        decide (conn.peer = some address) = true := by
    intro address hexempt hbound conn hconn hlive
    rw [Bool.and_eq_true, decide_eq_true_eq] at hlive
    exact decide_eq_true
      (((haccounts.holds conn hconn).live hlive.1).2 address hlive.2 ⟨hbound, hexempt⟩)
  refine ⟨?_, ?_, haccounts.tallies, ?_, ?_⟩
  · have := haccounts.permits
    have hle : a.connections.countP Connection.live ≤
        a.connections.countP fun conn => conn.permit := List.countP_mono_left hpermit
    omega
  · intro address hexempt hbound
    exact (List.countP_mono_left (hshare address hexempt hbound)).trans (haccounts.bound address)
  · intro address hexempt hbound hopen
    refine le_antisymm (List.countP_mono_left ?_)
      (List.countP_mono_left (hshare address hexempt hbound))
    intro conn hconn hpeer
    obtain ⟨haddress, -⟩ := (haccounts.holds conn hconn).bounded address (of_decide_eq_true hpeer)
    have hlive : conn.live = true := by
      have hearly := (haccounts.holds conn hconn).early
      cases hstage : conn.stage with
      | admitting => simp [(hearly (Or.inl hstage)).1] at hpeer
      | refused => simp [(hearly (Or.inr hstage)).1] at hpeer
      | handshaking => simp [Connection.live, hstage]
      | established => simp [Connection.live, hstage]
      | closing => exact absurd hstage (hopen conn hconn)
    simp [hlive, haddress]
  · intro hnone
    refine ⟨?_, ?_, ?_⟩
    · simpa [hnone] using haccounts.permits
    · have hlookup : ∀ address, a.peers.lookup address = none := by
        intro address
        simpa [hnone] using haccounts.tallies address
      refine AList.ext (List.eq_nil_iff_forall_not_mem.mpr ?_)
      rintro ⟨address, entry⟩ hentry
      have := AList.mem_lookup_iff.mpr hentry
      simp [hlookup] at this
    · simpa [hnone] using haccounts.held

/-! ### Two sockets of one address -/

/-- A surface for two connections, one from each address. -/
def narrow : Limits := { connections := 2, connectionsPerPeer := 1 }

def localhost : IpAddr := .v4 (.ofOctets 127 0 0 1)

/-- Two sockets arrive from one address, and the second is refused. -/
def arrivals : List Event :=
  [.accept (some localhost), .askPeer 0, .accept (some localhost), .askPeer 1]

/-- The states of a run, event after event. -/
def LimitedAcceptor.run (a : LimitedAcceptor) (events : List Event) : Option LimitedAcceptor :=
  events.foldlM LimitedAcceptor.step a

theorem steps_of_run {a a' : LimitedAcceptor} {events : List Event} (h : a.run events = some a') :
    Relation.ReflTransGen Steps a a' := by
  induction events generalizing a with
  | nil =>
    cases h
    exact .refl
  | cons event events ih =>
    obtain ⟨a₁, hstep, hrest⟩ := Option.bind_eq_some_iff.mp h
    exact (ih hrest).head ⟨event, hstep⟩

/-- The bounds hold after them. -/
theorem connection_accounting_two_arrivals :
    ∃ a, (LimitedAcceptor.new narrow).run arrivals = some a ∧ a.connections.length = 2 ∧
      a.connections.countP Connection.live ≤ 2 ∧
      a.connections.countP (fun conn => conn.live && conn.address = some localhost) ≤ 1 := by
  have hrun : ((LimitedAcceptor.new narrow).run arrivals).isSome = true := by decide +kernel
  obtain ⟨a, ha⟩ := Option.isSome_iff_exists.mp hrun
  obtain ⟨hpool, hpeer, -⟩ := connection_accounting (steps_of_run ha)
  have hlength : ((LimitedAcceptor.new narrow).run arrivals).map
      (fun a => a.connections.length) = some 2 := by decide +kernel
  rw [ha, Option.map_some] at hlength
  exact ⟨a, ha, Option.some.inj hlength, hpool, hpeer localhost (by decide +kernel) (by decide)⟩

end PicX.Transport
