import PicX.Core.Settings

/-!
# The deadlines of a connection (`pic-x-transport/src/guard.rs`)

A guarded stream passes every call on to the stream inside it. Before a read or a write it looks at
the lifetime of the connection, and while a write is pending it keeps a timer armed; a vectored
write does neither.

Instants are counted in milliseconds, the resolution of the timers, and are as large as they have to
be; which lifetimes an instant has room for is in `Server.Magnitudes`. What the stream inside
answers is part of the call, for it is up to the peer.

* `Guarded.poll` — one call.
* `Covered` — the vectored writes that do no harm.
* `Armed` — the invariant of the timer.
* `deadlines_cover` — with only such vectored writes, both deadlines end every read and write.
-/

namespace PicX.Transport

open PicX.Core (Limits)

/-! ## The guarded stream -/

/-- What went wrong with a call. -/
inductive IoError where
  | timedOut (message : String)
  /-- An error of the stream inside. -/
  | inner (message : String)
  deriving DecidableEq, Repr

/-- What a call answers; a result is a number of bytes. -/
inductive Poll where
  | pending
  | ready (result : Except IoError Nat)

def MILLIS_PER_SEC : Nat := 1000

structure Guarded where
  /-- When this connection has lived long enough; nothing means unbounded. -/
  deadline : Option Nat
  /-- How long a write may make no progress. -/
  stall : Nat
  /-- When the armed timer runs out. -/
  stalled : Option Nat

/-- A connection that is accepted. -/
def Guarded.new (limits : Limits) (now : Nat) : Guarded where
  deadline := limits.connectionLifetime.map fun lifetime => now + lifetime * MILLIS_PER_SEC
  stall := limits.writeStallTimeout * MILLIS_PER_SEC
  stalled := none

/-- The calls a stream takes. -/
inductive CallKind where
  | read
  | write
  | writeVectored
  | flush
  | shutdown
  deriving DecidableEq, Repr

/-- A call: when it is made, and what the stream inside answers when it is asked. -/
structure Call where
  kind : CallKind
  now : Nat
  inner : Poll

namespace Guarded

def expired (g : Guarded) (now : Nat) : Option IoError :=
  g.deadline.bind fun deadline =>
    if now < deadline then none
    else some (.timedOut "the connection reached its configured lifetime")

def pollRead (g : Guarded) (now : Nat) (inner : Poll) : Poll × Guarded :=
  match g.expired now with
  | some expired => (.ready (.error expired), g)
  | none => (inner, g)

def pollWrite (g : Guarded) (now : Nat) (inner : Poll) : Poll × Guarded :=
  match g.expired now with
  | some expired => (.ready (.error expired), g)
  | none =>
    match inner with
    | .ready result => (.ready result, { g with stalled := none })
    | .pending =>
      let timer := g.stalled.getD (now + g.stall)
      (if timer ≤ now then .ready (.error (.timedOut "the peer stopped reading its response"))
        else .pending, { g with stalled := some timer })

def pollFlush (g : Guarded) (inner : Poll) : Poll × Guarded := (inner, g)

def pollShutdown (g : Guarded) (inner : Poll) : Poll × Guarded := (inner, g)

def pollWriteVectored (g : Guarded) (inner : Poll) : Poll × Guarded := (inner, g)

/-- One call on the stream. -/
def poll (g : Guarded) (call : Call) : Poll × Guarded :=
  match call.kind with
  | .read => g.pollRead call.now call.inner
  | .write => g.pollWrite call.now call.inner
  | .writeVectored => g.pollWriteVectored call.inner
  | .flush => g.pollFlush call.inner
  | .shutdown => g.pollShutdown call.inner

/-- The stream after some calls. -/
def after (g : Guarded) (calls : List Call) : Guarded :=
  calls.foldl (fun g call => (g.poll call).2) g

end Guarded

/-! ## What the deadlines are to do -/

namespace Call

/-- A write, plain or vectored. -/
def isWrite (call : Call) : Prop := call.kind = .write ∨ call.kind = .writeVectored

/-- A read or a write, which can transfer data. -/
def transfers (call : Call) : Prop := call.kind = .read ∨ call.isWrite

end Call

/-- Calls made one after the other on a clock that does not go back. -/
def Clocked (calls : List Call) : Prop := calls.Pairwise fun a b => a.now ≤ b.now

/-- A call that fails. -/
def Fails (g : Guarded) (call : Call) : Prop := ∃ e, (g.poll call).1 = .ready (.error e)

/-- Past the lifetime of the connection every read and every write fails. -/
def LifetimeCovers (g : Guarded) (calls : List Call) : Prop :=
  ∀ before call rest, calls = before ++ call :: rest → call.transfers →
    ∀ deadline, g.deadline = some deadline → deadline ≤ call.now → Fails (g.after before) call

/-- A write that finds the stream inside pending fails when, since a write that is as long ago as
the limit, every write found it so. -/
def StallCovers (g : Guarded) (calls : List Call) : Prop :=
  ∀ before waiting call rest, calls = before ++ waiting ++ call :: rest →
    call.isWrite → call.inner = .pending → (∀ c ∈ waiting, c.isWrite → c.inner = .pending) →
    (∃ first ∈ waiting ++ [call], first.isWrite ∧ first.now + g.stall ≤ call.now) →
    Fails (g.after (before ++ waiting)) call

/-- A vectored write that does no harm: the stream inside fails by itself, or the connection is in
its lifetime and the write moves bytes, or finds the timer armed and running. -/
def HarmlessVectored (g : Guarded) (call : Call) : Prop :=
  (∃ e, call.inner = .ready (.error e)) ∨
  g.expired call.now = none ∧
    (call.inner = .pending → ∃ timer, g.stalled = some timer ∧ call.now < timer)

/-- Calls whose vectored writes do no harm, each in the state it finds. -/
def Covered (g : Guarded) : List Call → Prop
  | [] => True
  | call :: rest =>
    (call.kind = .writeVectored → HarmlessVectored g call) ∧ Covered (g.poll call).2 rest

/-! ## One call -/

variable {g : Guarded} {call : Call} {calls : List Call}

theorem poll_settings :
    (g.poll call).2.deadline = g.deadline ∧ (g.poll call).2.stall = g.stall := by
  obtain ⟨kind, now, inner⟩ := call
  cases kind with
  | read =>
    show (g.pollRead now inner).2.deadline = _ ∧ (g.pollRead now inner).2.stall = _
    unfold Guarded.pollRead
    split
    · exact ⟨rfl, rfl⟩
    · exact ⟨rfl, rfl⟩
  | write =>
    show (g.pollWrite now inner).2.deadline = _ ∧ (g.pollWrite now inner).2.stall = _
    unfold Guarded.pollWrite
    split
    · exact ⟨rfl, rfl⟩
    · split
      · exact ⟨rfl, rfl⟩
      · exact ⟨rfl, rfl⟩
  | writeVectored => exact ⟨rfl, rfl⟩
  | flush => exact ⟨rfl, rfl⟩
  | shutdown => exact ⟨rfl, rfl⟩

theorem expired_eq_none {now : Nat} :
    g.expired now = none ↔ ∀ deadline, g.deadline = some deadline → now < deadline := by
  cases hdeadline : g.deadline with
  | none => simp [Guarded.expired, hdeadline]
  | some deadline => simp [Guarded.expired, hdeadline]

/-- A plain write that is asked of the stream inside and finds it pending. -/
theorem poll_write_pending (hkind : call.kind = .write) (hinner : call.inner = .pending)
    (hexpired : g.expired call.now = none) :
    g.poll call =
      (if g.stalled.getD (call.now + g.stall) ≤ call.now then
          .ready (.error (.timedOut "the peer stopped reading its response"))
        else .pending, { g with stalled := some (g.stalled.getD (call.now + g.stall)) }) := by
  simp only [Guarded.poll, hkind, hinner, Guarded.pollWrite, hexpired]

/-- Past its lifetime the connection fails every read and every plain write, -/
theorem fails_of_expired (htransfers : call.transfers)
    (hharmless : call.kind = .writeVectored → HarmlessVectored g call)
    (hexpired : g.expired call.now ≠ none) : Fails g call := by
  obtain ⟨e, he⟩ := Option.ne_none_iff_exists'.mp hexpired
  rcases htransfers with hread | hwrite | hvectored
  · exact ⟨e, by simp [Guarded.poll, hread, Guarded.pollRead, he]⟩
  · exact ⟨e, by simp [Guarded.poll, hwrite, Guarded.pollWrite, he]⟩
  · rcases hharmless hvectored with ⟨e, hinner⟩ | ⟨hnone, -⟩
    · exact ⟨e, by simp [Guarded.poll, hvectored, Guarded.pollWriteVectored, hinner]⟩
    · exact absurd hnone hexpired

/-- and a timer that has run out fails a write that is pending. -/
theorem fails_of_due (hwrite : call.isWrite) (hinner : call.inner = .pending)
    (hharmless : call.kind = .writeVectored → HarmlessVectored g call)
    (hdue : g.stalled.getD (call.now + g.stall) ≤ call.now) : Fails g call := by
  by_cases hexpired : g.expired call.now = none
  · rcases hwrite with hplain | hvectored
    · refine ⟨.timedOut "the peer stopped reading its response", ?_⟩
      rw [poll_write_pending hplain hinner hexpired, if_pos hdue]
    · -- A harmless one was not there to find the timer run out.
      rcases hharmless hvectored with ⟨e, herror⟩ | ⟨-, hrunning⟩
      · cases hinner.symm.trans herror
      · obtain ⟨timer, htimer, hlt⟩ := hrunning hinner
        rw [htimer, Option.getD_some] at hdue
        omega
  · exact fails_of_expired (Or.inr hwrite) hharmless hexpired

/-- The timer is armed, and runs out by then. -/
def Waits (g : Guarded) (limit : Nat) : Prop := ∃ timer, g.stalled = some timer ∧ timer ≤ limit

/-- A write that finds the stream inside pending leaves the timer armed, -/
theorem waits_of_pending (hwrite : call.isWrite) (hinner : call.inner = .pending)
    (hharmless : call.kind = .writeVectored → HarmlessVectored g call)
    (hexpired : g.expired call.now = none)
    (hbound : ∀ timer, g.stalled = some timer → timer ≤ call.now + g.stall) :
    Waits (g.poll call).2 (call.now + g.stall) := by
  rcases hwrite with hplain | hvectored
  · rw [poll_write_pending hplain hinner hexpired]
    refine ⟨_, rfl, ?_⟩
    cases hstalled : g.stalled with
    | none => exact le_rfl
    | some timer => exact hbound timer hstalled
  · rcases hharmless hvectored with ⟨e, herror⟩ | ⟨-, hrunning⟩
    · cases hinner.symm.trans herror
    · obtain ⟨timer, htimer, -⟩ := hrunning hinner
      refine ⟨timer, ?_, hbound timer htimer⟩
      rw [Guarded.poll, hvectored]
      exact htimer

/-- and it stays so until a write is answered. -/
theorem Waits.poll {limit : Nat} (h : Waits g limit)
    (hpending : call.isWrite → call.inner = .pending) : Waits (g.poll call).2 limit := by
  obtain ⟨timer, htimer, hle⟩ := h
  refine ⟨timer, ?_, hle⟩
  obtain ⟨kind, now, inner⟩ := call
  cases kind with
  | read =>
    show (g.pollRead now inner).2.stalled = _
    unfold Guarded.pollRead
    split
    · exact htimer
    · exact htimer
  | write =>
    obtain rfl : inner = .pending := hpending (Or.inl rfl)
    show (g.pollWrite now .pending).2.stalled = _
    unfold Guarded.pollWrite
    split
    · exact htimer
    · show some (g.stalled.getD _) = _
      rw [htimer, Option.getD_some]
  | writeVectored => exact htimer
  | flush => exact htimer
  | shutdown => exact htimer

/-- A timer was armed before the call or by it. -/
theorem poll_stalled {timer : Nat} (h : (g.poll call).2.stalled = some timer) :
    g.stalled = some timer ∨ timer = call.now + g.stall := by
  obtain ⟨kind, now, inner⟩ := call
  cases kind with
  | read =>
    change (g.pollRead now inner).2.stalled = some timer at h
    unfold Guarded.pollRead at h
    split at h
    · exact Or.inl h
    · exact Or.inl h
  | write =>
    change (g.pollWrite now inner).2.stalled = some timer at h
    unfold Guarded.pollWrite at h
    split at h
    · exact Or.inl h
    · split at h
      · cases h
      · have hget : g.stalled.getD (now + g.stall) = timer := Option.some.inj h
        cases hstalled : g.stalled with
        | none =>
          rw [hstalled] at hget
          exact Or.inr hget.symm
        | some timer' =>
          rw [hstalled] at hget
          exact Or.inl (congrArg some hget)
  | writeVectored => exact Or.inl h
  | flush => exact Or.inl h
  | shutdown => exact Or.inl h

/-! ## Runs -/

theorem after_settings :
    (g.after calls).deadline = g.deadline ∧ (g.after calls).stall = g.stall := by
  induction calls generalizing g with
  | nil => exact ⟨rfl, rfl⟩
  | cons call rest ih =>
    obtain ⟨hdeadline, hstall⟩ := @poll_settings g call
    obtain ⟨hdeadline', hstall'⟩ := ih (g := (g.poll call).2)
    exact ⟨hdeadline'.trans hdeadline, hstall'.trans hstall⟩

theorem after_append {calls' : List Call} :
    g.after (calls ++ calls') = (g.after calls).after calls' :=
  List.foldl_append

theorem covered_append {calls' : List Call} :
    Covered g (calls ++ calls') ↔ Covered g calls ∧ Covered (g.after calls) calls' := by
  induction calls generalizing g with
  | nil => simp [Covered, Guarded.after]
  | cons call rest ih =>
    rw [List.cons_append, Covered, Covered, ih, and_assoc]
    rfl

/-- Every timer that is armed was armed by one of the calls. -/
theorem after_stalled {timer : Nat} (hnone : g.stalled = none)
    (h : (g.after calls).stalled = some timer) : ∃ c ∈ calls, timer = c.now + g.stall := by
  induction calls using List.reverseRecOn with
  | nil => cases hnone.symm.trans h
  | append_singleton rest call ih =>
    rw [after_append] at h
    rcases poll_stalled h with h | h
    · obtain ⟨c, hc, htimer⟩ := ih h
      exact ⟨c, List.mem_append_left _ hc, htimer⟩
    · rw [after_settings.2] at h
      exact ⟨call, by simp, h⟩

theorem Waits.after {limit : Nat} (h : Waits g limit)
    (hpending : ∀ c ∈ calls, c.isWrite → c.inner = .pending) : Waits (g.after calls) limit := by
  induction calls generalizing g with
  | nil => exact h
  | cons call rest ih =>
    exact ih (h.poll (hpending call List.mem_cons_self))
      fun c hc => hpending c (List.mem_cons_of_mem _ hc)

theorem Clocked.le {before rest : List Call} {c : Call} (h : Clocked (before ++ call :: rest))
    (hc : c ∈ before) : c.now ≤ call.now :=
  (List.pairwise_append.mp h).2.2 c hc call List.mem_cons_self

/-- The timer of a stream never runs out later than a limit from now. -/
theorem Clocked.stalled_le (hnone : g.stalled = none) {before rest : List Call}
    (h : Clocked (before ++ call :: rest)) {timer : Nat}
    (htimer : (g.after before).stalled = some timer) : timer ≤ call.now + g.stall := by
  obtain ⟨c, hc, rfl⟩ := after_stalled hnone htimer
  have hle := h.le hc
  omega

theorem lifetime_covers (hcovered : Covered g calls) : LifetimeCovers g calls := by
  intro before call rest hcalls htransfers deadline hdeadline hpast
  subst hcalls
  have hcall := (covered_append.mp hcovered).2.1
  refine fails_of_expired htransfers hcall ?_
  intro hnone
  rw [expired_eq_none, after_settings.1] at hnone
  have hlt := hnone deadline hdeadline
  omega

theorem stall_covers (hnone : g.stalled = none) (hclocked : Clocked calls)
    (hcovered : Covered g calls) : StallCovers g calls := by
  intro before waiting call rest hcalls hwrite hinner hwaiting hfirst
  subst hcalls
  have hcall := (covered_append.mp hcovered).2.1
  obtain ⟨first, hfirst, hfirstWrite, hlong⟩ := hfirst
  by_cases hexpired : (g.after (before ++ waiting)).expired call.now = none
  swap
  · exact fails_of_expired (Or.inr hwrite) hcall hexpired
  refine fails_of_due hwrite hinner hcall ?_
  rcases List.mem_append.mp hfirst with hmem | hmem
  · -- The timer was armed at the latest by the first of the writes, and never taken away since.
    obtain ⟨early, late, rfl⟩ := List.append_of_mem hmem
    have hsplit : before ++ (early ++ first :: late) ++ call :: rest =
        (before ++ early) ++ first :: (late ++ call :: rest) := by simp
    rw [hsplit] at hclocked hcovered
    have hfirstCovered := (covered_append.mp hcovered).2.1
    have hle : first.now ≤ call.now :=
      (List.pairwise_cons.mp (List.pairwise_append.mp hclocked).2.1).1 call (by simp)
    have hstall : (g.after (before ++ early)).stall = g.stall := after_settings.2
    have hlive : (g.after (before ++ early)).expired first.now = none := by
      rw [expired_eq_none, after_settings.1] at hexpired ⊢
      intro deadline hdeadline
      exact lt_of_le_of_lt hle (hexpired deadline hdeadline)
    have harmed : Waits ((g.after (before ++ early)).poll first).2 (first.now + g.stall) := by
      rw [← hstall]
      have hpending := hwaiting first (by simp) hfirstWrite
      refine waits_of_pending hfirstWrite hpending hfirstCovered hlive ?_
      intro timer htimer
      rw [hstall]
      exact hclocked.stalled_le hnone htimer
    have hlate : ∀ c ∈ late, c.isWrite → c.inner = .pending := by
      intro c hc
      exact hwaiting c (by simp [hc])
    have hkept := harmed.after hlate
    have hafter : g.after (before ++ (early ++ first :: late)) =
        ((g.after (before ++ early)).poll first).2.after late := by
      rw [← List.append_assoc, after_append]
      rfl
    rw [hafter]
    obtain ⟨timer, htimer, htle⟩ := hkept
    rw [htimer, Option.getD_some]
    omega
  · -- The limit is no time at all.
    obtain rfl := List.mem_singleton.mp hmem
    rw [after_settings.2]
    cases hstalled : (g.after (before ++ waiting)).stalled with
    | none => simpa using hlong
    | some timer =>
      have hle := hclocked.stalled_le hnone hstalled
      rw [Option.getD_some]
      omega

/-- **The deadlines of a connection cover its reads and writes**, when each vectored write fails by
itself, or comes in the lifetime of the connection and moves bytes or finds the timer running. -/
theorem deadlines_cover (limits : Limits) (accepted : Nat) (hclocked : Clocked calls)
    (hcovered : Covered (.new limits accepted) calls) :
    LifetimeCovers (.new limits accepted) calls ∧ StallCovers (.new limits accepted) calls :=
  ⟨lifetime_covers hcovered, stall_covers rfl hclocked hcovered⟩

/-- A connection that may live for an hour. -/
def hourly : Limits := { connectionLifetime := some 3600 }

/-- A write that finds the peer not reading, a vectored one ten seconds later that does too, and two
more writes after the limit. -/
def stalling : List Call :=
  [⟨.write, 0, .pending⟩, ⟨.writeVectored, 10000, .pending⟩, ⟨.write, 30000, .pending⟩,
    ⟨.read, 3600000, .ready (.ok 5)⟩]

theorem deadlines_cover_stalling :
    Fails ((Guarded.new hourly 0).after [⟨.write, 0, .pending⟩, ⟨.writeVectored, 10000, .pending⟩])
      ⟨.write, 30000, .pending⟩ ∧
    Fails ((Guarded.new hourly 0).after [⟨.write, 0, .pending⟩, ⟨.writeVectored, 10000, .pending⟩,
      ⟨.write, 30000, .pending⟩]) ⟨.read, 3600000, .ready (.ok 5)⟩ := by
  have hclocked : Clocked stalling := by simp [Clocked, stalling]
  have hcovered : Covered (.new hourly 0) stalling := by
    refine ⟨nofun, fun _ => Or.inr ⟨rfl, fun _ => ⟨30000, rfl, by decide⟩⟩, nofun, nofun, trivial⟩
  obtain ⟨hlifetime, hstall⟩ := deadlines_cover hourly 0 hclocked hcovered
  constructor
  · refine hstall [] [_, _] _ _ rfl (Or.inl rfl) rfl (by simp) ?_
    exact ⟨_, List.mem_cons_self, Or.inl rfl, by decide⟩
  · exact hlifetime [_, _, _] _ [] rfl (Or.inl rfl) 3600000 rfl le_rfl

/-- A vectored write moves bytes past the lifetime of the connection, and one that is pending stays
so for as long as the peer likes. -/
theorem vectored_writes_escape :
    ¬LifetimeCovers (.new hourly 0) [⟨.writeVectored, 3600000, .ready (.ok 5)⟩] ∧
    ¬StallCovers (.new hourly 0)
      [⟨.writeVectored, 0, .pending⟩, ⟨.writeVectored, 30000, .pending⟩] := by
  constructor
  · intro h
    obtain ⟨e, he⟩ := h [] _ [] rfl (Or.inr (Or.inr rfl)) 3600000 rfl le_rfl
    cases he
  · intro h
    obtain ⟨e, he⟩ := h [] [⟨.writeVectored, 0, .pending⟩] _ [] rfl (Or.inr rfl) rfl (by simp)
      ⟨_, List.mem_cons_self, Or.inr rfl, by decide⟩
    cases he

end PicX.Transport
