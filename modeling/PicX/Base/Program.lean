import Mathlib.Init

/-!
# Programs over a world that can fail

A program acts on a world one named operation at a time. Before each operation the outside
decides how it turns out: it is done, it is refused (a write may have left some bytes behind), or
the process dies just before it. A `Program` is a function of these decisions and of the world,
so that a run with no faults, a run with one failing operation and a run cut by a crash are three
arguments of one definition.

* `WP` — the weakest precondition, with one postcondition for each way a program ends.
* `wp_bind`, `wp_perform`, `wp_attempt` — the rules for the combinators.
* `WP.bind` — chaining two specifications.
* `Keeps` — what holds before a program and after it, however it goes.
* `Asks` — the operations a program depends on; `Asks.wp` moves a specification between oracles.
* `Steady` — a success is the success of the run without a failure.
-/

namespace PicX

/-- How one operation on the world turns out. -/
inductive Outcome where
  | done
  /-- Refused, for a reason; a write has left its first `written` bytes. -/
  | failed (written : Nat) (reason : String)
  /-- The process dies just before the operation. -/
  | crashed
  deriving DecidableEq, Repr

/-- Some operation is refused. -/
def Refused {op : Type} (f : op → Outcome) : Prop := ∃ o n reason, f o = .failed n reason

/-- The process dies somewhere. -/
def Cut {op : Type} (f : op → Outcome) : Prop := ∃ o, f o = .crashed

/-- How a program ends, with the world it leaves. -/
inductive Ending (σ ε α : Type) where
  | ok (value : α) (world : σ)
  | error (error : ε) (world : σ)
  | crash (world : σ)
  deriving Repr

/-- Whether a program ended with a value. -/
def Ending.isOk {σ ε α : Type} : Ending σ ε α → Bool
  | .ok _ _ => true
  | _ => false

/-- The world a program leaves, however it ended. -/
def Ending.world {σ ε α : Type} : Ending σ ε α → σ
  | .ok _ w | .error _ w | .crash w => w

/-- A check of a run that ended with a value, and of the world it left. -/
theorem Ending.eq_ok_of {σ ε α : Type} {x : Ending σ ε α} {P : σ → Bool}
    (h : (x.isOk && P x.world) = true) : ∃ a w, x = .ok a w ∧ P w = true := by
  cases x with
  | ok a w => exact ⟨a, w, rfl, (Bool.and_eq_true_iff.mp h).2⟩
  | error e w => simp [Ending.isOk] at h
  | crash w => simp [Ending.isOk] at h

/-- A program: what it does depends on how each operation turns out, and on the world. -/
def Program (op σ ε α : Type) := (op → Outcome) → σ → Ending σ ε α

variable {op σ ε ε' α β : Type}

namespace Program

protected def pure (a : α) : Program op σ ε α := fun _ w => .ok a w

protected def bind (p : Program op σ ε α) (k : α → Program op σ ε β) : Program op σ ε β :=
  fun f w => match p f w with
    | .ok a w' => k a f w'
    | .error e w' => .error e w'
    | .crash w' => .crash w'

instance : Monad (Program op σ ε) where
  pure := Program.pure
  bind := Program.bind

theorem bind_of_ok {p : Program op σ ε α} {k : α → Program op σ ε β} {f : op → Outcome} {w w' : σ}
    {a : α} (h : p f w = .ok a w') : (p >>= k) f w = k a f w' := by
  show Program.bind p k f w = _
  unfold Program.bind
  rw [h]

/-- A sequence that came to its end did so step by step. -/
theorem bind_eq_ok {p : Program op σ ε α} {k : α → Program op σ ε β} {f : op → Outcome} {w w' : σ}
    {b : β} (h : (p >>= k) f w = .ok b w') : ∃ a w₁, p f w = .ok a w₁ ∧ k a f w₁ = .ok b w' := by
  cases hp : p f w with
  | ok a w₁ => exact ⟨a, w₁, rfl, (bind_of_ok hp).symm.trans h⟩
  | error e w₁ =>
    change Program.bind p k f w = _ at h
    simp [Program.bind, hp] at h
  | crash w₁ =>
    change Program.bind p k f w = _ at h
    simp [Program.bind, hp] at h

theorem bind_assoc {γ : Type} (p : Program op σ ε α) (k : α → Program op σ ε β)
    (l : β → Program op σ ε γ) : ((p >>= k) >>= l) = p >>= fun a => k a >>= l := by
  funext f w
  show Program.bind (Program.bind p k) l f w = Program.bind p (fun a => Program.bind (k a) l) f w
  unfold Program.bind
  cases p f w <;> rfl

/-- A loop that came to its end goes on with one more round. -/
theorem forM_snoc_ok {γ : Type} {l : List γ} {a : γ} {p : γ → Program op σ ε PUnit}
    {f : op → Outcome} {w w₁ w₂ : σ} (h : l.forM p f w = .ok () w₁) (ha : p a f w₁ = .ok () w₂) :
    (l ++ [a]).forM p f w = .ok () w₂ := by
  induction l generalizing w with
  | nil =>
    cases h
    show (p a >>= fun _ => pure ()) f _ = _
    rw [bind_of_ok ha]
    rfl
  | cons b rest ih =>
    obtain ⟨u, w', hb, hrest⟩ := bind_eq_ok h
    show (p b >>= fun _ => (rest ++ [a]).forM p) f w = _
    rw [bind_of_ok hb]
    exact ih hrest

theorem bind_unit (p : Program op σ ε Unit) : (p >>= fun _ => pure ()) = p := by
  funext f w
  show Program.bind p (fun _ => Program.pure ()) f w = p f w
  unfold Program.bind Program.pure
  cases p f w <;> rfl

/-- Give up with an error. -/
def throw (e : ε) : Program op σ ε α := fun _ w => .error e w

/-- A computation that touches nothing. -/
def ofExcept : Except ε α → Program op σ ε α
  | .ok a => Program.pure a
  | .error e => throw e

/-- Read the world. -/
def get : Program op σ ε σ := fun _ w => .ok w w

/-- Change the world without an operation that could fail: an assignment in memory. -/
def modify (g : σ → σ) : Program op σ ε Unit := fun _ w => .ok () (g w)

/-- One operation on the world: `act` when it is done, `refuse` when it is not. -/
def perform (o : op) (act : σ → Ending σ ε α) (refuse : Nat → String → σ → Ending σ ε α) :
    Program op σ ε α :=
  fun f w => match f o with
    | .done => act w
    | .failed n reason => refuse n reason w
    | .crashed => .crash w

/-- Run a program and keep its error as a value; a crash is not an error. -/
def attempt (p : Program op σ ε α) : Program op σ ε' (Except ε α) :=
  fun f w => match p f w with
    | .ok a w' => .ok (.ok a) w'
    | .error e w' => .ok (.error e) w'
    | .crash w' => .crash w'

/-- Say more about an error. -/
def mapError (g : ε → ε') (p : Program op σ ε α) : Program op σ ε' α :=
  fun f w => match p f w with
    | .ok a w' => .ok a w'
    | .error e w' => .error (g e) w'
    | .crash w' => .crash w'

/-! ## Weakest preconditions -/

/-- `p`, run under `f` from `w`, ends in `Q` with a value, in `E` with an error, or in `C` when
it crashes. -/
def WP (p : Program op σ ε α) (f : op → Outcome) (Q : α → σ → Prop) (E : ε → σ → Prop)
    (C : σ → Prop) (w : σ) : Prop :=
  match p f w with
  | .ok a w' => Q a w'
  | .error e w' => E e w'
  | .crash w' => C w'

variable {f : op → Outcome} {Q Q' : α → σ → Prop} {E E' : ε → σ → Prop} {C C' : σ → Prop} {w : σ}

theorem WP.mono {p : Program op σ ε α} (h : WP p f Q E C w) (hQ : ∀ a w', Q a w' → Q' a w')
    (hE : ∀ e w', E e w' → E' e w') (hC : ∀ w', C w' → C' w') : WP p f Q' E' C' w := by
  unfold WP at h ⊢
  split at h
  · exact hQ _ _ h
  · exact hE _ _ h
  · exact hC _ h

/-- Two specifications of one program hold together. -/
theorem WP.and {p : Program op σ ε α} (h : WP p f Q E C w) (h' : WP p f Q' E' C' w) :
    WP p f (fun a w' => Q a w' ∧ Q' a w') (fun e w' => E e w' ∧ E' e w')
      (fun w' => C w' ∧ C' w') w := by
  unfold WP at h h' ⊢
  cases hend : p f w <;> rw [hend] at h h' <;> exact ⟨h, h'⟩

/-- What a specification says of a program that ended with a value. -/
theorem WP.ok {p : Program op σ ε α} {a : α} {w' : σ} (h : WP p f Q E C w)
    (hok : p f w = .ok a w') :
    Q a w' := by
  unfold WP at h
  rwa [hok] at h

theorem WP.error {p : Program op σ ε α} {e : ε} {w' : σ} (h : WP p f Q E C w)
    (herror : p f w = .error e w') : E e w' := by
  unfold WP at h
  rwa [herror] at h

/-- A program that does nothing but end with a value. -/
theorem WP.exists_ok {p : Program op σ ε α} (h : WP p f Q (fun _ _ => False) (fun _ => False) w) :
    ∃ a w', p f w = .ok a w' ∧ Q a w' := by
  unfold WP at h
  cases hend : p f w with
  | ok a w' =>
    rw [hend] at h
    exact ⟨a, w', rfl, h⟩
  | error e w' =>
    rw [hend] at h
    exact h.elim
  | crash w' =>
    rw [hend] at h
    exact h.elim

/-- What holds however a program ends holds of the world it leaves. -/
theorem WP.world {p : Program op σ ε α} {I : σ → Prop} (h : WP p f (fun _ => I) (fun _ => I) I w) :
    I (p f w).world := by
  unfold WP at h
  cases hend : p f w <;> rw [hend] at h <;> exact h

theorem WP.of_world {p : Program op σ ε α} {I : σ → Prop} (h : I (p f w).world) :
    WP p f (fun _ => I) (fun _ => I) I w := by
  unfold WP
  cases hend : p f w <;> rw [hend] at h <;> exact h

@[simp] theorem wp_pure (a : α) : WP (pure a : Program op σ ε α) f Q E C w ↔ Q a w := Iff.rfl

@[simp] theorem wp_throw (e : ε) : WP (throw e : Program op σ ε α) f Q E C w ↔ E e w := Iff.rfl

/-- Take a computation that touches nothing apart by how it turned out. -/
theorem WP.ofExcept {x : Except ε α} (hok : ∀ a, x = .ok a → Q a w)
    (herror : ∀ e, x = .error e → E e w) : WP (ofExcept x) f Q E C w := by
  cases x with
  | ok a => exact hok a rfl
  | error e => exact herror e rfl

@[simp] theorem wp_get {Q : σ → σ → Prop} :
    WP (get : Program op σ ε σ) f Q E C w ↔ Q w w := Iff.rfl

@[simp] theorem wp_modify {Q : Unit → σ → Prop} (g : σ → σ) :
    WP (modify g : Program op σ ε Unit) f Q E C w ↔ Q () (g w) := Iff.rfl

@[simp] theorem wp_bind {R : β → σ → Prop} (p : Program op σ ε α) (k : α → Program op σ ε β) :
    WP (p >>= k) f R E C w ↔ WP p f (fun a w' => WP (k a) f R E C w') E C w := by
  show WP (Program.bind p k) f R E C w ↔ _
  unfold WP Program.bind
  cases p f w <;> rfl

/-- Run one program after another: what the first leaves is what the second starts from. -/
theorem WP.bind {R : β → σ → Prop} {p : Program op σ ε α} {k : α → Program op σ ε β}
    (h : WP p f Q E C w) (hk : ∀ a w', Q a w' → WP (k a) f R E C w') : WP (p >>= k) f R E C w :=
  (wp_bind p k).mpr (h.mono hk (fun _ _ he => he) (fun _ hc => hc))

@[simp] theorem wp_attempt {Q : Except ε α → σ → Prop} {E : ε' → σ → Prop}
    (p : Program op σ ε α) :
    WP (attempt p) f Q E C w ↔ WP p f (fun a => Q (.ok a)) (fun e => Q (.error e)) C w := by
  unfold WP attempt
  cases p f w <;> rfl

theorem wp_perform {o : op} {act : σ → Ending σ ε α} {refuse : Nat → String → σ → Ending σ ε α} :
    WP (perform o act refuse) f Q E C w ↔
      match f o with
      | .done => WP (fun _ w => act w : Program op σ ε α) f Q E C w
      | .failed n reason => WP (fun _ w => refuse n reason w : Program op σ ε α) f Q E C w
      | .crashed => C w := by
  unfold WP perform
  cases f o <;> rfl

/-- One operation, with what it costs when it is not done. -/
theorem WP.perform {o : op} {act : σ → Ending σ ε α} {refuse : Nat → String → σ → Ending σ ε α}
    (hdone : f o = .done → WP (fun _ w => act w : Program op σ ε α) f Q E C w)
    (hfailed : ∀ n reason, f o = .failed n reason →
      WP (fun _ w => refuse n reason w : Program op σ ε α) f Q E C w)
    (hcrashed : f o = .crashed → C w) : WP (perform o act refuse) f Q E C w := by
  rw [wp_perform]
  cases h : f o with
  | done => exact hdone h
  | failed n reason => exact hfailed n reason h
  | crashed => exact hcrashed h

/-! ## What a program keeps -/

/-- What holds before `p` holds after it, however its operations turn out and however it ends. -/
def Keeps (p : Program op σ ε α) (I : σ → Prop) : Prop :=
  ∀ f w, I w → WP p f (fun _ => I) (fun _ => I) I w

variable {I : σ → Prop}

theorem keeps_pure (a : α) : Keeps (pure a : Program op σ ε α) I := fun _ _ h => h

theorem keeps_throw (e : ε) : Keeps (throw e : Program op σ ε α) I := fun _ _ h => h

theorem keeps_get : Keeps (get : Program op σ ε σ) I := fun _ _ h => h

theorem Keeps.bind {p : Program op σ ε α} {k : α → Program op σ ε β} (hp : Keeps p I)
    (hk : ∀ a, Keeps (k a) I) : Keeps (p >>= k) I :=
  fun f w h => WP.bind (hp f w h) fun a w' h' => hk a f w' h'

theorem keeps_perform {o : op} {act : σ → Ending σ ε α} {refuse : Nat → String → σ → Ending σ ε α}
    (hact : ∀ w, I w → I (act w).world)
    (hrefuse : ∀ n reason w, I w → I (refuse n reason w).world) :
    Keeps (perform o act refuse) I := by
  intro f w h
  have hending : ∀ ending : Ending σ ε α, I ending.world →
      WP (fun _ _ => ending : Program op σ ε α) f (fun _ => I) (fun _ => I) I w := by
    intro ending h
    cases ending <;> exact h
  exact WP.perform (fun _ => hending _ (hact w h))
    (fun n reason _ => hending _ (hrefuse n reason w h))
    (fun _ => h)

theorem Keeps.mapError {p : Program op σ ε α} (g : ε → ε') (hp : Keeps p I) :
    Keeps (mapError g p) I := by
  intro f w h
  have := hp f w h
  unfold WP Program.mapError at *
  cases hend : p f w <;> rw [hend] at this <;> exact this

theorem Keeps.forM {γ : Type} {l : List γ} {p : γ → Program op σ ε PUnit}
    (h : ∀ a ∈ l, Keeps (p a) I) : Keeps (l.forM p) I := by
  induction l with
  | nil => exact keeps_pure _
  | cons a rest ih =>
    refine Keeps.bind (h a List.mem_cons_self) fun _ => ih fun b hb => ?_
    exact h b (List.mem_cons_of_mem a hb)

/-! ## The operations a program asks for -/

/-- What `p` does depends on how the operations in `S` turn out, and on no others. -/
def Asks (p : Program op σ ε α) (S : op → Prop) : Prop :=
  ∀ f g : op → Outcome, (∀ o, S o → f o = g o) → ∀ w, p f w = p g w

variable {S : op → Prop}

theorem asks_pure (a : α) : Asks (pure a : Program op σ ε α) S := fun _ _ _ _ => rfl

theorem asks_throw (e : ε) : Asks (throw e : Program op σ ε α) S := fun _ _ _ _ => rfl

theorem asks_get : Asks (get : Program op σ ε σ) S := fun _ _ _ _ => rfl

theorem asks_perform {o : op} (ho : S o) (act : σ → Ending σ ε α)
    (refuse : Nat → String → σ → Ending σ ε α) : Asks (perform o act refuse) S := by
  intro f g h w
  unfold perform
  rw [h o ho]

theorem Asks.bind {p : Program op σ ε α} {k : α → Program op σ ε β} (hp : Asks p S)
    (hk : ∀ a, Asks (k a) S) : Asks (p >>= k) S := by
  intro f g h w
  show Program.bind p k f w = Program.bind p k g w
  unfold Program.bind
  rw [hp f g h w]
  cases p g w with
  | ok a w' => exact hk a f g h w'
  | error e w' => rfl
  | crash w' => rfl

/-- A specification under one oracle holds under another that agrees on what is asked. -/
theorem Asks.wp {p : Program op σ ε α} (hp : Asks p S) {g : op → Outcome}
    (hfg : ∀ o, S o → f o = g o) (h : WP p g Q E C w) : WP p f Q E C w := by
  unfold WP at h ⊢
  rwa [hp f g hfg w]

/-! ## Runs without a failure -/

/-- `p` succeeds only when every operation it asks for is done. -/
def Steady (p : Program op σ ε α) : Prop :=
  ∀ f w a w', p f w = .ok a w' → p (fun _ => .done) w = .ok a w'

theorem steady_pure (a : α) : Steady (pure a : Program op σ ε α) := fun _ _ _ _ h => h

theorem steady_get : Steady (get : Program op σ ε σ) := fun _ _ _ _ h => h

theorem steady_perform {o : op} {act : σ → Ending σ ε α} {refuse : Nat → String → σ → ε}
    {left : Nat → String → σ → σ} :
    Steady (perform o act fun n reason w => .error (refuse n reason w) (left n reason w)) := by
  intro f w a w' h
  unfold perform at h ⊢
  cases hf : f o with
  | done =>
    rw [hf] at h
    exact h
  | failed n reason =>
    rw [hf] at h
    cases h
  | crashed =>
    rw [hf] at h
    cases h

theorem Steady.bind {p : Program op σ ε α} {k : α → Program op σ ε β} (hp : Steady p)
    (hk : ∀ a, Steady (k a)) : Steady (p >>= k) := by
  intro f w b w' h
  obtain ⟨a, w₁, hfirst, hrest⟩ := bind_eq_ok h
  rw [bind_of_ok (hp f w a w₁ hfirst)]
  exact hk a f w₁ b w' hrest

theorem Steady.mapError {p : Program op σ ε α} (hp : Steady p) (g : ε → ε') :
    Steady (mapError g p) := by
  intro f w a w' h
  unfold Program.mapError at h ⊢
  cases hend : p f w with
  | ok a' w'' =>
    rw [hend] at h
    cases h
    rw [hp f w a w' hend]
  | error e w'' =>
    rw [hend] at h
    cases h
  | crash w'' =>
    rw [hend] at h
    cases h

theorem Steady.forM {γ : Type} {l : List γ} {p : γ → Program op σ ε PUnit}
    (h : ∀ a ∈ l, Steady (p a)) : Steady (l.forM p) := by
  induction l with
  | nil => exact steady_pure _
  | cons a rest ih =>
    refine Steady.bind (h a List.mem_cons_self) fun _ => ih fun b hb => ?_
    exact h b (List.mem_cons_of_mem a hb)

end Program

end PicX
