import Mathlib.Data.List.Induction

/-!
# Hash chains

A chain is a list of items, each naming the digest of the item before it and carrying a number
one higher. `chainHead` is the digest a chain ends with.

* `chained_append_iff` — a chain splits anywhere.
* `eq_of_head_eq` — with an injective digest, the head and the length determine the whole chain.
-/

namespace PicX

section Chain

variable {α δ : Type*} (digest prev : α → δ) (seq : α → Nat)

/-- The items follow each other, from the digest `h` and the number `n` on. -/
def Chained : δ → Nat → List α → Prop
  | _, _, [] => True
  | h, n, a :: l => prev a = h ∧ seq a = n ∧ Chained (digest a) (n + 1) l

/-- The digest of the last item, `h` when there is none. -/
def chainHead : δ → List α → δ
  | h, [] => h
  | _, a :: l => chainHead (digest a) l

variable {digest prev seq}

theorem chainHead_append (h : δ) (l₁ l₂ : List α) :
    chainHead digest h (l₁ ++ l₂) = chainHead digest (chainHead digest h l₁) l₂ := by
  induction l₁ generalizing h with
  | nil => rfl
  | cons a l ih => exact ih (digest a)

@[simp] theorem chainHead_concat (h : δ) (l : List α) (a : α) :
    chainHead digest h (l ++ [a]) = digest a := by
  rw [chainHead_append]
  rfl

theorem chained_append_iff {h : δ} {n : Nat} {l₁ l₂ : List α} :
    Chained digest prev seq h n (l₁ ++ l₂) ↔
      Chained digest prev seq h n l₁ ∧
        Chained digest prev seq (chainHead digest h l₁) (n + l₁.length) l₂ := by
  induction l₁ generalizing h n with
  | nil => simp [Chained, chainHead]
  | cons a l ih =>
    simp only [List.cons_append, Chained, ih, chainHead, List.length_cons, and_assoc]
    rw [show n + 1 + l.length = n + (l.length + 1) by omega]

theorem chained_concat_iff {h : δ} {n : Nat} {l : List α} {a : α} :
    Chained digest prev seq h n (l ++ [a]) ↔
      Chained digest prev seq h n l ∧ prev a = chainHead digest h l ∧ seq a = n + l.length := by
  simp [chained_append_iff, Chained]

/-- The numbers of a chain increase, so none is carried twice. -/
theorem Chained.le_seq {h : δ} {n : Nat} {l : List α} (hc : Chained digest prev seq h n l) :
    ∀ a ∈ l, n ≤ seq a := by
  induction l generalizing h n with
  | nil => simp
  | cons b l ih =>
    obtain ⟨-, hseq, htail⟩ := hc
    intro a ha
    rcases List.mem_cons.mp ha with rfl | ha
    · exact Nat.le_of_eq hseq.symm
    · exact Nat.le_of_succ_le (ih htail a ha)

theorem Chained.nodup_seq {h : δ} {n : Nat} {l : List α} (hc : Chained digest prev seq h n l) :
    (l.map seq).Nodup := by
  induction l generalizing h n with
  | nil => simp
  | cons b l ih =>
    obtain ⟨-, hseq, htail⟩ := hc
    rw [List.map_cons, List.nodup_cons]
    refine ⟨fun hmem => ?_, ih htail⟩
    obtain ⟨a, ha, hab⟩ := List.mem_map.mp hmem
    have := htail.le_seq a ha
    omega

/-- Every item names the digest of the one before it. -/
theorem Chained.linked {h : δ} {n : Nat} {l : List α} (hl : Chained digest prev seq h n l) {i : Nat}
    {a b : α} (ha : l[i]? = some a) (hb : l[i + 1]? = some b) : prev b = digest a := by
  induction l generalizing h n i with
  | nil => simp at ha
  | cons x l ih =>
    obtain ⟨-, -, hrest⟩ := hl
    cases i with
    | zero =>
      obtain rfl : x = a := by simpa using ha
      cases l with
      | nil => simp at hb
      | cons y l =>
        obtain rfl : y = b := by simpa using hb
        exact hrest.1
    | succ i => exact ih hrest (by simpa using ha) (by simpa using hb)

/-- **The head and the length of a chain determine it**, wherever it starts. Working back from
the end, equal digests give equal items, and these name equal digests before them. -/
theorem eq_of_head_eq (hinj : Function.Injective digest) {h h' : δ} {n n' : Nat}
    {l l' : List α} (hl : Chained digest prev seq h n l) (hl' : Chained digest prev seq h' n' l')
    (hhead : chainHead digest h l = chainHead digest h' l') (hlen : l.length = l'.length) :
    l = l' := by
  induction l using List.reverseRecOn generalizing l' with
  | nil => exact (List.length_eq_zero_iff.mp hlen.symm).symm
  | append_singleton l a ih =>
    rcases List.eq_nil_or_concat l' with rfl | ⟨l', a', rfl⟩
    · simp at hlen
    · simp only [List.concat_eq_append] at *
      rw [chainHead_concat, chainHead_concat] at hhead
      obtain rfl := hinj hhead
      rw [chained_concat_iff] at hl hl'
      have hprev : chainHead digest h l = chainHead digest h' l' := hl.2.1.symm.trans hl'.2.1
      rw [ih hl.1 hl'.1 hprev (by simpa using hlen)]

end Chain

end PicX
