import PicX.Base.Trim
import PicX.Realm.Por

/-!
# The grammar of a presentation

A Profile 0.2 presentation is `<jws>~<disclosure>~...~`, with nothing empty in it. The reader cuts
the text at every `~` and drops the segments with nothing in them, the terminator among them.

* `splitPresentation_iff`: what the reader returns, in terms of the pieces.
* `presentation_grammar_iff`: **a text is read as the grammar says exactly when no segment between
  two `~` is dropped**.
-/

namespace PicX.Realm

open PicX

/-- `<jws>~<disclosure>~...~`: the parts are not empty and have no `~`, and there are not too many
of them. -/
structure IsPresentation (s jws : String) (disclosures : List String) : Prop where
  text : s = joinWith "~" (jws :: (disclosures ++ [""]))
  signed : jws ≠ "" ∧ '~' ∉ jws.toList
  disclosed : ∀ d ∈ disclosures, d ≠ "" ∧ '~' ∉ d.toList
  count : disclosures.length ≤ MAX_DISCLOSURES

variable {s jws : String} {disclosures middle : List String}

theorem ends_iff : s.toList.getLast? = some '~' ↔
    ∃ jws middle, split '~' s = jws :: (middle ++ [""]) := by
  constructor
  · intro h
    obtain ⟨u, hu⟩ := List.getLast?_eq_some_iff.mp h
    have hs : s = String.ofList u ++ String.singleton '~' ++ "" := by
      apply String.toList_injective
      simp [hu]
    obtain ⟨jws, middle, hsplit⟩ := List.exists_cons_of_ne_nil (split_ne_nil '~' (String.ofList u))
    refine ⟨jws, middle, ?_⟩
    rw [hs, split_append_separator, hsplit, split_of_notMem (by simp)]
    rfl
  · intro ⟨jws, middle, h⟩
    have hlast : split '~' (joinWith (String.singleton '~') (jws :: middle) ++
        String.singleton '~' ++ "") = jws :: (middle ++ [""]) := by
      have hpieces := (split_eq_iff.mp h).2
      rw [split_append_separator, split_of_notMem (s := "") (by simp), split_eq_iff.mpr ⟨rfl, ?_⟩]
      · rfl
      · intro piece hpiece
        refine hpieces piece ?_
        rcases List.mem_cons.mp hpiece with rfl | hpiece
        · exact List.mem_cons_self
        · exact List.mem_cons_of_mem _ (List.mem_append_left _ hpiece)
    rw [(split_eq_iff.mp h).1, ← (split_eq_iff.mp hlast).1]
    simp

/-- What the reader returns: the first piece, and those between the first and the last that are not
empty. -/
theorem splitPresentation_iff : splitPresentation s = .ok (jws, disclosures) ↔
    ∃ middle, split '~' s = jws :: (middle ++ [""]) ∧ jws ≠ "" ∧
      disclosures = middle.filter (fun d => !d.isEmpty) ∧ disclosures.length ≤ MAX_DISCLOSURES := by
  simp only [splitPresentation, bind_ok, ensure_ok, okOr_ok, pure_ok, ends_iff]
  constructor
  · intro ⟨_, ⟨jws', middle, hsplit⟩, jws'', hhead, _, hcount, heq⟩
    rw [hsplit, List.tail_cons, List.filter_append] at hcount heq
    rw [hsplit, List.head?_cons, Option.filter_eq_some_iff] at hhead
    obtain ⟨hhead, hne⟩ := hhead
    cases heq
    cases hhead
    refine ⟨middle, hsplit, by simpa using hne, by simp, hcount⟩
  · intro ⟨middle, hsplit, hne, hdisclosures, hcount⟩
    have hfilter : (middle ++ [""]).filter (fun d => !d.isEmpty) = disclosures := by
      rw [hdisclosures, List.filter_append]
      simp
    refine ⟨(), ⟨jws, middle, hsplit⟩, jws, ?_, (), ?_, ?_⟩
    · rw [hsplit, List.head?_cons, Option.filter_some, if_pos (by simpa using hne)]
    · rw [hsplit, List.tail_cons, hfilter]
      exact hcount
    · rw [hsplit, List.tail_cons, hfilter]

/-- The presentations of the grammar are those between whose pieces nothing is dropped. -/
theorem isPresentation_iff : IsPresentation s jws disclosures ↔
    split '~' s = jws :: (disclosures ++ [""]) ∧ jws ≠ "" ∧ "" ∉ disclosures ∧
      disclosures.length ≤ MAX_DISCLOSURES := by
  rw [split_eq_iff]
  constructor
  · intro h
    refine ⟨⟨h.text, ?_⟩, h.signed.1, fun hmem => (h.disclosed "" hmem).1 rfl, h.count⟩
    intro piece hpiece
    rcases List.mem_cons.mp hpiece with rfl | hpiece
    · exact h.signed.2
    rcases List.mem_append.mp hpiece with hpiece | hpiece
    · exact (h.disclosed piece hpiece).2
    · rw [List.mem_singleton.mp hpiece]
      simp
  · intro ⟨⟨htext, hpieces⟩, hne, hempty, hcount⟩
    refine ⟨htext, ⟨hne, hpieces jws List.mem_cons_self⟩, fun d hd => ⟨?_, ?_⟩, hcount⟩
    · intro heq
      exact hempty (heq ▸ hd)
    · exact hpieces d (List.mem_cons_of_mem _ (List.mem_append_left _ hd))

/-- A segment with nothing in it stands between two `~` of a text that is otherwise as it should be:
it ends with `~`, its first part is not empty, and not too many of the others are not. -/
def Skips (s : String) : Prop :=
  ∃ jws middle, split '~' s = jws :: (middle ++ [""]) ∧ jws ≠ "" ∧ "" ∈ middle ∧
    (middle.filter fun d => !d.isEmpty).length ≤ MAX_DISCLOSURES

theorem filter_nonempty_eq_self (h : "" ∉ middle) :
    middle.filter (fun d => !d.isEmpty) = middle := by
  rw [List.filter_eq_self]
  intro d hd
  simpa using fun heq : d = "" => h (heq ▸ hd)

/-- **A text is read as the grammar says exactly when nothing is skipped in it.** -/
theorem presentation_grammar_iff (s : String) :
    (∀ jws disclosures, splitPresentation s = .ok (jws, disclosures) ↔
      IsPresentation s jws disclosures) ↔ ¬Skips s := by
  constructor
  · intro h ⟨jws, middle, hsplit, hne, hempty, hcount⟩
    have hread := splitPresentation_iff.mpr ⟨middle, hsplit, hne, rfl, hcount⟩
    obtain ⟨hsplit', -, -, -⟩ := isPresentation_iff.mp ((h _ _).mp hread)
    -- the pieces of the text would be those of a text without the empty one
    rw [hsplit] at hsplit'
    have heq := List.append_cancel_right (List.cons.inj hsplit').2
    rw [heq] at hempty
    simp at hempty
  · intro hskips jws disclosures
    rw [splitPresentation_iff, isPresentation_iff]
    constructor
    · intro ⟨middle, hsplit, hne, hdisclosures, hcount⟩
      have hempty : "" ∉ middle := fun hmem =>
        hskips ⟨jws, middle, hsplit, hne, hmem, hdisclosures ▸ hcount⟩
      rw [filter_nonempty_eq_self hempty] at hdisclosures
      subst hdisclosures
      exact ⟨hsplit, hne, hempty, hcount⟩
    · intro ⟨hsplit, hne, hempty, hcount⟩
      exact ⟨disclosures, hsplit, hne, (filter_nonempty_eq_self hempty).symm, hcount⟩

theorem doubled_terminator_accepted :
    splitPresentation "a~~" = .ok ("a", []) ∧ splitPresentation "a~" = .ok ("a", []) ∧
      ¬IsPresentation "a~~" "a" [] := by
  refine ⟨by decide +kernel, by decide +kernel, ?_⟩
  intro h
  exact absurd h.text (by decide)

end PicX.Realm
