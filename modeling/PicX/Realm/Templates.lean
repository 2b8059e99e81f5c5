import PicX.Realm.Applicable

/-!
# Rendering is a substitution

A template is text with placeholders in it. Read once from the left it has one layout: what stands
before each placeholder, the names, and what is left, which may start a placeholder it never closes.

* `Layout.Reads`: a layout is that of a template.
* `exists_layout`: every template has one.
* `renderFrom_filled`: the rounds of the renderer follow it.
* `template_substituted`: **rendering puts the value of each name in its place, and fails exactly on
  a placeholder that is not closed or has no value**.
-/

namespace PicX.Realm

open PicX ExchangeError

/-! ## The layout of a template -/

/-- The text starts a placeholder somewhere. -/
def HasPlaceholder (s : String) : Prop := ['$', '\x7b'] <:+: s.toList

/-- What stands before each placeholder with its name, what is left after the last, and what follows
a placeholder that is never closed. -/
structure Layout where
  filled : List (String × String)
  rest : String
  opened : Option String

/-- A template as it is written. -/
def written : List (String × String) → String → String
  | [], rest => rest
  | (before, name) :: filled, rest => before ++ "$\x7b" ++ name ++ "\x7d" ++ written filled rest

/-- A template with a value in the place of each name. -/
def substituted (value : String → String) : List (String × String) → String → String
  | [], rest => rest
  | (before, name) :: filled, rest => before ++ value name ++ substituted value filled rest

def Layout.tail (layout : Layout) : String :=
  match layout.opened with
  | none => layout.rest
  | some name => layout.rest ++ "$\x7b" ++ name

/-- A layout is that of a template: what is text opens no placeholder, and no name is closed before
its end. -/
structure Layout.Reads (layout : Layout) (template : String) : Prop where
  text : written layout.filled layout.tail = template
  before : ∀ p ∈ layout.filled, ¬HasPlaceholder p.1
  names : ∀ p ∈ layout.filled, '\x7d' ∉ p.2.toList
  rest : ¬HasPlaceholder layout.rest
  opened : ∀ name ∈ layout.opened, '\x7d' ∉ name.toList

/-- The value of a name. -/
def valueOf (raw : String) (captures : String → Option String) (name : String) : String :=
  if name = "raw" then raw else (captures name).getD ""

/-! ## One search -/

theorem findPlaceholder_none {l : List Char} :
    findPlaceholder l = none ↔ ¬['$', '\x7b'] <:+: l := by
  fun_induction findPlaceholder l with
  | case1 => simp
  | case2 after =>
    constructor
    · intro h
      cases h
    · intro h
      exact absurd ⟨[], after, rfl⟩ h
  | case3 ch rest hne ih =>
    rw [Option.map_eq_none_iff, ih, List.infix_cons_iff, not_or]
    refine ⟨fun h => ⟨?_, h⟩, fun h => h.2⟩
    intro ⟨after, hafter⟩
    injection hafter with hch hrest
    exact hne after hch.symm hrest.symm

/-- The search stops at the first placeholder. -/
theorem findPlaceholder_append {before : List Char} (h : ¬['$', '\x7b'] <:+: before)
    (after : List Char) :
    findPlaceholder (before ++ '$' :: '\x7b' :: after) = some (before, after) := by
  induction before with
  | nil => rfl
  | cons ch before ih =>
    rw [List.infix_cons_iff, not_or] at h
    have hne : ∀ tail, ch = '$' →
        ¬before ++ '$' :: '\x7b' :: after = '\x7b' :: tail := by
      intro tail hch heq
      cases before with
      | nil => exact absurd (List.cons.inj heq).1 (by decide)
      | cons ch' before =>
        obtain ⟨rfl, -⟩ := List.cons.inj heq
        exact h.1 ⟨before, by rw [hch]; rfl⟩
    rw [List.cons_append, findPlaceholder.eq_3 ch _ hne, ih h.2]
    rfl

theorem findPlaceholder_some {l before after : List Char}
    (h : findPlaceholder l = some (before, after)) :
    l = before ++ '$' :: '\x7b' :: after ∧ ¬['$', '\x7b'] <:+: before := by
  fun_induction findPlaceholder l generalizing before after with
  | case1 => cases h
  | case2 rest =>
    cases h
    exact ⟨rfl, by simp⟩
  | case3 ch rest hne ih =>
    obtain ⟨⟨before', after'⟩, hfind, heq⟩ := Option.map_eq_some_iff.mp h
    cases heq
    obtain ⟨hrest, hbefore⟩ := ih hfind
    refine ⟨by rw [hrest]; rfl, ?_⟩
    rw [List.infix_cons_iff, not_or]
    refine ⟨?_, hbefore⟩
    intro ⟨tail, htail⟩
    injection htail with hch hcons
    -- What follows a dollar sign here goes on with the text that was searched.
    cases before' with
    | nil => cases hcons
    | cons ch' before' =>
      obtain ⟨rfl, -⟩ := List.cons.inj hcons
      exact hne _ hch.symm hrest

/-! ## The rounds -/

variable {template raw : String} {captures : String → Option String} {fuel : Nat}

/-- One round takes what stands before a placeholder, and its value. -/
theorem renderFrom_round {before name : String} (hbefore : ¬HasPlaceholder before)
    (hname : '\x7d' ∉ name.toList) (rest : String) :
    renderFrom template raw captures (fuel + 1)
      (before ++ "$\x7b" ++ name ++ "\x7d" ++ rest).toList =
      ((if name = "raw" then .ok raw else okOr (captures name) (missingCapture template name)) >>=
        fun value => renderFrom template raw captures fuel rest.toList >>=
          fun rendered => .ok (before.toList ++ value.toList ++ rendered)) := by
  have hfind : findPlaceholder (before ++ "$\x7b" ++ name ++ "\x7d" ++ rest).toList =
      some (before.toList, (name ++ "\x7d" ++ rest).toList) := by
    rw [← findPlaceholder_append hbefore]
    congr 1
    simp [String.toList_append]
  have hsplit : splitOnce '\x7d' (String.ofList (name ++ "\x7d" ++ rest).toList) =
      some (name, rest) := by
    rw [String.ofList_toList]
    exact splitOnce_append hname rest rfl
  exact renderFrom_placeholder hfind hsplit

theorem renderFrom_rest {rest : String} (h : ¬HasPlaceholder rest) :
    renderFrom template raw captures (fuel + 1) rest.toList = .ok rest.toList := by
  rw [renderFrom, findPlaceholder_none.mpr h]
  rfl

theorem renderFrom_opened {rest name : String} (hrest : ¬HasPlaceholder rest)
    (hname : '\x7d' ∉ name.toList) :
    renderFrom template raw captures (fuel + 1) (rest ++ "$\x7b" ++ name).toList =
      .error (unterminated template) := by
  have hfind : findPlaceholder (rest ++ "$\x7b" ++ name).toList =
      some (rest.toList, name.toList) := by
    rw [← findPlaceholder_append hrest]
    congr 1
    simp [String.toList_append]
  rw [renderFrom, hfind]
  dsimp only
  rw [String.ofList_toList, splitOnce_eq_none hname]
  rfl

/-- A placeholder without a value. -/
def Unvalued (captures : String → Option String) (p : String × String) : Prop :=
  p.2 ≠ "raw" ∧ captures p.2 = none

theorem value_of_not_unvalued {p : String × String} (h : ¬Unvalued captures p) :
    (if p.2 = "raw" then .ok raw else okOr (captures p.2) (missingCapture template p.2)) =
      .ok (valueOf raw captures p.2) := by
  rw [valueOf]
  split_ifs with hraw
  · rfl
  · cases hcapture : captures p.2 with
    | none => exact absurd ⟨hraw, hcapture⟩ h
    | some value => rfl

/-- A template whose placeholders have values renders as the rest of it does, -/
theorem renderFrom_filled {filled : List (String × String)} {tail rendered : String}
    (hbefore : ∀ p ∈ filled, ¬HasPlaceholder p.1) (hnames : ∀ p ∈ filled, '\x7d' ∉ p.2.toList)
    (hvalues : ∀ p ∈ filled, ¬Unvalued captures p) (hfuel : filled.length < fuel)
    (htail : ∀ fuel, renderFrom template raw captures (fuel + 1) tail.toList =
      .ok rendered.toList) :
    renderFrom template raw captures fuel (written filled tail).toList =
      .ok (substituted (valueOf raw captures) filled rendered).toList := by
  induction filled generalizing fuel with
  | nil =>
    obtain ⟨fuel, rfl⟩ := Nat.exists_eq_add_one.mpr hfuel
    exact htail fuel
  | cons p filled ih =>
    obtain ⟨before, name⟩ := p
    obtain ⟨fuel, rfl⟩ := Nat.exists_eq_add_one.mpr (Nat.zero_lt_of_lt hfuel)
    have hrest := ih (fun q hq => hbefore q (List.mem_cons_of_mem _ hq))
      (fun q hq => hnames q (List.mem_cons_of_mem _ hq))
      (fun q hq => hvalues q (List.mem_cons_of_mem _ hq)) (Nat.lt_of_succ_lt_succ hfuel)
    rw [written, renderFrom_round (hbefore _ List.mem_cons_self) (hnames _ List.mem_cons_self),
      value_of_not_unvalued (p := (before, name)) (hvalues _ List.mem_cons_self), substituted]
    refine bind_ok.mpr ⟨_, rfl, bind_ok.mpr ⟨_, hrest, ?_⟩⟩
    simp [String.toList_append]

/-- and fails on the first that has none, or with the rest of it. -/
theorem renderFrom_unfilled {filled : List (String × String)} {tail : String}
    (hbefore : ∀ p ∈ filled, ¬HasPlaceholder p.1) (hnames : ∀ p ∈ filled, '\x7d' ∉ p.2.toList)
    (hfuel : filled.length < fuel)
    (hfault : (∃ p ∈ filled, Unvalued captures p) ∨
      ∀ fuel, ∃ e, renderFrom template raw captures (fuel + 1) tail.toList = .error e) :
    ∃ e, renderFrom template raw captures fuel (written filled tail).toList = .error e := by
  induction filled generalizing fuel with
  | nil =>
    obtain ⟨fuel, rfl⟩ := Nat.exists_eq_add_one.mpr hfuel
    rcases hfault with ⟨p, hp, -⟩ | htail
    · cases hp
    · exact htail fuel
  | cons p filled ih =>
    obtain ⟨before, name⟩ := p
    obtain ⟨fuel, rfl⟩ := Nat.exists_eq_add_one.mpr (Nat.zero_lt_of_lt hfuel)
    rw [written, renderFrom_round (hbefore _ List.mem_cons_self) (hnames _ List.mem_cons_self)]
    by_cases hvalue : Unvalued captures (before, name)
    · refine ⟨missingCapture template name, bind_error.mpr (Or.inl ?_)⟩
      rw [if_neg hvalue.1]
      exact okOr_error.mpr ⟨hvalue.2, rfl⟩
    · rw [value_of_not_unvalued (p := (before, name)) hvalue]
      have hfault' : (∃ p ∈ filled, Unvalued captures p) ∨
          ∀ fuel, ∃ e, renderFrom template raw captures (fuel + 1) tail.toList = .error e := by
        refine hfault.imp_left ?_
        intro ⟨q, hq, hunvalued⟩
        rcases List.mem_cons.mp hq with rfl | hq
        · exact absurd hunvalued hvalue
        · exact ⟨q, hq, hunvalued⟩
      obtain ⟨e, he⟩ := ih (fun q hq => hbefore q (List.mem_cons_of_mem _ hq))
        (fun q hq => hnames q (List.mem_cons_of_mem _ hq)) (Nat.lt_of_succ_lt_succ hfuel) hfault'
      exact ⟨e, bind_error.mpr (Or.inr ⟨_, rfl, bind_error.mpr (Or.inl he)⟩)⟩

/-! ## The whole template -/

theorem filled_length_le (filled : List (String × String)) (tail : String) :
    filled.length ≤ (written filled tail).toList.length := by
  induction filled with
  | nil => exact Nat.zero_le _
  | cons p filled ih =>
    simp only [written, String.toList_append, List.length_append, List.length_cons]
    have hclose : "\x7d".toList.length = 1 := rfl
    omega

theorem exists_layout (template : String) : ∃ layout : Layout, layout.Reads template := by
  induction hlength : template.toList.length using Nat.strong_induction_on
    generalizing template with
  | _ n ih =>
    cases hfind : findPlaceholder template.toList with
    | none =>
      refine ⟨⟨[], template, none⟩, rfl, by simp, by simp, ?_, by simp⟩
      exact findPlaceholder_none.mp hfind
    | some found =>
      obtain ⟨before, after⟩ := found
      obtain ⟨htext, hbefore⟩ := findPlaceholder_some hfind
      have hopens : ¬HasPlaceholder (String.ofList before) := by
        rwa [HasPlaceholder, String.toList_ofList]
      by_cases hclosed : '\x7d' ∈ after
      · -- The name ends at the first closing brace, and the rest has a layout of its own.
        obtain ⟨name, rest, rfl, hname⟩ := List.eq_append_cons_of_mem hclosed
        have hshort : (String.ofList rest).toList.length < n := by
          rw [← hlength, htext]
          simp only [String.toList_ofList, List.length_append, List.length_cons]
          omega
        obtain ⟨layout, hlayout⟩ := ih _ hshort (String.ofList rest) rfl
        refine ⟨{ layout with
          filled := (String.ofList before, String.ofList name) :: layout.filled }, ?_, ?_, ?_,
          hlayout.rest, hlayout.opened⟩
        · apply String.toList_injective
          have hrest := congrArg String.toList hlayout.text
          rw [String.toList_ofList] at hrest
          show (written (_ :: layout.filled) layout.tail).toList = template.toList
          simp [written, String.toList_append, hrest, htext]
        · intro p hp
          rcases List.mem_cons.mp hp with rfl | hp
          · exact hopens
          · exact hlayout.before p hp
        · intro p hp
          rcases List.mem_cons.mp hp with rfl | hp
          · rwa [String.toList_ofList]
          · exact hlayout.names p hp
      · refine ⟨⟨[], String.ofList before, some (String.ofList after)⟩, ?_, by simp, by simp,
          hopens, ?_⟩
        · apply String.toList_injective
          simp [written, Layout.tail, String.toList_append, htext]
        · intro name hname
          obtain rfl := Option.some.inj hname
          rwa [String.toList_ofList]

/-- **Rendering is a substitution in one pass.** Every template has a layout; rendering it fails
exactly when its last placeholder is not closed or one of them has no value, and otherwise returns
it with the value of each name in its place, whatever stands in a value. -/
theorem template_substituted (template raw : String) (captures : String → Option String) :
    (∃ layout : Layout, layout.Reads template) ∧
    ∀ layout : Layout, layout.Reads template →
      ((∃ e, renderTemplate template raw captures = .error e) ↔
        layout.opened ≠ none ∨ ∃ p ∈ layout.filled, p.2 ≠ "raw" ∧ captures p.2 = none) ∧
      ∀ rendered, renderTemplate template raw captures = .ok rendered →
        rendered = substituted (valueOf raw captures) layout.filled layout.rest := by
  refine ⟨exists_layout template, ?_⟩
  intro layout h
  have hfuel : layout.filled.length < template.toList.length + 1 := by
    rw [← h.text]
    exact Nat.lt_succ_of_le (filled_length_le layout.filled layout.tail)
  by_cases hfault : layout.opened ≠ none ∨ ∃ p ∈ layout.filled, Unvalued captures p
  · have herror : ∃ e, renderTemplate template raw captures = .error e := by
      have hfault' : (∃ p ∈ layout.filled, Unvalued captures p) ∨ ∀ fuel, ∃ e,
          renderFrom template raw captures (fuel + 1) layout.tail.toList = .error e := by
        refine hfault.symm.imp_right ?_
        intro hopened fuel
        obtain ⟨name, hname⟩ := Option.ne_none_iff_exists'.mp hopened
        refine ⟨unterminated template, ?_⟩
        rw [Layout.tail, hname]
        exact renderFrom_opened h.rest (h.opened name hname)
      obtain ⟨e, he⟩ := renderFrom_unfilled h.before h.names hfuel hfault'
      rw [h.text] at he
      exact ⟨e, bind_error.mpr (Or.inl he)⟩
    refine ⟨iff_of_true herror hfault, ?_⟩
    intro rendered hok
    obtain ⟨e, he⟩ := herror
    cases he.symm.trans hok
  · rw [not_or, not_not] at hfault
    obtain ⟨hclosed, hvalues⟩ := hfault
    have htail : layout.tail = layout.rest := by rw [Layout.tail, hclosed]
    have hrest : ∀ fuel, renderFrom template raw captures (fuel + 1) layout.tail.toList =
        .ok layout.rest.toList := by
      intro fuel
      rw [htail]
      exact renderFrom_rest h.rest
    have hrendered := renderFrom_filled h.before h.names
      (fun p hp hunvalued => hvalues ⟨p, hp, hunvalued⟩) hfuel hrest
    rw [h.text] at hrendered
    have hok : renderTemplate template raw captures =
        .ok (substituted (valueOf raw captures) layout.filled layout.rest) := by
      rw [renderTemplate, hrendered]
      simp [bind, Except.bind, pure, Except.pure]
    rw [hok]
    refine ⟨iff_of_false (by simp) (not_or.mpr ⟨not_not.mpr hclosed, hvalues⟩), ?_⟩
    intro rendered hrendered'
    exact (Except.ok.inj hrendered').symm

/-- A value that looks like a placeholder is not filled in again. -/
example : renderTemplate "$\x7braw\x7d/$\x7bx\x7d" "s" (fun _ => some "$\x7braw\x7d") =
    .ok "s/$\x7braw\x7d" := by
  rfl

end PicX.Realm
