import PicX.Base.Trim

/-!
# Places in a file system

Where a path leads, in a file system without links: its components are followed one by one, from
the root or from the directory a process works in.

* `place`, `way` — the place of a path, and the places it goes through.
* `mem_way_join` — a path below a directory goes through what the directory goes through, and
  then stays below it unless it climbs.
-/

namespace PicX

/-- A place: the names from the root to it. -/
abbrev Place := List String

/-- Where one component of a path leads. -/
def Place.step (p : Place) (component : String) : Place :=
  if component = "" ∨ component = "." then p
  else if component = ".." then p.dropLast
  else p ++ [component]

/-- The places on the way along some components. -/
def walk (p : Place) : List String → List Place
  | [] => []
  | component :: rest => p.step component :: walk (p.step component) rest

def isAbsolute (path : String) : Bool := path.toList.head? = some '/'

/-- Where a path starts. -/
def start (cwd : Place) (path : String) : Place := if isAbsolute path then [] else cwd

/-- The place a path stands for. -/
def place (cwd : Place) (path : String) : Place :=
  (split '/' path).foldl Place.step (start cwd path)

/-- The places a path goes through, the last of them its own. -/
def way (cwd : Place) (path : String) : List Place := walk (start cwd path) (split '/' path)

/-! ## Walking -/

theorem walk_append (p : Place) (l l' : List String) :
    walk p (l ++ l') = walk p l ++ walk (l.foldl Place.step p) l' := by
  induction l generalizing p with
  | nil => rfl
  | cons component rest ih => simp only [List.cons_append, walk, ih, List.foldl_cons]

/-- A step that does not climb stays below. -/
theorem Place.step_below {p q : Place} {component : String} (h : p <+: q)
    (hclimb : component ≠ "..") : p <+: q.step component := by
  unfold Place.step
  split_ifs
  · exact h
  · exact h.trans (List.prefix_append q [component])

theorem walk_below {p q : Place} {l : List String} (h : p <+: q) (hclimb : ".." ∉ l) :
    ∀ r ∈ walk q l, p <+: r := by
  induction l generalizing q with
  | nil => simp [walk]
  | cons component rest ih =>
    rw [List.mem_cons, not_or] at hclimb
    have hstep := Place.step_below h (Ne.symm hclimb.1)
    intro r hr
    rcases List.mem_cons.mp hr with rfl | hr
    · exact hstep
    · exact ih hstep hclimb.2 r hr

theorem foldl_below {p q : Place} {l : List String} (h : p <+: q) (hclimb : ".." ∉ l) :
    p <+: l.foldl Place.step q := by
  induction l generalizing q with
  | nil => exact h
  | cons component rest ih =>
    rw [List.mem_cons, not_or] at hclimb
    exact ih (Place.step_below h (Ne.symm hclimb.1)) hclimb.2

theorem mem_walk_of_ne_nil (p : Place) {l : List String} (h : l ≠ []) :
    l.foldl Place.step p ∈ walk p l := by
  induction l generalizing p with
  | nil => exact absurd rfl h
  | cons component rest ih =>
    cases rest with
    | nil => exact List.mem_cons_self
    | cons next rest => exact List.mem_cons_of_mem _ (ih (p.step component) (by simp))

theorem place_mem_way (cwd : Place) (path : String) : place cwd path ∈ way cwd path := by
  refine mem_walk_of_ne_nil _ ?_
  simp [split]

/-! ## Joining -/

theorem start_join {cwd : Place} {directory name : String} (h : isAbsolute name = false) :
    start cwd (join directory name) = start cwd directory := by
  have hsame : directory ≠ "" → ∀ t, isAbsolute (directory ++ t) = isAbsolute directory := by
    intro hne t
    obtain ⟨c, rest, hdirectory⟩ := List.exists_cons_of_ne_nil
      (fun hnil => hne (String.toList_injective hnil) : directory.toList ≠ [])
    simp [isAbsolute, hdirectory]
  unfold start join
  cases hlast : directory.toList.getLast? with
  | none =>
    have hempty : directory = "" := String.toList_injective (List.getLast?_eq_none_iff.mp hlast)
    rw [h, hempty]
    rfl
  | some c =>
    have hne : directory ≠ "" := by
      rintro rfl
      simp at hlast
    split
    · rename_i heq
      cases heq
    · rw [hsame hne]
    · rw [String.append_assoc, hsame hne]

/-- The components of a joined path lead as those of the directory do, then on as the name. -/
theorem split_join (directory name : String) : ∃ l,
    split '/' (join directory name) = l ++ split '/' name ∧
    ∀ p, l.foldl Place.step p = (split '/' directory).foldl Place.step p ∧
      ∀ q ∈ walk p l, q ∈ walk p (split '/' directory) := by
  have hcut : ∀ s t, split '/' (s ++ "/" ++ t) = split '/' s ++ split '/' t :=
    fun s t => split_append_separator '/' s t
  have hempty : split '/' "" = [""] := rfl
  unfold join
  cases hlast : directory.toList.getLast? with
  | none =>
    have hnone : directory = "" := String.toList_injective (List.getLast?_eq_none_iff.mp hlast)
    refine ⟨[], rfl, fun p => ⟨?_, by simp [walk]⟩⟩
    rw [hnone, hempty]
    simp [Place.step]
  | some c =>
    split
    · rename_i heq
      cases heq
    · rename_i heq
      obtain rfl : c = '/' := Option.some.inj heq
      obtain ⟨l, hl⟩ := List.getLast?_eq_some_iff.mp hlast
      have hdirectory : directory = String.ofList l ++ "/" :=
        String.toList_injective (by simpa using hl)
      refine ⟨split '/' (String.ofList l), ?_, fun p => ?_⟩
      · rw [hdirectory, hcut]
      · have hsplit : split '/' directory = split '/' (String.ofList l) ++ [""] := by
          rw [hdirectory, ← String.append_empty (s := String.ofList l ++ "/"), hcut, hempty]
        rw [hsplit]
        refine ⟨by simp [Place.step], fun q hq => ?_⟩
        rw [walk_append]
        exact List.mem_append_left _ hq
    · exact ⟨split '/' directory, hcut directory name, fun p => ⟨rfl, fun _ hq => hq⟩⟩

/-- **A path below a directory** goes through what the directory goes through, and then stays
below it, unless it climbs. -/
theorem mem_way_join {cwd : Place} {directory name : String} (habsolute : isAbsolute name = false)
    (hclimb : ".." ∉ split '/' name) :
    ∀ q ∈ way cwd (join directory name), q ∈ way cwd directory ∨ place cwd directory <+: q := by
  obtain ⟨l, hsplit, hwalk⟩ := split_join directory name
  obtain ⟨hfold, hmem⟩ := hwalk (start cwd directory)
  intro q hq
  unfold way at hq
  rw [hsplit, walk_append, start_join habsolute] at hq
  rcases List.mem_append.mp hq with hfirst | hrest
  · exact Or.inl (hmem q hfirst)
  · refine Or.inr (walk_below ?_ hclimb q hrest)
    rw [hfold]
    exact List.prefix_rfl

theorem place_below_join {cwd : Place} {directory name : String}
    (habsolute : isAbsolute name = false) (hclimb : ".." ∉ split '/' name) :
    place cwd directory <+: place cwd (join directory name) := by
  obtain ⟨l, hsplit, hwalk⟩ := split_join directory name
  unfold place
  rw [hsplit, start_join habsolute, List.foldl_append, (hwalk _).1]
  exact foldl_below List.prefix_rfl hclimb

end PicX
