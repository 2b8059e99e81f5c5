import Mathlib.Algebra.Order.Ring.Rat
import Mathlib.Data.List.AList
import Mathlib.Data.List.Induction
import Mathlib.Data.List.Lex
import Mathlib.Data.List.Sort
import Mathlib.Data.Multiset.Count
import Mathlib.Data.Prod.Lex
import Mathlib.Data.String.Basic
import PicX.Metrics.Core

/-!
# The registry (`pic-x-std/src/metrics.rs`)

The numbers a process records about itself, held in memory by their series until something asks for
a snapshot. A recorded number is exact here: a finite `f64` is a rational. Counts are natural
numbers, which no process lives to exhaust a `u64` of.

* `Registry.record`, `Registry.snapshot` — the two operations.
* `admitted` — the series a history of observations leaves, and `heldOf` — what each holds.
* `Holds` — the registry after a history, kept by every call (`Holds.record`).
-/

namespace PicX.Metrics

/-- How many distinct series a registry holds before it stops taking new ones. -/
def SERIES_CEILING : Nat := 10000

/-- An `f64`: an exact number, or none. -/
inductive Number where
  | finite (value : ℚ)
  | notFinite
  deriving DecidableEq, Repr

/-- One series: a metric, narrowed by a particular set of label values. -/
structure Series where
  name : String
  labels : List Label
  deriving DecidableEq, Repr

/-- What a series holds. -/
inductive Held where
  /-- A counter or a gauge. -/
  | value (current : ℚ)
  /-- A histogram: one count per boundary, plus the totals. -/
  | distribution (counts : List Nat) (count : Nat) (sum : ℚ)
  deriving DecidableEq, Repr

/-- The numbers this process has recorded about itself. -/
structure Registry where
  series : AList (fun _ : Series => Metric ℚ × Held)
  /-- Whether the ceiling has already been reported. -/
  overflowed : Bool

def Registry.new : Registry := { series := ∅, overflowed := false }

/-- Sorts labels, so the same pair given in either order is the same series rather than two. -/
def keyed (labels : List Label) : List Label :=
  labels.insertionSort fun a b => toLex a ≤ toLex b

/-- The zero a series starts from. -/
def empty (metric : Metric ℚ) : Held :=
  match metric.kind with
  | .counter | .gauge => .value 0
  | .histogram => .distribution (List.replicate metric.buckets.length 0) 0 0

/-- One more in the slot of every boundary the value is at or below. -/
def observe (value : ℚ) : List ℚ → List Nat → List Nat
  | boundary :: boundaries, slot :: slots =>
    (if value ≤ boundary then slot + 1 else slot) :: observe value boundaries slots
  | _, slots => slots

/-- Combines a value with what is already there, as the kind of the metric says to. -/
def apply (metric : Metric ℚ) (held : Held) (value : ℚ) : Held :=
  match metric.kind, held with
  | .counter, .value current => .value (if 0 ≤ value then current + value else current)
  | .gauge, .value _ => .value value
  | .histogram, .distribution counts count sum =>
    .distribution (observe value metric.buckets counts) (count + 1) (sum + value)
  | _, held => held

/-- What is held becomes what a publisher reads. -/
def read (metric : Metric ℚ) : Held → Reading ℚ
  | .value value => .value value
  | .distribution counts count sum => .distribution (metric.buckets.zip counts) count sum

def Registry.record (r : Registry) (metric : Metric ℚ) (labels : List Label) : Number → Registry
  | .notFinite => r
  | .finite value =>
    let key : Series := { name := metric.name, labels := keyed labels }
    match r.series.lookup key with
    | some (first, existing) =>
      { r with series := r.series.insert key (first, apply metric existing value) }
    | none =>
      if SERIES_CEILING ≤ r.series.keys.length then { r with overflowed := true }
      else { r with series := r.series.insert key (metric, apply metric (empty metric) value) }

/-- Where a sample stands in a snapshot: by its name, then by its labels. -/
def Sample.key {V : Type} (s : Sample V) : String ×ₗ List (String ×ₗ String) :=
  toLex (s.metric.name, s.labels.map toLex)

/-- The sample of an entry. -/
def sampleOf (entry : Sigma fun _ : Series => Metric ℚ × Held) : Sample ℚ where
  metric := entry.2.1
  labels := entry.1.labels
  reading := read entry.2.1 entry.2.2

def Registry.snapshot (r : Registry) : List (Sample ℚ) :=
  (r.series.entries.map sampleOf).insertionSort fun s t => s.key ≤ t.key

/-! ## Histories -/

/-- One call of `record`. -/
structure Call where
  metric : Metric ℚ
  labels : List Label
  value : Number
  deriving DecidableEq, Repr

def Call.record (r : Registry) (call : Call) : Registry :=
  r.record call.metric call.labels call.value

/-- The registry after some calls. -/
def run (calls : List Call) : Registry := calls.foldl Call.record .new

/-- A number that was recorded. -/
structure Observation where
  metric : Metric ℚ
  labels : List Label
  value : ℚ

/-- A call with a value that is not finite records nothing. -/
def Call.observation (call : Call) : Option Observation :=
  match call.value with
  | .notFinite => none
  | .finite value => some ⟨call.metric, call.labels, value⟩

def observations (calls : List Call) : List Observation := calls.filterMap Call.observation

def Observation.series (o : Observation) : Series := ⟨o.metric.name, keyed o.labels⟩

/-- The series a history leaves: the first of them, up to the ceiling. -/
def admitted (obs : List Observation) : List Series :=
  (obs.map Observation.series).eraseDups.take SERIES_CEILING

/-- The values recorded in a series, oldest first. -/
def valuesOf (obs : List Observation) (key : Series) : List ℚ :=
  (obs.filter fun o => o.series = key).map Observation.value

/-- What a series holds after some values. -/
def heldOf (metric : Metric ℚ) (values : List ℚ) : Held :=
  values.foldl (apply metric) (empty metric)

/-- There is one declaration for each name. -/
def OneDeclaration (obs : List Observation) : Prop :=
  ∀ o ∈ obs, ∀ o' ∈ obs, o.metric.name = o'.metric.name → o.metric = o'.metric

/-! ## First occurrences -/

section FirstOccurrences

variable {α β : Type} [BEq α] [LawfulBEq α] [BEq β] [LawfulBEq β]

theorem eraseDups_concat (l : List α) (a : α) :
    (l ++ [a]).eraseDups = if l.contains a then l.eraseDups else l.eraseDups ++ [a] := by
  rw [List.eraseDups_append]
  by_cases h : a ∈ l
  · simp [h, List.removeAll]
  · simp [h, List.removeAll, List.eraseDups_cons]

theorem mem_eraseDups {l : List α} {a : α} : a ∈ l.eraseDups ↔ a ∈ l := by
  induction l using List.reverseRecOn with
  | nil => simp
  | append_singleton l b ih =>
    rw [eraseDups_concat, List.mem_append, List.mem_singleton]
    by_cases h : l.contains b = true
    · rw [if_pos h, ih]
      refine ⟨Or.inl, fun hmem => hmem.elim id ?_⟩
      rintro rfl
      exact List.contains_iff_mem.mp h
    · rw [if_neg h, List.mem_append, ih, List.mem_singleton]

theorem nodup_eraseDups (l : List α) : l.eraseDups.Nodup := by
  induction l using List.reverseRecOn with
  | nil => simp
  | append_singleton l b ih =>
    rw [eraseDups_concat]
    split_ifs with h
    · exact ih
    · refine List.nodup_append.mpr ⟨ih, List.nodup_singleton b, ?_⟩
      rintro a ha b' hb' rfl
      rw [List.mem_singleton.mp hb'] at ha
      exact h (List.contains_iff_mem.mpr (mem_eraseDups.mp ha))

/-- First occurrences go with a renaming that keeps things apart. -/
theorem eraseDups_map {f : α → β} {l : List α} (h : ∀ a ∈ l, ∀ b ∈ l, f a = f b → a = b) :
    (l.map f).eraseDups = l.eraseDups.map f := by
  induction l using List.reverseRecOn with
  | nil => simp
  | append_singleton l b ih =>
    have hl : ∀ a ∈ l, ∀ b ∈ l, f a = f b → a = b := fun a ha b hb =>
      h a (List.mem_append_left _ ha) b (List.mem_append_left _ hb)
    have hmem : (l.map f).contains (f b) = l.contains b := by
      rw [Bool.eq_iff_iff, List.contains_iff_mem, List.contains_iff_mem, List.mem_map]
      constructor
      · rintro ⟨a, ha, heq⟩
        rwa [← h a (List.mem_append_left _ ha) b (by simp) heq]
      · exact fun hb => ⟨b, hb, rfl⟩
    rw [List.map_append, List.map_singleton, eraseDups_concat, eraseDups_concat, hmem, ih hl]
    split_ifs
    · rfl
    · rw [List.map_append, List.map_singleton]

end FirstOccurrences

/-! ## The registry after a history -/

variable {obs : List Observation} {o : Observation} {r : Registry} {key : Series}

theorem mem_of_mem_admitted (h : key ∈ admitted obs) : ∃ o ∈ obs, o.series = key :=
  List.mem_map.mp (mem_eraseDups.mp (List.mem_of_mem_take h))

theorem nodup_admitted (obs : List Observation) : (admitted obs).Nodup :=
  (nodup_eraseDups _).sublist (List.take_sublist _ _)

/-- A series that is not admitted came when the ceiling was reached, or not at all. -/
theorem notMem_of_room (hroom : (admitted obs).length < SERIES_CEILING)
    (hkey : key ∉ admitted obs) : key ∉ obs.map Observation.series := by
  intro hmem
  apply hkey
  unfold admitted at hroom ⊢
  rw [List.length_take] at hroom
  rw [List.take_of_length_le (by omega)]
  exact mem_eraseDups.mpr hmem

/-- What one more observation admits. -/
theorem admitted_concat (obs : List Observation) (o : Observation) : admitted (obs ++ [o]) =
    if o.series ∈ admitted obs ∨ SERIES_CEILING ≤ (admitted obs).length then admitted obs
    else admitted obs ++ [o.series] := by
  by_cases hfull : SERIES_CEILING ≤ (admitted obs).length
  · rw [if_pos (Or.inr hfull)]
    unfold admitted at hfull ⊢
    rw [List.length_take] at hfull
    rw [List.map_append, List.map_singleton, eraseDups_concat]
    split_ifs
    · rfl
    · rw [List.take_append_of_le_length (by omega)]
  · have hroom := not_le.mp hfull
    have hall : admitted obs = (obs.map Observation.series).eraseDups := by
      unfold admitted at hroom ⊢
      rw [List.length_take] at hroom
      exact List.take_of_length_le (by omega)
    by_cases hmem : o.series ∈ admitted obs
    · have hold : (obs.map Observation.series).contains o.series = true :=
        List.contains_iff_mem.mpr (mem_eraseDups.mp (hall ▸ hmem))
      rw [if_pos (Or.inl hmem)]
      unfold admitted
      rw [List.map_append, List.map_singleton, eraseDups_concat, if_pos hold]
    · have hnew : ¬(obs.map Observation.series).contains o.series = true := fun hcontains =>
        notMem_of_room hroom hmem (List.contains_iff_mem.mp hcontains)
      rw [if_neg (not_or.mpr ⟨hmem, hfull⟩), hall]
      unfold admitted
      rw [List.map_append, List.map_singleton, eraseDups_concat, if_neg hnew, ← hall]
      refine List.take_of_length_le ?_
      rw [List.length_append, List.length_singleton]
      omega

theorem valuesOf_concat (obs : List Observation) (o : Observation) (key : Series) :
    valuesOf (obs ++ [o]) key =
      if o.series = key then valuesOf obs key ++ [o.value] else valuesOf obs key := by
  unfold valuesOf
  rw [List.filter_append, List.map_append]
  split_ifs with h <;> simp [h]

theorem heldOf_concat (metric : Metric ℚ) (values : List ℚ) (value : ℚ) :
    heldOf metric (values ++ [value]) = apply metric (heldOf metric values) value := by
  unfold heldOf
  rw [List.foldl_append]
  rfl

/-- The registry holds the admitted series, and in each what was recorded in it. -/
structure Holds (r : Registry) (obs : List Observation) : Prop where
  keys : ∀ key, key ∈ r.series ↔ key ∈ admitted obs
  held : ∀ o ∈ obs, o.series ∈ admitted obs →
    r.series.lookup o.series = some (o.metric, heldOf o.metric (valuesOf obs o.series))

theorem Holds.new : Holds .new [] := by
  refine ⟨fun key => ?_, by simp⟩
  show key ∈ (∅ : AList _) ↔ key ∈ (List.take _ [])
  simp

/-- The keys of the map are the admitted series, in some order. -/
theorem Holds.perm (h : Holds r obs) : r.series.keys.Perm (admitted obs) :=
  (List.perm_ext_iff_of_nodup r.series.keys_nodup (nodup_admitted obs)).mpr h.keys

theorem Holds.length_keys (h : Holds r obs) : r.series.keys.length = (admitted obs).length :=
  h.perm.length_eq

/-- Observations of one series are of one metric. -/
theorem OneDeclaration.metric_eq {p : Observation} (hone : OneDeclaration obs) (hp : p ∈ obs)
    (ho : o ∈ obs) (heq : p.series = o.series) : p.metric = o.metric :=
  hone p hp o ho (congrArg Series.name heq)

theorem OneDeclaration.left {later : List Observation} (hone : OneDeclaration (obs ++ later)) :
    OneDeclaration obs := fun p hp q hq =>
  hone p (List.mem_append_left _ hp) q (List.mem_append_left _ hq)

/-- What the other series hold is not touched by an observation. -/
theorem Holds.frame {p : Observation} (h : Holds r obs) (hp : p ∈ obs ++ [o])
    (hne : p.series ≠ o.series) (hadm : p.series ∈ admitted obs) : r.series.lookup p.series =
      some (p.metric, heldOf p.metric (valuesOf (obs ++ [o]) p.series)) := by
  have hmem : p ∈ obs := by
    cases List.mem_append.mp hp with
    | inl hobs => exact hobs
    | inr hlast => exact absurd (congrArg Observation.series (List.mem_singleton.mp hlast)) hne
  rw [valuesOf_concat, if_neg hne.symm]
  exact h.held p hmem hadm

/-- **One step**: recording an observation keeps the registry what the history says. -/
theorem Holds.record (h : Holds r obs) (hone : OneDeclaration (obs ++ [o])) :
    Holds (r.record o.metric o.labels (.finite o.value)) (obs ++ [o]) := by
  have hlast : o ∈ obs ++ [o] := List.mem_append_right _ (List.mem_singleton_self o)
  have hrecord : r.record o.metric o.labels (.finite o.value) = match r.series.lookup o.series with
      | some (first, existing) =>
        { r with series := r.series.insert o.series (first, apply o.metric existing o.value) }
      | none =>
        if SERIES_CEILING ≤ r.series.keys.length then { r with overflowed := true }
        else { r with series := r.series.insert o.series
                        (o.metric, apply o.metric (empty o.metric) o.value) } := rfl
  rw [hrecord]
  by_cases hadm : o.series ∈ admitted obs
  · -- The series is there, and the value joins what it holds.
    obtain ⟨q, hq, heq⟩ := mem_of_mem_admitted hadm
    have hmetric : q.metric = o.metric := hone.metric_eq (List.mem_append_left _ hq) hlast heq
    have hlookup := h.held q hq (heq ▸ hadm)
    rw [heq, hmetric] at hlookup
    rw [hlookup]
    have hsame : admitted (obs ++ [o]) = admitted obs := by
      rw [admitted_concat, if_pos (Or.inl hadm)]
    refine ⟨fun key => ?_, fun p hp hpadm => ?_⟩
    · rw [hsame, ← h.keys, AList.mem_insert]
      refine ⟨fun hkey => hkey.elim (fun heq => ?_) id, Or.inr⟩
      exact heq ▸ (h.keys _).mpr hadm
    · by_cases hpo : p.series = o.series
      · rw [hpo, AList.lookup_insert, valuesOf_concat, if_pos rfl, heldOf_concat,
          hone.metric_eq hp hlast hpo]
      · rw [AList.lookup_insert_ne hpo]
        exact h.frame hp hpo (hsame ▸ hpadm)
  · have hnone : r.series.lookup o.series = none :=
      AList.lookup_eq_none.mpr fun hmem => hadm ((h.keys _).mp hmem)
    rw [hnone]
    by_cases hfull : SERIES_CEILING ≤ (admitted obs).length
    · -- The ceiling is reached, and nothing changes.
      have hsame : admitted (obs ++ [o]) = admitted obs := by
        rw [admitted_concat, if_pos (Or.inr hfull)]
      rw [← h.length_keys] at hfull
      show Holds (if SERIES_CEILING ≤ r.series.keys.length then _ else _) _
      rw [if_pos hfull]
      refine ⟨fun key => hsame ▸ h.keys key, fun p hp hpadm => ?_⟩
      rw [hsame] at hpadm
      have hpo : p.series ≠ o.series := fun heq => hadm (heq ▸ hpadm)
      exact h.frame hp hpo hpadm
    · -- A new series, from its zero.
      have hroom := not_le.mp hfull
      have hfresh : valuesOf obs o.series = [] := by
        unfold valuesOf
        rw [List.map_eq_nil_iff, List.filter_eq_nil_iff]
        intro q hq heq
        exact notMem_of_room hroom hadm (List.mem_map.mpr ⟨q, hq, of_decide_eq_true heq⟩)
      have hmore : admitted (obs ++ [o]) = admitted obs ++ [o.series] := by
        rw [admitted_concat, if_neg (not_or.mpr ⟨hadm, hfull⟩)]
      rw [← h.length_keys] at hfull
      show Holds (if SERIES_CEILING ≤ r.series.keys.length then _ else _) _
      rw [if_neg hfull]
      refine ⟨fun key => ?_, fun p hp hpadm => ?_⟩
      · rw [hmore, List.mem_append, List.mem_singleton, ← h.keys, AList.mem_insert]
        exact or_comm
      · by_cases hpo : p.series = o.series
        · rw [hpo, AList.lookup_insert, valuesOf_concat, if_pos rfl, heldOf_concat, hfresh,
            hone.metric_eq hp hlast hpo]
          rfl
        · rw [AList.lookup_insert_ne hpo]
          rw [hmore, List.mem_append, List.mem_singleton] at hpadm
          exact h.frame hp hpo (hpadm.resolve_right hpo)

theorem run_concat (calls : List Call) (call : Call) :
    run (calls ++ [call]) = call.record (run calls) := by
  unfold run
  rw [List.foldl_append]
  rfl

theorem observations_append (calls later : List Call) :
    observations (calls ++ later) = observations calls ++ observations later :=
  List.filterMap_append

/-- **Every run**: the registry after some calls holds what they recorded. -/
theorem run_holds {calls : List Call} (hone : OneDeclaration (observations calls)) :
    Holds (run calls) (observations calls) := by
  induction calls using List.reverseRecOn with
  | nil => exact Holds.new
  | append_singleton calls call ih =>
    rw [observations_append] at hone ⊢
    rw [run_concat]
    obtain ⟨metric, labels, value⟩ := call
    cases value with
    | notFinite =>
      have hnothing : observations [⟨metric, labels, .notFinite⟩] = [] := rfl
      rw [hnothing, List.append_nil] at hone ⊢
      exact ih hone
    | finite value => exact (ih hone.left).record hone

end PicX.Metrics
