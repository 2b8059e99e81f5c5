import Mathlib.Algebra.Order.BigOperators.Group.List
import Mathlib.Data.List.Infix
import PicX.Metrics.Registry

/-!
# A snapshot counts what was recorded

A snapshot of the registry, against the history of calls that made it.

* `Identity`, `firstSeries` — a series is a name and its label pairs in no order, and the registry
  keeps the first `SERIES_CEILING` of them.
* `counted` — what a series should read after the values recorded in it.
* `snapshot_exact` — one sample for each of those series, in order, that reads what it should.
-/

namespace PicX.Metrics

/-- What makes a series the one it is: its name, and its label pairs in no order. -/
abbrev Identity := String × Multiset Label

def Observation.identity (o : Observation) : Identity := (o.metric.name, ↑o.labels)

def Series.identity (key : Series) : Identity := (key.name, ↑key.labels)

def Sample.identity {V : Type} (s : Sample V) : Identity := (s.metric.name, ↑s.labels)

/-- The first distinct series recorded, up to the ceiling. -/
def firstSeries (obs : List Observation) : List Identity :=
  (obs.map Observation.identity).eraseDups.take SERIES_CEILING

/-- The values recorded in a series, oldest first. -/
def recorded (obs : List Observation) (identity : Identity) : List ℚ :=
  (obs.filter fun o => o.identity = identity).map Observation.value

/-- What a series should read after some values: a counter their sum without the negative ones, a
gauge the last, and a histogram how many there are below each boundary and in all. -/
def counted (metric : Metric ℚ) (values : List ℚ) : Reading ℚ :=
  match metric.kind with
  | .counter => .value (values.filter (0 ≤ ·)).sum
  | .gauge => .value (values.getLastD 0)
  | .histogram =>
    .distribution (metric.buckets.map fun boundary => (boundary, values.countP (· ≤ boundary)))
      values.length values.sum

/-- The same call with the labels in another order. -/
structure Call.Relabels (call call' : Call) : Prop where
  metric : call.metric = call'.metric
  labels : call.labels.Perm call'.labels
  value : call.value = call'.value

/-! ## The identity of a series -/

variable {obs : List Observation} {o p : Observation} {r : Registry}

theorem keyed_perm (labels : List Label) : (keyed labels).Perm labels := List.perm_insertionSort _ _

theorem pairwise_keyed (labels : List Label) :
    (keyed labels).Pairwise fun a b => toLex a ≤ toLex b := by
  have : IsTrans Label fun a b => toLex a ≤ toLex b := ⟨fun _ _ _ => le_trans⟩
  have : Std.Total fun a b : Label => toLex a ≤ toLex b := ⟨fun _ _ => le_total _ _⟩
  exact List.pairwise_insertionSort _ _

/-- Sorting forgets the order the labels came in, and nothing else. -/
theorem keyed_eq_iff {labels labels' : List Label} :
    keyed labels = keyed labels' ↔ labels.Perm labels' := by
  constructor
  · intro heq
    exact (keyed_perm labels).symm.trans (heq ▸ keyed_perm labels')
  · intro hperm
    refine List.Perm.eq_of_pairwise ?_ (pairwise_keyed labels) (pairwise_keyed labels') ?_
    · exact fun a b _ _ hab hba => toLex.injective (le_antisymm hab hba)
    · exact (keyed_perm labels).trans (hperm.trans (keyed_perm labels').symm)

@[simp] theorem Observation.identity_series (o : Observation) : o.series.identity = o.identity :=
  Prod.ext rfl (Quotient.sound (keyed_perm o.labels))

theorem series_eq_iff : o.series = p.series ↔ o.identity = p.identity := by
  constructor
  · intro heq
    rw [← o.identity_series, heq, p.identity_series]
  · intro heq
    have hname : o.metric.name = p.metric.name := congrArg Prod.fst heq
    have hperm : o.labels.Perm p.labels := Quotient.exact (congrArg Prod.snd heq)
    show Series.mk o.metric.name (keyed o.labels) = Series.mk p.metric.name (keyed p.labels)
    rw [hname, keyed_eq_iff.mpr hperm]

theorem admitted_identity (obs : List Observation) :
    (admitted obs).map Series.identity = firstSeries obs := by
  have hinj : ∀ a ∈ obs.map Observation.series, ∀ b ∈ obs.map Observation.series,
      a.identity = b.identity → a = b := by
    intro a ha b hb heq
    obtain ⟨o, -, rfl⟩ := List.mem_map.mp ha
    obtain ⟨p, -, rfl⟩ := List.mem_map.mp hb
    rw [o.identity_series, p.identity_series] at heq
    exact series_eq_iff.mpr heq
  have hmap : (obs.map Observation.series).map Series.identity = obs.map Observation.identity := by
    rw [List.map_map]
    exact List.map_congr_left fun o _ => o.identity_series
  unfold admitted firstSeries
  rw [List.map_take, ← eraseDups_map hinj, hmap]

theorem valuesOf_series (obs : List Observation) (o : Observation) :
    valuesOf obs o.series = recorded obs o.identity := by
  unfold valuesOf recorded
  congr 1
  refine List.filter_congr fun p _ => ?_
  rw [decide_eq_decide]
  exact series_eq_iff

/-! ## What a series reads -/

/-- Each boundary's slot counts the values at or below it. -/
theorem observe_map (value : ℚ) (boundaries : List ℚ) (count : ℚ → Nat) :
    observe value boundaries (boundaries.map count) =
      boundaries.map fun boundary =>
        if value ≤ boundary then count boundary + 1 else count boundary := by
  induction boundaries with
  | nil => rfl
  | cons boundary boundaries ih => rw [List.map_cons, observe, ih, List.map_cons]

theorem heldOf_histogram {metric : Metric ℚ} (hkind : metric.kind = .histogram) (values : List ℚ) :
    heldOf metric values =
      .distribution (metric.buckets.map fun boundary => values.countP (· ≤ boundary))
        values.length values.sum := by
  induction values using List.reverseRecOn with
  | nil => simp [heldOf, empty, hkind, List.map_const']
  | append_singleton values value ih =>
    rw [heldOf_concat, ih]
    simp only [apply, hkind, observe_map, List.length_append, List.length_singleton,
      List.sum_append, List.sum_singleton]
    congr 1
    refine List.map_congr_left fun boundary _ => ?_
    rw [List.countP_append, List.countP_singleton]
    by_cases hle : value ≤ boundary
    · simp [hle]
    · simp [hle]

theorem heldOf_counter {metric : Metric ℚ} (hkind : metric.kind = .counter) (values : List ℚ) :
    heldOf metric values = .value (values.filter (0 ≤ ·)).sum := by
  induction values using List.reverseRecOn with
  | nil => simp [heldOf, empty, hkind]
  | append_singleton values value ih =>
    rw [heldOf_concat, ih, List.filter_append, List.sum_append]
    by_cases hpos : 0 ≤ value
    · simp [apply, hkind, hpos]
    · simp [apply, hkind, hpos]

theorem heldOf_gauge {metric : Metric ℚ} (hkind : metric.kind = .gauge) (values : List ℚ) :
    heldOf metric values = .value (values.getLastD 0) := by
  induction values using List.reverseRecOn with
  | nil => simp [heldOf, empty, hkind]
  | append_singleton values value ih =>
    rw [heldOf_concat, ih, List.getLastD_concat]
    simp [apply, hkind]

/-- A series reads what it should. -/
theorem read_heldOf (metric : Metric ℚ) (values : List ℚ) :
    read metric (heldOf metric values) = counted metric values := by
  cases hkind : metric.kind with
  | counter => rw [heldOf_counter hkind]; simp only [read, counted, hkind]
  | gauge => rw [heldOf_gauge hkind]; simp only [read, counted, hkind]
  | histogram =>
    rw [heldOf_histogram hkind]
    simp only [read, counted, hkind]
    congr 1
    have hzip := List.zip_map' (l := metric.buckets) (f := id)
      (g := fun boundary => values.countP (· ≤ boundary))
    rwa [List.map_id] at hzip

/-- Over increasing boundaries the counts never fall, and none passes the count of all. -/
theorem counted_increasing {metric : Metric ℚ} (hbuckets : metric.buckets.Pairwise (· < ·))
    {values : List ℚ} {buckets : List (ℚ × Nat)} {count : Nat} {sum : ℚ}
    (h : counted metric values = .distribution buckets count sum) :
    (buckets.Pairwise fun a b => a.2 ≤ b.2) ∧ ∀ bucket ∈ buckets, bucket.2 ≤ count := by
  unfold counted at h
  split at h
  · nomatch h
  · nomatch h
  · injection h with hslots hcount _
    subst hslots hcount
    constructor
    · refine List.pairwise_map.mpr (hbuckets.imp fun {a b} hlt => ?_)
      refine List.countP_mono_left fun value _ hle => ?_
      exact decide_eq_true ((of_decide_eq_true hle).trans hlt.le)
    · intro bucket hbucket
      obtain ⟨boundary, -, rfl⟩ := List.mem_map.mp hbucket
      exact List.countP_le_length

/-- A counter never decreases, whatever comes later. -/
theorem counter_le (values later : List ℚ) :
    (values.filter (0 ≤ ·)).sum ≤ ((values ++ later).filter (0 ≤ ·)).sum := by
  rw [List.filter_append, List.sum_append]
  refine le_add_of_nonneg_right (List.sum_nonneg fun value hvalue => ?_)
  exact of_decide_eq_true (List.mem_filter.mp hvalue).2

/-! ## The snapshot -/

/-- A sample is that of a series the history admits, and reads what the history says. -/
theorem Holds.mem_snapshot (h : Holds r obs) {s : Sample ℚ} : s ∈ r.snapshot ↔
    ∃ o ∈ obs, o.series ∈ admitted obs ∧
      s = ⟨o.metric, keyed o.labels, counted o.metric (recorded obs o.identity)⟩ := by
  unfold Registry.snapshot
  rw [List.mem_insertionSort, List.mem_map]
  constructor
  · rintro ⟨⟨key, entry⟩, hentry, rfl⟩
    have hlookup : r.series.lookup key = some entry := AList.mem_lookup_iff.mpr hentry
    have hkey : key ∈ admitted obs := by
      rw [← h.keys, ← AList.lookup_isSome, hlookup]
      rfl
    obtain ⟨o, ho, rfl⟩ := mem_of_mem_admitted hkey
    rw [h.held o ho hkey] at hlookup
    refine ⟨o, ho, hkey, ?_⟩
    rw [← Option.some.inj hlookup, ← read_heldOf, ← valuesOf_series]
    rfl
  · rintro ⟨o, ho, hadm, rfl⟩
    refine ⟨⟨o.series, _⟩, AList.mem_lookup_iff.mp (h.held o ho hadm), ?_⟩
    rw [← read_heldOf, ← valuesOf_series]
    rfl

/-- The entries of the map are named as their metrics are. -/
theorem Holds.name_eq (h : Holds r obs) {entry : Sigma fun _ : Series => Metric ℚ × Held}
    (hentry : entry ∈ r.series.entries) : (sampleOf entry).metric.name = entry.1.name := by
  have hlookup : r.series.lookup entry.1 = some entry.2 := AList.mem_lookup_iff.mpr hentry
  have hkey : entry.1 ∈ admitted obs := by
    rw [← h.keys, ← AList.lookup_isSome, hlookup]
    rfl
  obtain ⟨o, ho, heq⟩ := mem_of_mem_admitted hkey
  rw [← heq, h.held o ho (heq ▸ hkey)] at hlookup
  show entry.2.1.name = entry.1.name
  rw [← Option.some.inj hlookup, ← heq]
  rfl

/-- What is read off a sample by its name and labels is read off the keys of the map. -/
theorem Holds.snapshot_perm (h : Holds r obs) {α : Type} (f : String → List Label → α) :
    (r.snapshot.map fun s => f s.metric.name s.labels).Perm
      ((admitted obs).map fun key => f key.name key.labels) := by
  have hentries : (r.series.entries.map sampleOf).map (fun s => f s.metric.name s.labels) =
      r.series.keys.map fun key => f key.name key.labels := by
    unfold AList.keys List.keys
    rw [List.map_map, List.map_map]
    refine List.map_congr_left fun entry hentry => ?_
    show f (sampleOf entry).metric.name entry.1.labels = f entry.1.name entry.1.labels
    rw [h.name_eq hentry]
  refine ((List.perm_insertionSort _ _).map _).trans ?_
  rw [hentries]
  exact h.perm.map _

/-- One sample for each of the first series. -/
theorem Holds.snapshot_identity (h : Holds r obs) :
    (r.snapshot.map Sample.identity).Perm (firstSeries obs) :=
  admitted_identity obs ▸ h.snapshot_perm fun name labels => ((name, ↑labels) : Identity)

/-- The samples stand strictly in order. -/
theorem Holds.snapshot_sorted (h : Holds r obs) :
    r.snapshot.Pairwise fun s t => s.key < t.key := by
  have hle : r.snapshot.Pairwise fun s t => s.key ≤ t.key := by
    have : IsTrans (Sample ℚ) fun s t => s.key ≤ t.key := ⟨fun _ _ _ => le_trans⟩
    have : Std.Total fun s t : Sample ℚ => s.key ≤ t.key := ⟨fun _ _ => le_total _ _⟩
    exact List.pairwise_insertionSort _ _
  have hkeys : (r.snapshot.map Sample.key).Nodup := by
    have hperm := h.snapshot_perm fun name labels => toLex (name, labels.map toLex)
    refine (hperm.nodup_iff).mpr ((nodup_admitted obs).map ?_)
    intro a b heq
    have hpair := toLex.injective heq
    have hlabels := List.map_injective_iff.mpr toLex.injective (congrArg Prod.snd hpair)
    cases a
    cases b
    exact Series.mk.injEq .. ▸ ⟨congrArg Prod.fst hpair, hlabels⟩
  refine (hle.and (List.pairwise_map.mp hkeys)).imp fun {s t} hst => ?_
  exact lt_of_le_of_ne hst.1 hst.2

/-! ## Longer histories, and other orders of labels -/

theorem recorded_append (obs later : List Observation) (identity : Identity) :
    recorded (obs ++ later) identity = recorded obs identity ++ recorded later identity := by
  unfold recorded
  rw [List.filter_append, List.map_append]

/-- A series that was admitted stays. -/
theorem admitted_append {key : Series} (later : List Observation) (h : key ∈ admitted obs) :
    key ∈ admitted (obs ++ later) := by
  unfold admitted at h ⊢
  rw [List.map_append, List.eraseDups_append]
  exact (List.IsPrefix.take (List.prefix_append _ _) SERIES_CEILING).subset h

/-- The order labels are given in never matters. -/
theorem run_relabelled {calls calls' : List Call} (h : List.Forall₂ Call.Relabels calls calls') :
    run calls' = run calls := by
  unfold run
  suffices hfold : ∀ r : Registry, calls'.foldl Call.record r = calls.foldl Call.record r from
    hfold .new
  induction h with
  | nil => exact fun r => rfl
  | cons hcall _ ih =>
    intro r
    rw [List.foldl_cons, List.foldl_cons, ih]
    congr 1
    unfold Call.record
    rw [← hcall.metric, ← hcall.value]
    unfold Registry.record
    rw [keyed_eq_iff.mpr hcall.labels]

/-- A counter's series is there after a longer history, and reads no less. -/
theorem counter_grows {calls later : List Call}
    (hone : OneDeclaration (observations (calls ++ later))) {s : Sample ℚ}
    (hs : s ∈ (run calls).snapshot) (hkind : s.metric.kind = .counter) :
    ∃ v v', s.reading = .value v ∧ v ≤ v' ∧
      { s with reading := .value v' } ∈ (run (calls ++ later)).snapshot := by
  have hholds := run_holds hone
  rw [observations_append] at hone hholds
  obtain ⟨o, ho, hadm, rfl⟩ := (run_holds hone.left).mem_snapshot.mp hs
  have hcounter : ∀ values, counted o.metric values = .value (values.filter (0 ≤ ·)).sum := by
    intro values
    rw [← read_heldOf, heldOf_counter hkind]
    rfl
  refine ⟨_, _, hcounter _, counter_le _ (recorded (observations later) o.identity), ?_⟩
  refine hholds.mem_snapshot.mpr
    ⟨o, List.mem_append_left _ ho, admitted_append _ hadm, ?_⟩
  rw [recorded_append, hcounter (_ ++ recorded (observations later) o.identity)]

/-- **The registry counts exactly what was recorded.** Over any calls whose metrics have one
declaration for each name and increasing boundaries, a snapshot holds one sample for each of the
first `SERIES_CEILING` series, strictly in order. Each reads what the values recorded in its series
come to, so the counts of a distribution never fall and none passes the count of all; a counter
never decreases; and the order labels are given in never matters. -/
theorem snapshot_exact {calls : List Call} (hone : OneDeclaration (observations calls))
    (hbuckets : ∀ o ∈ observations calls, o.metric.buckets.Pairwise (· < ·)) :
    ((run calls).snapshot.map Sample.identity).Perm (firstSeries (observations calls)) ∧
    ((run calls).snapshot.Pairwise fun s t => s.key < t.key) ∧
    (∀ s ∈ (run calls).snapshot,
      (∃ o ∈ observations calls, o.identity = s.identity ∧ o.metric = s.metric) ∧
      s.reading = counted s.metric (recorded (observations calls) s.identity) ∧
      ∀ buckets count sum, s.reading = .distribution buckets count sum →
        (buckets.Pairwise fun a b => a.2 ≤ b.2) ∧ ∀ bucket ∈ buckets, bucket.2 ≤ count) ∧
    (∀ s ∈ (run calls).snapshot, s.metric.kind = .counter →
      ∀ later, OneDeclaration (observations (calls ++ later)) →
        ∃ v v', s.reading = .value v ∧ v ≤ v' ∧
          { s with reading := .value v' } ∈ (run (calls ++ later)).snapshot) ∧
    ∀ calls', List.Forall₂ Call.Relabels calls calls' →
      (run calls').snapshot = (run calls).snapshot := by
  have hholds := run_holds hone
  refine ⟨hholds.snapshot_identity, hholds.snapshot_sorted, ?_, ?_, ?_⟩
  · intro s hs
    obtain ⟨o, ho, -, rfl⟩ := hholds.mem_snapshot.mp hs
    have hidentity : o.identity = Sample.identity (V := ℚ) ⟨o.metric, keyed o.labels,
        counted o.metric (recorded (observations calls) o.identity)⟩ := o.identity_series.symm
    refine ⟨⟨o, ho, hidentity, rfl⟩, ?_, fun buckets count sum heq => ?_⟩
    · rw [← hidentity]
    · exact counted_increasing (hbuckets o ho) heq
  · exact fun s hs hkind later hlater => counter_grows hlater hs hkind
  · intro calls' hrelabels
    rw [run_relabelled hrelabels]

/-- A distribution and a counter by turns, the labels of the counter in both orders. -/
def mixed : List Call :=
  let latency : Metric ℚ := .histogram "latency_seconds" "How long." [1, 2]
  let requests : Metric ℚ := .counter "requests_total" "Requests served."
  [⟨requests, [("route", "token"), ("method", "post")], .finite 1⟩,
    ⟨latency, [], .finite 2⟩,
    ⟨requests, [("method", "post"), ("route", "token")], .finite 3⟩,
    ⟨latency, [], .finite 7⟩,
    ⟨requests, [("method", "post"), ("route", "token")], .notFinite⟩]

theorem snapshot_exact_mixed :
    ((run mixed).snapshot.map Sample.identity).Perm
      [("requests_total", {("method", "post"), ("route", "token")}), ("latency_seconds", 0)] := by
  have hone : OneDeclaration (observations mixed) := by
    unfold OneDeclaration
    decide +kernel
  have hfirst : firstSeries (observations mixed) =
      [("requests_total", {("method", "post"), ("route", "token")}), ("latency_seconds", 0)] := by
    decide +kernel
  exact hfirst ▸ (snapshot_exact hone (by decide +kernel)).1

end PicX.Metrics
