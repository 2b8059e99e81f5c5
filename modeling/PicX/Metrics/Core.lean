import Mathlib.Init

/-!
# Metrics (`pic-x-core/src/metrics.rs`)

What is declared about a metric, and what a snapshot says of one series. The type of the numbers is
a parameter: the registry adds them up, and the exposition prints them.
-/

namespace PicX.Metrics

/-- What a number means, which decides how it is combined with what came before. -/
inductive Kind where
  /-- Only ever goes up. Recording adds to it. -/
  | counter
  /-- A level that goes up and down. Recording replaces it. -/
  | gauge
  /-- A distribution. Recording adds one observation. -/
  | histogram
  deriving DecidableEq, Repr

/-- A metric that exists, declared once next to whatever records it. -/
structure Metric (V : Type) where
  name : String
  kind : Kind
  help : String
  buckets : List V
  deriving DecidableEq, Repr

def Metric.counter {V : Type} (name help : String) : Metric V := ⟨name, .counter, help, []⟩

def Metric.gauge {V : Type} (name help : String) : Metric V := ⟨name, .gauge, help, []⟩

/-- A distribution, observed into `buckets`. -/
def Metric.histogram {V : Type} (name help : String) (buckets : List V) : Metric V :=
  ⟨name, .histogram, help, buckets⟩

/-- One name-and-value pair narrowing a metric. -/
abbrev Label := String × String

/-- What a series currently reads. -/
inductive Reading (V : Type) where
  /-- A counter or a gauge: one number. -/
  | value (value : V)
  /-- A histogram: each boundary with the observations at or below it, how many there have been, and
  what they add up to. -/
  | distribution (buckets : List (V × Nat)) (count : Nat) (sum : V)
  deriving DecidableEq, Repr

/-- One series, as it stood when the snapshot was taken. -/
structure Sample (V : Type) where
  metric : Metric V
  labels : List Label
  reading : Reading V
  deriving DecidableEq, Repr

end PicX.Metrics
