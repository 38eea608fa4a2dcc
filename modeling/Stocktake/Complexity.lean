import Stocktake.Source.Analysis

/-! Complexity sorts constructs into three levels by the length of their files. -/

namespace Stocktake

/-- A construct is of low, medium or high complexity. -/
inductive Level
  | low
  | medium
  | high
  deriving DecidableEq, Repr

/-- The name of a level. -/
def Level.name : Level → String
  | .low => "low"
  | .medium => "medium"
  | .high => "high"

/-- The greatest lengths of files of low and of medium complexity. -/
structure Thresholds where
  lowMax : Nat := 100
  mediumMax : Nat := 300
  deriving DecidableEq, Repr

/-- The level of a length; the medium bound is tested first, also when the bounds are inverted. -/
def Thresholds.classify (thresholds : Thresholds) (loc : Nat) : Level :=
  if thresholds.mediumMax < loc then .high
  else if thresholds.lowMax < loc then .medium
  else .low

/-- The number of constructs of each level. -/
structure Metrics where
  high : Nat
  medium : Nat
  low : Nat
  deriving DecidableEq, Repr

/-- The number of all constructs counted. -/
def Metrics.total (metrics : Metrics) : Nat :=
  metrics.high + metrics.medium + metrics.low

/-- Constructs split by level. -/
structure Buckets where
  low : List Construct
  medium : List Construct
  high : List Construct
  deriving DecidableEq, Repr

namespace Buckets

/-- Puts a construct in front of the bucket of a level. -/
def push (buckets : Buckets) (level : Level) (construct : Construct) : Buckets :=
  match level with
  | .low => { buckets with low := construct :: buckets.low }
  | .medium => { buckets with medium := construct :: buckets.medium }
  | .high => { buckets with high := construct :: buckets.high }

/-- The size of each bucket. -/
def metrics (buckets : Buckets) : Metrics :=
  ⟨buckets.high.length, buckets.medium.length, buckets.low.length⟩

end Buckets

namespace Thresholds

/-- Splits constructs by level in one pass, keeping their order in each bucket. -/
def partition (thresholds : Thresholds) (constructs : List Construct) : Buckets :=
  constructs.foldr
    (fun construct buckets => buckets.push (thresholds.classify construct.loc) construct)
    ⟨[], [], []⟩

/-- The number of constructs of each level. -/
def metrics (thresholds : Thresholds) (constructs : List Construct) : Metrics :=
  (thresholds.partition constructs).metrics

end Thresholds

end Stocktake
