import Stocktake.Registry

/-! The ranking puts components in the order in which to migrate them, the least effort first. -/

namespace Stocktake

/-- Counters and scores stay below this bound. -/
def wordBound : Nat :=
  UInt64.size

/-- The step at which a score outgrows its 64 bits. -/
inductive Overflow
  | multiply
  | add
  deriving DecidableEq, Repr

/-- What a run reports when a score outgrows its bits. -/
def Overflow.message : Overflow → String
  | .multiply => "attempt to multiply with overflow"
  | .add => "attempt to add with overflow"

/-- A component with the score that ranks it. -/
structure Candidate where
  name : String
  path : String
  score : Nat
  deriving DecidableEq, Repr

/-- The effort for a component: its length and a weight for each dependency of its name. -/
def migrationScore (weight : Nat) (dependencies : DependencyMap) (component : Construct) :
    Except Overflow Nat :=
  let count := ((dependencies.get? component.name).map List.length).getD 0
  -- The product is formed first, and each step has to stay within 64 bits.
  if wordBound ≤ count * weight then .error .multiply
  else if wordBound ≤ component.loc + count * weight then .error .add
  else .ok (component.loc + count * weight)

/-- A component as a candidate for migration. -/
def Candidate.ofComponent (weight : Nat) (dependencies : DependencyMap) (component : Construct) :
    Except Overflow Candidate := do
  return ⟨component.name, component.path, ← migrationScore weight dependencies component⟩

/-- The components by ascending score; those of equal score keep their order. -/
def rank (weight : Nat) (dependencies : DependencyMap) (components : List Construct) :
    Except Overflow (List Candidate) := do
  let candidates ← components.mapM (Candidate.ofComponent weight dependencies)
  return candidates.mergeSort fun one other => one.score ≤ other.score

/-- The names of the components in the order in which to migrate them. -/
def migrationOrder (weight : Nat) (dependencies : DependencyMap) (components : List Construct) :
    Except Overflow (List String) := do
  return (← rank weight dependencies components).map Candidate.name

end Stocktake
