import Stocktake.Scan

/-! Workers share the files of a scan: each takes one at a time, in any order, and what comes of it
is stored at the place of the file in the list. -/

namespace Stocktake

/-- What has become of a file that workers share. -/
inductive Slot
  /-- No worker has taken the file yet. -/
  | pending (path : String)
  | taken (worker : Nat) (path : String)
  | filled (outcome : FileOutcome)
  deriving DecidableEq, Repr

namespace Slot

/-- The worker that has the file in hand. -/
def holder? : Slot → Option Nat
  | .taken worker _ => some worker
  | _ => none

/-- What came of the file, once that is stored. -/
def outcome? : Slot → Option FileOutcome
  | .filled outcome => some outcome
  | _ => none

end Slot

/-- What a worker does next with the file at an index. -/
inductive Turn
  | take (worker index : Nat)
  | finish (worker index : Nat)
  deriving DecidableEq, Repr

/-- A scan that workers share, with a slot for each file in the order of the list. -/
structure Pool where
  /-- The number of workers, each of which is named by a smaller number. -/
  workers : Nat
  slots : List Slot
  deriving DecidableEq, Repr

namespace Pool

/-- The pool in which no worker has begun. -/
def start (workers : Nat) (paths : List String) : Pool :=
  ⟨workers, paths.map .pending⟩

/-- A worker of the pool has no file in hand. -/
def isIdle (pool : Pool) (worker : Nat) : Bool :=
  worker < pool.workers && pool.slots.all (·.holder? != some worker)

/-- Puts a slot in the place of the one at an index. -/
def store (pool : Pool) (index : Nat) (slot : Slot) : Pool :=
  { pool with slots := pool.slots.set index slot }

/-- The pool after a turn, none when the worker cannot take that turn. -/
def perform? (root : String) (read : SourceReader) (pool : Pool) : Turn → Option Pool
  | .take worker index =>
    match pool.slots[index]? with
    | some (.pending path) =>
      if pool.isIdle worker then some (pool.store index (.taken worker path)) else none
    | _ => none
  | .finish worker index =>
    match pool.slots[index]? with
    | some (.taken holder path) =>
      -- A file is read and analysed by the worker that has taken it.
      if holder = worker then some (pool.store index (.filled (.ofPath root read path))) else none
    | _ => none

/-- The pool after a schedule, none when one of its turns cannot be taken. -/
def run? (root : String) (read : SourceReader) (pool : Pool) (schedule : List Turn) :
    Option Pool :=
  schedule.foldlM (perform? root read) pool

/-- The registry that the outcomes fill in the order of the list, once all of them are stored. -/
def merged? (pool : Pool) : Option Registry :=
  (pool.slots.mapM Slot.outcome?).map Registry.ofOutcomes

end Pool

end Stocktake
