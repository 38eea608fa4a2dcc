import Mathlib.Algebra.GroupWithZero.Nat
import Stocktake.Scan.Pool

/-! Whatever schedule workers follow, they end with the registry that one of them would fill. -/

namespace Stocktake

variable {root : String} {read : SourceReader} {pool next : Pool} {turn : Turn}

namespace Slot

/-- The outcome that a slot holds or is going to hold. -/
def due (root : String) (read : SourceReader) : Slot → FileOutcome
  | .pending path => .ofPath root read path
  | .taken _ path => .ofPath root read path
  | .filled outcome => outcome

/-- The number of turns that are left until a slot is filled. -/
def turnsLeft : Slot → Nat
  | .pending _ => 2
  | .taken _ _ => 1
  | .filled _ => 0

end Slot

namespace Pool

/-- The number of turns that are left until all slots are filled. -/
def turnsLeft (pool : Pool) : Nat :=
  (pool.slots.map Slot.turnsLeft).sum

/-- A turn changes one slot, which comes closer to the outcome that it is going to hold. -/
theorem perform?_eq_some (performed : pool.perform? root read turn = some next) :
    ∃ index before after, pool.slots[index]? = some before ∧ next = pool.store index after ∧
      after.due root read = before.due root read ∧ before.turnsLeft = after.turnsLeft + 1 := by
  -- A file is taken first and its slot filled afterwards, each of which is one turn.
  cases turn with
  | take worker index =>
    simp only [perform?] at performed
    split at performed
    · rename_i path there
      split at performed
      · cases performed
        exact ⟨index, _, _, there, rfl, rfl, rfl⟩
      · cases performed
    · cases performed
  | finish worker index =>
    simp only [perform?] at performed
    split at performed
    · rename_i holder path there
      split at performed
      · cases performed
        exact ⟨index, _, _, there, rfl, rfl, rfl⟩
      · cases performed
    · cases performed

/-- What the slots are going to hold is the same after a turn. -/
theorem map_due_perform (performed : pool.perform? root read turn = some next) :
    next.slots.map (Slot.due root read) = pool.slots.map (Slot.due root read) := by
  obtain ⟨index, before, after, there, rfl, same, -⟩ := perform?_eq_some performed
  -- The outcome that is written into the list stands there already.
  obtain ⟨inside, here⟩ := List.getElem?_eq_some_iff.mp there
  have stands : before.due root read = (pool.slots.map (Slot.due root read)).get
      ⟨index, by simpa using inside⟩ := by
    rw [List.get_eq_getElem, List.getElem_map, here]
  rw [store, List.map_set, same, stands, List.get_eq_getElem, List.set_getElem_self]

/-- A sum over a list changes as the one item does that is replaced. -/
theorem sum_map_set {slots : List Slot} {index : Nat} {before : Slot} (after : Slot)
    (there : slots[index]? = some before) :
    ((slots.set index after).map Slot.turnsLeft).sum + before.turnsLeft =
      (slots.map Slot.turnsLeft).sum + after.turnsLeft := by
  -- The sum goes over the slots one by one, up to the one that is replaced.
  induction slots generalizing index with
  | nil => simp at there
  | cons slot slots ih =>
    cases index with
    | zero =>
      simp only [List.getElem?_cons_zero, Option.some.injEq] at there
      subst there
      simp only [List.set_cons_zero, List.map_cons, List.sum_cons]
      omega
    | succ index =>
      have others := ih (by simpa using there)
      simp only [List.set_cons_succ, List.map_cons, List.sum_cons]
      omega

/-- A turn is one of those that were left. -/
theorem turnsLeft_perform (performed : pool.perform? root read turn = some next) :
    next.turnsLeft + 1 = pool.turnsLeft := by
  -- One slot comes a turn closer to its end, and the others stay as they are.
  obtain ⟨index, before, after, there, rfl, -, closer⟩ := perform?_eq_some performed
  have changed := sum_map_set after there
  simp only [turnsLeft, store]
  omega

/-- The number of workers never changes. -/
theorem workers_perform (performed : pool.perform? root read turn = some next) :
    next.workers = pool.workers := by
  -- A turn stores into a slot and does nothing else.
  obtain ⟨_, _, _, _, rfl, -, -⟩ := perform?_eq_some performed
  rfl

/-- A schedule keeps what the slots are going to hold, and uses up one turn after the other. -/
theorem run?_eq_some {schedule : List Turn} (done : pool.run? root read schedule = some next) :
    next.slots.map (Slot.due root read) = pool.slots.map (Slot.due root read) ∧
      next.turnsLeft + schedule.length = pool.turnsLeft ∧ next.workers = pool.workers := by
  -- Each turn keeps what is due and uses up one of those that are left.
  induction schedule generalizing pool with
  | nil =>
    cases done
    exact ⟨rfl, rfl, rfl⟩
  | cons turn schedule ih =>
    rw [run?, List.foldlM_cons] at done
    obtain ⟨middle, performed, done⟩ := Option.bind_eq_some_iff.mp done
    obtain ⟨held, left, count⟩ := ih done
    have spent := turnsLeft_perform performed
    refine ⟨held.trans (map_due_perform performed), ?_, count.trans (workers_perform performed)⟩
    rw [List.length_cons]
    omega

/-- The outcomes can be collected exactly when no turn is left, and they are those that were due. -/
theorem merged?_eq (root : String) (read : SourceReader) (pool : Pool) :
    pool.merged? =
      if pool.turnsLeft = 0 then
        some (Registry.ofOutcomes (pool.slots.map (Slot.due root read)))
      else none := by
  obtain ⟨workers, slots⟩ := pool
  -- One slot that is not filled is enough for a turn to be left, and for nothing to be collected.
  suffices collected : slots.mapM Slot.outcome? =
      if (slots.map Slot.turnsLeft).sum = 0 then some (slots.map (Slot.due root read)) else none by
    rw [merged?, collected, turnsLeft]
    split <;> rfl
  induction slots with
  | nil => rfl
  | cons slot slots ih =>
    rw [List.mapM_cons, ih]
    cases slot with
    | pending path => simp [Slot.outcome?, Slot.turnsLeft]
    | taken worker path => simp [Slot.outcome?, Slot.turnsLeft]
    | filled outcome =>
      simp only [Slot.outcome?, Slot.turnsLeft, List.map_cons, List.sum_cons, Nat.zero_add]
      split <;> simp [Slot.due]

/-- While turns are left, one of the workers can take one. -/
theorem exists_perform (manned : 0 < pool.workers) (left : 0 < pool.turnsLeft) :
    ∃ turn next, pool.perform? root read turn = some next := by
  by_cases busy : ∃ slot ∈ pool.slots, ∃ worker, slot.holder? = some worker
  · -- A worker that has a file in hand can finish it.
    obtain ⟨slot, member, worker, held⟩ := busy
    obtain ⟨index, there⟩ := List.getElem?_of_mem member
    cases slot with
    | taken holder path =>
      cases held
      exact ⟨.finish worker index, pool.store index (.filled (.ofPath root read path)),
        by simp [perform?, there]⟩
    | pending path => cases held
    | filled outcome => cases held
  · -- Nobody has a file in hand, so that any worker can take one that is pending.
    have idle : pool.isIdle 0 = true := by
      simp only [isIdle, manned, decide_true, Bool.true_and, List.all_eq_true, bne_iff_ne]
      intro slot member held
      exact busy ⟨slot, member, 0, held⟩
    obtain ⟨count, among, positive⟩ := List.sum_pos_iff_exists_pos_nat.mp left
    obtain ⟨slot, member, rfl⟩ := List.mem_map.mp among
    obtain ⟨index, there⟩ := List.getElem?_of_mem member
    cases slot with
    | pending path =>
      exact ⟨.take 0 index, pool.store index (.taken 0 path), by simp [perform?, there, idle]⟩
    | taken holder path => exact absurd ⟨_, member, holder, rfl⟩ busy
    | filled outcome => exact absurd positive (Nat.lt_irrefl 0)

/-- Workers that share files follow a schedule of at most two turns for each file. They can go on
until it has so many, and not before they have the registry, which is that of the files in turn. -/
theorem merged?_run {workers : Nat} {paths : List String} {schedule : List Turn}
    (done : (start workers paths).run? root read schedule = some pool) :
    pool.merged? = (if schedule.length = 2 * paths.length then
        some (Registry.ofFiles root read paths) else none) ∧
      schedule.length ≤ 2 * paths.length ∧
      (0 < workers → schedule.length < 2 * paths.length →
        ∃ turn next, pool.perform? root read turn = some next) := by
  obtain ⟨held, left, count⟩ := run?_eq_some done
  -- At the start every file takes two turns, and its outcome is due.
  have whole : (start workers paths).turnsLeft = 2 * paths.length := by
    simp [turnsLeft, start, Slot.turnsLeft, Function.comp_def, List.map_const', Nat.mul_comm]
  have due : (start workers paths).slots.map (Slot.due root read) =
      paths.map (FileOutcome.ofPath root read) := by
    simp [start, Slot.due, Function.comp_def]
  refine ⟨?_, by omega, fun manned fewer => exists_perform (by rw [count]; exact manned) (by omega)⟩
  rw [merged?_eq root read pool, held, due]
  have ends : pool.turnsLeft = 0 ↔ schedule.length = 2 * paths.length := by omega
  simp only [ends]
  rfl

/-- A reader for two scripts that register the same name. -/
def readTwins : SourceReader := fun path =>
  if path = "app/a.js" then .ok "x.component('twin', {});\nX.$inject = ['$http']"
  else if path = "app/b.js" then .ok "y.service('twin', Y);\nY.$inject = ['$q']"
  else .error (.other "denied")

/-- Two workers finish files out of order, and the merged registry is still that of the paths. -/
theorem merged?_run_twins : ∃ pool registry,
    (start 2 ["app/a.js", "app/b.js", "app/c.js"]).run? "app" readTwins
        [.take 0 0, .take 1 1, .finish 1 1, .take 1 2, .finish 1 2, .finish 0 0] = some pool ∧
      pool.merged? = some registry ∧
      registry = Registry.ofFiles "app" readTwins ["app/a.js", "app/b.js", "app/c.js"] ∧
      registry.dependencies.get? "twin" = some ["$q"] ∧
      registry.failures.map Failure.path = ["c.js"] := by
  -- The first file is finished last, and still the second one decides on the shared name.
  have done : ∃ pool, (start 2 ["app/a.js", "app/b.js", "app/c.js"]).run? "app" readTwins
      [.take 0 0, .take 1 1, .finish 1 1, .take 1 2, .finish 1 2, .finish 0 0] = some pool :=
    ⟨_, rfl⟩
  obtain ⟨pool, done⟩ := done
  obtain ⟨merged, -, -⟩ := merged?_run done
  exact ⟨pool, _, done, merged, rfl, by decide +kernel, by decide +kernel⟩

end Pool

end Stocktake
