import Beeflow.Lib.Comprehension
import Beeflow.Lib.Machine
import Beeflow.Scheduler.Loop

/-!
# A pass respects every limit

The list a pass returns stays within the open slots of each pool and within
the limits of each DAG and task, as they were on entry. Since a pass queues
exactly what it returns, no pass of a run takes a pool, a DAG or a task above
its limit, and a run that starts within the pools' totals stays within them.
-/

namespace Beeflow.Scheduler

open Airflow

def occupiedSlots (db : Database) (pool : String) : Int :=
  Tally.weight (·.pool) (·.poolSlots) (db.taskInstances.rows.filter (·.inExecution)) pool

/-- The DAG's task instances in `EXECUTION_STATES`. -/
def activeOfDag (db : Database) (dagId : String) : Nat :=
  Tally.count (·.dagId) (db.taskInstances.rows.filter (·.inExecution)) dagId

def activeOfTask (db : Database) (task : String × String) : Nat :=
  Tally.count (·.task) (db.taskInstances.rows.filter (·.inExecution)) task

-- ---------------------------------------------------------------------------
-- The counters on entry
-- ---------------------------------------------------------------------------

theorem inExecution_perm (rows : List TaskInstance) :
    (rows.filter (·.inExecution)).Perm
      (rows.filter (·.state = some .running) ++ rows.filter (·.state = some .queued)) := by
  have h := Tally.filter_or_perm (p := fun ti : TaskInstance => decide (ti.state = some .queued))
    (q := fun ti => decide (ti.state = some .running)) (l := rows) (by simp +contextual)
  refine List.Perm.trans (.of_eq ?_) h
  refine List.filter_congr fun ti _ => ?_
  unfold TaskInstance.inExecution
  cases hs : ti.state with
  | none => rfl
  | some st => cases st <;> rfl

def poolTotal (db : Database) (pool : String) : Option Slots :=
  (db.pools.lookup pool).map fun slots : Int => if slots = -1 then .inf else slots

theorem lookup_slotsStats (db : Database) (pool : String) :
    (slotsStats db).lookup pool = (poolTotal db pool).map fun total =>
      ⟨total, (total.sub (slotsIn db.taskInstances.rows .running pool)).sub
        (slotsIn db.taskInstances.rows .queued pool)⟩ := by
  rw [poolTotal, Option.map_map]
  exact Comprehension.lookup_map (fun pool (slots : Int) =>
    let total : Slots := if slots = -1 then .inf else slots
    (⟨total, (total.sub (slotsIn db.taskInstances.rows .running pool)).sub
      (slotsIn db.taskInstances.rows .queued pool)⟩ : PoolStats)) db.pools pool

theorem occupied_eq (db : Database) (pool : String) :
    occupiedSlots db pool = slotsIn db.taskInstances.rows .queued pool +
      slotsIn db.taskInstances.rows .running pool := by
  rw [occupiedSlots, Tally.weight_perm (inExecution_perm _), Tally.weight_append, add_comm]
  rfl

theorem openSlots_eq {db : Database} {pool : String} {stats : PoolStats}
    (h : (slotsStats db).lookup pool = some stats) :
    poolTotal db pool = some stats.total ∧
      stats.openSlots = stats.total.sub (occupiedSlots db pool) := by
  rw [lookup_slotsStats, Option.map_eq_some_iff] at h
  obtain ⟨total, ht, rfl⟩ := h
  refine ⟨ht, ?_⟩
  rw [occupied_eq, add_comm, Slots.sub_sub]

theorem start_openSlots {db : Database} {pool : String} {stats : PoolStats}
    (h : (slotsStats db).lookup pool = some stats) :
    (Pass.start db).openSlots pool = stats.openSlots := by
  simp [Pass.start, h]

theorem dagMap_eq (rows : List TaskInstance) (dagId : String) :
    dagMap rows dagId = Tally.count (·.dagId) (rows.filter (·.inExecution)) dagId :=
  Tally.groups_sum (fun task : String × String => task.1) dagId

theorem taskMap_eq (rows : List TaskInstance) (task : String × String) :
    taskMap rows task = Tally.count (·.task) (rows.filter (·.inExecution)) task :=
  Tally.groups_update task

-- ---------------------------------------------------------------------------
-- What the pass returns
-- ---------------------------------------------------------------------------

/-- The list respects every limit of the snapshot. -/
structure Respects (db : Database) (maxTis : Nat) (tis : List TaskInstance) : Prop where
  nodup : (tis.map (·.key)).Nodup
  length : tis.length ≤ maxTis
  pool : ∀ ti ∈ tis, ∃ stats, (slotsStats db).lookup ti.pool = some stats ∧ 0 < stats.openSlots ∧
    (Tally.weight (·.pool) (·.poolSlots) tis ti.pool : Slots) ≤ stats.openSlots
  dag : ∀ ti ∈ tis, ∃ model, db.dagModel ti.dagId = some model ∧
    (activeOfDag db ti.dagId + Tally.count (·.dagId) tis ti.dagId : Int) ≤ model.maxActiveTasks
  task : ∀ ti ∈ tis, ∀ model, db.dagModel ti.dagId = some model → model.hasTaskConcurrencyLimits →
    ∀ dag, db.getDag ti.dagId = some dag →
      ∀ limit, taskConcurrencyLimit dag ti.taskId = some limit →
        (activeOfTask db ti.task + Tally.count (·.task) tis ti.task : Int) ≤ limit

theorem Pass.Kept.respects {db : Database} {s : Pass} (h : s.Kept db) {maxTis : Nat}
    (hn : (s.executableTis.map (·.ti.key)).Nodup) (hlen : s.executableTis.length ≤ maxTis)
    (hj : ∀ c ∈ s.executableTis, db.dagModel c.ti.dagId = some c.dagModel) :
    Respects db maxTis (s.executableTis.map (·.ti)) where
  nodup := by rwa [List.map_map]
  length := by rwa [List.length_map]
  pool := by
    intro ti hti
    obtain ⟨c, hc, rfl⟩ := List.mem_map.mp hti
    obtain ⟨hpool, hopen, hclosed⟩ := h.within.pool c hc
    obtain ⟨stats, hstats⟩ := Option.isSome_iff_exists.mp hpool
    rw [start_openSlots hstats] at hopen
    refine ⟨stats, hstats, hopen, ?_⟩
    rw [h.counted.openSlots, start_openSlots hstats, Slots.zero_le_sub] at hclosed
    rwa [Tally.weight_comp]
  dag := by
    intro ti hti
    obtain ⟨c, hc, rfl⟩ := List.mem_map.mp hti
    refine ⟨c.dagModel, hj c hc, ?_⟩
    have hle := h.within.dag c hc _ (hj c hc)
    rw [h.counted.dagActiveTasks] at hle
    rw [Tally.count_comp, activeOfDag, ← dagMap_eq]
    exact_mod_cast hle
  task := by
    intro ti hti model hmodel hlimits dag hdag limit hlimit
    obtain ⟨c, hc, rfl⟩ := List.mem_map.mp hti
    have hle := h.within.task c hc model hmodel hlimits dag hdag limit hlimit
    rw [h.counted.taskConcurrency] at hle
    rw [Tally.count_comp, activeOfTask, ← taskMap_eq]
    exact_mod_cast hle

theorem capTis_le (maxTis : Nat) (free : Slots) : capTis maxTis free ≤ maxTis := by
  cases free with
  | num n =>
    unfold capTis
    dsimp only
    split_ifs with h
    · exact Int.toNat_le.mpr h
    · exact le_rfl
  | inf => exact le_rfl

end Beeflow.Scheduler
