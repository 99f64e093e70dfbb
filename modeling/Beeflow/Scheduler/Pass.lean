import Beeflow.Airflow.Tables
import Beeflow.Lib.Tally
import Mathlib.Data.Finset.Card
import Mathlib.Data.List.Sort

/-!
# The admission pass

`BeeflowSchedulerJob._executable_task_instances_to_queued`: the scheduler
reads the pools, then repeats one query over the scheduled task instances,
examining each window in priority order against four counters. A task
instance that some limit rejects adds its pool, its DAG or its task to an
exclusion set, and the next query leaves those out. The loop ends as soon as
a window admitted something or could not have admitted more.
-/

namespace Beeflow.Scheduler

open Airflow

-- ---------------------------------------------------------------------------
-- Pools
-- ---------------------------------------------------------------------------

/-- A number of slots; a pool of size -1 has `inf` of them. -/
inductive Slots
  | num (n : Int)
  | inf
  deriving DecidableEq, Repr

namespace Slots

instance : Coe Int Slots := ⟨num⟩

instance : Zero Slots := ⟨num 0⟩

def AtMost : Slots → Slots → Prop
  | num m, num n => m ≤ n
  | inf, num _ => False
  | _, inf => True

instance : LE Slots := ⟨AtMost⟩

instance : LT Slots := ⟨fun s t => ¬t ≤ s⟩

instance decidableLE : (s t : Slots) → Decidable (s ≤ t)
  | num m, num n => inferInstanceAs (Decidable (m ≤ n))
  | inf, num _ => .isFalse id
  | num _, inf => .isTrue trivial
  | inf, inf => .isTrue trivial

instance decidableLT (s t : Slots) : Decidable (s < t) := inferInstanceAs (Decidable (¬t ≤ s))

def sub : Slots → Int → Slots
  | num m, n => num (m - n)
  | inf, _ => inf

def add : Slots → Slots → Slots
  | num m, num n => num (m + n)
  | _, inf => inf
  | inf, _ => inf

end Slots

structure PoolStats where
  total : Slots
  openSlots : Slots
  deriving DecidableEq

def slotsIn (rows : List TaskInstance) (state : TaskInstanceState) (pool : String) : Int :=
  Tally.weight (·.pool) (·.poolSlots) (rows.filter (·.state = some state)) pool

/-- `Pool.slots_stats` -/
def slotsStats (db : Database) : List (String × PoolStats) :=
  db.pools.map fun (pool, slots) =>
    let total : Slots := if slots = -1 then .inf else slots
    let running := slotsIn db.taskInstances.rows .running pool
    let queued := slotsIn db.taskInstances.rows .queued pool
    (pool, ⟨total, (total.sub running).sub queued⟩)

-- ---------------------------------------------------------------------------
-- The concurrency maps
-- ---------------------------------------------------------------------------

/-- The query of `__get_concurrency_maps`: `GROUP BY task_id, dag_id` over the
task instances in `EXECUTION_STATES`. -/
def tiConcurrencyQuery (rows : List TaskInstance) : List ((String × String) × Nat) :=
  Tally.groups TaskInstance.task (rows.filter (·.inExecution))

def dagMap (rows : List TaskInstance) : String → Nat :=
  (tiConcurrencyQuery rows).foldl (fun m result => Tally.bump m result.1.1 result.2) fun _ => 0

def taskMap (rows : List TaskInstance) : String × String → Nat :=
  (tiConcurrencyQuery rows).foldl (fun m result => Function.update m result.1 result.2) fun _ => 0

-- ---------------------------------------------------------------------------
-- The state of a pass
-- ---------------------------------------------------------------------------

structure Candidate where
  ti : TaskInstance
  dagRun : DagRun
  dagModel : DagModel
  deriving DecidableEq

structure Pass where
  taskInstances : TaskTable
  /-- `pools[pool]["open"]` -/
  openSlots : String → Slots
  dagActiveTasks : String → Nat
  taskConcurrency : String × String → Nat
  starvedPools : Finset String
  starvedDags : Finset String
  starvedTasks : Finset (String × String)
  executableTis : List Candidate

def Pass.start (db : Database) : Pass where
  taskInstances := db.taskInstances
  openSlots pool := (((slotsStats db).lookup pool).map (·.openSlots)).getD 0
  dagActiveTasks := dagMap db.taskInstances.rows
  taskConcurrency := taskMap db.taskInstances.rows
  starvedPools := (((slotsStats db).filter (·.2.openSlots ≤ 0)).map (·.1)).toFinset
  starvedDags := ∅
  starvedTasks := ∅
  executableTis := []

-- ---------------------------------------------------------------------------
-- The query
-- ---------------------------------------------------------------------------

def joined (db : Database) (rows : List TaskInstance) : List Candidate :=
  rows.filterMap fun ti => do
    let dagRun ← db.dagRunOf ti.key
    let dagModel ← db.dagModel ti.dagId
    some ⟨ti, dagRun, dagModel⟩

def Candidate.eligible (c : Candidate) : Bool :=
  c.dagRun.runType ≠ .backfillJob && c.dagRun.state = .running && !c.dagModel.isPaused &&
    c.ti.state = some .scheduled

/-- `ORDER BY -priority_weight, execution_date` -/
def Candidate.before (a b : Candidate) : Prop :=
  b.ti.priorityWeight < a.ti.priorityWeight ∨
    (a.ti.priorityWeight = b.ti.priorityWeight ∧ a.dagRun.executionDate ≤ b.dagRun.executionDate)

instance : DecidableRel Candidate.before := fun _ _ => inferInstanceAs (Decidable (_ ∨ _))

/-- The scheduled task instances in the order of the query, ties in row order. -/
def candidates (db : Database) (rows : List TaskInstance) : List Candidate :=
  ((joined db rows).filter (·.eligible)).insertionSort Candidate.before

def Pass.starves (s : Pass) (c : Candidate) : Bool :=
  c.ti.pool ∈ s.starvedPools || c.ti.dagId ∈ s.starvedDags || c.ti.task ∈ s.starvedTasks

/-- `task_instances_to_examine` -/
def Pass.query (db : Database) (maxTis : Nat) (s : Pass) : List Candidate :=
  ((candidates db s.taskInstances.rows).filter (!s.starves ·)).take maxTis

-- ---------------------------------------------------------------------------
-- Examining a window
-- ---------------------------------------------------------------------------

/-- The task instances of a DAG that is not serialized fail. -/
def failScheduled (t : TaskTable) (dagId : String) : TaskTable :=
  t.update (fun ti => ti.dagId = dagId && ti.state = some .scheduled)
    (fun ti => { ti with state := some .failed }) fun _ => rfl

/-- `serialized_dag.get_task(task_id).max_active_tis_per_dag`, if the DAG has the task. -/
def taskConcurrencyLimit (dag : Dag) (taskId : String) : Option Int :=
  (dag.tasks.lookup taskId).join

def Pass.accept (s : Pass) (c : Candidate) : Pass :=
  { s with
    executableTis := s.executableTis ++ [c]
    openSlots := Function.update s.openSlots c.ti.pool
      ((s.openSlots c.ti.pool).sub c.ti.poolSlots)
    dagActiveTasks := Tally.bump s.dagActiveTasks c.ti.dagId 1
    taskConcurrency := Tally.bump s.taskConcurrency c.ti.task 1 }

def Pass.starvePool (s : Pass) (pool : String) : Pass :=
  { s with starvedPools := insert pool s.starvedPools }

def Pass.starveDag (s : Pass) (dagId : String) : Pass :=
  { s with starvedDags := insert dagId s.starvedDags }

def Pass.starveTask (s : Pass) (task : String × String) : Pass :=
  { s with starvedTasks := insert task s.starvedTasks }

def Pass.examine (db : Database) (s : Pass) (c : Candidate) : Pass :=
  match (slotsStats db).lookup c.ti.pool with
  | none => s.starvePool c.ti.pool
  | some poolStats =>
    let openSlots := s.openSlots c.ti.pool
    if openSlots ≤ 0 then s.starvePool c.ti.pool
    else if poolStats.total < c.ti.poolSlots then s.starveTask c.ti.task
    else if openSlots < c.ti.poolSlots then s.starveTask c.ti.task
    else if c.dagModel.maxActiveTasks ≤ s.dagActiveTasks c.ti.dagId then s.starveDag c.ti.dagId
    else if c.dagModel.hasTaskConcurrencyLimits then
      match db.getDag c.ti.dagId with
      | none => { s with taskInstances := failScheduled s.taskInstances c.ti.dagId }
      | some serializedDag =>
        match taskConcurrencyLimit serializedDag c.ti.taskId with
        | some limit =>
          if limit ≤ s.taskConcurrency c.ti.task then s.starveTask c.ti.task else s.accept c
        | none => s.accept c
    else s.accept c

-- ---------------------------------------------------------------------------
-- The loop
-- ---------------------------------------------------------------------------

def Pass.examineAll (db : Database) (s : Pass) (window : List Candidate) : Pass :=
  window.foldl (Pass.examine db) s

def Pass.foundNewFilters (before after : Pass) : Bool :=
  before.starvedPools.card < after.starvedPools.card ||
    before.starvedDags.card < after.starvedDags.card ||
    before.starvedTasks.card < after.starvedTasks.card

/-- One turn of the outer loop, and whether another one follows. -/
def Pass.iterate (db : Database) (maxTis : Nat) (s : Pass) : Pass × Bool :=
  let window := s.query db maxTis
  if window.length = 0 then (s, false)
  else
    let s' := s.examineAll db window
    let isDone := !s'.executableTis.isEmpty || window.length < maxTis
    (s', !(isDone || !s.foundNewFilters s'))

/-- `for loop_count in itertools.count(start=1)`, at most `fuel` turns of it. -/
def Pass.loop (db : Database) (maxTis : Nat) : Nat → Pass → Option Pass
  | 0, _ => none
  | fuel + 1, s =>
    match s.iterate db maxTis with
    | (s', true) => Pass.loop db maxTis fuel s'
    | (s', false) => some s'

/-- Every turn but the last adds a pool, a DAG or a task of some row to an exclusion set. -/
def turns (db : Database) : Nat := 3 * db.taskInstances.rows.length + 1

/-- The `UPDATE` that queues the chosen task instances. -/
def setQueued (t : TaskTable) (keys : List TaskInstanceKey) (jobId : Nat) (now : Time) :
    TaskTable :=
  t.update (·.key ∈ keys)
    (fun ti => { ti with
      state := some .queued, queuedDttm := some now, queuedByJobId := some jobId })
    fun _ => rfl

/-- `sum(max(0, pool['open']) for pool in pools.values())` -/
def poolSlotsFree (db : Database) : Slots :=
  ((slotsStats db).map fun p => if p.2.openSlots ≤ 0 then 0 else p.2.openSlots).foldl .add 0

/-- `min(max_tis, pool_slots_free)` -/
def capTis (maxTis : Nat) : Slots → Nat
  | .num free => if free ≤ maxTis then free.toNat else maxTis
  | .inf => maxTis

/-- The task instances the pass moves to QUEUED, and the database it leaves. -/
def executableTaskInstancesToQueued (db : Database) (maxTis jobId : Nat) (now : Time) :
    Option (List TaskInstance × Database) :=
  if poolSlotsFree db = 0 then some ([], db)
  else do
    let s ← Pass.loop db (capTis maxTis (poolSlotsFree db)) (turns db) (.start db)
    let tis := s.executableTis.map (·.ti)
    some (tis, { db with taskInstances := setQueued s.taskInstances (tis.map (·.key)) jobId now })

end Beeflow.Scheduler
