import Mathlib.Data.List.Basic
import Mathlib.Data.Int.Order.Basic

/-!
# The metadata database

The tables of Airflow's metadata database that the scheduler reads and writes,
with the columns its queries use. A primary key the proofs rely on is a field
of the table; the queries are the ones the scheduler issues.
-/

namespace Beeflow.Airflow

/-- Microseconds since the epoch. -/
abbrev Time := Int

inductive TaskInstanceState
  | removed | scheduled | queued | running | success | shutdown | restarting | failed
  | upForRetry | upForReschedule | upstreamFailed | skipped | deferred
  deriving DecidableEq, Repr

inductive DagRunState
  | queued | running | success | failed
  deriving DecidableEq, Repr

inductive DagRunType
  | backfillJob | scheduled | manual | datasetTriggered
  deriving DecidableEq, Repr

def TaskInstanceState.value : TaskInstanceState → String
  | .removed => "removed"
  | .scheduled => "scheduled"
  | .queued => "queued"
  | .running => "running"
  | .success => "success"
  | .shutdown => "shutdown"
  | .restarting => "restarting"
  | .failed => "failed"
  | .upForRetry => "up_for_retry"
  | .upForReschedule => "up_for_reschedule"
  | .upstreamFailed => "upstream_failed"
  | .skipped => "skipped"
  | .deferred => "deferred"

def DagRunState.value : DagRunState → String
  | .queued => "queued"
  | .running => "running"
  | .success => "success"
  | .failed => "failed"

/-- `EXECUTION_STATES` of `airflow.ti_deps.dependencies_states`. -/
def TaskInstanceState.inExecution : TaskInstanceState → Bool
  | .running | .queued => true
  | _ => false

/-- `RUNNABLE_STATES`: a worker takes the task instance up. -/
def runnableState : Option TaskInstanceState → Bool
  | none | some .upForRetry | some .upForReschedule | some .queued => true
  | _ => false

/-- `State.unfinished`, less the state NULL, which `IN` never matches. -/
def TaskInstanceState.unfinished : TaskInstanceState → Bool
  | .success | .failed | .skipped | .upstreamFailed | .removed => false
  | _ => true

/-- `State.finished`, for a dag run. -/
def DagRunState.finished : DagRunState → Bool
  | .success | .failed => true
  | .queued | .running => false

def DagRunState.active : DagRunState → Bool
  | .queued | .running => true
  | .success | .failed => false

-- ---------------------------------------------------------------------------
-- Task instances
-- ---------------------------------------------------------------------------

structure TaskInstanceKey where
  dagId : String
  taskId : String
  runId : String
  mapIndex : Int
  deriving DecidableEq, Repr

structure TaskInstance where
  key : TaskInstanceKey
  state : Option TaskInstanceState
  pool : String
  poolSlots : Int
  priorityWeight : Int
  queuedDttm : Option Time
  queuedByJobId : Option Nat
  jobId : Option Nat
  hostname : Option String
  externalExecutorId : Option String
  deriving DecidableEq, Repr

namespace TaskInstance

def dagId (ti : TaskInstance) : String := ti.key.dagId

def taskId (ti : TaskInstance) : String := ti.key.taskId

def task (ti : TaskInstance) : String × String := (ti.dagId, ti.taskId)

def inExecution (ti : TaskInstance) : Bool := ti.state.any (·.inExecution)

end TaskInstance

/-- The rows of `task_instance`; no two share a primary key. -/
structure TaskTable where
  rows : List TaskInstance
  nodup : (rows.map (·.key)).Nodup

/-- `UPDATE task_instance SET ... WHERE p`. An update writes columns outside the key. -/
def TaskTable.update (t : TaskTable) (p : TaskInstance → Bool) (f : TaskInstance → TaskInstance)
    (hf : ∀ ti, (f ti).key = ti.key) : TaskTable where
  rows := t.rows.map fun ti => if p ti then f ti else ti
  nodup := by
    have hkey : ((·.key) ∘ fun ti => if p ti then f ti else ti) = (TaskInstance.key ·) := by
      funext ti
      by_cases hp : p ti <;> simp [hp, hf]
    rw [List.map_map, hkey]
    exact t.nodup

-- ---------------------------------------------------------------------------
-- Dags and their runs
-- ---------------------------------------------------------------------------

/-- A timetable of consecutive data intervals: interval `k` lasts from
`boundary k` to `boundary (k + 1)` and is named by its number. `last` is the
last interval of a DAG with an end date. -/
structure Timetable where
  boundary : Int → Time
  mono : ∀ i j, i < j → boundary i < boundary j
  last : Option Int
  generateRunId : DagRunType → Time → String

structure Dag where
  dagId : String
  maxActiveRuns : Nat
  dagrunTimeout : Option Time
  allowFutureExecDates : Bool
  timetable : Timetable
  /-- `task_id` and its `max_active_tis_per_dag` -/
  tasks : List (String × Option Int)

structure DagModel where
  dagId : String
  isPaused : Bool
  isActive : Bool
  hasImportErrors : Bool
  fileloc : Option String
  processorSubdir : Option String
  maxActiveTasks : Int
  hasTaskConcurrencyLimits : Bool
  /-- the number of the next interval; `next_dagrun` is its start -/
  nextDagrun : Option Int
  nextDagrunCreateAfter : Option Time
  deriving DecidableEq, Repr

structure DagRun where
  dagId : String
  runId : String
  runType : DagRunType
  state : DagRunState
  executionDate : Time
  dataInterval : Int
  startDate : Option Time
  deriving DecidableEq, Repr

def DagRun.key (run : DagRun) : String × String := (run.dagId, run.runId)

structure Database where
  /-- `slot_pool`: the pools and their slots -/
  pools : List (String × Int)
  dagModels : List DagModel
  dagRuns : List DagRun
  serializedDags : List Dag
  taskInstances : TaskTable

namespace Database

/-- `DagBag.get_dag`: the serialized DAG, if there is one. -/
def getDag (db : Database) (dagId : String) : Option Dag :=
  db.serializedDags.find? (·.dagId = dagId)

/-- `DagModel.get_dagmodel`, and the joins on `dag_id`. -/
def dagModel (db : Database) (dagId : String) : Option DagModel :=
  db.dagModels.find? (·.dagId = dagId)

def dagRun (db : Database) (key : String × String) : Option DagRun :=
  db.dagRuns.find? (·.key = key)

/-- `UPDATE dag ... WHERE dag_id`. An update writes columns outside the key. -/
def updateDagModel (db : Database) (dagId : String) (f : DagModel → DagModel) : Database :=
  { db with dagModels := db.dagModels.map fun m => if m.dagId = dagId then f m else m }

/-- `UPDATE dag_run ... WHERE dag_id, run_id` -/
def updateDagRun (db : Database) (key : String × String) (f : DagRun → DagRun) : Database :=
  { db with dagRuns := db.dagRuns.map fun run => if run.key = key then f run else run }

/-- The join `TI.dag_run`. -/
def dagRunOf (db : Database) (key : TaskInstanceKey) : Option DagRun :=
  db.dagRuns.find? fun run => run.dagId = key.dagId ∧ run.runId = key.runId

end Database

end Beeflow.Airflow
