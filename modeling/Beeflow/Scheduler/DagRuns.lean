import Beeflow.Airflow.Tables
import Beeflow.Lib.Tally

/-!
# Dag runs

The steps of `BeeflowSchedulerJob` that create, start and end dag runs and
move `next_dagrun` on. `DagRun.update_state` decides from the task instances
what becomes of a run; its decision is an argument here.
-/

namespace Beeflow.Scheduler

open Airflow

-- ---------------------------------------------------------------------------
-- The next dag run
-- ---------------------------------------------------------------------------

/-- `DagRun.active_runs_of_dags` and `DAG.get_num_active_runs(only_running=False)` -/
def activeRuns (runs : List DagRun) (dagId : String) : Nat :=
  Tally.count (·.dagId) (runs.filter (·.state.active)) dagId

/-- `DagRun.active_runs_of_dags(only_running=True)` -/
def runningRuns (runs : List DagRun) (dagId : String) : Nat :=
  Tally.count (·.dagId) (runs.filter (·.state = .running)) dagId

/-- `DagModel.calculate_dagrun_date_fields`: the interval that follows, if the DAG has it. -/
def calculateDagrunDateFields (dag : Dag) (dagModel : DagModel) (interval : Int) : DagModel :=
  if dag.timetable.last.any (· ≤ interval) then
    { dagModel with nextDagrun := none, nextDagrunCreateAfter := none }
  else
    { dagModel with
      nextDagrun := some (interval + 1)
      nextDagrunCreateAfter := some (dag.timetable.boundary (interval + 2)) }

def shouldUpdateDagNextDagruns (dag : Dag) (dagModel : DagModel) (totalActiveRuns : Nat) :
    DagModel × Bool :=
  if dag.maxActiveRuns ≤ totalActiveRuns then
    ({ dagModel with nextDagrunCreateAfter := none }, false)
  else (dagModel, true)

/-- `if self._should_update_dag_next_dagruns(..): dag_model.calculate_dagrun_date_fields(..)` -/
def updateNextDagrun (dag : Dag) (totalActiveRuns : Nat) (interval : Int) (dagModel : DagModel) :
    DagModel :=
  match shouldUpdateDagNextDagruns dag dagModel totalActiveRuns with
  | (dagModel', true) => calculateDagrunDateFields dag dagModel' interval
  | (dagModel', false) => dagModel'

-- ---------------------------------------------------------------------------
-- Creating runs
-- ---------------------------------------------------------------------------

def scheduledRun (dag : Dag) (interval : Int) : DagRun where
  dagId := dag.dagId
  runId := dag.timetable.generateRunId .scheduled (dag.timetable.boundary interval)
  runType := .scheduled
  state := .queued
  executionDate := dag.timetable.boundary interval
  dataInterval := interval
  startDate := none

/-- `_create_dag_runs`, at most `dag_models` behind. The existing runs were read
before the loop; `active` is counted on. A DAG without `next_dagrun` raises. -/
def createDagRunsLoop (existing : List (String × Time)) :
    List DagModel → Database → (String → Nat) → Option Database
  | [], db, _ => some db
  | dagModel :: dagModels, db, active =>
    match db.getDag dagModel.dagId with
    | none => createDagRunsLoop existing dagModels db active
    | some dag =>
      match dagModel.nextDagrun with
      | none => none
      | some interval =>
        if (dag.dagId, dag.timetable.boundary interval) ∈ existing then
          createDagRunsLoop existing dagModels
            (db.updateDagModel dag.dagId (updateNextDagrun dag (active dag.dagId) interval)) active
        else
          let active' := Tally.bump active dag.dagId 1
          let db' := { db with dagRuns := db.dagRuns ++ [scheduledRun dag interval] }
          createDagRunsLoop existing dagModels
            (db'.updateDagModel dag.dagId (updateNextDagrun dag (active' dag.dagId) interval))
            active'

def createDagRuns (db : Database) (dagModels : List DagModel) : Option Database :=
  createDagRunsLoop (db.dagRuns.map fun run => (run.dagId, run.executionDate)) dagModels db
    (activeRuns db.dagRuns)

/-- `DagModel.dags_needing_dagruns` -/
def needsDagrun (dagModel : DagModel) (now : Time) : Bool :=
  !dagModel.isPaused && dagModel.isActive && !dagModel.hasImportErrors &&
    dagModel.nextDagrunCreateAfter.any (· ≤ now)

-- ---------------------------------------------------------------------------
-- Starting runs
-- ---------------------------------------------------------------------------

/-- `_update_state` of `_start_queued_dagruns` -/
def startRun (now : Time) (run : DagRun) : DagRun :=
  { run with state := .running, startDate := some now }

def startQueuedDagrunsLoop (now : Time) : List DagRun → Database → (String → Nat) → Database
  | [], db, _ => db
  | run :: runs, db, active =>
    match db.getDag run.dagId with
    | none => startQueuedDagrunsLoop now runs db active
    | some dag =>
      if dag.maxActiveRuns ≠ 0 ∧ dag.maxActiveRuns ≤ active run.dagId then
        startQueuedDagrunsLoop now runs db active
      else
        startQueuedDagrunsLoop now runs (db.updateDagRun run.key (startRun now))
          (Tally.bump active run.dagId 1)

def startQueuedDagruns (db : Database) (dagRuns : List DagRun) (now : Time) : Database :=
  startQueuedDagrunsLoop now dagRuns db (runningRuns db.dagRuns)

/-- `DagRun.next_dagruns_to_examine` -/
def toExamine (db : Database) (state : DagRunState) (now : Time) (run : DagRun) : Bool :=
  run.state = state && run.runType ≠ .backfillJob && run.executionDate ≤ now &&
    (db.dagModel run.dagId).any fun dagModel => !dagModel.isPaused && dagModel.isActive

-- ---------------------------------------------------------------------------
-- Scheduling a run
-- ---------------------------------------------------------------------------

structure Decision where
  state : DagRunState
  schedulableTis : List TaskInstanceKey

def setTaskState (db : Database) (p : TaskInstance → Bool) (state : TaskInstanceState) :
    Database :=
  { db with
    taskInstances := db.taskInstances.update p (fun ti => { ti with state := some state })
      (fun _ => rfl) }

def setRunState (db : Database) (run : DagRun) (state : DagRunState) : Database :=
  db.updateDagRun run.key fun run => { run with state := state }

def timedOut (dag : Dag) (run : DagRun) (now : Time) : Bool :=
  match run.startDate, dag.dagrunTimeout with
  | some startDate, some timeout => timeout ≠ 0 && startDate < now - timeout
  | _, _ => false

/-- The active runs are counted after the run's state changed. -/
def advance (db : Database) (dag : Dag) (run : DagRun) : Database :=
  db.updateDagModel dag.dagId
    (updateNextDagrun dag (activeRuns db.dagRuns dag.dagId) run.dataInterval)

def scheduleDagRun (db : Database) (run : DagRun) (now : Time) (decision : Decision) : Database :=
  match db.getDag run.dagId with
  | none => db
  | some dag =>
    if timedOut dag run now then
      let db := setRunState db run .failed
      let db := setTaskState db (fun ti => ti.dagId = run.dagId && ti.key.runId = run.runId &&
        ti.state.any (·.unfinished)) .skipped
      advance db dag run
    else if now < run.executionDate ∧ dag.allowFutureExecDates = false then db
    else
      let db := setRunState db run decision.state
      let db := if decision.state.finished then advance db dag run else db
      setTaskState db (·.key ∈ decision.schedulableTis) .scheduled

-- ---------------------------------------------------------------------------
-- Paused dags
-- ---------------------------------------------------------------------------

/-- The paused DAGs that `_update_dag_run_state_for_paused_dags` has not seen yet. -/
def pausedDags (db : Database) (withoutRunningDagruns : List String) : List String :=
  ((db.dagModels.filter (·.isPaused)).map (·.dagId)).filter fun dagId =>
    dagId ∉ withoutRunningDagruns && (db.getDag dagId).isSome

/-- The runs of these DAGs arrive at the state their `update_state` decides. -/
def updateDagRunStateForPausedDags (db : Database) (withoutRunningDagruns : List String)
    (updateState : DagRun → DagRunState) : Database × List String :=
  let dagIds := pausedDags db withoutRunningDagruns
  ({ db with dagRuns := db.dagRuns.map fun run =>
      if run.dagId ∈ dagIds ∧ run.state = .running ∧ run.runType ≠ .backfillJob then
        { run with state := updateState run }
      else run },
    withoutRunningDagruns ++ dagIds)

-- ---------------------------------------------------------------------------
-- Any order of the steps
-- ---------------------------------------------------------------------------

/-- The database, and the DAGs the running job has in `_paused_dag_without_running_dagruns`. -/
structure SchedulerState where
  db : Database
  withoutRunningDagruns : List String

inductive SchedulerLabel
  | createDagRuns (dagIds : List String) (now : Time)
  | startQueuedDagruns (keys : List (String × String)) (now : Time)
  | scheduleDagRun (key : String × String) (now : Time) (decision : Decision)
  | updatePausedDags (updateState : DagRun → DagRunState)
  | newJob
  | setPaused (dagId : String) (isPaused : Bool)
  /-- a manual trigger, whose data interval is the latest complete one -/
  | trigger (dagId runId : String) (executionDate : Time) (interval : Int)

def manualRun (dagId runId : String) (executionDate : Time) (interval : Int) : DagRun where
  dagId := dagId
  runId := runId
  runType := .manual
  state := .queued
  executionDate := executionDate
  dataInterval := interval
  startDate := none

def latestComplete (timetable : Timetable) (interval : Int) (time : Time) : Prop :=
  timetable.boundary (interval + 1) ≤ time ∧ time < timetable.boundary (interval + 2)

instance (timetable : Timetable) (interval : Int) (time : Time) :
    Decidable (latestComplete timetable interval time) :=
  inferInstanceAs (Decidable (_ ∧ _))

/-- The unique constraints of `dag_run` let the run in. -/
def unused (db : Database) (run : DagRun) : Bool :=
  db.dagRuns.all fun other =>
    other.dagId ≠ run.dagId || (other.runId ≠ run.runId && other.executionDate ≠ run.executionDate)

def schedulerStep (s : SchedulerState) : SchedulerLabel → Option SchedulerState
  | .createDagRuns dagIds now =>
    if dagIds.Nodup ∧ ∀ dagId ∈ dagIds, (s.db.dagModel dagId).any (needsDagrun · now) then
      (createDagRuns s.db (dagIds.filterMap s.db.dagModel)).map fun db => { s with db := db }
    else none
  | .startQueuedDagruns keys now =>
    if keys.Nodup ∧ ∀ key ∈ keys, (s.db.dagRun key).any (toExamine s.db .queued now) then
      some { s with db := startQueuedDagruns s.db (keys.filterMap s.db.dagRun) now }
    else none
  | .scheduleDagRun key now decision =>
    match s.db.dagRun key with
    | some run =>
      if toExamine s.db .running now run then
        some { s with db := scheduleDagRun s.db run now decision }
      else none
    | none => none
  | .updatePausedDags updateState =>
    let (db, dagIds) := updateDagRunStateForPausedDags s.db s.withoutRunningDagruns updateState
    some ⟨db, dagIds⟩
  | .newJob => some { s with withoutRunningDagruns := [] }
  | .setPaused dagId isPaused =>
    some { s with db := s.db.updateDagModel dagId fun m => { m with isPaused := isPaused } }
  | .trigger dagId runId executionDate interval =>
    match s.db.getDag dagId with
    | some dag =>
      let run := manualRun dagId runId executionDate interval
      if latestComplete dag.timetable interval executionDate ∧ unused s.db run then
        some { s with db := { s.db with dagRuns := s.db.dagRuns ++ [run] } }
      else none
    | none => none

end Beeflow.Scheduler
