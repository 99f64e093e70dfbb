import Beeflow.Scheduler.DagSteps
import Beeflow.Scheduler.PassRuns
import Beeflow.Scheduler.Starting

/-!
# The scheduler loop

A turn of `_run_scheduler_loop` creates runs, starts queued ones, schedules the
running ones and queues task instances, and commits behind each of these. Other
schedulers, workers and users take their steps in between. `loopStep` is the
step of any of them; a turn, and so an invocation of the scheduler, is a run of
such steps.
-/

namespace Beeflow.Airflow

def TaskInstanceKey.run (key : TaskInstanceKey) : String × String := (key.dagId, key.runId)

/-- The columns of a DAG's row that its runs leave alone. -/
def DagModel.settings (m : DagModel) : String × Bool × Bool × Int × Bool :=
  (m.dagId, m.isPaused, m.isActive, m.maxActiveTasks, m.hasTaskConcurrencyLimits)

end Beeflow.Airflow

namespace Beeflow.Scheduler

open Airflow

-- ---------------------------------------------------------------------------
-- The critical section
-- ---------------------------------------------------------------------------

/-- A task instance of a finished run is reset; nobody is told of the others here. -/
def enqueueTaskInstancesWithQueuedState : List TaskInstance → Database → Database
  | [], db => db
  | ti :: tis, db =>
    if (db.dagRunOf ti.key).any (·.state.finished) then
      enqueueTaskInstancesWithQueuedState tis
        { db with
          taskInstances := db.taskInstances.update (·.key = ti.key)
            (fun ti => { ti with state := none }) fun _ => rfl }
    else enqueueTaskInstancesWithQueuedState tis db

def criticalSectionEnqueueTaskInstances (db : Database) (maxTisPerQuery slotsAvailable jobId : Nat)
    (now : Time) : Option (Database × Nat) := do
  let maxTis := if maxTisPerQuery = 0 then slotsAvailable else min maxTisPerQuery slotsAvailable
  let (queuedTis, db) ← executableTaskInstancesToQueued db maxTis jobId now
  some (enqueueTaskInstancesWithQueuedState queuedTis db, queuedTis.length)

-- ---------------------------------------------------------------------------
-- One turn
-- ---------------------------------------------------------------------------

/-- The queries return some of the rows they ask for, each once, in an order of their own. -/
structure SchedulerQueries where
  dagsNeedingDagruns : Database → Time → List String
  needing : ∀ db now, (dagsNeedingDagruns db now).Nodup ∧
    ∀ dagId ∈ dagsNeedingDagruns db now, (db.dagModel dagId).any (needsDagrun · now)
  nextDagrunsToExamine : DagRunState → Database → Time → List (String × String)
  examined : ∀ state db now, (nextDagrunsToExamine state db now).Nodup ∧
    ∀ key ∈ nextDagrunsToExamine state db now, (db.dagRun key).any (toExamine db state now)

/-- Queries without a limit, in the order of the tables. -/
def SchedulerQueries.unlimited : SchedulerQueries where
  dagsNeedingDagruns db now :=
    (db.dagModels.map (·.dagId)).dedup.filter fun dagId =>
      (db.dagModel dagId).any (needsDagrun · now)
  needing _ _ := ⟨(List.nodup_dedup _).filter _, fun _ h => (List.mem_filter.mp h).2⟩
  nextDagrunsToExamine state db now :=
    (db.dagRuns.map (·.key)).dedup.filter fun key => (db.dagRun key).any (toExamine db state now)
  examined _ _ _ := ⟨(List.nodup_dedup _).filter _, fun _ h => (List.mem_filter.mp h).2⟩

/-- What a turn finds outside of the database. -/
structure SchedulerTurn where
  useJobSchedule : Bool
  /-- the runs that `_create_dag_runs_dataset_triggered` adds for the dataset events it finds -/
  datasetTriggered : Database → List { run : DagRun // run.state = .queued }
  /-- `DagRun.update_state` -/
  updateState : Database → DagRun → Decision
  maxTisPerQuery : Nat
  slotsAvailable : Int
  /-- another scheduler is in the critical section -/
  lockHeld : Bool
  jobId : Nat
  /-- the clock when runs are created, started and scheduled, and task instances queued -/
  created : Time
  started : Time
  scheduled : Time
  queued : Time

/-- The unique constraint of `dag_run` -/
def commit (db : Database) : Option Database := if UniqueRuns db then some db else none

def createDagrunsForDags (q : SchedulerQueries) (e : SchedulerTurn) (db : Database) :
    Option Database :=
  if e.useJobSchedule then
    (createDagRuns db ((q.dagsNeedingDagruns db e.created).filterMap db.dagModel)).bind fun db =>
      commit { db with dagRuns := db.dagRuns ++ (e.datasetTriggered db).map (·.val) }
  else some db

def scheduleAllDagRuns (updateState : Database → DagRun → Decision) (now : Time) :
    List DagRun → Database → Database
  | [], db => db
  | run :: runs, db =>
    scheduleAllDagRuns updateState now runs (scheduleDagRun db run now (updateState db run))

/-- The database, and the number of task instances that were queued. -/
def doScheduling (q : SchedulerQueries) (e : SchedulerTurn) (db : Database) :
    Option (Database × Nat) := do
  let db ← createDagrunsForDags q e db
  let queuedRuns := (q.nextDagrunsToExamine .queued db e.started).filterMap db.dagRun
  let db := startQueuedDagruns db queuedRuns e.started
  let dagRuns := (q.nextDagrunsToExamine .running db e.scheduled).filterMap db.dagRun
  let db := scheduleAllDagRuns e.updateState e.scheduled dagRuns db
  if e.slotsAvailable ≤ 0 then some (db, 0)
  else if e.lockHeld then some (db, 0)
  else
    criticalSectionEnqueueTaskInstances db e.maxTisPerQuery e.slotsAvailable.toNat e.jobId e.queued

-- ---------------------------------------------------------------------------
-- The steps of all parties
-- ---------------------------------------------------------------------------

inductive LoopLabel
  | scheduler (l : SchedulerLabel)
  | pass (l : PassLabel)
  /-- a run that somebody else creates, as `_create_dag_runs_dataset_triggered` does -/
  | queue (run : DagRun)

def loopStep (s : SchedulerState) : LoopLabel → Option SchedulerState
  | .scheduler l =>
    (schedulerStep s l).bind fun t => (commit t.db).map fun db => { t with db := db }
  | .pass l => (passStep s.db l).map fun db => { s with db := db }
  | .queue run =>
    if run.state = .queued then
      (commit { s.db with dagRuns := s.db.dagRuns ++ [run] }).map fun db => { s with db := db }
    else none

/-- None of the run's task instances is in `EXECUTION_STATES`. -/
def Idle (db : Database) (key : String × String) : Prop :=
  ∀ ti ∈ db.taskInstances.rows, ti.key.run = key → ti.inExecution = false

instance (db : Database) (key : String × String) : Decidable (Idle db key) :=
  inferInstanceAs (Decidable (∀ ti ∈ _, _))

/-- `update_state` ends a run only where none of its task instances is in execution. -/
def Settles (s : SchedulerState) : LoopLabel → Prop
  | .scheduler (.scheduleDagRun key _ decision) => decision.state ≠ .running → Idle s.db key
  | .scheduler (.updatePausedDags updateState) =>
    ∀ run ∈ s.db.dagRuns, run.state = .running → updateState run ≠ .running → Idle s.db run.key
  | _ => True

instance (s : SchedulerState) : (l : LoopLabel) → Decidable (Settles s l)
  | .scheduler (.scheduleDagRun ..) => inferInstanceAs (Decidable (_ → _))
  | .scheduler (.updatePausedDags _) => inferInstanceAs (Decidable (∀ run ∈ _, _))
  | .scheduler (.createDagRuns ..) | .scheduler (.startQueuedDagruns ..) | .scheduler .newJob
  | .scheduler (.setPaused ..) | .scheduler (.trigger ..) | .pass _ | .queue _ => .isTrue trivial

def SchedulerTurn.Settles (e : SchedulerTurn) : Prop :=
  ∀ db run, (e.updateState db run).state ≠ .running → Idle db run.key

-- ---------------------------------------------------------------------------
-- The loop
-- ---------------------------------------------------------------------------

/-- `for loop_count in itertools.count(start=1)`, at most `fuel` turns of it. -/
def runSchedulerLoop {σ : Type} (numRuns : Int) (turn : Nat → σ → Option σ) :
    Nat → Nat → σ → Option σ
  | 0, _, _ => none
  | fuel + 1, loopCount, s => do
    let t ← turn loopCount s
    if numRuns ≤ loopCount ∧ 0 < numRuns then some t
    else runSchedulerLoop numRuns turn fuel (loopCount + 1) t

/-- A turn, and what the timers and the other parties do until the next one. -/
def turnOf (q : SchedulerQueries) (e : Nat → SchedulerTurn)
    (others : Nat → SchedulerState → List LoopLabel) (loopCount : Nat) (s : SchedulerState) :
    Option SchedulerState := do
  let (db, _) ← doScheduling q (e loopCount) s.db
  let s := { s with db := db }
  Machine.run loopStep s (others loopCount s)

/-- `scheduler_runner.handler`: a new job makes one turn for each record of the event. -/
def schedulerHandler (q : SchedulerQueries) (e : Nat → SchedulerTurn)
    (others : Nat → SchedulerState → List LoopLabel) (records fuel : Nat) (s : SchedulerState) :
    Option SchedulerState :=
  runSchedulerLoop records (turnOf q e others) fuel 1 { s with withoutRunningDagruns := [] }

-- ---------------------------------------------------------------------------
-- Rows
-- ---------------------------------------------------------------------------

section Rows

variable {db db' : Database} {key : String × String} {run : DagRun} {now : Time}
  {decision : Decision}

theorem dagRunOf_eq (db : Database) (key : TaskInstanceKey) :
    db.dagRunOf key = db.dagRun key.run := by
  unfold Database.dagRunOf Database.dagRun
  congr 1
  funext run
  simp [DagRun.key, TaskInstanceKey.run]

theorem dagRun_eq_some (hu : UniqueRuns db) :
    db.dagRun key = some run ↔ run ∈ db.dagRuns ∧ run.key = key := by
  constructor
  · intro h
    exact ⟨List.mem_of_find?_eq_some h, by simpa using List.find?_some h⟩
  · rintro ⟨hmem, rfl⟩
    cases hfind : db.dagRun run.key with
    | none => simpa using List.find?_eq_none.mp hfind run hmem
    | some run' =>
      have hmem' := List.mem_of_find?_eq_some hfind
      have hkey : run'.key = run.key := by simpa using List.find?_some hfind
      rw [List.inj_on_of_nodup_map hu hmem' hmem hkey]

theorem commit_eq_some : commit db = some db' ↔ UniqueRuns db ∧ db = db' := by
  simp [commit]

theorem updateNextDagrun_settings (dag : Dag) (total : Nat) (interval : Int) (m : DagModel) :
    (updateNextDagrun dag total interval m).settings = m.settings := by
  simp only [updateNextDagrun, shouldUpdateDagNextDagruns, calculateDagrunDateFields]
  split_ifs <;> rfl

theorem dagModel_settings {f : DagModel → DagModel} (hf : ∀ m, (f m).settings = m.settings)
    (hmodels : db'.dagModels = db.dagModels.map f) (dagId : String) :
    (db'.dagModel dagId).map DagModel.settings = (db.dagModel dagId).map DagModel.settings := by
  have hid : ∀ m, (f m).dagId = m.dagId := fun m => congrArg Prod.fst (hf m)
  unfold Database.dagModel
  rw [hmodels, find?_map_update (fun m => by rw [hid]), Option.map_map]
  exact congrArg (Option.map · _) (funext hf)

/-- What `_schedule_dag_run` does: nothing, or it fails the run and skips what is left of it, or
the run follows its task instances. -/
theorem scheduleDagRun_cases (db : Database) (run : DagRun) (now : Time) (decision : Decision) :
    scheduleDagRun db run now decision = db ∨
      ∃ f : DagModel → DagModel, (∀ m, (f m).settings = m.settings) ∧
        (scheduleDagRun db run now decision =
            { setTaskState (setRunState db run .failed) (fun ti => ti.dagId = run.dagId &&
                ti.key.runId = run.runId && ti.state.any (·.unfinished)) .skipped with
              dagModels := db.dagModels.map f } ∨
          scheduleDagRun db run now decision =
            { setTaskState (setRunState db run decision.state)
                (·.key ∈ decision.schedulableTis) .scheduled with
              dagModels := db.dagModels.map f }) := by
  have hnext : ∀ (dag : Dag) (total : Nat) (m : DagModel), (if m.dagId = dag.dagId then
      updateNextDagrun dag total run.dataInterval m else m).settings = m.settings := by
    intro dag total m
    split_ifs
    · exact updateNextDagrun_settings ..
    · rfl
  unfold scheduleDagRun
  split
  · exact .inl rfl
  rename_i dag hdag
  split_ifs
  · exact .inr ⟨_, hnext dag _, .inl rfl⟩
  · exact .inl rfl
  · exact .inr ⟨_, hnext dag _, .inr rfl⟩
  · exact .inr ⟨id, fun _ => rfl, .inr (by rw [List.map_id]; rfl)⟩

end Rows

end Beeflow.Scheduler
