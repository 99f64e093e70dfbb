import Beeflow.Scheduler.ExecutorEvents
import Beeflow.Scheduler.Progress

/-!
# The loop with its executor and its timers

A turn does not end with its scheduling: the executor beats, its reports are
answered, and the timers that are due run. Nothing that the scheduler queues is
sent to the executor, so that it never has anything to report, and has all of
its slots in every turn. What the timers write are steps like those of anybody
else.
-/

namespace Beeflow.Airflow

/-- An executor starts what it was given, and reports of that. -/
structure ExecutorClass where
  heartbeat : Executor → Executor
  parallelism : ∀ x, (heartbeat x).parallelism = x.parallelism
  given : ∀ x, ∀ key ∈ (heartbeat x).keys, key ∈ x.keys

namespace Executor

def new (parallelism : Nat) : Executor := ⟨parallelism, [], [], .empty⟩

/-- Without a `parallelism`, `sys.maxsize` -/
def slotsAvailable (x : Executor) : Int :=
  if x.parallelism = 0 then 2 ^ 63 - 1
  else x.parallelism - x.running.length - x.queuedTasks.length

end Executor

end Beeflow.Airflow

namespace Beeflow.Scheduler

open Airflow Machine

-- ---------------------------------------------------------------------------
-- The timers
-- ---------------------------------------------------------------------------

inductive Timer
  | checkTriggerTimeouts
  | emitPoolMetrics
  | findZombies
  | updateDagRunStateForPausedDags
  deriving DecidableEq, Repr

/-- What a turn of the loop finds outside of the database. -/
structure LoopTurn where
  turn : SchedulerTurn
  events : ExecutorEvents
  due : List Timer
  /-- the column `trigger_timeout` -/
  triggerTimeout : TaskInstance → Option Time
  /-- the rows that `_find_zombies` selects; it raises at the second one -/
  zombies : Nat
  now : Time

def checkTriggerTimeouts (db : Database) (triggerTimeout : TaskInstance → Option Time)
    (now : Time) : Database :=
  { db with
    taskInstances := writeRows db.taskInstances
      (fun ti => ti.state = some .deferred && (triggerTimeout ti).any (· < now)) (some .scheduled) }

/-- Metrics and zombies leave the database alone. -/
def runTimer (e : LoopTurn) (s : SchedulerState) : Timer → Option SchedulerState
  | .checkTriggerTimeouts => some { s with db := checkTriggerTimeouts s.db e.triggerTimeout e.now }
  | .emitPoolMetrics => some s
  | .findZombies => if e.zombies ≤ 1 then some s else none
  | .updateDagRunStateForPausedDags =>
    let (db, withoutRunningDagruns) := updateDagRunStateForPausedDags s.db s.withoutRunningDagruns
      fun run => (e.turn.updateState s.db run).state
    some ⟨db, withoutRunningDagruns⟩

-- ---------------------------------------------------------------------------
-- The loop
-- ---------------------------------------------------------------------------

structure LoopState where
  scheduler : SchedulerState
  executor : Executor

def runLoopTurn (c : ExecutorClass) (q : SchedulerQueries) (e : LoopTurn) (s : LoopState) :
    Option LoopState := do
  let turn := { e.turn with slotsAvailable := s.executor.slotsAvailable }
  let (db, _) ← doScheduling q turn s.scheduler.db
  let executor := c.heartbeat s.executor
  let events := { e.events with selfId := turn.jobId, executor := executor }
  let (responses, outcome) := events.processExecutorEvents db executor.eventBuffer
  let _ ← outcome.toOption
  let scheduler ← e.due.foldlM (runTimer e) { s.scheduler with db := responses.db }
  some ⟨scheduler, { executor with eventBuffer := .empty }⟩

/-- A turn, and what the other parties do until the next one. -/
def loopTurnOf (c : ExecutorClass) (q : SchedulerQueries) (e : Nat → LoopTurn)
    (others : Nat → SchedulerState → List LoopLabel) (loopCount : Nat) (s : LoopState) :
    Option LoopState := do
  let s ← runLoopTurn c q (e loopCount) s
  let scheduler ← run loopStep s.scheduler (others loopCount s.scheduler)
  some { s with scheduler := scheduler }

/-- `_execute`, for an event of so many records. -/
def execute (c : ExecutorClass) (q : SchedulerQueries) (e : Nat → LoopTurn)
    (others : Nat → SchedulerState → List LoopLabel) (parallelism records fuel : Nat)
    (s : SchedulerState) : Option LoopState :=
  runSchedulerLoop records (loopTurnOf c q e others) fuel 1
    ⟨{ s with withoutRunningDagruns := [] }, .new parallelism⟩

/-- A turn of the loop where the executor has these slots and nothing to report. -/
def timedTurn (q : SchedulerQueries) (e : Nat → LoopTurn)
    (others : Nat → SchedulerState → List LoopLabel) (slotsAvailable : Int) (loopCount : Nat)
    (s : SchedulerState) : Option SchedulerState := do
  let e := e loopCount
  let (db, _) ← doScheduling q { e.turn with slotsAvailable := slotsAvailable } s.db
  let s ← e.due.foldlM (runTimer e) { s with db := db }
  run loopStep s (others loopCount s)

-- ---------------------------------------------------------------------------
-- The executor
-- ---------------------------------------------------------------------------

section Executor

variable {c : ExecutorClass} {q : SchedulerQueries} {e : Nat → LoopTurn}
  {others : Nat → SchedulerState → List LoopLabel} {parallelism : Nat}

/-- An executor that was given nothing has nothing to start and nothing to report. -/
theorem heartbeat_new : c.heartbeat (.new parallelism) = .new parallelism := by
  have hkeys : (c.heartbeat (.new parallelism)).keys = [] := by
    refine List.eq_nil_iff_forall_not_mem.mpr fun key hkey => ?_
    cases c.given _ key hkey
  have hparallelism := c.parallelism (.new parallelism)
  generalize c.heartbeat (.new parallelism) = x at hkeys hparallelism
  obtain ⟨n, queuedTasks, running, reports, nodup⟩ := x
  obtain rfl : n = parallelism := hparallelism
  simp only [Executor.keys, List.append_eq_nil_iff, List.map_eq_nil_iff] at hkeys
  obtain ⟨⟨rfl, rfl⟩, rfl⟩ := hkeys
  rfl

theorem processExecutorEvents_new (events : ExecutorEvents) (db : Database) :
    events.processExecutorEvents db (Executor.new parallelism).eventBuffer =
      (⟨db, db, true, [], []⟩, .ok ()) := rfl

theorem loopTurnOf_new (n : Nat) (s : SchedulerState) :
    loopTurnOf c q e others n ⟨s, .new parallelism⟩ =
      (timedTurn q e others (Executor.new parallelism).slotsAvailable n s).map
        (⟨·, .new parallelism⟩) := by
  unfold loopTurnOf runLoopTurn timedTurn
  simp only [heartbeat_new, processExecutorEvents_new, Except.toOption, Option.bind_eq_bind,
    Option.bind_some]
  cases doScheduling q { (e n).turn with
    slotsAvailable := (Executor.new parallelism).slotsAvailable } s.db with
  | none => rfl
  | some scheduled =>
    simp only [Option.bind_some]
    cases (e n).due.foldlM (runTimer (e n)) { s with db := scheduled.1 } with
    | none => rfl
    | some t =>
      simp only [Option.bind_some]
      cases run loopStep t (others n t) <;> rfl

theorem foldlM_new {turns : List Nat} {s : SchedulerState} :
    turns.foldlM (fun s n => loopTurnOf c q e others n s) ⟨s, .new parallelism⟩ =
      (turns.foldlM (fun s n => timedTurn q e others (Executor.new parallelism).slotsAvailable n s)
        s).map (⟨·, .new parallelism⟩) := by
  induction turns generalizing s with
  | nil => rfl
  | cons n turns ih =>
    simp only [List.foldlM_cons, loopTurnOf_new]
    cases timedTurn q e others (Executor.new parallelism).slotsAvailable n s with
    | none => rfl
    | some t => exact ih

end Executor

-- ---------------------------------------------------------------------------
-- What the timers do
-- ---------------------------------------------------------------------------

section Timers

variable {e : LoopTurn} {s t : SchedulerState} {state : Option TaskInstanceState}

theorem writeRows_congr {t : TaskTable} {p p' : TaskInstance → Bool}
    (h : ∀ ti ∈ t.rows, p ti = p' ti) : writeRows t p state = writeRows t p' state :=
  eq_of_rows (List.map_congr_left fun ti hti => by rw [h ti hti])

/-- One write behind the other, for each of the keys. -/
theorem writes_run (hout : state.any (·.inExecution) = false) (keys : List TaskInstanceKey) :
    run loopStep s (keys.map fun key => .pass (.write key state)) =
      some { s with db := { s.db with
        taskInstances := writeRows s.db.taskInstances (·.key ∈ keys) state } } := by
  induction keys generalizing s with
  | nil =>
    have hnothing : writeRows s.db.taskInstances (·.key ∈ ([] : List TaskInstanceKey)) state =
        s.db.taskInstances := eq_of_rows (by simp [writeRows, TaskTable.update])
    rw [hnothing]
    rfl
  | cons key keys ih =>
    have htwice :
        writeRows (writeRows s.db.taskInstances (·.key = key) state) (·.key ∈ keys) state =
        writeRows s.db.taskInstances (·.key ∈ key :: keys) state := by
      refine eq_of_rows ?_
      simp only [writeRows, TaskTable.update, List.map_map]
      refine List.map_congr_left fun ti _ => ?_
      by_cases hkey : ti.key = key <;> by_cases hkeys : ti.key ∈ keys <;> simp [hkey, hkeys]
    have hstays : ¬EntersExecution s.db.taskInstances key state := by simp [EntersExecution, hout]
    rw [List.map_cons, run_cons]
    simp only [loopStep, passStep, if_neg hstays, Option.map_some, Option.bind_some, ih, writeState,
      htwice]

theorem checkTriggerTimeouts_reaches :
    Reaches loopStep Settles s
      { s with db := checkTriggerTimeouts s.db e.triggerTimeout e.now } := by
  let p (ti : TaskInstance) : Bool :=
    ti.state = some .deferred && (e.triggerTimeout ti).any (· < e.now)
  let keys := (s.db.taskInstances.rows.filter p).map (·.key)
  have hsame : writeRows s.db.taskInstances (·.key ∈ keys) (some .scheduled) =
      writeRows s.db.taskInstances p (some .scheduled) := by
    refine writeRows_congr fun ti hti => ?_
    rw [Bool.eq_iff_iff, decide_eq_true_eq]
    constructor
    · intro hmem
      obtain ⟨ti', hti', hkey⟩ := List.mem_map.mp hmem
      obtain ⟨hrow, hp⟩ := List.mem_filter.mp hti'
      rwa [List.inj_on_of_nodup_map s.db.taskInstances.nodup hti hrow hkey.symm]
    · exact fun hp => List.mem_map_of_mem (List.mem_filter.mpr ⟨hti, hp⟩)
  refine ⟨keys.map fun key => .pass (.write key (some .scheduled)), ?_, ?_⟩
  · rw [writes_run rfl, hsame]
    rfl
  · refine along_of_forall fun t l hl => ?_
    obtain ⟨key, -, rfl⟩ := List.mem_map.mp hl
    trivial

theorem runTimer_reaches (he : e.turn.Settles) (hu : UniqueRuns s.db) {timer : Timer}
    (h : runTimer e s timer = some t) : Reaches loopStep Settles s t := by
  cases timer with
  | checkTriggerTimeouts =>
    obtain rfl := Option.some.inj h
    exact checkTriggerTimeouts_reaches
  | emitPoolMetrics =>
    obtain rfl := Option.some.inj h
    exact .refl s
  | findZombies =>
    simp only [runTimer] at h
    split_ifs at h
    obtain rfl := Option.some.inj h
    exact .refl s
  | updateDagRunStateForPausedDags =>
    obtain rfl := Option.some.inj h
    let updateState (run : DagRun) : DagRunState := (e.turn.updateState s.db run).state
    let db := (updateDagRunStateForPausedDags s.db s.withoutRunningDagruns updateState).1
    have hkeys : db.dagRuns.map (·.key) = s.db.dagRuns.map (·.key) := by
      simp only [db, updateDagRunStateForPausedDags, List.map_map]
      refine List.map_congr_left fun run _ => ?_
      rw [Function.comp_apply]
      split_ifs <;> rfl
    have hunique : UniqueRuns db := by
      rw [UniqueRuns, hkeys]
      exact hu
    have hstep : schedulerStep s (.updatePausedDags updateState) = some _ := rfl
    exact scheduler_reaches hstep hunique fun run _ _ hne => he s.db run hne

theorem timers_reach (he : e.turn.Settles) (hu : UniqueRuns s.db) {due : List Timer}
    (h : due.foldlM (runTimer e) s = some t) : Reaches loopStep Settles s t := by
  induction due generalizing s with
  | nil =>
    obtain rfl := Option.some.inj h
    exact .refl s
  | cons timer due ih =>
    obtain ⟨u, htimer, hdue⟩ := Option.bind_eq_some_iff.mp h
    have hfirst := runTimer_reaches he hu htimer
    exact hfirst.trans (ih (Reaches.unique hfirst hu) hdue)

end Timers

-- ---------------------------------------------------------------------------
-- What the loop does
-- ---------------------------------------------------------------------------

section Loop

variable {q : SchedulerQueries} {e : Nat → LoopTurn}
  {others : Nat → SchedulerState → List LoopLabel} {s t : SchedulerState}

theorem timedTurn_reaches {slotsAvailable : Int} {n : Nat} (he : (e n).turn.Settles)
    (hothers : ∀ n s, Along loopStep Settles s (others n s)) (hu : UniqueRuns s.db)
    (h : timedTurn q e others slotsAvailable n s = some t) : Reaches loopStep Settles s t := by
  simp only [timedTurn, bind, Option.bind_eq_some_iff] at h
  obtain ⟨⟨db, queued⟩, hturn, u, hdue, hrun⟩ := h
  have hsettles : SchedulerTurn.Settles { (e n).turn with slotsAvailable := slotsAvailable } := he
  have hscheduling := (doScheduling_reaches hsettles hu hturn).2
  have hreaches := hscheduling.trans (timers_reach he (Reaches.unique hscheduling hu) hdue)
  exact hreaches.trans ⟨_, hrun, hothers n _⟩

end Loop

/-- A turn of the whole loop is its scheduling with all of the executor's slots, and then the
timers: the executor is never given anything, and no report of it is ever answered. What a run of
the loop does to the database is a run of single steps. -/
theorem execute_refines (c : ExecutorClass) (q : SchedulerQueries) (e : Nat → LoopTurn)
    (he : ∀ n, (e n).turn.Settles) (others : Nat → SchedulerState → List LoopLabel)
    (hothers : ∀ n s, Along loopStep Settles s (others n s)) (parallelism : Nat)
    {records fuel : Nat} (hrecords : 0 < records) (hfuel : records ≤ fuel) {s : SchedulerState}
    (hu : UniqueRuns s.db) :
    execute c q e others parallelism records fuel s =
        ((List.range' 1 records).foldlM
          (fun s n => timedTurn q e others (Executor.new parallelism).slotsAvailable n s)
          { s with withoutRunningDagruns := [] }).map (⟨·, .new parallelism⟩) ∧
      ∀ t, execute c q e others parallelism records fuel s = some t →
        Reaches loopStep Settles s t.scheduler := by
  have hleft : 1 + (records - 1) = records := by omega
  have hturns := runSchedulerLoop_eq (loopTurnOf c q e others) hleft
    (by omega : records - 1 < fuel) hrecords
    ⟨{ s with withoutRunningDagruns := [] }, .new parallelism⟩
  rw [Nat.sub_add_cancel hrecords, foldlM_new] at hturns
  refine ⟨hturns, fun t ht => ?_⟩
  obtain ⟨t, hfold, rfl⟩ := Option.map_eq_some_iff.mp (hturns.symm.trans ht)
  have hjob : schedulerStep s .newJob = some { s with withoutRunningDagruns := [] } := rfl
  exact (scheduler_reaches hjob hu trivial).trans
    (foldlM_reaches (fun n _ _ => timedTurn_reaches (he n) hothers) hu hfold)

/-- An executor that starts what it was given. -/
def startsQueued : ExecutorClass where
  heartbeat x := { x with queuedTasks := [], running := x.running ++ x.queuedTasks }
  parallelism _ := rfl
  given x key hkey := by
    simp only [Executor.keys, List.nil_append, List.mem_append] at hkey ⊢
    tauto

/-- All timers are due, and a trigger has timed out. -/
def triggerTimedOut : LoopTurn where
  turn := { endsIdle with updateState := fun _ _ => ⟨.running, []⟩ }
  events :=
    { selfId := 7
      executor := .new 512
      tryNumber := fun _ => 1
      locked := fun _ => false
      inDagbag := fun _ => true
      hasCallback := fun _ => false
      handleFailure := fun _ => some .failed }
  due := [.checkTriggerTimeouts, .emitPoolMetrics, .findZombies, .updateDagRunStateForPausedDags]
  triggerTimeout := fun _ => some 1
  zombies := 1
  now := 2

theorem execute_refines_triggerTimedOut : ∃ t,
    execute startsQueued .unlimited (fun _ => triggerTimedOut) (fun _ _ => []) 512 2 2
        (hourlyLoad .running .deferred) = some t ∧
      t.scheduler.db.taskInstances.rows.map (·.state) = [some .scheduled, some .queued] ∧
      Reaches loopStep Settles (hourlyLoad .running .deferred) t.scheduler := by
  have hstates : (execute startsQueued .unlimited (fun _ => triggerTimedOut) (fun _ _ => []) 512 2 2
      (hourlyLoad .running .deferred)).map (·.scheduler.db.taskInstances.rows.map (·.state)) =
        some [some .scheduled, some .queued] := by decide +kernel
  obtain ⟨t, ht, hrows⟩ := Option.map_eq_some_iff.mp hstates
  exact ⟨t, ht, hrows, (execute_refines startsQueued .unlimited (fun _ => triggerTimedOut)
    (fun _ _ _ hne => absurd rfl hne) (fun _ _ => []) (fun _ _ => trivial) 512
    (by decide : 0 < 2) (by decide : 2 ≤ 2) (by decide)).2 t ht⟩

end Beeflow.Scheduler
