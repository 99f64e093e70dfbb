import Beeflow.Scheduler.Scheduling

/-!
# The reports of the executor

An executor reports of a task instance under its key and its try number.
`_process_executor_events` answers the last report of each task instance: it
notes the id under which one was queued, and it fails one that the executor has
finished while its row still says queued. To fail one it asks for its DAG in a
session of its own, which is the session of the thread: on the way out that is
committed or rolled back, and closed, and what is assigned to a row behind that
is never written.
-/

namespace Beeflow.Airflow

/-- `TaskInstanceKey` of Airflow, whose `primary` is the key of the row. -/
structure ReportKey where
  primary : TaskInstanceKey
  tryNumber : Int
  deriving DecidableEq, Repr

structure Report where
  key : ReportKey
  state : TaskInstanceState
  info : Option String
  deriving DecidableEq, Repr

/-- A dictionary of reports, in the order in which they came in. -/
structure EventBuffer where
  reports : List Report
  nodup : (reports.map (·.key)).Nodup

def EventBuffer.empty : EventBuffer := ⟨[], List.nodup_nil⟩

/-- The bookkeeping of `BaseExecutor` -/
structure Executor where
  parallelism : Nat
  queuedTasks : List ReportKey
  running : List ReportKey
  eventBuffer : EventBuffer

namespace Executor

/-- The task instances that the executor was given. -/
def keys (x : Executor) : List ReportKey :=
  x.queuedTasks ++ x.running ++ x.eventBuffer.reports.map (·.key)

def hasTask (x : Executor) (key : ReportKey) : Bool :=
  key ∈ x.queuedTasks || key ∈ x.running

end Executor

end Beeflow.Airflow

namespace Beeflow.Scheduler

open Airflow

/-- What `_process_executor_events` finds outside of the database and of the buffer. -/
structure ExecutorEvents where
  selfId : Nat
  executor : Executor
  /-- `TaskInstance.try_number` -/
  tryNumber : TaskInstance → Int
  /-- the rows that another scheduler has locked -/
  locked : TaskInstanceKey → Bool
  /-- the DAGs that the dagbag has read before; of one that is gone it returns `None` -/
  inDagbag : String → Bool
  /-- a task with an `on_retry_callback` or an `on_failure_callback` -/
  hasCallback : String × String → Bool
  /-- the state that `TaskInstance.handle_failure` arrives at -/
  handleFailure : TaskInstance → Option TaskInstanceState

/-- A `TaskCallbackRequest`, whose `msg` names the task instance and the report. -/
structure FailureCallback where
  fullFilepath : Option String
  processorSubdir : Option String
  simpleTaskInstance : TaskInstance
  report : Report
  deriving DecidableEq

inductive ResponseError
  | keyError
  /-- an attribute of a row that was rolled back and has no session to be loaded in -/
  | detachedInstance
  /-- `fileloc` of a `dag_model` that is `None` -/
  | attributeError
  deriving DecidableEq, Repr

structure Responses where
  /-- what the session would commit -/
  db : Database
  /-- what a rollback goes back to -/
  committed : Database
  /-- the rows of the query belong to the session -/
  attached : Bool
  /-- the reports that nobody has answered -/
  buffer : List Report
  callbacks : List FailureCallback

namespace Responses

/-- The end of a session that was opened in the thread. -/
def close (r : Responses) (db : Database) : Responses :=
  { r with db := db, committed := db, attached := false }

def rollback (r : Responses) : Responses := { r with db := r.committed }

def pop (r : Responses) (report : Report) : Responses :=
  { r with buffer := r.buffer.filter (·.key ≠ report.key) }

end Responses

/-- The report that `ti_primary_key_to_try_number_map` leads to: a later one overwrites the try
number of an earlier one. -/
def lastReport (reports : List Report) (key : TaskInstanceKey) : Option Report :=
  reports.reverse.find? (·.key.primary = key)

def tiPrimaryKeyToTryNumberMap (reports : List Report) (key : TaskInstanceKey) : Option Int :=
  (lastReport reports key).map (·.key.tryNumber)

def tisWithRightState (reports : List Report) : List TaskInstanceKey :=
  (reports.filter fun r => r.state = .failed || r.state = .success || r.state = .queued).map
    (·.key.primary)

/-- `session.merge(ti)` -/
def merge (db : Database) (ti : TaskInstance) : Database :=
  { db with
    taskInstances := db.taskInstances.update (·.key = ti.key)
      (fun row => { ti with key := row.key }) fun _ => rfl }

/-- How `self.dagbag.get_dag(ti.dag_id)` and `dag.get_task(ti.task_id)` end. -/
inductive TaskLookup
  | found
  /-- `get_dag` returns `None`, or a DAG without the task -/
  | missing
  /-- `get_dag` raises `SerializedDagNotFound` -/
  | dagRaises
  deriving DecidableEq, Repr

namespace ExecutorEvents

variable (e : ExecutorEvents)

/-- `ti_queued and not ti_requeued` -/
def killedExternally (report : Report) (ti : TaskInstance) : Bool :=
  e.tryNumber ti = report.key.tryNumber && ti.state = some .queued &&
    ti.queuedByJobId = some e.selfId && !e.executor.hasTask ⟨ti.key, e.tryNumber ti⟩

def getTask (db : Database) (ti : TaskInstance) : TaskLookup :=
  match db.getDag ti.dagId with
  | some dag => if (dag.tasks.lookup ti.taskId).isSome then .found else .missing
  | none => if e.inDagbag ti.dagId then .missing else .dagRaises

/-- One turn of the loop. What `get_dag` raises rolls back; a row that was attached is expired by
that, so that its `set_state` raises too. -/
def respond (r : Responses) (report : Report) (ti : TaskInstance) :
    Responses × Except ResponseError Unit :=
  if report.state = .queued then
    (if r.attached then { r with db := merge r.db { ti with externalExecutorId := report.info } }
      else r, .ok ())
  else if e.killedExternally report ti then
    match e.getTask r.db ti with
    | .dagRaises =>
      if r.attached then (r.rollback, .error .detachedInstance)
      else (r.close (merge r.committed { ti with state := some report.state }), .ok ())
    | .missing => (r.close (merge r.db { ti with state := some report.state }), .ok ())
    | .found =>
      if e.hasCallback ti.task then
        match r.db.dagModel ti.dagId with
        | none => (r.close r.db, .error .attributeError)
        | some dagModel =>
          let request := ⟨dagModel.fileloc, dagModel.processorSubdir, ti, report⟩
          ({ r.close r.db with callbacks := r.callbacks ++ [request] }, .ok ())
      else
        -- the failure is merged into the session that `get_dag` has left, and not committed yet
        ({ r.close r.db with db := merge r.db { ti with state := e.handleFailure ti } }, .ok ())
  else (r, .ok ())

/-- The loop over the rows, and the end of the session. -/
def respondAll (tryNumbers : TaskInstanceKey → Option Int) :
    List TaskInstance → Responses → Responses × Except ResponseError Unit
  | [], r => ({ r with committed := r.db }, .ok ())
  | ti :: tis, r =>
    match tryNumbers ti.key >>= fun tryNumber => r.buffer.find? (·.key = ⟨ti.key, tryNumber⟩) with
    | none => (r.rollback, .error .keyError)
    | some report =>
      match e.respond (r.pop report) report ti with
      | (r, .ok ()) => respondAll tryNumbers tis r
      | (r, .error err) => (r.rollback, .error err)

/-- The rows that the query returns. -/
def selected (db : Database) (reports : List Report) : List TaskInstance :=
  db.taskInstances.rows.filter fun ti => ti.key ∈ tisWithRightState reports && !e.locked ti.key

def processExecutorEvents (db : Database) (buffer : EventBuffer) :
    Responses × Except ResponseError Unit :=
  let r : Responses := ⟨db, db, true, buffer.reports, []⟩
  if tisWithRightState buffer.reports = [] then (r, .ok ())
  else
    e.respondAll (tiPrimaryKeyToTryNumberMap buffer.reports) (e.selected db buffer.reports) r

end ExecutorEvents

-- ---------------------------------------------------------------------------
-- What the answers are
-- ---------------------------------------------------------------------------

namespace ExecutorEvents

variable (e : ExecutorEvents) (db : Database) (reports : List Report)

/-- The last report says that the task instance ended, and its row that it is queued. -/
def killed (ti : TaskInstance) : Bool :=
  (lastReport reports ti.key).any fun report =>
    report.state ≠ .queued && e.killedExternally report ti

/-- Whether the next `get_dag` rolls back; `pending` where there is none. -/
def rolledBack (pending : Bool) (behind : List TaskInstance) : Bool :=
  match behind.find? (e.killed reports) with
  | some ti => e.getTask db ti = .dagRaises
  | none => pending

/-- The callback that is sent for the task instance. -/
def callbackOf (ti : TaskInstance) : Option FailureCallback := do
  let report ← lastReport reports ti.key
  let dagModel ← db.dagModel ti.dagId
  if e.killed reports ti ∧ e.getTask db ti = .found ∧ e.hasCallback ti.task then
    some ⟨dagModel.fileloc, dagModel.processorSubdir, ti, report⟩
  else none

end ExecutorEvents

/-- What becomes of the row of a task instance when these rows are done. -/
inductive Answered (e : ExecutorEvents) (db : Database) (reports : List Report)
    (done : List TaskInstance) (ti : TaskInstance) : TaskInstance → Prop
  | stays (hnot : ti ∉ done) : Answered e db reports done ti ti
  | noted {front behind : List TaskInstance} {report : Report}
      (hdone : done = front ++ ti :: behind) (hlast : lastReport reports ti.key = some report)
      (hqueued : report.state = .queued) (hopen : front.any (e.killed reports) = false) :
      Answered e db reports done ti { ti with externalExecutorId := report.info }
  | lost {front behind : List TaskInstance} {report : Report}
      (hdone : done = front ++ ti :: behind) (hlast : lastReport reports ti.key = some report)
      (hqueued : report.state = .queued) (hclosed : front.any (e.killed reports) = true) :
      Answered e db reports done ti ti
  | kept {report : Report} (hmem : ti ∈ done) (hlast : lastReport reports ti.key = some report)
      (hended : report.state ≠ .queued) (hkept : e.killedExternally report ti = false) :
      Answered e db reports done ti ti
  | called {report : Report} {dagModel : DagModel} (hmem : ti ∈ done)
      (hlast : lastReport reports ti.key = some report) (hended : report.state ≠ .queued)
      (hkilled : e.killedExternally report ti = true) (hfound : e.getTask db ti = .found)
      (hcallback : e.hasCallback ti.task = true) (hrow : db.dagModel ti.dagId = some dagModel) :
      Answered e db reports done ti ti
  | failed {front behind : List TaskInstance} {report : Report}
      (hdone : done = front ++ ti :: behind) (hlast : lastReport reports ti.key = some report)
      (hended : report.state ≠ .queued) (hkilled : e.killedExternally report ti = true)
      (hfound : e.getTask db ti = .found) (hcallback : e.hasCallback ti.task = false)
      (hstands : e.rolledBack db reports false behind = false) :
      Answered e db reports done ti { ti with state := e.handleFailure ti }
  | undone {front behind : List TaskInstance} {report : Report}
      (hdone : done = front ++ ti :: behind) (hlast : lastReport reports ti.key = some report)
      (hended : report.state ≠ .queued) (hkilled : e.killedExternally report ti = true)
      (hfound : e.getTask db ti = .found) (hcallback : e.hasCallback ti.task = false)
      (hundone : e.rolledBack db reports false behind = true) : Answered e db reports done ti ti
  | marked {front behind : List TaskInstance} {report : Report}
      (hdone : done = front ++ ti :: behind) (hlast : lastReport reports ti.key = some report)
      (hended : report.state ≠ .queued) (hkilled : e.killedExternally report ti = true)
      (hlookup : e.getTask db ti = .missing ∨
        e.getTask db ti = .dagRaises ∧ front.any (e.killed reports) = true) :
      Answered e db reports done ti { ti with state := some report.state }

structure Responds (e : ExecutorEvents) (db : Database) (reports : List Report)
    (done : List TaskInstance) (r : Responses) : Prop where
  rest : r.db = { db with taskInstances := r.db.taskInstances }
  rows : List.Forall₂ (Answered e db reports done) db.taskInstances.rows r.db.taskInstances.rows
  callbacks : r.callbacks = done.filterMap (e.callbackOf db reports)

/-- How the loop ends: behind all of its rows, or at the first one that raises. -/
inductive Processed (e : ExecutorEvents) (db : Database) (reports : List Report) :
    Responses → Except ResponseError Unit → Prop
  | answered {r : Responses}
      (hbuffer : r.buffer.length + (e.selected db reports).length = reports.length)
      (h : Responds e db reports (e.selected db reports) r) : Processed e db reports r (.ok ())
  | withoutDagModel {front behind : List TaskInstance} {ti : TaskInstance} {r : Responses}
      (hselected : e.selected db reports = front ++ ti :: behind)
      (hkilled : e.killed reports ti = true) (hfound : e.getTask db ti = .found)
      (hcallback : e.hasCallback ti.task = true) (hrow : db.dagModel ti.dagId = none)
      (h : Responds e db reports front r) : Processed e db reports r (.error .attributeError)
  /-- What was noted in front of it is rolled back. -/
  | withoutDag {front behind : List TaskInstance} {ti : TaskInstance} {r : Responses}
      (hselected : e.selected db reports = front ++ ti :: behind)
      (hopen : front.any (e.killed reports) = false) (hkilled : e.killed reports ti = true)
      (hraises : e.getTask db ti = .dagRaises) (hdb : r.db = db) (hcallbacks : r.callbacks = []) :
      Processed e db reports r (.error .detachedInstance)

section Reports

variable {reports buffer : List Report} {key : TaskInstanceKey} {report : Report}

theorem lastReport_mem (h : lastReport reports key = some report) :
    report ∈ reports ∧ report.key.primary = key :=
  ⟨List.mem_reverse.mp (List.mem_of_find?_eq_some h), by simpa using List.find?_some h⟩

theorem exists_lastReport (h : key ∈ tisWithRightState reports) :
    ∃ report, lastReport reports key = some report := by
  obtain ⟨report, hmem, rfl⟩ := List.mem_map.mp h
  refine Option.isSome_iff_exists.mp (List.find?_isSome.mpr ⟨report, ?_, by simp⟩)
  exact List.mem_reverse.mpr (List.mem_filter.mp hmem).1

/-- A report of the buffer is found under its key. -/
theorem find?_report (hnodup : (buffer.map (·.key)).Nodup) (h : report ∈ buffer) :
    buffer.find? (·.key = report.key) = some report := by
  cases hfind : buffer.find? (·.key = report.key) with
  | none => simpa using List.find?_eq_none.mp hfind report h
  | some report' =>
    have hmem := List.mem_of_find?_eq_some hfind
    have hkey : report'.key = report.key := by simpa using List.find?_some hfind
    rw [List.inj_on_of_nodup_map hnodup hmem h hkey]

theorem length_popped (hnodup : (buffer.map (·.key)).Nodup) (h : report ∈ buffer) :
    (buffer.filter (·.key ≠ report.key)).length + 1 = buffer.length := by
  have hone : buffer.countP (·.key = report.key) = 1 := by
    have hcount : (buffer.map (·.key)).count report.key = 1 :=
      List.count_eq_one_of_mem hnodup (List.mem_map_of_mem h)
    rw [List.count, List.countP_map] at hcount
    rw [← hcount]
    exact List.countP_congr fun r _ => by simp
  have hsum := List.length_eq_countP_add_countP (fun r : Report => decide (r.key = report.key))
    (l := buffer)
  rw [hone] at hsum
  simp only [← List.countP_eq_length_filter, decide_eq_true_eq, decide_not] at hsum ⊢
  omega

end Reports

-- ---------------------------------------------------------------------------
-- The rows behind a part of the loop
-- ---------------------------------------------------------------------------

namespace ExecutorEvents

variable (e : ExecutorEvents) (db : Database) (reports : List Report)

/-- What is made of a row, where the rows are detached or not, and a rollback follows or not. -/
def answer (closed undone : Bool) (ti : TaskInstance) : TaskInstance :=
  match lastReport reports ti.key with
  | none => ti
  | some report =>
    if report.state = .queued then
      if closed then ti else { ti with externalExecutorId := report.info }
    else if e.killedExternally report ti then
      match e.getTask db ti with
      | .found =>
        if e.hasCallback ti.task || undone then ti else { ti with state := e.handleFailure ti }
      | .missing | .dagRaises => { ti with state := some report.state }
    else ti

/-- What the row is behind these turns of the loop, if nothing is rolled back any more, or if what
is pending is. -/
def current (pending : Bool) : (closed : Bool) → List TaskInstance → TaskInstance → TaskInstance
  | _, [], x => x
  | closed, ti :: tis, x =>
    if x.key = ti.key then e.answer db reports closed (e.rolledBack db reports pending tis) x
    else current pending (closed || e.killed reports ti) tis x

theorem answer_key (closed undone : Bool) (ti : TaskInstance) :
    (e.answer db reports closed undone ti).key = ti.key := by
  unfold answer
  split
  · rfl
  · split_ifs
    · rfl
    · rfl
    · cases e.getTask db ti <;> rfl
    · cases e.getTask db ti <;> rfl
    · rfl

theorem current_key (pending closed : Bool) (done : List TaskInstance) (x : TaskInstance) :
    (e.current db reports pending closed done x).key = x.key := by
  induction done generalizing closed with
  | nil => rfl
  | cons ti tis ih =>
    unfold current
    split_ifs
    · exact e.answer_key db reports _ _ x
    · exact ih _

def standing (pending : Bool) (done : List TaskInstance) : Database :=
  { db with
    taskInstances := db.taskInstances.update (fun _ => true)
      (e.current db reports pending false done) (e.current_key db reports pending false done) }

end ExecutorEvents

section Turns

variable {e : ExecutorEvents} {db : Database} {reports : List Report} {ti x : TaskInstance}
  {done : List TaskInstance} {pending closed : Bool}

theorem rolledBack_append_kept (hkept : e.killed reports ti = false) :
    e.rolledBack db reports pending (done ++ [ti]) = e.rolledBack db reports pending done := by
  simp [ExecutorEvents.rolledBack, List.find?_append, hkept]

theorem rolledBack_append_killed (hkilled : e.killed reports ti = true) :
    e.rolledBack db reports pending (done ++ [ti]) =
      e.rolledBack db reports (e.getTask db ti = .dagRaises) done := by
  unfold ExecutorEvents.rolledBack
  rw [List.find?_append]
  cases done.find? (e.killed reports) with
  | none => simp [hkilled]
  | some x => rfl

theorem current_append_kept (hne : x.key ≠ ti.key) (hkept : e.killed reports ti = false) :
    e.current db reports pending closed (done ++ [ti]) x =
      e.current db reports pending closed done x := by
  induction done generalizing closed with
  | nil => simp [ExecutorEvents.current, hne]
  | cons y done ih => simp only [List.cons_append, ExecutorEvents.current, ih,
      rolledBack_append_kept hkept]

theorem current_append_killed (hne : x.key ≠ ti.key) (hkilled : e.killed reports ti = true) :
    e.current db reports pending closed (done ++ [ti]) x =
      e.current db reports (e.getTask db ti = .dagRaises) closed done x := by
  induction done generalizing closed with
  | nil => simp [ExecutorEvents.current, hne]
  | cons y done ih => simp only [List.cons_append, ExecutorEvents.current, ih,
      rolledBack_append_killed hkilled]

theorem current_of_notMem (h : x.key ∉ done.map (·.key)) :
    e.current db reports pending closed done x = x := by
  induction done generalizing closed with
  | nil => rfl
  | cons y done ih =>
    rw [List.map_cons, List.mem_cons, not_or] at h
    obtain ⟨hne, h⟩ := h
    rw [ExecutorEvents.current, if_neg hne, ih h]

theorem current_split {behind : List TaskInstance} (h : x.key ∉ done.map (·.key)) :
    e.current db reports pending closed (done ++ x :: behind) x =
      e.answer db reports (closed || done.any (e.killed reports))
        (e.rolledBack db reports pending behind) x := by
  induction done generalizing closed with
  | nil => simp [ExecutorEvents.current]
  | cons y done ih =>
    rw [List.map_cons, List.mem_cons, not_or] at h
    obtain ⟨hne, h⟩ := h
    rw [List.cons_append, ExecutorEvents.current, if_neg hne, ih h, List.any_cons, Bool.or_assoc]

end Turns

-- ---------------------------------------------------------------------------
-- The loop
-- ---------------------------------------------------------------------------

theorem eq_of_rows {t t' : TaskTable} (h : t.rows = t'.rows) : t = t' := by
  cases t
  cases t'
  cases h
  rfl

/-- The session in front of a turn of the loop, behind those that are `done`. -/
structure Standing (e : ExecutorEvents) (db : Database) (reports : List Report)
    (done : List TaskInstance) (r : Responses) : Prop where
  attached : r.attached = !done.any (e.killed reports)
  current : r.db = e.standing db reports false done
  committed : r.committed = if r.attached then db else e.standing db reports true done
  callbacks : r.callbacks = done.filterMap (e.callbackOf db reports)
  first : ∀ ti, done.find? (e.killed reports) = some ti → e.getTask db ti ≠ .dagRaises
  called : ∀ ti ∈ done, e.killed reports ti = true → e.getTask db ti = .found →
    e.hasCallback ti.task = true → ∃ dagModel, db.dagModel ti.dagId = some dagModel

section Turn

variable {e : ExecutorEvents} {db : Database} {reports : List Report} {done : List TaskInstance}
  {ti ti' : TaskInstance} {r : Responses} {report : Report}

/-- Merging what becomes of the row does the turn. -/
theorem merge_standing {pending pending' : Bool} {done' : List TaskInstance}
    (hti : ti ∈ db.taskInstances.rows)
    (hrest : ∀ x ∈ db.taskInstances.rows, x.key ≠ ti.key →
      e.current db reports pending' false done' x = e.current db reports pending false done x)
    (hcurrent : e.current db reports pending' false done' ti = ti') :
    merge (e.standing db reports pending done) ti' = e.standing db reports pending' done' := by
  have hkey : ti'.key = ti.key := hcurrent ▸ e.current_key db reports _ _ _ ti
  unfold merge ExecutorEvents.standing
  congr 1
  refine eq_of_rows ?_
  simp only [TaskTable.update, if_true, List.map_map]
  refine List.map_congr_left fun x hx => ?_
  simp only [Function.comp_apply, e.current_key, hkey, decide_eq_true_eq]
  split_ifs with hx'
  · obtain rfl := List.inj_on_of_nodup_map db.taskInstances.nodup hx hti hx'
    rw [hcurrent, ← hkey]
  · exact (hrest x hx hx').symm

theorem merge_new {pending : Bool} (hti : ti ∈ db.taskInstances.rows)
    (hnew : ti.key ∉ done.map (·.key)) :
    merge (e.standing db reports pending done) ti = e.standing db reports pending done :=
  merge_standing hti (fun _ _ _ => rfl) (current_of_notMem hnew)

/-- A turn behind which the row is what it was. -/
theorem standing_same {pending pending' : Bool} (hti : ti ∈ db.taskInstances.rows)
    (hnew : ti.key ∉ done.map (·.key))
    (hrest : ∀ x ∈ db.taskInstances.rows, x.key ≠ ti.key →
      e.current db reports pending' false (done ++ [ti]) x =
        e.current db reports pending false done x)
    (hcurrent : e.current db reports pending' false (done ++ [ti]) ti = ti) :
    e.standing db reports pending done = e.standing db reports pending' (done ++ [ti]) :=
  (merge_new hti hnew).symm.trans (merge_standing hti hrest hcurrent)

theorem standing_nil : e.standing db reports false [] = db := by
  have hsame : db.taskInstances.update (fun _ => true) (e.current db reports false false [])
      (e.current_key db reports false false []) = db.taskInstances := by
    refine eq_of_rows ?_
    simp [TaskTable.update, ExecutorEvents.current]
  unfold ExecutorEvents.standing
  rw [hsame]

theorem current_last {pending : Bool} (hnew : ti.key ∉ done.map (·.key)) :
    e.current db reports pending false (done ++ [ti]) ti =
      e.answer db reports (done.any (e.killed reports)) pending ti := by
  rw [current_split hnew]
  rfl

theorem killed_eq (hlast : lastReport reports ti.key = some report) :
    e.killed reports ti = (report.state ≠ .queued && e.killedExternally report ti) := by
  simp [ExecutorEvents.killed, hlast]

theorem callbackOf_kept (hkept : e.killed reports ti = false) :
    e.callbackOf db reports ti = none := by
  unfold ExecutorEvents.callbackOf
  cases lastReport reports ti.key with
  | none => rfl
  | some report => cases hrow : db.dagModel ti.dagId <;> simp [hkept]

theorem callbackOf_unfound (hlookup : e.getTask db ti ≠ .found) :
    e.callbackOf db reports ti = none := by
  unfold ExecutorEvents.callbackOf
  cases lastReport reports ti.key with
  | none => rfl
  | some report => cases hrow : db.dagModel ti.dagId <;> simp [hlookup]

theorem answer_unfound (hlast : lastReport reports ti.key = some report)
    (hended : report.state ≠ .queued) (hkill : e.killedExternally report ti = true)
    (hlookup : e.getTask db ti ≠ .found) (closed undone : Bool) :
    e.answer db reports closed undone ti = { ti with state := some report.state } := by
  simp only [ExecutorEvents.answer, hlast, if_neg hended, if_pos hkill]
  cases h : e.getTask db ti with
  | found => exact absurd h hlookup
  | missing | dagRaises => rfl

theorem answer_found (hlast : lastReport reports ti.key = some report)
    (hended : report.state ≠ .queued) (hkill : e.killedExternally report ti = true)
    (hlookup : e.getTask db ti = .found) (closed undone : Bool) :
    e.answer db reports closed undone ti =
      if e.hasCallback ti.task || undone then ti else { ti with state := e.handleFailure ti } := by
  simp only [ExecutorEvents.answer, hlast, if_neg hended, if_pos hkill, hlookup]

/-- A turn that finds nothing killed leaves the session open or closed, as it was. -/
theorem Standing.keeps (h : Standing e db reports done r) (hti : ti ∈ db.taskInstances.rows)
    (hnew : ti.key ∉ done.map (·.key)) (hkept : e.killed reports ti = false) {db' : Database}
    (hdb : db' = e.standing db reports false (done ++ [ti]))
    (hsame : r.attached = false →
      e.answer db reports (done.any (e.killed reports)) true ti = ti) :
    Standing e db reports (done ++ [ti]) { r with db := db' } where
  attached := by simpa [hkept] using h.attached
  current := hdb
  committed := by
    rw [h.committed]
    cases hattached : r.attached with
    | true => rfl
    | false =>
      exact standing_same hti hnew (fun x _ hne => current_append_kept hne hkept)
        ((current_last hnew).trans (hsame hattached))
  callbacks := by
    rw [h.callbacks, List.filterMap_append]
    simp [callbackOf_kept hkept]
  first x hx := by
    refine h.first x ?_
    simpa [List.find?_append, hkept] using hx
  called x hx hkilled := by
    rcases List.mem_append.mp hx with hx | hx
    · exact h.called x hx hkilled
    · obtain rfl := List.mem_singleton.mp hx
      rw [hkept] at hkilled
      cases hkilled

/-- A turn that closes the session and does not raise. -/
theorem Standing.closes (h : Standing e db reports done r) (hti : ti ∈ db.taskInstances.rows)
    (hnew : ti.key ∉ done.map (·.key)) (hkilled : e.killed reports ti = true)
    (hraises : e.getTask db ti = .dagRaises → r.attached = false) {r' : Responses}
    (hattached : r'.attached = false)
    (hcalled : e.getTask db ti = .found → e.hasCallback ti.task = true →
      ∃ dagModel, db.dagModel ti.dagId = some dagModel)
    (hcallbacks : r'.callbacks = r.callbacks ++ (e.callbackOf db reports ti).toList)
    (hdb : r'.db = merge (e.standing db reports (e.getTask db ti = .dagRaises) done)
      (e.answer db reports (done.any (e.killed reports)) false ti))
    (hcommitted : r'.committed = merge (e.standing db reports (e.getTask db ti = .dagRaises) done)
      (e.answer db reports (done.any (e.killed reports)) true ti)) :
    Standing e db reports (done ++ [ti]) r' where
  attached := by simp [hattached, hkilled]
  current := hdb.trans (merge_standing hti (fun x _ hne => current_append_killed hne hkilled)
    (current_last hnew))
  committed := by
    rw [hattached, hcommitted]
    exact merge_standing hti (fun x _ hne => current_append_killed hne hkilled)
      (current_last hnew)
  callbacks := by
    rw [hcallbacks, h.callbacks, List.filterMap_append]
    cases hcallback : e.callbackOf db reports ti <;> simp [hcallback]
  first x hx := by
    rw [List.find?_append] at hx
    cases hfind : done.find? (e.killed reports) with
    | some y =>
      rw [hfind] at hx
      cases hx
      exact h.first x hfind
    | none =>
      have hnone : done.any (e.killed reports) = false := by
        simpa using List.find?_eq_none.mp hfind
      simp only [hfind, Option.none_or, List.find?_singleton, hkilled, if_true,
        Option.some.injEq] at hx
      subst hx
      intro hdag
      have hclosed := h.attached.symm.trans (hraises hdag)
      simp [hnone] at hclosed
  called x hx hkilled' hfound hcallback := by
    rcases List.mem_append.mp hx with hx | hx
    · exact h.called x hx hkilled' hfound hcallback
    · obtain rfl := List.mem_singleton.mp hx
      exact hcalled hfound hcallback

/-- A turn that does not raise: the row is done. -/
inductive Turned (e : ExecutorEvents) (db : Database) (reports : List Report)
    (done : List TaskInstance) (ti : TaskInstance) (r : Responses) :
    Responses × Except ResponseError Unit → Prop
  | goesOn {r' : Responses} (h : Standing e db reports (done ++ [ti]) r')
      (hbuffer : r'.buffer = r.buffer) : Turned e db reports done ti r (r', .ok ())
  | withoutDagModel {r' : Responses} (hkilled : e.killed reports ti = true)
      (hfound : e.getTask db ti = .found) (hcallback : e.hasCallback ti.task = true)
      (hrow : db.dagModel ti.dagId = none) (hdb : r'.committed = r.db)
      (hcallbacks : r'.callbacks = r.callbacks) :
      Turned e db reports done ti r (r', .error .attributeError)
  | withoutDag {r' : Responses} (hopen : done.any (e.killed reports) = false)
      (hkilled : e.killed reports ti = true) (hraises : e.getTask db ti = .dagRaises)
      (hdb : r'.committed = db) (hcallbacks : r'.callbacks = r.callbacks) :
      Turned e db reports done ti r (r', .error .detachedInstance)

theorem respond_queued (h : Standing e db reports done r) (hti : ti ∈ db.taskInstances.rows)
    (hnew : ti.key ∉ done.map (·.key)) (hlast : lastReport reports ti.key = some report)
    (hqueued : report.state = .queued) :
    Turned e db reports done ti r (e.respond r report ti) := by
  have hkept : e.killed reports ti = false := by simp [killed_eq hlast, hqueued]
  have hanswer : ∀ closed undone, e.answer db reports closed undone ti =
      if closed then ti else { ti with externalExecutorId := report.info } := by
    intro closed undone
    simp [ExecutorEvents.answer, hlast, hqueued]
  have hcurrent : e.current db reports false false (done ++ [ti]) ti =
      e.answer db reports (done.any (e.killed reports)) false ti := current_last hnew
  rw [hanswer] at hcurrent
  unfold ExecutorEvents.respond
  rw [if_pos hqueued]
  by_cases hattached : r.attached
  · have hopen : done.any (e.killed reports) = false := by simpa [hattached] using h.attached
    rw [hopen, if_neg Bool.false_ne_true] at hcurrent
    rw [if_pos hattached]
    refine .goesOn (h.keeps hti hnew hkept ?_ fun hclosed => ?_) rfl
    · rw [h.current]
      exact merge_standing hti (fun x _ hne => current_append_kept hne hkept) hcurrent
    · cases hattached.symm.trans hclosed
  · have hclosed : done.any (e.killed reports) = true := by simpa [hattached] using h.attached
    rw [hclosed, if_pos rfl] at hcurrent
    rw [if_neg hattached]
    have hdb : r.db = e.standing db reports false (done ++ [ti]) := by
      rw [h.current]
      exact standing_same hti hnew (fun x _ hne => current_append_kept hne hkept) hcurrent
    refine .goesOn (h.keeps hti hnew hkept hdb fun _ => ?_) rfl
    rw [hanswer, hclosed, if_pos rfl]

theorem respond_kept (h : Standing e db reports done r) (hti : ti ∈ db.taskInstances.rows)
    (hnew : ti.key ∉ done.map (·.key)) (hlast : lastReport reports ti.key = some report)
    (hended : report.state ≠ .queued) (hkept : e.killedExternally report ti = false) :
    Turned e db reports done ti r (e.respond r report ti) := by
  have hkilled : e.killed reports ti = false := by simp [killed_eq hlast, hkept]
  have hanswer : ∀ closed undone, e.answer db reports closed undone ti = ti := by
    intro closed undone
    simp [ExecutorEvents.answer, hlast, hended, hkept]
  unfold ExecutorEvents.respond
  rw [if_neg hended, hkept, if_neg Bool.false_ne_true]
  have hdb : r.db = e.standing db reports false (done ++ [ti]) := by
    rw [h.current]
    exact standing_same hti hnew (fun x _ hne => current_append_kept hne hkilled)
      ((current_last hnew).trans (hanswer _ _))
  exact .goesOn (h.keeps hti hnew hkilled hdb fun _ => hanswer _ _) rfl

theorem respond_killed (h : Standing e db reports done r) (hti : ti ∈ db.taskInstances.rows)
    (hnew : ti.key ∉ done.map (·.key)) (hlast : lastReport reports ti.key = some report)
    (hended : report.state ≠ .queued) (hkill : e.killedExternally report ti = true) :
    Turned e db reports done ti r (e.respond r report ti) := by
  have hkilled : e.killed reports ti = true := by simp [killed_eq hlast, hended, hkill]
  have hgetTask : e.getTask r.db ti = e.getTask db ti := by rw [h.current]; rfl
  have hdagModel : r.db.dagModel ti.dagId = db.dagModel ti.dagId := by rw [h.current]; rfl
  unfold ExecutorEvents.respond
  rw [if_neg hended, if_pos hkill, hgetTask, hdagModel]
  cases hlookup : e.getTask db ti with
  | dagRaises =>
    have hunfound : e.getTask db ti ≠ .found := by simp [hlookup]
    have hanswer := answer_unfound hlast hended hkill hunfound
    dsimp only
    by_cases hattached : r.attached
    · rw [if_pos hattached]
      refine .withoutDag (by simpa [hattached] using h.attached) hkilled hlookup ?_ rfl
      exact h.committed.trans (if_pos hattached)
    · have hcommitted := h.committed.trans (if_neg hattached)
      rw [if_neg hattached]
      refine .goesOn (h.closes hti hnew hkilled (fun _ => by simpa using hattached) rfl
        (fun hfound => absurd hfound hunfound) ?_ ?_ ?_) rfl
      · simp [Responses.close, callbackOf_unfound hunfound]
      · simp [Responses.close, hcommitted, hlookup, hanswer]
      · simp [Responses.close, hcommitted, hlookup, hanswer]
  | missing =>
    have hunfound : e.getTask db ti ≠ .found := by simp [hlookup]
    have hanswer := answer_unfound hlast hended hkill hunfound
    refine .goesOn (h.closes hti hnew hkilled (fun hraises => ?_) rfl
      (fun hfound => absurd hfound hunfound) ?_ ?_ ?_) rfl
    · cases hlookup.symm.trans hraises
    · simp [Responses.close, callbackOf_unfound hunfound]
    · simp [Responses.close, h.current, hlookup, hanswer]
    · simp [Responses.close, h.current, hlookup, hanswer]
  | found =>
    have hanswer := answer_found hlast hended hkill hlookup
    dsimp only
    by_cases hcallback : e.hasCallback ti.task
    · rw [if_pos hcallback]
      cases hrow : db.dagModel ti.dagId with
      | none => exact .withoutDagModel hkilled hlookup hcallback hrow rfl rfl
      | some dagModel =>
        refine .goesOn (h.closes hti hnew hkilled (fun hraises => ?_) rfl
          (fun _ _ => ⟨dagModel, hrow⟩) ?_ ?_ ?_) rfl
        · cases hlookup.symm.trans hraises
        · simp [ExecutorEvents.callbackOf, hlast, hrow, hkilled, hlookup, hcallback]
        · simp [Responses.close, h.current, hlookup, hanswer, hcallback, merge_new hti hnew]
        · simp [Responses.close, h.current, hlookup, hanswer, hcallback, merge_new hti hnew]
    · have hnone : e.callbackOf db reports ti = none := by
        unfold ExecutorEvents.callbackOf
        cases db.dagModel ti.dagId <;> simp [hlast, hcallback]
      rw [if_neg hcallback]
      refine .goesOn (h.closes hti hnew hkilled (fun hraises => ?_) rfl
        (fun _ hcallback' => absurd hcallback' hcallback) ?_ ?_ ?_) rfl
      · cases hlookup.symm.trans hraises
      · simp [Responses.close, hnone]
      · simp [h.current, hlookup, hanswer, hcallback]
      · simp [Responses.close, h.current, hlookup, hanswer, hcallback, merge_new hti hnew]

theorem respond_turned (h : Standing e db reports done r) (hti : ti ∈ db.taskInstances.rows)
    (hnew : ti.key ∉ done.map (·.key)) (hlast : lastReport reports ti.key = some report) :
    Turned e db reports done ti r (e.respond r report ti) := by
  by_cases hqueued : report.state = .queued
  · exact respond_queued h hti hnew hlast hqueued
  cases hkill : e.killedExternally report ti with
  | true => exact respond_killed h hti hnew hlast hqueued hkill
  | false => exact respond_kept h hti hnew hlast hqueued hkill

theorem Standing.pop (h : Standing e db reports done r) (report : Report) :
    Standing e db reports done (r.pop report) :=
  ⟨h.attached, h.current, h.committed, h.callbacks, h.first, h.called⟩

end Turn

-- ---------------------------------------------------------------------------
-- The rows behind the loop
-- ---------------------------------------------------------------------------

section Loop

variable {e : ExecutorEvents} {db : Database} {reports : List Report} {done : List TaskInstance}
  {ti : TaskInstance} {r : Responses}

theorem key_notMem {front behind : List TaskInstance}
    (h : ((front ++ ti :: behind).map (·.key)).Nodup) :
    ti.key ∉ front.map (·.key) ∧ ti.key ∉ behind.map (·.key) := by
  rw [List.map_append, List.map_cons] at h
  obtain ⟨-, hbehind, hapart⟩ := List.nodup_append.mp h
  exact ⟨fun hfront => hapart _ hfront _ List.mem_cons_self rfl, (List.nodup_cons.mp hbehind).1⟩

theorem Standing.answered (h : Standing e db reports done r)
    (hdistinct : (done.map (·.key)).Nodup)
    (hreported : ∀ ti ∈ done, ∃ report, lastReport reports ti.key = some report)
    (hrows : ∀ ti ∈ done, ti ∈ db.taskInstances.rows) (hti : ti ∈ db.taskInstances.rows) :
    Answered e db reports done ti (e.current db reports false false done ti) := by
  by_cases hmem : ti ∈ done
  · obtain ⟨front, behind, rfl⟩ := List.append_of_mem hmem
    obtain ⟨report, hlast⟩ := hreported ti hmem
    rw [current_split (key_notMem hdistinct).1, Bool.false_or]
    by_cases hqueued : report.state = .queued
    · cases hclosed : front.any (e.killed reports) with
      | true => simpa [ExecutorEvents.answer, hlast, hqueued] using
          Answered.lost rfl hlast hqueued hclosed
      | false => simpa [ExecutorEvents.answer, hlast, hqueued] using
          Answered.noted rfl hlast hqueued hclosed
    cases hkill : e.killedExternally report ti with
    | false => simpa [ExecutorEvents.answer, hlast, hqueued, hkill] using
        Answered.kept hmem hlast hqueued hkill
    | true =>
      have hkilled : e.killed reports ti = true := by simp [killed_eq hlast, hqueued, hkill]
      cases hlookup : e.getTask db ti with
      | missing =>
        rw [answer_unfound hlast hqueued hkill (by simp [hlookup])]
        exact .marked rfl hlast hqueued hkill (.inl hlookup)
      | dagRaises =>
        rw [answer_unfound hlast hqueued hkill (by simp [hlookup])]
        refine .marked rfl hlast hqueued hkill (.inr ⟨hlookup, ?_⟩)
        by_contra hopen
        refine h.first ti ?_ hlookup
        have hnone : front.find? (e.killed reports) = none := by
          simpa using hopen
        simp [List.find?_append, hnone, hkilled]
      | found =>
        rw [answer_found hlast hqueued hkill hlookup]
        cases hcallback : e.hasCallback ti.task with
        | true =>
          obtain ⟨dagModel, hrow⟩ := h.called ti hmem hkilled hlookup hcallback
          exact .called hmem hlast hqueued hkill hlookup hcallback hrow
        | false =>
          cases hback : e.rolledBack db reports false behind with
          | true => exact .undone rfl hlast hqueued hkill hlookup hcallback hback
          | false => exact .failed rfl hlast hqueued hkill hlookup hcallback hback
  · have hkey : ti.key ∉ done.map (·.key) := by
      intro hkey
      obtain ⟨x, hx, hsame⟩ := List.mem_map.mp hkey
      exact hmem (List.inj_on_of_nodup_map db.taskInstances.nodup (hrows x hx) hti hsame ▸ hx)
    rw [current_of_notMem hkey]
    exact .stays hmem

theorem Standing.responds (h : Standing e db reports done r)
    (hdistinct : (done.map (·.key)).Nodup)
    (hreported : ∀ ti ∈ done, ∃ report, lastReport reports ti.key = some report)
    (hrows : ∀ ti ∈ done, ti ∈ db.taskInstances.rows) {r' : Responses} (hdb : r'.db = r.db)
    (hcallbacks : r'.callbacks = r.callbacks) : Responds e db reports done r' where
  rest := by rw [hdb, h.current]; rfl
  rows := by
    rw [hdb, h.current]
    simp only [ExecutorEvents.standing, TaskTable.update, if_true]
    rw [List.forall₂_map_right_iff]
    exact List.forall₂_same.mpr fun ti hti => h.answered hdistinct hreported hrows hti
  callbacks := hcallbacks.trans h.callbacks

/-- The reports of the rows that are left are in the buffer. -/
structure Pending (reports : List Report) (tis : List TaskInstance) (buffer : List Report) :
    Prop where
  nodup : (buffer.map (·.key)).Nodup
  reported : ∀ ti ∈ tis, ∃ report ∈ buffer, lastReport reports ti.key = some report

theorem Pending.next {tis : List TaskInstance} {report : Report} {buffer : List Report}
    (h : Pending reports (ti :: tis) buffer) (hdistinct : ti.key ∉ tis.map (·.key))
    (hlast : lastReport reports ti.key = some report) :
    Pending reports tis (buffer.filter (·.key ≠ report.key)) := by
  refine ⟨(List.filter_sublist.map _).nodup h.nodup, fun ti' hti' => ?_⟩
  obtain ⟨report', hmem, hlast'⟩ := h.reported ti' (List.mem_cons_of_mem _ hti')
  have hne : report'.key ≠ report.key := by
    intro hkey
    have hprimary := congrArg ReportKey.primary hkey
    rw [(lastReport_mem hlast').2, (lastReport_mem hlast).2] at hprimary
    exact hdistinct (List.mem_map.mpr ⟨ti', hti', hprimary⟩)
  exact ⟨report', List.mem_filter.mpr ⟨hmem, by simpa using hne⟩, hlast'⟩

theorem respondAll_processed {tis : List TaskInstance}
    (hselected : e.selected db reports = done ++ tis)
    (hreported : ∀ ti ∈ e.selected db reports, ∃ report, lastReport reports ti.key = some report)
    (h : Standing e db reports done r) (hp : Pending reports tis r.buffer)
    (hbuffer : r.buffer.length + done.length = reports.length) :
    Processed e db reports (e.respondAll (tiPrimaryKeyToTryNumberMap reports) tis r).1
      (e.respondAll (tiPrimaryKeyToTryNumberMap reports) tis r).2 := by
  have hrows : ∀ ti ∈ done ++ tis, ti ∈ db.taskInstances.rows := by
    intro ti hti
    exact (List.mem_filter.mp (hselected ▸ hti)).1
  have hdistinct : ((done ++ tis).map (·.key)).Nodup := by
    rw [← hselected]
    exact (List.filter_sublist.map _).nodup db.taskInstances.nodup
  have hdone : (done.map (·.key)).Nodup := by
    rw [List.map_append] at hdistinct
    exact (List.nodup_append.mp hdistinct).1
  induction tis generalizing done r with
  | nil =>
    rw [List.append_nil] at hselected
    rw [hselected] at hreported
    refine .answered ?_ ?_
    · rw [hselected]
      exact hbuffer
    · rw [hselected]
      exact h.responds hdone hreported (fun ti hti => hrows ti (by simpa using hti)) rfl rfl
  | cons ti tis ih =>
    obtain ⟨report, hmem, hlast⟩ := hp.reported ti List.mem_cons_self
    have hti : ti ∈ db.taskInstances.rows := hrows ti (by simp)
    obtain ⟨hnew, hbehind⟩ := key_notMem hdistinct
    have hfind : (tiPrimaryKeyToTryNumberMap reports ti.key >>= fun tryNumber =>
        r.buffer.find? (·.key = ⟨ti.key, tryNumber⟩)) = some report := by
      have hfind := find?_report hp.nodup hmem
      rw [show report.key = ⟨ti.key, report.key.tryNumber⟩ by
        rw [← (lastReport_mem hlast).2]] at hfind
      simp [tiPrimaryKeyToTryNumberMap, hlast, hfind]
    have hturned := respond_turned (h.pop report) hti hnew hlast
    simp only [ExecutorEvents.respondAll, hfind]
    have hdoneReported : ∀ ti ∈ done, ∃ report, lastReport reports ti.key = some report :=
      fun ti hti => hreported ti (hselected ▸ List.mem_append_left _ hti)
    have hdoneRows : ∀ ti ∈ done, ti ∈ db.taskInstances.rows :=
      fun ti hti => hrows ti (List.mem_append_left _ hti)
    cases hturn : e.respond (r.pop report) report ti with
    | mk r' outcome =>
      rw [hturn] at hturned
      cases hturned with
      | goesOn hstanding hsame =>
        have hlength := length_popped hp.nodup hmem
        have hpopped : r'.buffer = r.buffer.filter (·.key ≠ report.key) := hsame
        have hselected' : e.selected db reports = (done ++ [ti]) ++ tis := by simpa using hselected
        refine ih hselected' hstanding ?_ ?_ ?_ ?_ ?_
        · rw [hpopped]
          exact hp.next hbehind hlast
        · rw [hpopped, List.length_append, List.length_singleton]
          omega
        · simpa using hrows
        · simpa using hdistinct
        · simpa [List.nodup_append] using ⟨hdone, by simpa using hnew⟩
      | withoutDagModel hkilled hfound hcallback hrow hdb hcallbacks =>
        exact .withoutDagModel hselected hkilled hfound hcallback hrow
          (h.responds hdone hdoneReported hdoneRows hdb hcallbacks)
      | withoutDag hopen hkilled hraises hdb hcallbacks =>
        refine .withoutDag hselected hopen hkilled hraises hdb ?_
        have hnone : done.filterMap (e.callbackOf db reports) = [] := by
          refine List.filterMap_eq_nil_iff.mpr fun x hx => callbackOf_kept ?_
          simpa using List.any_eq_false.mp hopen x hx
        exact hcallbacks.trans (h.callbacks.trans hnone)

end Loop

/-- Each report is answered without a `KeyError`; `Answered` says how, and `Processed` where the
loop ends early. -/
theorem processExecutorEvents_responds (e : ExecutorEvents) (db : Database) (buffer : EventBuffer) :
    Processed e db buffer.reports (e.processExecutorEvents db buffer).1
      (e.processExecutorEvents db buffer).2 := by
  have hstart : Standing e db buffer.reports [] ⟨db, db, true, buffer.reports, []⟩ :=
    ⟨rfl, standing_nil.symm, rfl, rfl, by simp, by simp⟩
  have hreported : ∀ ti ∈ e.selected db buffer.reports,
      ∃ report, lastReport buffer.reports ti.key = some report := by
    intro ti hti
    have hright := (List.mem_filter.mp hti).2
    simp only [Bool.and_eq_true, decide_eq_true_eq] at hright
    exact exists_lastReport hright.1
  have hpending : Pending buffer.reports (e.selected db buffer.reports) buffer.reports := by
    refine ⟨buffer.nodup, fun ti hti => ?_⟩
    obtain ⟨report, hlast⟩ := hreported ti hti
    exact ⟨report, (lastReport_mem hlast).1, hlast⟩
  unfold ExecutorEvents.processExecutorEvents
  split_ifs with hright
  · have hnothing : e.selected db buffer.reports = [] := by simp [ExecutorEvents.selected, hright]
    refine .answered (by simp [hnothing]) ?_
    rw [hnothing]
    exact hstart.responds List.nodup_nil (by simp) (by simp) rfl rfl
  · exact respondAll_processed rfl hreported hstart hpending rfl

end Beeflow.Scheduler
