import Beeflow.Airflow.Tables
import Beeflow.Executors.Event
import Beeflow.Lib.Machine

/-!
# The catchers

An execution runs the worker and, where that raises or times out, the catcher,
whose `mark_task_as_failed` writes FAILED into the task instance's row whatever
the row says by then. The scheduler queues the same task instance again under
another `queued_dttm`, and a worker may raise after it recorded an outcome.
-/

namespace Beeflow.Executors

open Airflow

structure TaskRow where
  state : Option TaskInstanceState
  queuedDttm : Option String
  tryNumber : Int
  deriving DecidableEq, Repr

abbrev TaskRows := TaskInstanceKey → Option TaskRow

structure DagTask where
  taskId : String
  isMapped : Bool
  deriving DecidableEq, Repr

/-- The tasks of the DAGs in the DAGs folder. -/
abbrev DagBag := String → Option (List DagTask)

inductive CatcherError
  /-- `dag.get_task` -/
  | taskNotFound
  /-- "Must provide `exec_date_or_run_id`" -/
  | noRunId
  /-- "No map_index passed to mapped task" -/
  | noMapIndex
  /-- "map_index passed to non-mapped task" -/
  | mapIndexPassed
  | taskInstanceNotFound
  deriving DecidableEq, Repr

def TaskInstanceQueued.key (event : TaskInstanceQueued) : TaskInstanceKey :=
  ⟨event.dagId, event.taskId, event.runId, event.mapIndex⟩

/-- `_get_ti` of Airflow. -/
def getTi (rows : TaskRows) (task : DagTask) (event : TaskInstanceQueued) :
    Except CatcherError TaskRow :=
  if event.runId = "" then .error .noRunId
  else if task.isMapped ∧ event.mapIndex < 0 then .error .noMapIndex
  else if ¬task.isMapped ∧ 0 ≤ event.mapIndex then .error .mapIndexPassed
  else
    match rows event.key with
    | none => .error .taskInstanceNotFound
    | some row => .ok row

/-- `mark_task_as_failed` of both catchers; `ti.error()` writes FAILED. -/
def markTaskAsFailed (dags : DagBag) (rows : TaskRows) (event : TaskInstanceQueued) :
    Except CatcherError TaskRows :=
  match dags event.dagId with
  | none => .ok rows
  | some tasks =>
    match tasks.find? (·.taskId = event.taskId) with
    | none => .error .taskNotFound
    | some task => do
      let ti ← getTi rows task event
      return Function.update rows event.key (some { ti with state := some .failed })

-- ---------------------------------------------------------------------------
-- Executions beside the scheduler
-- ---------------------------------------------------------------------------

/-- The rows, the executions whose worker runs and those in `MARK_TASK_AS_FAILED`. -/
structure World where
  rows : TaskRows
  executing : List TaskInstanceQueued
  catching : List TaskInstanceQueued

inductive WorldLabel
  /-- the scheduler, or a user who clears the task instance -/
  | clear (key : TaskInstanceKey)
  | schedule (key : TaskInstanceKey)
  | queue (key : TaskInstanceKey) (queuedDttm : String)
  | deliver (event : TaskInstanceQueued)
  /-- the worker, whose Batch job may start again: it takes the task instance up or sends it
  back over the limit of its task, records an outcome, returns or fails -/
  | takeUp (event : TaskInstanceQueued)
  | sendBack (event : TaskInstanceQueued) (queuedDttm : String)
  | record (event : TaskInstanceQueued) (outcome : TaskInstanceState)
  | finish (event : TaskInstanceQueued)
  | error (event : TaskInstanceQueued)
  /-- an invocation of the catcher that gets as far as `mark_task_as_failed`; where it fails,
  also behind the write, it is retried until Step Functions gives up -/
  | markFailed (event : TaskInstanceQueued) (returns : Bool)
  | giveUp (event : TaskInstanceQueued)

def World.write (s : World) (key : TaskInstanceKey) (f : TaskRow → TaskRow) : World :=
  { s with rows := Function.update s.rows key ((s.rows key).map f) }

/-- An invocation that fails leaves its event to the next one. -/
def stillCatching (catching : List TaskInstanceQueued) (event : TaskInstanceQueued)
    (returns : Bool) : List TaskInstanceQueued :=
  if returns then catching.erase event else catching

theorem stillCatching_subset (catching : List TaskInstanceQueued) (event : TaskInstanceQueued)
    (returns : Bool) : stillCatching catching event returns ⊆ catching := by
  unfold stillCatching
  split
  · exact List.erase_subset ..
  · exact List.Subset.refl _

def worldStep (dags : DagBag) (s : World) : WorldLabel → Option World
  | .clear key => some (s.write key fun row => { row with state := none })
  | .schedule key => some (s.write key fun row => { row with state := some .scheduled })
  | .queue key queuedDttm =>
    if (s.rows key).any (·.state = some .scheduled) then
      some (s.write key fun row =>
        { row with state := some .queued, queuedDttm := some queuedDttm })
    else none
  | .deliver event =>
    if event ∈ s.executing ∨ event ∈ s.catching then none
    else some { s with executing := event :: s.executing }
  | .takeUp event =>
    if event ∈ s.executing ∧ (s.rows event.key).any (runnableState ·.state) then
      some (s.write event.key fun row =>
        { row with state := some .running, tryNumber := row.tryNumber + 1 })
    else none
  | .sendBack event queuedDttm =>
    if event ∈ s.executing ∧ (s.rows event.key).any (runnableState ·.state) then
      some (s.write event.key fun row => { row with state := none, queuedDttm := some queuedDttm })
    else none
  | .record event outcome =>
    if event ∈ s.executing then
      some (s.write event.key fun row => { row with state := some outcome })
    else none
  | .finish event =>
    if event ∈ s.executing then some { s with executing := s.executing.erase event } else none
  | .error event =>
    if event ∈ s.executing then
      some { s with executing := s.executing.erase event, catching := event :: s.catching }
    else none
  | .markFailed event returns =>
    if event ∈ s.catching then
      match markTaskAsFailed dags s.rows event with
      | .ok rows =>
        some { s with rows := rows, catching := stillCatching s.catching event returns }
      | .error _ => some s
    else none
  | .giveUp event =>
    if event ∈ s.catching then some { s with catching := s.catching.erase event } else none

-- ---------------------------------------------------------------------------
-- What the catcher may overwrite
-- ---------------------------------------------------------------------------

/-- Still queued or running in the queue episode that the event announced. -/
def TaskRow.OpenFor (row : TaskRow) (event : TaskInstanceQueued) : Prop :=
  (row.state = some .queued ∨ row.state = some .running) ∧ row.queuedDttm = some event.queuedDttm

instance (row : TaskRow) (event : TaskInstanceQueued) : Decidable (row.OpenFor event) :=
  inferInstanceAs (Decidable (_ ∧ _))

/-- The catcher writes only an open row; every other row keeps what it says. -/
def CatcherMeets (dags : DagBag) (s : World) : WorldLabel → Prop
  | .markFailed event returns => ∀ s' ∈ worldStep dags s (.markFailed event returns),
      ∀ row ∈ s.rows event.key, row.OpenFor event ∨ s'.rows event.key = some row
  | _ => True

instance (dags : DagBag) (s : World) : (l : WorldLabel) → Decidable (CatcherMeets dags s l)
  | .markFailed event returns => inferInstanceAs (Decidable (
      ∀ s' ∈ worldStep dags s (.markFailed event returns), ∀ row ∈ s.rows event.key,
        row.OpenFor event ∨ s'.rows event.key = some row))
  | .clear _ | .schedule _ | .queue .. | .deliver _ | .takeUp _ | .sendBack .. | .record ..
  | .finish _ | .error _ | .giveUp _ => .isTrue trivial

/-- The event names a dag run, and a map index just where the task is mapped. -/
def DagTask.Takes (task : DagTask) (event : TaskInstanceQueued) : Prop :=
  event.runId ≠ "" ∧ (task.isMapped = true ↔ 0 ≤ event.mapIndex)

instance (task : DagTask) (event : TaskInstanceQueued) : Decidable (task.Takes event) :=
  inferInstanceAs (Decidable (_ ∧ _))

/-- The catcher finds the event's DAG and a task of it that takes the event. -/
def Known (dags : DagBag) (event : TaskInstanceQueued) : Prop :=
  ∃ tasks ∈ dags event.dagId, ∃ task ∈ tasks.find? (·.taskId = event.taskId), task.Takes event

instance (dags : DagBag) (event : TaskInstanceQueued) : Decidable (Known dags event) :=
  inferInstanceAs (Decidable (∃ tasks ∈ dags event.dagId, _))

/-- FAILED would change nothing, or only an open row. -/
def Settled (rows : TaskRows) (event : TaskInstanceQueued) : Prop :=
  ∀ row ∈ rows event.key, row.OpenFor event ∨ row.state = some .failed

instance (rows : TaskRows) (event : TaskInstanceQueued) : Decidable (Settled rows event) :=
  inferInstanceAs (Decidable (∀ row ∈ rows event.key, _))

/-- No catcher is about to write the row. -/
def NoCatcher (dags : DagBag) (s : World) (key : TaskInstanceKey) : Prop :=
  ∀ event ∈ s.catching, Known dags event → event.key ≠ key

instance (dags : DagBag) (s : World) (key : TaskInstanceKey) : Decidable (NoCatcher dags s key) :=
  inferInstanceAs (Decidable (∀ event ∈ s.catching, _))

/-- The worker fails only while its task instance is open or failed, and nobody
clears, schedules, queues, sends back or settles a task instance that a catcher is about to
write. -/
def Undisturbed (dags : DagBag) (s : World) : WorldLabel → Prop
  | .error event => Known dags event → Settled s.rows event
  | .clear key | .schedule key | .queue key _ => NoCatcher dags s key
  | .sendBack event _ => NoCatcher dags s event.key
  | .record event outcome => outcome = .failed ∨ NoCatcher dags s event.key
  | .deliver _ | .takeUp _ | .finish _ | .markFailed .. | .giveUp _ => True

instance (dags : DagBag) (s : World) : (l : WorldLabel) → Decidable (Undisturbed dags s l)
  | .error event => inferInstanceAs (Decidable (Known dags event → Settled s.rows event))
  | .clear key | .schedule key | .queue key _ => inferInstanceAs (Decidable (NoCatcher dags s key))
  | .sendBack event _ => inferInstanceAs (Decidable (NoCatcher dags s event.key))
  | .record event _ => inferInstanceAs (Decidable (_ ∨ NoCatcher dags s event.key))
  | .deliver _ | .takeUp _ | .finish _ | .markFailed .. | .giveUp _ => .isTrue trivial

-- ---------------------------------------------------------------------------
-- Steps
-- ---------------------------------------------------------------------------

theorem getTi_ok_iff {rows : TaskRows} {task : DagTask} {event : TaskInstanceQueued}
    {row : TaskRow} :
    getTi rows task event = .ok row ↔ task.Takes event ∧ rows event.key = some row := by
  unfold getTi DagTask.Takes
  constructor
  · intro h
    split_ifs at h with hrun hunindexed hindexed
    split at h
    · cases h
    · rename_i ti hrow
      cases h
      refine ⟨⟨hrun, fun hmapped => ?_, fun hindex => ?_⟩, hrow⟩
      · exact not_lt.mp fun hlt => hunindexed ⟨hmapped, hlt⟩
      · by_contra hmapped
        exact hindexed ⟨hmapped, hindex⟩
  · rintro ⟨⟨hrun, hindex⟩, hrow⟩
    rw [if_neg hrun, if_neg fun h => absurd (hindex.mp h.1) (not_le.mpr h.2),
      if_neg fun h => h.1 (hindex.mpr h.2), hrow]

theorem markTaskAsFailed_of_known {dags : DagBag} {rows : TaskRows} {event : TaskInstanceQueued}
    (hknown : Known dags event) {row : TaskRow} (hrow : rows event.key = some row) :
    markTaskAsFailed dags rows event =
      .ok (Function.update rows event.key (some { row with state := some .failed })) := by
  obtain ⟨tasks, hdag, task, htask, htakes⟩ := hknown
  have hdag : dags event.dagId = some tasks := hdag
  have htask : tasks.find? (·.taskId = event.taskId) = some task := htask
  unfold markTaskAsFailed
  rw [hdag]
  dsimp only
  rw [htask]
  dsimp only
  rw [getTi_ok_iff.mpr ⟨htakes, hrow⟩]
  rfl

theorem markTaskAsFailed_cases {dags : DagBag} {rows rows' : TaskRows} {event : TaskInstanceQueued}
    (h : markTaskAsFailed dags rows event = .ok rows') :
    rows' = rows ∨ Known dags event ∧ ∃ row, rows event.key = some row ∧
      rows' = Function.update rows event.key (some { row with state := some .failed }) := by
  unfold markTaskAsFailed at h
  split at h
  · cases h
    exact .inl rfl
  · rename_i tasks hdag
    split at h
    · cases h
    · rename_i task htask
      cases hti : getTi rows task event with
      | error e =>
        rw [hti] at h
        cases h
      | ok row =>
        rw [hti] at h
        cases h
        obtain ⟨htakes, hrow⟩ := getTi_ok_iff.mp hti
        exact .inr ⟨⟨tasks, hdag, task, htask, htakes⟩, row, hrow, rfl⟩

/-- A second mark finds FAILED and writes it again. -/
theorem markTaskAsFailed_again {dags : DagBag} {rows rows' : TaskRows} {event : TaskInstanceQueued}
    (h : markTaskAsFailed dags rows event = .ok rows') :
    markTaskAsFailed dags rows' event = .ok rows' := by
  rcases markTaskAsFailed_cases h with rfl | ⟨hknown, row, -, rfl⟩
  · exact h
  · rw [markTaskAsFailed_of_known hknown (Function.update_self ..), Function.update_idem]

theorem World.write_other (s : World) {key key' : TaskInstanceKey} (h : key' ≠ key)
    (f : TaskRow → TaskRow) : (s.write key f).rows key' = s.rows key' :=
  Function.update_of_ne h _ _

theorem World.write_self (s : World) (key : TaskInstanceKey) (f : TaskRow → TaskRow) :
    (s.write key f).rows key = (s.rows key).map f :=
  Function.update_self ..

def CatchersSettled (dags : DagBag) (s : World) : Prop :=
  ∀ event ∈ s.catching, Known dags event → Settled s.rows event

theorem CatchersSettled.write {dags : DagBag} {s : World} (h : CatchersSettled dags s)
    {key : TaskInstanceKey} (hn : NoCatcher dags s key) (f : TaskRow → TaskRow) :
    CatchersSettled dags (s.write key f) := by
  intro event he hk
  unfold Settled
  rw [s.write_other (hn event he hk)]
  exact h event he hk

theorem CatchersSettled.write_settled {dags : DagBag} {s : World} (h : CatchersSettled dags s)
    (key : TaskInstanceKey) {f : TaskRow → TaskRow}
    (hf : ∀ row ∈ s.rows key, ∀ event : TaskInstanceQueued,
      row.OpenFor event ∨ row.state = some .failed →
        (f row).OpenFor event ∨ (f row).state = some .failed) :
    CatchersSettled dags (s.write key f) := by
  intro event he hknown
  unfold Settled
  by_cases hk : event.key = key
  · subst hk
    rw [s.write_self]
    intro row' hrow'
    obtain ⟨row, hrow, rfl⟩ := Option.map_eq_some_iff.mp hrow'
    exact hf row hrow event (h event he hknown row hrow)
  · rw [s.write_other hk]
    exact h event he hknown

/-- A step that writes no row and starts no catcher. -/
theorem CatchersSettled.of_subset {dags : DagBag} {s s' : World} (h : CatchersSettled dags s)
    (hrows : s'.rows = s.rows) (hsub : s'.catching ⊆ s.catching) : CatchersSettled dags s' := by
  intro event he hknown
  rw [hrows]
  exact h event (hsub he) hknown

theorem CatchersSettled.takeUp {dags : DagBag} {s : World} (h : CatchersSettled dags s)
    {event : TaskInstanceQueued} (hq : (s.rows event.key).any (runnableState ·.state)) :
    CatchersSettled dags (s.write event.key fun row =>
      { row with state := some .running, tryNumber := row.tryNumber + 1 }) := by
  refine h.write_settled _ fun row hrow event' hopen => ?_
  have hrow : s.rows event.key = some row := hrow
  have hrunnable : runnableState row.state = true := by simpa [hrow] using hq
  rcases hopen with ⟨-, hdttm⟩ | hfailed
  · exact .inl ⟨.inr rfl, hdttm⟩
  · rw [hfailed] at hrunnable
    exact absurd hrunnable (by decide)

theorem CatchersSettled.markFailed {dags : DagBag} {s : World} (h : CatchersSettled dags s)
    {event : TaskInstanceQueued} {rows : TaskRows}
    (hm : markTaskAsFailed dags s.rows event = .ok rows) {catching : List TaskInstanceQueued}
    (hsub : catching ⊆ s.catching) :
    CatchersSettled dags { s with rows := rows, catching := catching } := by
  intro event' he' hknown
  have hsettled := h event' (hsub he') hknown
  rcases markTaskAsFailed_cases hm with rfl | ⟨-, row, -, rfl⟩
  · exact hsettled
  · intro row' hrow'
    dsimp only at hrow'
    by_cases hk : event'.key = event.key
    · rw [hk, Function.update_self] at hrow'
      cases hrow'
      exact .inr rfl
    · rw [Function.update_of_ne hk] at hrow'
      exact hsettled row' hrow'

theorem CatchersSettled.step {dags : DagBag} {s s' : World} (h : CatchersSettled dags s)
    {l : WorldLabel} (hc : Undisturbed dags s l) (hs : worldStep dags s l = some s') :
    CatchersSettled dags s' := by
  cases l with
  | clear key =>
    cases hs
    exact h.write hc _
  | schedule key =>
    cases hs
    exact h.write hc _
  | queue key queuedDttm =>
    simp only [worldStep] at hs
    split_ifs at hs
    cases hs
    exact h.write hc _
  | deliver event =>
    simp only [worldStep] at hs
    split_ifs at hs
    cases hs
    exact h.of_subset rfl (List.Subset.refl _)
  | takeUp event =>
    simp only [worldStep] at hs
    split_ifs at hs with hq
    cases hs
    exact h.takeUp hq.2
  | sendBack event queuedDttm =>
    simp only [worldStep] at hs
    split_ifs at hs
    cases hs
    exact h.write hc _
  | record event outcome =>
    simp only [worldStep] at hs
    split_ifs at hs
    cases hs
    rcases hc with rfl | hn
    · exact h.write_settled _ fun row _ event' _ => .inr rfl
    · exact h.write hn _
  | finish event =>
    simp only [worldStep] at hs
    split_ifs at hs
    cases hs
    exact h.of_subset rfl (List.Subset.refl _)
  | error event =>
    simp only [worldStep] at hs
    split_ifs at hs
    cases hs
    exact List.forall_mem_cons.mpr ⟨hc, h⟩
  | markFailed event returns =>
    simp only [worldStep] at hs
    split_ifs at hs
    split at hs
    · rename_i rows hm
      cases hs
      exact h.markFailed hm (stillCatching_subset ..)
    · cases hs
      exact h
  | giveUp event =>
    simp only [worldStep] at hs
    split_ifs at hs
    cases hs
    exact h.of_subset rfl (List.erase_subset ..)

theorem CatchersSettled.meets {dags : DagBag} {s : World} (h : CatchersSettled dags s)
    (l : WorldLabel) : CatcherMeets dags s l := by
  cases l with
  | markFailed event returns =>
    intro s' hs row hrow
    have hs : worldStep dags s (.markFailed event returns) = some s' := hs
    simp only [worldStep] at hs
    split_ifs at hs with hmem
    split at hs
    · rename_i rows hm
      cases hs
      rcases markTaskAsFailed_cases hm with rfl | ⟨hknown, row', hrow', rfl⟩
      · exact .inr hrow
      · rcases h event hmem hknown row hrow with hopen | hfailed
        · exact .inl hopen
        · obtain rfl := Option.some.inj (hrow'.symm.trans hrow)
          refine .inr ?_
          dsimp only
          rw [Function.update_self, ← hfailed]
    · cases hs
      exact .inr hrow
  | clear | schedule | queue | deliver | takeUp | sendBack | record | finish | error | giveUp =>
    trivial

/-- A catcher whose row is neither open nor failed overwrites it. -/
theorem settled_of_catcherMeets {dags : DagBag} {s : World} {event : TaskInstanceQueued}
    (hmem : event ∈ s.catching) (hknown : Known dags event) {returns : Bool}
    (h : CatcherMeets dags s (.markFailed event returns)) : Settled s.rows event := by
  intro row hrow
  have hm := markTaskAsFailed_of_known hknown hrow
  rcases h _ (show worldStep dags s (.markFailed event returns) = some _ by
    simp only [worldStep, if_pos hmem, hm]; rfl) row hrow with hopen | hkept
  · exact .inl hopen
  · right
    dsimp only at hkept
    rw [Function.update_self] at hkept
    exact congrArg TaskRow.state (Option.some.inj hkept).symm

/-- Along every run whose steps leave the waiting catchers undisturbed, a catcher
writes FAILED only into a row that is still open for its event. -/
theorem markTaskAsFailed_meets (dags : DagBag) (s : World) (labels : List WorldLabel)
    (hs : s.catching = []) (hc : Machine.Along (worldStep dags) (Undisturbed dags) s labels) :
    Machine.Along (worldStep dags) (CatcherMeets dags) s labels := by
  have hstart : CatchersSettled dags s := by
    intro event he
    rw [hs] at he
    exact nomatch he
  exact hc.imp (fun _ _ _ h hu hstep => h.step hu hstep) (fun _ l h _ => h.meets l) hstart

-- ---------------------------------------------------------------------------
-- Two runs
-- ---------------------------------------------------------------------------

def etlEvent : TaskInstanceQueued where
  dagId := "etl"
  runId := "scheduled__2022-10-25T19:55:00+00:00"
  taskId := "load"
  mapIndex := -1
  tryNumber := 0
  pool := "default_pool"
  queue := "lambda"
  queuedDttm := "2022-10-25T20:00:01Z"

def etlDags : DagBag := fun dagId => if dagId = "etl" then some [⟨"load", false⟩] else none

def etlStart : World where
  rows key := if key = etlEvent.key then some ⟨some .scheduled, none, 0⟩ else none
  executing := []
  catching := []

theorem markTaskAsFailed_meets_timeout :
    Machine.Along (worldStep etlDags) (CatcherMeets etlDags) etlStart
      [.queue etlEvent.key etlEvent.queuedDttm, .deliver etlEvent, .takeUp etlEvent,
        .error etlEvent, .markFailed etlEvent false, .markFailed etlEvent true] :=
  markTaskAsFailed_meets etlDags etlStart _ rfl (by decide)

/-- The worker recorded success and raised behind it, while it flushed its logs. -/
theorem markTaskAsFailed_overwrites_success :
    ¬Machine.Along (worldStep etlDags) (CatcherMeets etlDags) etlStart
      [.queue etlEvent.key etlEvent.queuedDttm, .deliver etlEvent, .takeUp etlEvent,
        .record etlEvent .success, .error etlEvent, .markFailed etlEvent true] := by decide

end Beeflow.Executors
