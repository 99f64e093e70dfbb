import Beeflow.Executors.Catcher
import Beeflow.Lib.StateLanguage
import Beeflow.Pipeline.Executor

/-!
# The state machines around the workers

Both executors start the same machine: it runs the worker on what the executor
wrote into the input, and where the worker fails for good it hands the input
with the error to the catcher. The machine of the Lambda executor retries its
catcher; the Batch job that stands for the other's worker retries itself.
-/

namespace Beeflow.Pipeline

open Events Executors Python StateLanguage

inductive Resource
  | worker | catcher
  deriving DecidableEq, Repr

/-- How often a failed invocation is made again, and behind which errors. -/
structure Retrier where
  maxAttempts : Nat
  retries : Json → Bool

namespace Retrier

/-- A state without `Retry` -/
def never : Retrier := ⟨0, fun _ => false⟩

/-- `"ErrorEquals" : ["States.ALL"]` -/
def statesAll (maxAttempts : Nat) : Retrier := ⟨maxAttempts, fun _ => true⟩

end Retrier

inductive Action
  | retry | exit
  deriving DecidableEq, Repr

structure EvaluateOnExit where
  action : Action
  onExitCode : Int

structure RetryStrategy where
  attempts : Nat
  evaluateOnExit : List EvaluateOnExit

/-- A job whose exit code no condition names is retried. -/
def RetryStrategy.retries (r : RetryStrategy) (exitCode : Int) : Bool :=
  (r.evaluateOnExit.find? (·.onExitCode = exitCode)).all (·.action = .retry)

/-- The job definition `AirflowTask` of `worker.tf`, with the deployment's `batch_job_retries`. -/
def airflowTask : RetryStrategy := ⟨3, [⟨.exit, 0⟩, ⟨.retry, 1⟩]⟩

/-- `exitCode` is `none` for a job that could not be submitted or that ran out of its time, which
Batch does not retry; a container that never started counts as one with a code of its own. -/
def RetryStrategy.retrier (r : RetryStrategy) (exitCode : Json → Option Int) : Retrier :=
  ⟨r.attempts - 1, fun e => (exitCode e).any r.retries⟩

/-- The definition in `sfn.tf`, with the retriers of its two tasks. -/
def executorWrapper (path : StatePath) (field : String) (worker catcher : Retrier) :
    StateMachine Resource Json where
  startAt := "EXECUTE_AIRFLOW_TASK"
  states := [
    ("EXECUTE_AIRFLOW_TASK", {
      resource := .worker
      select := path ("$." ++ field)
      maxAttempts := worker.maxAttempts
      retries := worker.retries
      caught := some ("MARK_TASK_AS_FAILED", addError)
      next := none }),
    ("MARK_TASK_AS_FAILED", {
      resource := .catcher
      select := some
      maxAttempts := catcher.maxAttempts
      retries := catcher.retries
      caught := none
      next := none })]

section Run

variable {σ : Type} {invoke : Invoke Resource Json σ} {path : StatePath} {field : String}
  {worker catcher : Retrier} {members : Dict} {arg : Json} {s : σ}

def Retrier.attempts (r : Retrier) (invoke : Invoke Resource Json σ) (resource : Resource)
    (arg : Json) (s : σ) : Attempts Json σ :=
  StateLanguage.attempts invoke resource arg r.retries r.maxAttempts s

def statusOf : Except Json Json → Status Json
  | .ok output => .succeeded output
  | .error _ => .failed

/-- What an execution leaves whose worker and catcher made these attempts. -/
def caughtEnd (arg input : Json) (w a : Attempts Json σ) : Ended Resource Json σ where
  status := statusOf a.outcome
  world := a.world
  log := w.calls .worker arg ++ a.calls .catcher input

variable (catcher) in
theorem executorWrapper_ok (hselect : path ("$." ++ field) (.obj members) = some arg)
    {output : Json} (h : (worker.attempts invoke .worker arg s).outcome = .ok output) :
    (executorWrapper path field worker catcher).run invoke (.obj members) s =
      some ⟨.succeeded output, (worker.attempts invoke .worker arg s).world,
        (worker.attempts invoke .worker arg s).calls .worker arg⟩ := by
  unfold Retrier.attempts at h ⊢
  simp [StateMachine.run, executorWrapper, runFrom, hselect, h]

variable (catcher) in
theorem executorWrapper_error (hselect : path ("$." ++ field) (.obj members) = some arg)
    {e : Json} (h : (worker.attempts invoke .worker arg s).outcome = .error e) :
    (executorWrapper path field worker catcher).run invoke (.obj members) s =
      some (caughtEnd arg (.obj (Dict.set members "error" e)) (worker.attempts invoke .worker arg s)
        (catcher.attempts invoke .catcher (.obj (Dict.set members "error" e))
          (worker.attempts invoke .worker arg s).world)) := by
  unfold Retrier.attempts at h ⊢
  simp only [StateMachine.run, executorWrapper, runFrom, List.length_cons, List.length_nil,
    List.lookup_cons, beq_self_eq_true, hselect, h, addError,
    show ("MARK_TASK_AS_FAILED" == "EXECUTE_AIRFLOW_TASK") = false by decide]
  cases ha : (StateLanguage.attempts invoke .catcher (.obj (Dict.set members "error" e))
      catcher.retries catcher.maxAttempts
      (StateLanguage.attempts invoke .worker arg worker.retries worker.maxAttempts
        s).world).outcome with
  | ok output => simp [caughtEnd, Ended.after, statusOf, ha]
  | error e' => simp [caughtEnd, Ended.after, statusOf, ha]

end Run

-- ---------------------------------------------------------------------------
-- What the handlers read
-- ---------------------------------------------------------------------------

/-- An executor's input, the retriers, and how its worker and its catcher read what they are
handed. -/
structure ExecutorPath where
  prepareInput : String → ParsedEvent → String
  worker : Retrier
  catcher : Retrier
  workerEvent : Json → Option ParsedEvent
  catcherEvent : String → Json → Option ParsedEvent

section Handlers

variable (parseFloat : List Char → Json) (exitCode : Json → Option Int)

def lambdaPath : ExecutorPath where
  prepareInput := LambdaExecutor.prepareInput
  worker := .never
  catcher := .statesAll 5
  workerEvent := parse parseFloat
  catcherEvent field input := do parse parseFloat (← item field input)

/-- The parameters of a Batch job are strings; the worker has its own as `--event`. -/
def batchPath : ExecutorPath where
  prepareInput := BatchExecutor.prepareInput
  worker := airflowTask.retrier exitCode
  catcher := .never
  workerEvent
    | .str serialized => do parse parseFloat (.str (← eventArgument ["--event", serialized]))
    | _ => none
  catcherEvent field input := do
    match ← item field input with
    | .str serialized => parse parseFloat (← (loads parseFloat serialized).toOption)
    | _ => none

def execution (p : ExecutorPath) (path : StatePath) (field : String) {σ : Type}
    (invoke : Invoke Resource Json σ) (e : ParsedEvent) (s : σ) :
    Option (Ended Resource Json σ) := do
  (executorWrapper path field p.worker p.catcher).run invoke
    (← executionInput parseFloat (p.prepareInput field e)) s

/-- The field's value in the input, which the worker reads as the event, and behind which the
catcher finds it beside the error. -/
structure Carries (p : ExecutorPath) (field : String) (e : ParsedEvent) (j : Json) : Prop where
  input : executionInput parseFloat (p.prepareInput field e) = some (.obj [(field, j)])
  worker : p.workerEvent j = some e
  catcher : ∀ error, p.catcherEvent field (.obj (Dict.set [(field, j)] "error" error)) = some e

theorem item_set_error {field : String} (hfield : field ≠ "error") (j error : Json) :
    item field (.obj (Dict.set [(field, j)] "error" error)) = some j := by
  simp [Dict.set, hfield.symm, item, Json.item, Dict.item, Except.toOption]

theorem lambdaPath_carries {field : String} (hfield : field ≠ "error")
    (event : TaskInstanceQueued) (t : BeeflowEventType) :
    Carries parseFloat (lambdaPath parseFloat) field (event.parsed t)
      (.obj (event.parsed t).dict) where
  input := executionInput_dumps parseFloat (plain_dict event t)
  worker := parse_obj_dict parseFloat event t
  catcher error := by
    simp [lambdaPath, item_set_error hfield, parse_obj_dict]

theorem batchPath_carries {field : String} (hfield : field ≠ "error")
    (event : TaskInstanceQueued) (t : BeeflowEventType) :
    Carries parseFloat (batchPath parseFloat exitCode) field (event.parsed t)
      (.str (dumps (.obj (event.parsed t).dict))) where
  input := executionInput_dumps parseFloat (.str _)
  worker := by simp [batchPath, eventArgument_dumps, parse_dumps_dict]
  catcher error := by
    simp [batchPath, item_set_error hfield, loads_dumps (plain_dict event t), Except.toOption,
      parse_obj_dict]

-- ---------------------------------------------------------------------------
-- Who is invoked, and with what
-- ---------------------------------------------------------------------------

variable {parseFloat} {p : ExecutorPath} {path : StatePath} {field : String} {e : ParsedEvent}
  {j : Json} {σ : Type}

theorem Carries.execution_eq (hc : Carries parseFloat p field e j) (invoke : Invoke Resource Json σ)
    (s : σ) : execution parseFloat p path field invoke e s =
      (executorWrapper path field p.worker p.catcher).run invoke (.obj [(field, j)]) s := by
  simp [execution, hc.input]

end Handlers

/-- The exit code of an attempt, where the error is one. -/
def intCode : Json → Option Int
  | .int code => some code
  | _ => none

/-- The task instances, and how often the worker and the catcher were invoked. -/
structure Marking where
  rows : TaskRows
  worked : Nat
  invoked : Nat

/-- What an attempt of the worker does, each in its own way. -/
abbrev Work := Nat → TaskInstanceQueued → TaskRows → Except Json Json × TaskRows

/-- How far an invocation of the catcher gets. -/
inductive Fate
  | crashesBefore | crashesBehind | returns
  deriving DecidableEq, Repr

section Marking

/-- A catcher crashes in front of `mark_task_as_failed`, behind it, or not at all. -/
def marking (p : ExecutorPath) (field : String) (dags : DagBag) (work : Work)
    (fate : Nat → Fate) : Invoke Resource Json Marking
  | .worker, arg, w =>
    match p.workerEvent arg with
    | none => (.error .null, w)
    | some e =>
      let (outcome, rows) := work w.worked (queuedOf e.event) w.rows
      (outcome, { w with rows := rows, worked := w.worked + 1 })
  | .catcher, input, w =>
    let w' := { w with invoked := w.invoked + 1 }
    if fate w.invoked = .crashesBefore then (.error .null, w')
    else
      match p.catcherEvent field input with
      | none => (.error .null, w')
      | some e =>
        match markTaskAsFailed dags w.rows (queuedOf e.event) with
        | .error _ => (.error .null, w')
        | .ok rows =>
          (if fate w.invoked = .returns then .ok (.obj []) else .error .null,
            { w' with rows := rows })

/-- The attempts of a worker that is told the event. -/
def workAttempts (r : Retrier) (work : Work) (event : TaskInstanceQueued) (rows : TaskRows) :
    Attempts Json (TaskRows × Nat) :=
  StateLanguage.attempts (fun (_ : Unit) _ s =>
    ((work s.2 event s.1).1, (work s.2 event s.1).2, s.2 + 1)) () .null r.retries r.maxAttempts
    (rows, 0)

variable {parseFloat : List Char → Json} {p : ExecutorPath} {path : StatePath} {field : String}
  {dags : DagBag} {work : Work} {fate : Nat → Fate} {event : TaskInstanceQueued}
  {t : BeeflowEventType} {j input : Json}

variable (field dags work fate) in
theorem work_attempts (hworker : p.workerEvent j = some (event.parsed t)) (rows : TaskRows) :
    p.worker.attempts (marking p field dags work fate) .worker j ⟨rows, 0, 0⟩ =
      let a := workAttempts p.worker work event rows
      ⟨a.failed, a.outcome, ⟨a.world.1, a.world.2, 0⟩⟩ :=
  attempts_map (f := fun w : TaskRows × Nat => (⟨w.1, w.2, 0⟩ : Marking))
    (fun s => by simp [marking, hworker, queuedOf_parsed]) _ (rows, 0)

variable (work fate) in
theorem marking_catcher (hinput : p.catcherEvent field input = some (event.parsed t)) (w : Marking)
    {rows : TaskRows} (hmark : markTaskAsFailed dags w.rows event = .ok rows) :
    marking p field dags work fate .catcher input w =
      (if fate w.invoked = .returns then .ok (.obj []) else .error .null,
        ⟨if fate w.invoked ≠ .crashesBefore then rows else w.rows, w.worked, w.invoked + 1⟩) := by
  cases hfate : fate w.invoked <;> simp [marking, hfate, hinput, queuedOf_parsed, hmark]

/-- The fates of the next `n + 1` invocations of the catcher. -/
def fates (fate : Nat → Fate) (w : Marking) (n : Nat) : List Fate :=
  (List.range' w.invoked (n + 1)).map fate

variable (work fate) in
/-- The first attempt that gets to the mark makes it, and the ones behind it change nothing. -/
theorem attempts_mark (hinput : p.catcherEvent field input = some (event.parsed t)) (w : Marking)
    {rows : TaskRows} (hmark : markTaskAsFailed dags w.rows event = .ok rows)
    {retries : Json → Bool} {n : Nat} (hretries : 0 < n → ∀ e, retries e = true) :
    let a := attempts (marking p field dags work fate) .catcher input retries n w
    a.world.rows = (if (fates fate w n).any (· ≠ .crashesBefore) then rows else w.rows) ∧
      a.outcome = if (fates fate w n).any (· = .returns) then .ok (.obj []) else .error .null := by
  induction n generalizing w with
  | zero =>
    have hstep := marking_catcher work fate hinput w hmark
    simp [attempts, hstep, fates]
  | succ n ih =>
    have hstep := marking_catcher work fate hinput w hmark
    have hmore := hretries (Nat.succ_pos n)
    have hfates : ∀ rows, fates fate w (n + 1) =
        fate w.invoked :: fates fate ⟨rows, w.worked, w.invoked + 1⟩ n := by
      intro rows
      rw [fates, List.range'_succ]
      rfl
    cases hfate : fate w.invoked with
    | returns =>
      simp only [hfate, if_true] at hstep
      simp [attempts_ok hstep, hfates w.rows, hfate]
    | crashesBehind =>
      simp only [hfate, reduceCtorEq, if_false] at hstep
      have ih := ih ⟨rows, w.worked, w.invoked + 1⟩ (markTaskAsFailed_again hmark) fun _ => hmore
      rw [hfates rows, hfate, attempts_retried hstep (hmore _)]
      simpa using ih
    | crashesBefore =>
      simp only [hfate, reduceCtorEq, if_false] at hstep
      have ih := ih ⟨w.rows, w.worked, w.invoked + 1⟩ hmark fun _ => hmore
      rw [hfates w.rows, hfate, attempts_retried hstep (hmore _)]
      simpa using ih

variable (work fate) in
theorem attempts_unmarked (hinput : p.catcherEvent field input = some (event.parsed t))
    (w : Marking) {err : CatcherError} (herr : markTaskAsFailed dags w.rows event = .error err)
    (retries : Json → Bool) (n : Nat) :
    let a := attempts (marking p field dags work fate) .catcher input retries n w
    a.world.rows = w.rows ∧ a.outcome = .error .null := by
  have hstep : marking p field dags work fate .catcher input w =
      (.error .null, { w with invoked := w.invoked + 1 }) := by
    simp only [marking, hinput, queuedOf_parsed, herr]
    split_ifs <;> rfl
  induction n generalizing w with
  | zero => simp [attempts, hstep]
  | succ n ih =>
    by_cases hretried : retries .null = true
    · rw [attempts_retried hstep hretried]
      refine ih { w with invoked := w.invoked + 1 } herr ?_
      simp only [marking, hinput, queuedOf_parsed, herr]
      split_ifs <;> rfl
    · simp [attempts, hstep, hretried]

/-- What becomes of the rows that a failed worker left: FAILED is written where one of the
catcher's attempts gets as far as that, and the execution succeeds where one of them returns. -/
structure Marks (attempts : Nat) (dags : DagBag) (fate : Nat → Fate) (event : TaskInstanceQueued)
    (left : TaskRows) (ended : Ended Resource Json Marking) : Prop where
  marked : ∀ rows, markTaskAsFailed dags left event = .ok rows →
    (∃ i < attempts, fate i ≠ .crashesBefore) → ended.world.rows = rows
  unmarked : ((∃ err, markTaskAsFailed dags left event = .error err) ∨
    ∀ i < attempts, fate i = .crashesBefore) → ended.world.rows = left
  succeeded : (∃ rows, markTaskAsFailed dags left event = .ok rows) →
    (∃ i < attempts, fate i = .returns) → ended.status = .succeeded (.obj [])
  failed : ((∃ err, markTaskAsFailed dags left event = .error err) ∨
    ∀ i < attempts, fate i ≠ .returns) → ended.status = .failed

/-- What an execution leaves whose worker's attempts came to this. -/
structure Leaves (p : ExecutorPath) (dags : DagBag) (fate : Nat → Fate)
    (event : TaskInstanceQueued) (a : Attempts Json (TaskRows × Nat))
    (ended : Ended Resource Json Marking) : Prop where
  returned : ∀ output, a.outcome = .ok output →
    ended.world.rows = a.world.1 ∧ ended.status = .succeeded output
  caught : ∀ err, a.outcome = .error err →
    Marks (p.catcher.maxAttempts + 1) dags fate event a.world.1 ended

theorem fates_any {rows : TaskRows} {worked n : Nat} {q : Fate → Bool} :
    (fates fate ⟨rows, worked, 0⟩ n).any q = true ↔ ∃ i < n + 1, q (fate i) = true := by
  simp [fates]

theorem marks_attempts (hinput : p.catcherEvent field input = some (event.parsed t))
    (hretries : 0 < p.catcher.maxAttempts → ∀ e, p.catcher.retries e = true) (left : TaskRows)
    (worked : Nat) {arg : Json} {w : Attempts Json Marking} :
    Marks (p.catcher.maxAttempts + 1) dags fate event left
      (caughtEnd arg input w (p.catcher.attempts (marking p field dags work fate) .catcher input
        ⟨left, worked, 0⟩)) := by
  cases hmark : markTaskAsFailed dags left event with
  | error err =>
    obtain ⟨hrows, houtcome⟩ := attempts_unmarked work fate hinput ⟨left, worked, 0⟩ hmark
      p.catcher.retries p.catcher.maxAttempts
    refine ⟨fun rows hok => ?_, fun _ => hrows, fun hok => ?_, fun _ => congrArg statusOf houtcome⟩
    · cases hmark.symm.trans hok
    · obtain ⟨rows, hok⟩ := hok
      cases hmark.symm.trans hok
  | ok marked =>
    obtain ⟨hrows, houtcome⟩ := attempts_mark work fate hinput ⟨left, worked, 0⟩ hmark hretries
    simp only [fates_any, decide_eq_true_eq] at hrows houtcome
    refine ⟨fun rows hok hreached => ?_, fun hnone => ?_, fun _ hreturns => ?_, fun hnone => ?_⟩
    · obtain rfl := Except.ok.inj (hmark.symm.trans hok)
      exact hrows.trans (if_pos hreached)
    · rcases hnone with ⟨err, herr⟩ | hcrashes
      · cases hmark.symm.trans herr
      · refine hrows.trans (if_neg ?_)
        rintro ⟨i, hi, hne⟩
        exact hne (hcrashes i hi)
    · exact congrArg statusOf (houtcome.trans (if_pos hreturns))
    · rcases hnone with ⟨err, herr⟩ | hcrashes
      · cases hmark.symm.trans herr
      · refine congrArg statusOf (houtcome.trans (if_neg ?_))
        rintro ⟨i, hi, hreturns⟩
        exact hcrashes i hi hreturns

theorem Carries.leaves (hc : Carries parseFloat p field (event.parsed t) j)
    (hpath : ReadsMember path field)
    (hretries : 0 < p.catcher.maxAttempts → ∀ e, p.catcher.retries e = true) (rows : TaskRows) :
    ∃ ended, execution parseFloat p path field (marking p field dags work fate)
        (event.parsed t) ⟨rows, 0, 0⟩ = some ended ∧
      Leaves p dags fate event (workAttempts p.worker work event rows) ended := by
  have hselect : path ("$." ++ field) (.obj [(field, j)]) = some j := by simp [hpath _]
  have hworker := work_attempts field dags work fate hc.worker rows
  rw [hc.execution_eq]
  cases houtcome : (workAttempts p.worker work event rows).outcome with
  | ok output =>
    have hok : (p.worker.attempts (marking p field dags work fate) .worker j ⟨rows, 0, 0⟩).outcome =
        .ok output := by rw [hworker, houtcome]
    refine ⟨_, executorWrapper_ok _ hselect hok, fun output' h => ?_, fun err h => ?_⟩
    · cases houtcome.symm.trans h
      rw [hworker]
      exact ⟨rfl, rfl⟩
    · cases houtcome.symm.trans h
  | error err =>
    have herror : (p.worker.attempts (marking p field dags work fate) .worker j
        ⟨rows, 0, 0⟩).outcome = .error err := by rw [hworker, houtcome]
    refine ⟨_, executorWrapper_error _ hselect herror, fun output h => ?_, fun err' _ => ?_⟩
    · cases houtcome.symm.trans h
    · rw [hworker]
      exact marks_attempts (hc.catcher err) hretries _ _

end Marking

/-- Behind a worker that failed for good the row is marked exactly where one of the catcher's
attempts gets as far as that: one of six on the Lambda path, the only one on the Batch path. An
attempt that fails behind the mark leaves it. -/
theorem executions_mark (parseFloat : List Char → Json) (exitCode : Json → Option Int)
    {path : StatePath} {field : String} (hpath : ReadsMember path field) (hfield : field ≠ "error")
    (event : TaskInstanceQueued) (t : BeeflowEventType) (dags : DagBag) (fate : Nat → Fate)
    (work : Work) (rows : TaskRows) :
    (∃ ended, execution parseFloat (lambdaPath parseFloat) path field
        (marking (lambdaPath parseFloat) field dags work fate) (event.parsed t) ⟨rows, 0, 0⟩ =
          some ended ∧
        Leaves (lambdaPath parseFloat) dags fate event (workAttempts .never work event rows)
          ended) ∧
      ∃ ended, execution parseFloat (batchPath parseFloat exitCode) path field
        (marking (batchPath parseFloat exitCode) field dags work fate) (event.parsed t)
          ⟨rows, 0, 0⟩ = some ended ∧
        Leaves (batchPath parseFloat exitCode) dags fate event
          (workAttempts (airflowTask.retrier exitCode) work event rows) ended :=
  ⟨(lambdaPath_carries parseFloat hfield event t).leaves hpath (fun _ _ => rfl) rows,
    (batchPath_carries parseFloat exitCode hfield event t).leaves hpath
      (fun h => absurd h (Nat.lt_irrefl 0)) rows⟩

/-- A worker that exits with 1 each time. -/
def exitOne : Work := fun _ _ rows => (.error (.int 1), rows)

/-- The first two attempts of the catcher crash, the second behind the mark. -/
def crashTwice : Nat → Fate
  | 0 => .crashesBefore
  | 1 => .crashesBehind
  | _ => .returns

theorem executions_mark_exitOne :
    (∃ ended, execution (fun _ => .null) (lambdaPath fun _ => .null) dotPath "passedevent"
        (marking (lambdaPath fun _ => .null) "passedevent" etlDags exitOne crashTwice)
        (etlEvent.parsed .taskInstanceQueued) ⟨etlStart.rows, 0, 0⟩ = some ended ∧
        Leaves (lambdaPath fun _ => .null) etlDags crashTwice etlEvent
          (workAttempts .never exitOne etlEvent etlStart.rows) ended) ∧
      ∃ ended, execution (fun _ => .null) (batchPath (fun _ => .null) intCode) dotPath
        "passedevent" (marking (batchPath (fun _ => .null) intCode) "passedevent" etlDags exitOne
          crashTwice) (etlEvent.parsed .taskInstanceQueued) ⟨etlStart.rows, 0, 0⟩ = some ended ∧
        Leaves (batchPath (fun _ => .null) intCode) etlDags crashTwice etlEvent
          (workAttempts (airflowTask.retrier intCode) exitOne etlEvent etlStart.rows) ended :=
  executions_mark (fun _ => .null) intCode (dotPath_readsMember (by decide)) (by decide) etlEvent _
    etlDags crashTwice exitOne etlStart.rows

end Beeflow.Pipeline
