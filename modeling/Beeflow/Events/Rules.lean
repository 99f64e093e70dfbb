import Beeflow.Events.Announcements
import Beeflow.Events.Parsing
import Beeflow.Scheduler.Starvation

/-!
# The rules of the event bus

Each rule names the event types, and where it matters the task queues, that it
takes. A queued task instance is handed to an executor only where a rule names
its queue.
-/

namespace Beeflow.Events

open Airflow Python

-- ---------------------------------------------------------------------------
-- Rules and targets
-- ---------------------------------------------------------------------------

/-- The values of a key of the detail that the rule takes. -/
abbrev EventPattern := List (String × List String)

def EventPattern.Matches (p : EventPattern) (detail : Dict) : Prop :=
  ∀ q ∈ p, ∃ value ∈ q.2, detail.lookup q.1 = some (.str value)

inductive SqsQueue
  | scheduler | dagScheduleUpdater | lambdaExecutor | batchExecutor
  deriving DecidableEq, Repr

def SqsQueue.executor : SqsQueue → Bool
  | lambdaExecutor | batchExecutor => true
  | scheduler | dagScheduleUpdater => false

structure Rule where
  name : String
  eventPattern : EventPattern
  targets : List SqsQueue

def Rule.onTypes (name : String) (eventTypes : List String) (targets : List SqsQueue) : Rule :=
  ⟨name, [("event_type", eventTypes)], targets⟩

def Rule.onQueue (name queue : String) (target : SqsQueue) : Rule :=
  ⟨name, [("event_type", ["task_instance_queued"]), ("queue", [queue])], [target]⟩

def queueRules : List Rule := [
  .onQueue "task-queued-lambda" "lambda" .lambdaExecutor,
  .onQueue "task-queued-default" "default" .lambdaExecutor,
  .onQueue "task-queued-batch" "batch" .batchExecutor]

def typeRules : List Rule := [
  .onTypes "dag-created" ["dag_created"] [.scheduler, .dagScheduleUpdater],
  .onTypes "dag-updated" ["dag_updated"] [.scheduler, .dagScheduleUpdater],
  .onTypes "task-scheduled" ["task_instance_scheduled"] [.scheduler],
  .onTypes "task-failed" ["task_instance_failed"] [.scheduler],
  .onTypes "task-succeeded" ["task_instance_success"] [.scheduler],
  .onTypes "task-skipped" ["task_instance_skipped"] [.scheduler],
  .onTypes "task-up-for-retry" ["task_instance_up_for_retry"] [.scheduler],
  .onTypes "task-transient-states" ["task_instance_upstream_failed", "task_instance_unknown"]
    [.scheduler],
  .onTypes "dag-run-failed" ["dag_run_failed"] [.scheduler],
  .onTypes "dag-run-succeeded" ["dag_run_success"] [.scheduler]]

def rules : List Rule := queueRules ++ typeRules

def matchesValue (detail : Dict) (key value : String) : Bool :=
  match detail.lookup key with
  | some (.str s) => s = value
  | _ => false

theorem matchesValue_iff {detail : Dict} {key value : String} :
    matchesValue detail key value = true ↔ detail.lookup key = some (.str value) := by
  unfold matchesValue
  split
  · rename_i s hs
    simp [hs]
  · rename_i h
    simpa using h value

instance (p : EventPattern) (detail : Dict) : Decidable (p.Matches detail) :=
  decidable_of_iff (∀ q ∈ p, ∃ value ∈ q.2, matchesValue detail q.1 value = true) (by
    simp only [matchesValue_iff]
    rfl)

/-- Every target of every matching rule gets the event. -/
def deliveries (detail : Dict) : List SqsQueue :=
  (rules.filter (·.eventPattern.Matches detail)).flatMap (·.targets)

def BeeflowEvent.dict (e : BeeflowEvent) : Dict := ParsedEvent.dict ⟨e.cls.eventType, e⟩

/-- The executor queues that get the event. -/
def executorQueues (e : BeeflowEvent) : List SqsQueue := (deliveries e.dict).filter (·.executor)

-- ---------------------------------------------------------------------------
-- A queued task instance
-- ---------------------------------------------------------------------------

theorem Rule.not_matches_onTypes {detail : Dict} {eventType name : String} {types : List String}
    {targets : List SqsQueue} (h : detail.lookup "event_type" = some (.str eventType))
    (hn : eventType ∉ types) : ¬(Rule.onTypes name types targets).eventPattern.Matches detail := by
  intro hm
  obtain ⟨value, hv, hl⟩ := hm _ List.mem_cons_self
  rw [h] at hl
  cases hl
  exact hn hv

theorem Rule.matches_onQueue {detail : Dict} {queue name taken : String} {target : SqsQueue}
    (htype : detail.lookup "event_type" = some (.str "task_instance_queued"))
    (hqueue : detail.lookup "queue" = some (.str queue)) :
    (Rule.onQueue name taken target).eventPattern.Matches detail ↔ queue = taken := by
  simp [Rule.onQueue, EventPattern.Matches, htype, hqueue]

/-- The executor that the rules name for a task queue. -/
def executorsOf (queue : String) : List SqsQueue :=
  if queue = "lambda" ∨ queue = "default" then [.lambdaExecutor]
  else if queue = "batch" then [.batchExecutor]
  else []

theorem deliveries_queued {detail : Dict} {queue : String}
    (htype : detail.lookup "event_type" = some (.str "task_instance_queued"))
    (hqueue : detail.lookup "queue" = some (.str queue)) :
    deliveries detail = executorsOf queue := by
  have htypes : typeRules.filter (·.eventPattern.Matches detail) = [] := by
    rw [List.filter_eq_nil_iff]
    intro rule hrule
    rw [decide_eq_true_eq]
    simp only [typeRules, List.mem_cons, List.not_mem_nil, or_false] at hrule
    rcases hrule with rfl | rfl | rfl | rfl | rfl | rfl | rfl | rfl | rfl | rfl <;>
      exact Rule.not_matches_onTypes htype (by decide)
  rw [deliveries, rules, List.filter_append, htypes, List.append_nil]
  simp only [queueRules, List.filter_cons, List.filter_nil, Rule.matches_onQueue htype hqueue,
    executorsOf]
  by_cases hlambda : queue = "lambda"
  · simp [hlambda, Rule.onQueue]
  by_cases hdefault : queue = "default"
  · simp [hdefault, Rule.onQueue]
  by_cases hbatch : queue = "batch"
  · simp [hbatch, Rule.onQueue]
  · simp [hlambda, hdefault, hbatch]

/-- The queue that the event of a queued task instance carries. -/
theorem queued_event {r : DmsRecord} {row : TaskInstanceRow} (hrow : r.row = .taskInstance row)
    (hstate : row.state = some .queued) {e : BeeflowEvent}
    (he : toEventBridgeEvent r.record = .ok (some ⟨e, r.record⟩)) :
    e.cls = taskInstanceQueued ∧ ∃ queue s, row.queue = some queue ∧
      strValidator (prepareValue (.str queue)) = .ok s ∧ e.field "queue" = some (.str s) := by
  have hb := (convert_taskInstance hrow).trans (convert_stateBranch hrow)
  rw [hstate] at hb
  rw [r.toEventBridgeEvent_record, hb] at he
  dsimp only [stateBranch] at he
  cases hm : taskInstanceQueued.fromMetadata ["dag_id", "run_id", "task_id", "map_index", "pool",
      "queue", "try_number", "queued_dttm"] r.converter.metadata with
  | error err => simp [hm, Except.map] at he
  | ok e' =>
    obtain rfl : e' = e := by simpa [hm, Except.map] using he
    have hreads : taskInstanceQueued.Reads ["dag_id", "run_id", "task_id", "map_index", "pool",
      "queue", "try_number", "queued_dttm"] := by decide
    have hf : ⟨"queue", .str⟩ ∈ taskInstanceQueued.fields := by decide
    refine ⟨EventClass.fromMetadata_cls hm, ?_⟩
    obtain ⟨v, hv⟩ := (EventClass.fromMetadata_ok hreads).mp ⟨e', hm⟩ _ hf
    have hfield := EventClass.fromMetadata_field hreads hm hf hv
    have hl : r.converter.metadata.lookup "queue" =
        (row.queue.map Json.str).map prepareValue := by
      rw [lookup_taskInstance hrow (by simp [TableRow.columns])]
      simp [TableRow.columns, List.lookup_cons]
    cases hq : row.queue with
    | none => simp [Field.validate, hl, hq] at hv
    | some queue =>
      simp only [Field.validate, hl, hq, Option.map_some, FieldType.validate] at hv
      cases hs : strValidator (prepareValue (.str queue)) with
      | error message => simp [hs, Except.map] at hv
      | ok s =>
        simp only [hs, Except.map, Except.ok.injEq] at hv
        exact ⟨queue, s, rfl, hs, hv ▸ hfield⟩

/-- Preparing the input changes no queue name into one of an executor. -/
theorem executorsOf_prepared {queue s : String}
    (h : strValidator (prepareValue (.str queue)) = .ok s) : executorsOf s = executorsOf queue := by
  rw [prepareValue_str] at h
  split_ifs at h with hf ht hn
  · obtain rfl := Except.ok.inj h
    subst hf
    decide
  · obtain rfl := Except.ok.inj h
    subst ht
    decide
  · cases h
  · obtain rfl := Except.ok.inj h
    rfl

theorem executorsOf_executor (queue : String) :
    (executorsOf queue).filter (·.executor) = executorsOf queue := by
  unfold executorsOf
  split_ifs <;> rfl

theorem executorQueues_queued {r : DmsRecord} {row : TaskInstanceRow}
    (hrow : r.row = .taskInstance row) (hstate : row.state = some .queued) {e : BeeflowEvent}
    (he : toEventBridgeEvent r.record = .ok (some ⟨e, r.record⟩)) :
    ∃ queue, row.queue = some queue ∧ executorQueues e = executorsOf queue := by
  obtain ⟨hcls, queue, s, hqueue, hs, hfield⟩ := queued_event hrow hstate he
  refine ⟨queue, hqueue, ?_⟩
  have htype : e.dict.lookup "event_type" = some (.str "task_instance_queued") := by
    rw [BeeflowEvent.dict, hcls]
    rfl
  have hlookup : e.dict.lookup "queue" = some (.str s) := by
    rw [BeeflowEvent.dict, ParsedEvent.lookup_dict _ (by decide)]
    simp [hfield, FieldValue.json]
  rw [executorQueues, deliveries_queued htype hlookup, executorsOf_executor,
    executorsOf_prepared hs]

-- ---------------------------------------------------------------------------
-- What a pass queues
-- ---------------------------------------------------------------------------

/-- The row of `task_instance` as the change reports it, with the columns the pass does not use. -/
structure CommittedRow (ti : TaskInstance) (row : TaskInstanceRow) : Prop where
  dagId : row.dagId = ti.dagId
  taskId : row.taskId = ti.taskId
  runId : row.runId = ti.key.runId
  mapIndex : row.mapIndex = ti.key.mapIndex
  state : row.state = ti.state
  pool : row.pool = ti.pool

open Scheduler in
theorem queued_of_pass {db db' : Database} {maxTis jobId : Nat} {now : Time}
    {tis : List TaskInstance}
    (hpass : executableTaskInstancesToQueued db maxTis jobId now = some (tis, db'))
    {ti : TaskInstance} (hti : ti ∈ db'.taskInstances.rows) (hkey : ti.key ∈ tis.map (·.key)) :
    ti.state = some .queued := by
  unfold executableTaskInstancesToQueued at hpass
  split_ifs at hpass
  · obtain ⟨rfl, -⟩ := Prod.mk.inj (Option.some.inj hpass)
    simp at hkey
  · simp only [bind, Option.bind_eq_some_iff, Option.some.injEq, Prod.mk.injEq] at hpass
    obtain ⟨s, -, rfl, rfl⟩ := hpass
    obtain ⟨ti', -, rfl⟩ := List.mem_map.mp hti
    split_ifs at hkey ⊢ with hmem
    · rfl
    · exact absurd (decide_eq_true hkey) hmem

def executorQueueNames : List String := ["lambda", "default", "batch"]

open Scheduler in
/-- Of what a pass queues, exactly the task instances of the three queues reach an executor, and
each of them one. -/
theorem queued_delivered {db db' : Database} {maxTis jobId : Nat} {now : Time}
    {tis : List TaskInstance}
    (hpass : executableTaskInstancesToQueued db maxTis jobId now = some (tis, db'))
    {ti : TaskInstance} (hti : ti ∈ db'.taskInstances.rows) (hkey : ti.key ∈ tis.map (·.key))
    {r : DmsRecord} {row : TaskInstanceRow} (hrow : r.row = .taskInstance row)
    (hcommitted : CommittedRow ti row) {e : BeeflowEvent}
    (he : toEventBridgeEvent r.record = .ok (some ⟨e, r.record⟩)) :
    ∃ queue, row.queue = some queue ∧
      (queue ∈ executorQueueNames → ∃ sqs, executorQueues e = [sqs]) ∧
      (queue ∉ executorQueueNames → executorQueues e = []) := by
  have hstate := hcommitted.state.trans (queued_of_pass hpass hti hkey)
  obtain ⟨queue, hqueue, hq⟩ := executorQueues_queued hrow hstate he
  refine ⟨queue, hqueue, fun hmem => ?_, fun hmem => ?_⟩
  all_goals
    rw [hq]
    simp only [executorQueueNames, List.mem_cons, List.not_mem_nil, or_false] at hmem
  · rcases hmem with rfl | rfl | rfl
    · exact ⟨_, rfl⟩
    · exact ⟨_, rfl⟩
    · exact ⟨_, rfl⟩
  · simp only [not_or] at hmem
    obtain ⟨hlambda, hdefault, hbatch⟩ := hmem
    simp [executorsOf, hlambda, hdefault, hbatch]

/-- One scheduled task instance. -/
def oneScheduled : Database where
  pools := [("default_pool", 128)]
  dagModels := [Scheduler.activeDagModel "etl" false]
  dagRuns := [Scheduler.runningRun "etl"]
  serializedDags := []
  taskInstances := ⟨[Scheduler.scheduledTi "etl" "load" 1], by decide⟩

def loadQueued : TaskInstance :=
  { Scheduler.scheduledTi "etl" "load" 1 with
    state := some .queued, queuedDttm := some 0, queuedByJobId := some 7 }

def loadRow (queue : String) : TaskInstanceRow where
  dagId := "etl"
  taskId := "load"
  runId := "scheduled"
  mapIndex := -1
  state := some .queued
  tryNumber := some 0
  pool := "default_pool"
  queue := some queue
  queuedDttm := some "1970-01-01T00:00:00.000000Z"
  queued_dttm := fun _ => rfl

def loadRecord (queue : String) : DmsRecord where
  row := .taskInstance (loadRow queue)
  others := []
  disjoint := by simp
  operation := .update
  eventId := "shardId-000000000006:1"
  sequenceNumber := "1"

theorem queued_delivered_batch : ∃ e,
    toEventBridgeEvent (loadRecord "batch").record = .ok (some ⟨e, (loadRecord "batch").record⟩) ∧
      ∃ queue, (loadRow "batch").queue = some queue ∧
        (queue ∈ executorQueueNames → ∃ sqs, executorQueues e = [sqs]) ∧
        (queue ∉ executorQueueNames → executorQueues e = []) :=
  ⟨_, rfl, @queued_delivered oneScheduled { oneScheduled with taskInstances := ⟨[loadQueued],
    by decide⟩ } 1 7 0 [Scheduler.scheduledTi "etl" "load" 1] rfl loadQueued (by decide) (by decide)
    (loadRecord "batch") _ rfl ⟨rfl, rfl, rfl, rfl, rfl, rfl⟩ _ rfl⟩

/-- No rule names the queue `gpu`: the task instance is queued, and no executor is told. -/
theorem gpuQueue_not_delivered : ∃ tis db',
    Scheduler.executableTaskInstancesToQueued oneScheduled 1 7 0 = some (tis, db') ∧
      loadQueued ∈ db'.taskInstances.rows ∧ loadQueued.key ∈ tis.map (·.key) ∧
      CommittedRow loadQueued (loadRow "gpu") ∧
      ∃ e, toEventBridgeEvent (loadRecord "gpu").record =
          .ok (some ⟨e, (loadRecord "gpu").record⟩) ∧
        ¬∃ sqs, executorQueues e = [sqs] := by
  refine ⟨_, _, rfl, List.mem_cons_self, List.mem_cons_self, ⟨rfl, rfl, rfl, rfl, rfl, rfl⟩, _,
    rfl, ?_⟩
  obtain ⟨queue, hqueue, hq⟩ := executorQueues_queued (r := loadRecord "gpu") rfl rfl rfl
  cases hqueue
  rintro ⟨sqs, hsqs⟩
  simp [hq, executorsOf] at hsqs

end Beeflow.Events
