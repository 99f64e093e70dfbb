import Beeflow.Events.Rules
import Beeflow.Executors.Delivery
import Beeflow.Executors.Payload

/-!
# An executor and the messages of its queue

The rules hand an executor the details of queued events only, and the model
that its handler parses a detail with takes every one of them. So a turn of the
handler's loop raises where `start_execution` does, and nowhere else.
-/

namespace Beeflow.Pipeline

open Events Executors Python

-- ---------------------------------------------------------------------------
-- One turn of the handler
-- ---------------------------------------------------------------------------

def strAttribute (e : BeeflowEvent) (name : String) : String :=
  match e.field name with
  | some (.str s) => s
  | _ => ""

def intAttribute (e : BeeflowEvent) (name : String) : Int :=
  match e.field name with
  | some (.int n) => n
  | _ => 0

/-- The attributes of a parsed model, which all exist. -/
def queuedOf (e : BeeflowEvent) : TaskInstanceQueued where
  dagId := strAttribute e "dag_id"
  runId := strAttribute e "run_id"
  taskId := strAttribute e "task_id"
  mapIndex := intAttribute e "map_index"
  tryNumber := intAttribute e "try_number"
  pool := strAttribute e "pool"
  queue := strAttribute e "queue"
  queuedDttm := strAttribute e "queued_dttm"

inductive HandlerError
  | parse (e : PyError)
  | start (e : SfnError)

/-- The executions afterwards, the parsed event, and whether it got an execution. -/
structure Turn where
  executions : Executions
  event : TaskInstanceQueued
  created : Bool

abbrev Trigger := Executions → TaskInstanceQueued → Except SfnError (Executions × Bool)

def turn (trigger : Trigger) (executions : Executions) (detail : Dict) :
    Except HandlerError Turn :=
  match taskInstanceQueued.parse detail with
  | .error e => .error (.parse e)
  | .ok parsed =>
    match trigger executions (queuedOf parsed.event) with
    | .error e => .error (.start e)
    | .ok (executions', created) => .ok ⟨executions', queuedOf parsed.event, created⟩

/-- The loop of `handler` over the details of a batch. -/
def turns (trigger : Trigger) :
    Executions → List Dict → Executions × List TaskInstanceQueued × Option HandlerError
  | executions, [] => (executions, [], none)
  | executions, detail :: details =>
    match turn trigger executions detail with
    | .error e => (executions, [], some e)
    | .ok t =>
      let (executions', started, raised) := turns trigger t.executions details
      (executions', if t.created then t.event :: started else started, raised)

theorem queuedOf_parsed (event : TaskInstanceQueued) (t : BeeflowEventType) :
    queuedOf (event.parsed t).event = event := rfl

theorem turn_parsed (trigger : Trigger) (executions : Executions) (event : TaskInstanceQueued)
    (t : BeeflowEventType) : turn trigger executions (event.parsed t).dict =
      match trigger executions event with
      | .error e => .error (.start e)
      | .ok (executions', created) => .ok ⟨executions', event, created⟩ := by
  simp [turn, parse_dict, queuedOf_parsed]

/-- Over the details of queued events the loop is the one over the events. -/
theorem turns_parsed (trigger : Trigger) (executions : Executions)
    (events : List TaskInstanceQueued) (t : BeeflowEventType) :
    turns trigger executions (events.map fun event => (event.parsed t).dict) =
      let d := triggerEach trigger executions events
      (d.executions, d.started, d.raised.map .start) := by
  induction events generalizing executions with
  | nil => rfl
  | cons event events ih =>
    rw [List.map_cons, turns, triggerEach, turn_parsed]
    cases htrigger : trigger executions event with
    | error e => rfl
    | ok result => simp [ih]

-- ---------------------------------------------------------------------------
-- The events of the converter
-- ---------------------------------------------------------------------------

/-- The event classes of the converter, with the keys that each takes from the row. -/
def converterBranches : List (EventClass × List String) := [
  (taskInstanceUnknown, ["dag_id", "run_id", "task_id"]),
  (taskInstanceQueued, ["dag_id", "run_id", "task_id", "map_index", "pool", "queue", "try_number",
    "queued_dttm"]),
  (taskInstanceFailed, ["dag_id", "run_id", "task_id", "map_index", "try_number"]),
  (taskInstanceUpstreamFailed, ["dag_id", "run_id", "task_id", "try_number"]),
  (taskInstanceSuccess, ["dag_id", "run_id", "task_id", "map_index", "try_number"]),
  (taskInstanceSkipped, ["dag_id", "run_id", "task_id", "try_number"]),
  (taskInstanceRunning, ["dag_id", "run_id", "task_id"]),
  (taskInstanceRestarting, ["dag_id", "run_id", "task_id"]),
  (taskInstanceShutdown, ["dag_id", "run_id", "task_id"]),
  (taskInstanceScheduled, ["dag_id", "run_id", "task_id"]),
  (dagUpdatedEvent, ["dag_id", "is_active", "is_paused"]),
  (dagRunSuccess, ["dag_id", "dag_hash", "run_id", "run_type"]),
  (dagRunFailed, ["dag_id", "dag_hash", "run_id", "run_type"]),
  (dagRunRunning, ["dag_id", "dag_hash", "run_id", "run_type"]),
  (dagRunQueued, ["dag_id", "dag_hash", "run_id", "run_type"])]

/-- The event is built from the row by one of the branches. -/
def Branched (metadata : Dict) (e : BeeflowEvent) : Prop :=
  ∃ b ∈ converterBranches, b.1.fromMetadata b.2 metadata = .ok e

theorem branched_of {cls : EventClass} {keys : List String} {metadata : Dict} {e : BeeflowEvent}
    (h : cls.fromMetadata keys metadata = .ok e) (hb : (cls, keys) ∈ converterBranches) :
    Branched metadata e := ⟨_, hb, h⟩

theorem convertToTaskInstanceEvent_branched {c : DatabasePassthroughEventConverter}
    {e : BeeflowEvent} (h : c.convertToTaskInstanceEvent = .ok e) : Branched c.metadata e := by
  unfold DatabasePassthroughEventConverter.convertToTaskInstanceEvent at h
  split at h
  all_goals first
    | contradiction
    | exact branched_of h (by simp [converterBranches])

theorem convertToDagRunEvent_branched {c : DatabasePassthroughEventConverter}
    {e : BeeflowEvent} (h : c.convertToDagRunEvent = .ok e) : Branched c.metadata e := by
  unfold DatabasePassthroughEventConverter.convertToDagRunEvent at h
  split at h
  all_goals first
    | contradiction
    | exact branched_of h (by simp [converterBranches])

theorem convert_branched {c : DatabasePassthroughEventConverter} {e : BeeflowEvent}
    (h : c.convert = .ok e) : Branched c.metadata e := by
  unfold DatabasePassthroughEventConverter.convert at h
  split_ifs at h
  · exact convertToTaskInstanceEvent_branched h
  · exact branched_of h (by simp [converterBranches])
  · exact convertToDagRunEvent_branched h

theorem toEventBridgeEvent_branched {r : KinesisStreamRecord} {event : EventbridgeInput}
    (h : toEventBridgeEvent r = .ok (some event)) :
    ∃ metadata, Branched metadata event.beeflowEvent := by
  unfold toEventBridgeEvent at h
  simp only [bind, Except.bind, pure, Except.pure] at h
  repeat' split at h
  all_goals cases h
  rename_i hconvert
  exact ⟨_, convert_branched hconvert⟩

-- ---------------------------------------------------------------------------
-- What reaches an executor
-- ---------------------------------------------------------------------------

theorem validateFields_congr {d d' : Dict} {fs : List Field}
    (h : ∀ f ∈ fs, d.lookup f.name = d'.lookup f.name) :
    validateFields d fs = validateFields d' fs := by
  induction fs with
  | nil => rfl
  | cons f fs ih =>
    obtain ⟨hf, h⟩ := List.forall_mem_cons.mp h
    rw [validateFields, validateFields, ih h, Field.validate_congr hf]

/-- The constructor of `TaskInstanceQueued` builds one of its events. -/
theorem construct_parsed {kwargs : Dict} {e : BeeflowEvent}
    (h : taskInstanceQueued.construct kwargs = .ok e) :
    ∃ event : TaskInstanceQueued, e = (event.parsed .taskInstanceQueued).event := by
  let d : Dict := ("event_type", .str "task_instance_queued") :: kwargs
  have hlookup : ∀ f ∈ taskInstanceQueued.fields, d.lookup f.name = kwargs.lookup f.name := by
    have hne : ∀ f ∈ taskInstanceQueued.fields, (f.name == "event_type") = false := by decide
    intro f hf
    rw [List.lookup_cons, hne f hf]
  have hparse : taskInstanceQueued.parse d = .ok ⟨.taskInstanceQueued, e⟩ := by
    unfold EventClass.parse
    rw [validateFields_congr hlookup]
    unfold EventClass.construct at h
    split at h
    · rename_i values hvalues
      cases h
      rw [hvalues]
      rfl
    · cases h
  obtain ⟨event, hevent⟩ := parse_parsed hparse
  exact ⟨event, congrArg ParsedEvent.event hevent⟩

theorem fromMetadata_parsed {keys : List String} {metadata : Dict} {e : BeeflowEvent}
    (h : taskInstanceQueued.fromMetadata keys metadata = .ok e) :
    ∃ event : TaskInstanceQueued, e = (event.parsed .taskInstanceQueued).event := by
  unfold EventClass.fromMetadata at h
  cases hp : metadata.pick keys with
  | error err => simp [hp] at h
  | ok kwargs =>
    rw [hp] at h
    exact construct_parsed h

theorem matches_onQueue {detail : Dict} {name queue : String} {target : SqsQueue}
    (h : (Rule.onQueue name queue target).eventPattern.Matches detail) :
    detail.lookup "event_type" = some (.str "task_instance_queued") ∧
      detail.lookup "queue" = some (.str queue) := by
  simpa [Rule.onQueue, EventPattern.Matches] using h

theorem queueRules_target : ∀ rule ∈ queueRules, ∃ name queue target,
    rule = .onQueue name queue target ∧ target ∈ executorsOf queue := by
  simp only [queueRules, List.forall_mem_cons]
  exact ⟨⟨_, _, _, rfl, by decide⟩, ⟨_, _, _, rfl, by decide⟩, ⟨_, _, _, rfl, by decide⟩, by simp⟩

/-- A rule with an executor among its targets takes queued events of that executor's queues. -/
theorem deliveries_executor {detail : Dict} {q : SqsQueue} (hq : q ∈ deliveries detail)
    (hexecutor : q.executor) : detail.lookup "event_type" = some (.str "task_instance_queued") ∧
      ∃ queue, detail.lookup "queue" = some (.str queue) ∧ q ∈ executorsOf queue := by
  obtain ⟨rule, hrule, htarget⟩ := List.mem_flatMap.mp hq
  obtain ⟨hmem, hmatch⟩ := List.mem_filter.mp hrule
  have hmatch := of_decide_eq_true hmatch
  have hnone : ∀ rule ∈ typeRules, ∀ q ∈ rule.targets, q.executor = false := by decide
  rcases List.mem_append.mp hmem with hmem | hmem
  · obtain ⟨name, queue, target, rfl, hof⟩ := queueRules_target rule hmem
    obtain ⟨htype, hqueue⟩ := matches_onQueue hmatch
    obtain rfl := List.mem_singleton.mp htarget
    exact ⟨htype, queue, hqueue, hof⟩
  · simp [hnone rule hmem q htarget] at hexecutor

theorem value_injective : Function.Injective BeeflowEventType.value := fun s t h =>
  Option.some.inj ((BeeflowEventType.ofValue_value s).symm.trans
    (h ▸ BeeflowEventType.ofValue_value t))

theorem eventType_of_dict {e : BeeflowEvent} {t : BeeflowEventType}
    (h : e.dict.lookup "event_type" = some (.str t.value)) : e.cls.eventType = t := by
  refine value_injective ?_
  simpa [BeeflowEvent.dict, ParsedEvent.dict] using h

theorem converterBranches_queued : ∀ b ∈ converterBranches,
    b.1.eventType = .taskInstanceQueued → b.1 = taskInstanceQueued := by decide

/-- The detail of a record that the rules hand to an executor is that of a queued event whose
queue is one of the executor's. -/
theorem delivered_queued {r : KinesisStreamRecord} {e : EventbridgeInput}
    (he : toEventBridgeEvent r = .ok (some e)) {q : SqsQueue}
    (hq : q ∈ executorQueues e.beeflowEvent) :
    ∃ event : TaskInstanceQueued, e.beeflowEvent.dict = (event.parsed .taskInstanceQueued).dict ∧
      queuedOf e.beeflowEvent = event ∧ q ∈ executorsOf event.queue := by
  obtain ⟨hq, hexecutor⟩ := List.mem_filter.mp hq
  obtain ⟨htype, queue, hqueue, hmem⟩ := deliveries_executor hq hexecutor
  obtain ⟨metadata, b, hb, hfrom⟩ := toEventBridgeEvent_branched he
  have hcls := EventClass.fromMetadata_cls hfrom
  have hqueued := eventType_of_dict (t := .taskInstanceQueued) htype
  rw [hcls] at hqueued
  rw [converterBranches_queued b hb hqueued] at hfrom
  obtain ⟨event, hevent⟩ := fromMetadata_parsed hfrom
  refine ⟨event, by rw [hevent]; rfl, by rw [hevent]; rfl, ?_⟩
  have hevent : e.beeflowEvent.dict.lookup "queue" = some (.str event.queue) := by
    rw [hevent]
    rfl
  obtain rfl : queue = event.queue := by simpa using hqueue.symm.trans hevent
  exact hmem

end Beeflow.Pipeline
