import Beeflow.Events.Conversions
import Beeflow.Pipeline.Executor

/-!
# Who hears of a change

Of the rows that become an event, the rules tell the scheduler of every task
instance but those that an executor or a worker acts on, of every dag run that
ended, and of every DAG, of which they tell the schedule updater too. Of a row
that becomes none nobody hears.
-/

namespace Beeflow.Events

def BeeflowEventType.targets : BeeflowEventType → List SqsQueue
  | .dagCreated | .dagUpdated => [.scheduler, .dagScheduleUpdater]
  | .taskInstanceScheduled | .taskInstanceFailed | .taskInstanceSuccess | .taskInstanceSkipped
  | .taskInstanceUpForRetry | .taskInstanceUpstreamFailed | .taskInstanceUnknown | .dagRunFailed
  | .dagRunSuccess => [.scheduler]
  | _ => []

open Airflow

def heardOfTaskInstance (queue : Option String) : Option TaskInstanceState → List SqsQueue
  | some .queued => (queue.map executorsOf).getD []
  | some .running | some .restarting | some .shutdown => []
  | _ => [.scheduler]

def TableRow.heardBy : TableRow → List SqsQueue
  | .taskInstance row => heardOfTaskInstance row.queue row.state
  | .dagRun row => if row.state.finished then [.scheduler] else []
  | .dag _ => [.scheduler, .dagScheduleUpdater]

end Beeflow.Events

namespace Beeflow.Pipeline

open Airflow Events Python

theorem matches_onTypes {detail : Dict} {eventType name : String} {types : List String}
    {targets : List SqsQueue} (h : detail.lookup "event_type" = some (.str eventType)) :
    (Rule.onTypes name types targets).eventPattern.Matches detail ↔ eventType ∈ types := by
  simp [Rule.onTypes, EventPattern.Matches, h]

theorem not_matches_queued {detail : Dict} {t : BeeflowEventType} {name queue : String}
    {target : SqsQueue} (h : detail.lookup "event_type" = some (.str t.value))
    (ht : t ≠ .taskInstanceQueued) :
    ¬(Rule.onQueue name queue target).eventPattern.Matches detail := by
  intro hmatch
  refine ht (value_injective ?_)
  have hvalue := h.symm.trans (matches_onQueue hmatch).1
  exact Json.str.inj (Option.some.inj hvalue)

theorem deliveries_type {detail : Dict} {t : BeeflowEventType}
    (h : detail.lookup "event_type" = some (.str t.value)) (ht : t ≠ .taskInstanceQueued) :
    deliveries detail = t.targets := by
  simp only [deliveries, rules, queueRules, typeRules, List.cons_append, List.nil_append,
    List.filter_cons, List.filter_nil, matches_onTypes h, not_matches_queued h ht]
  cases t <;> first
    | exact absurd rfl ht
    | simp [BeeflowEventType.value, BeeflowEventType.targets, Rule.onTypes]

theorem lookup_eventType (e : BeeflowEvent) :
    e.dict.lookup "event_type" = some (.str e.cls.eventType.value) := by
  simp [BeeflowEvent.dict, ParsedEvent.dict]

-- ---------------------------------------------------------------------------
-- The changes of the tables
-- ---------------------------------------------------------------------------

section Record

variable {r : DmsRecord} {e : BeeflowEvent}

theorem converted_record (he : toEventBridgeEvent r.record = .ok (some ⟨e, r.record⟩)) :
    r.converter.convert = .ok e := by
  rw [r.toEventBridgeEvent_record] at he
  cases hc : r.converter.convert with
  | error err => simp [hc, Except.map] at he
  | ok event => simpa [hc, Except.map] using he

theorem deliveries_class {cls : EventClass} (hcls : e.cls = cls)
    (hne : cls.eventType ≠ .taskInstanceQueued) : deliveries e.dict = cls.eventType.targets := by
  subst hcls
  exact deliveries_type (lookup_eventType e) hne

theorem deliveries_queuedRow {row : TaskInstanceRow} (hrow : r.row = .taskInstance row)
    (hqueued : row.state = some .queued)
    (he : toEventBridgeEvent r.record = .ok (some ⟨e, r.record⟩)) :
    deliveries e.dict = (TableRow.taskInstance row).heardBy := by
  obtain ⟨hcls, queue, s, hqueue, hs, hfield⟩ := queued_event hrow hqueued he
  have htype : e.dict.lookup "event_type" = some (.str "task_instance_queued") := by
    rw [lookup_eventType, hcls]
    rfl
  have hlookup : e.dict.lookup "queue" = some (.str s) := by
    rw [BeeflowEvent.dict, ParsedEvent.lookup_dict _ (by decide)]
    simp [hfield, FieldValue.json]
  rw [deliveries_queued htype hlookup, executorsOf_prepared hs]
  simp [TableRow.heardBy, heardOfTaskInstance, hqueued, hqueue]

theorem taskInstanceClass_targets (queue : Option String) {st : Option TaskInstanceState}
    (hqueued : st ≠ some .queued) (hb : stateBranch st ≠ none) :
    (TableRow.taskInstanceClass st).eventType ≠ .taskInstanceQueued ∧
      (TableRow.taskInstanceClass st).eventType.targets = heardOfTaskInstance queue st := by
  rcases st with - | st
  · exact ⟨by decide, rfl⟩
  cases st with
  | queued => exact absurd rfl hqueued
  | removed | upForRetry | upForReschedule | deferred => exact absurd rfl hb
  | scheduled | running | success | shutdown | restarting | failed | upstreamFailed | skipped =>
    exact ⟨by decide, rfl⟩

theorem deliveries_taskInstance {row : TaskInstanceRow} (hrow : r.row = .taskInstance row)
    (he : toEventBridgeEvent r.record = .ok (some ⟨e, r.record⟩)) :
    deliveries e.dict = (TableRow.taskInstance row).heardBy := by
  by_cases hqueued : row.state = some .queued
  · exact deliveries_queuedRow hrow hqueued he
  have hc := (convert_taskInstance hrow).symm.trans (converted_record he)
  rw [convert_stateBranch hrow] at hc
  cases hb : stateBranch row.state with
  | none => simp [hb] at hc
  | some b =>
    obtain ⟨cls, keys⟩ := b
    simp only [hb] at hc
    have hcls := (EventClass.fromMetadata_cls hc).trans (stateBranch_class hb).symm
    obtain ⟨hne, htargets⟩ := taskInstanceClass_targets row.queue hqueued (by simp [hb])
    rw [deliveries_class hcls hne, htargets]
    rfl

theorem deliveries_dagRun {row : DagRunRow} (hrow : r.row = .dagRun row)
    (he : toEventBridgeEvent r.record = .ok (some ⟨e, r.record⟩)) :
    deliveries e.dict = (TableRow.dagRun row).heardBy := by
  have hc := (convert_dagRun hrow).symm.trans (converted_record he)
  have htargets : ∀ st, (TableRow.dagRunClass st).eventType ≠ .taskInstanceQueued ∧
      (TableRow.dagRunClass st).eventType.targets =
        if st.finished then [.scheduler] else [] := by
    intro st
    cases st <;> exact ⟨by decide, rfl⟩
  rw [deliveries_class (EventClass.fromMetadata_cls hc) (htargets row.state).1,
    (htargets row.state).2]
  rfl

theorem deliveries_record (he : toEventBridgeEvent r.record = .ok (some ⟨e, r.record⟩)) :
    deliveries e.dict = r.row.heardBy := by
  cases hrow : r.row with
  | taskInstance row => exact deliveries_taskInstance hrow he
  | dagRun row => exact deliveries_dagRun hrow he
  | dag row =>
    have hc := (convert_dag hrow).symm.trans (converted_record he)
    exact deliveries_class (EventClass.fromMetadata_cls hc) (by decide)

end Record

-- ---------------------------------------------------------------------------
-- The records of the stream
-- ---------------------------------------------------------------------------

end Beeflow.Pipeline
