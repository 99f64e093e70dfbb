import Beeflow.Python.Model

/-!
# Beeflow events

One model for each module of `beeflow.packages.events`. A class overrides
`event_type` and declares its own fields.
-/

namespace Beeflow.Events

open Python

inductive BeeflowEventType
  | migrationCompleted | triggerDagsProcessingCommand | dagsProcessingTriggered | dagsProcessed
  | cdcInput | newCronCreated | dagCronTriggered | dagScheduleUpdaterEmpty
  | apiToCliForwarderInput | dagCreated | dagUpdated
  | taskInstanceQueued | taskInstanceScheduled | taskInstanceFailed | taskInstanceSuccess
  | taskInstanceSkipped | taskInstanceUnknown | taskInstanceRunning | taskInstanceUpForRetry
  | taskInstanceRestarting | taskInstanceShutdown | taskInstanceUpstreamFailed
  | dagRunSuccess | dagRunFailed | dagRunRunning | dagRunQueued
  deriving DecidableEq, Repr

namespace BeeflowEventType

def value : BeeflowEventType → String
  | migrationCompleted => "migration_completed"
  | triggerDagsProcessingCommand => "trigger_dags_processing_command"
  | dagsProcessingTriggered => "dags_processing_triggered"
  | dagsProcessed => "dags_processed"
  | cdcInput => "cdc_input"
  | newCronCreated => "new_cron_created"
  | dagCronTriggered => "dag_cron_triggered"
  | dagScheduleUpdaterEmpty => "dag_schedule_updater_empty"
  | apiToCliForwarderInput => "api_to_cli_forwarder_input"
  | dagCreated => "dag_created"
  | dagUpdated => "dag_updated"
  | taskInstanceQueued => "task_instance_queued"
  | taskInstanceScheduled => "task_instance_scheduled"
  | taskInstanceFailed => "task_instance_failed"
  | taskInstanceSuccess => "task_instance_success"
  | taskInstanceSkipped => "task_instance_skipped"
  | taskInstanceUnknown => "task_instance_unknown"
  | taskInstanceRunning => "task_instance_running"
  | taskInstanceUpForRetry => "task_instance_up_for_retry"
  | taskInstanceRestarting => "task_instance_restarting"
  | taskInstanceShutdown => "task_instance_shutdown"
  | taskInstanceUpstreamFailed => "task_instance_upstream_failed"
  | dagRunSuccess => "dag_run_success"
  | dagRunFailed => "dag_run_failed"
  | dagRunRunning => "dag_run_running"
  | dagRunQueued => "dag_run_queued"

def name (t : BeeflowEventType) : String := String.ofList (t.value.toList.map Char.toUpper)

end BeeflowEventType

structure EventClass where
  name : String
  eventType : BeeflowEventType
  fields : List Field
  deriving DecidableEq, Repr

def strs (names : List String) : List Field := names.map (⟨·, .str⟩)

def ints (names : List String) : List Field := names.map (⟨·, .int⟩)

-- ---------------------------------------------------------------------------
-- Task instance events
-- ---------------------------------------------------------------------------

def taskInstanceUnknown : EventClass :=
  ⟨"TaskInstanceUnknown", .taskInstanceUnknown, strs ["dag_id", "run_id", "task_id"]⟩

def taskInstanceScheduled : EventClass :=
  ⟨"TaskInstanceScheduled", .taskInstanceScheduled, strs ["dag_id", "run_id", "task_id"]⟩

def taskInstanceQueued : EventClass :=
  ⟨"TaskInstanceQueued", .taskInstanceQueued,
    strs ["dag_id", "run_id", "task_id"] ++ ints ["map_index", "try_number"] ++
      strs ["pool", "queue", "queued_dttm"]⟩

def taskInstanceRunning : EventClass :=
  ⟨"TaskInstanceRunning", .taskInstanceRunning, strs ["dag_id", "run_id", "task_id"]⟩

def taskInstanceRestarting : EventClass :=
  ⟨"TaskInstanceRestarting", .taskInstanceRestarting, strs ["dag_id", "run_id", "task_id"]⟩

def taskInstanceShutdown : EventClass :=
  ⟨"TaskInstanceShutdown", .taskInstanceShutdown, strs ["dag_id", "run_id", "task_id"]⟩

def taskInstanceFailed : EventClass :=
  ⟨"TaskInstanceFailed", .taskInstanceFailed,
    strs ["dag_id", "run_id", "task_id"] ++ ints ["map_index", "try_number"]⟩

def taskInstanceSuccess : EventClass :=
  ⟨"TaskInstanceSuccess", .taskInstanceSuccess,
    strs ["dag_id", "run_id", "task_id"] ++ ints ["map_index", "try_number"]⟩

def taskInstanceUpForRetry : EventClass :=
  ⟨"TaskInstanceUpForRetry", .taskInstanceUpForRetry,
    strs ["dag_id", "run_id", "task_id"] ++ ints ["map_index", "try_number"]⟩

def taskInstanceUpstreamFailed : EventClass :=
  ⟨"TaskInstanceUpstreamFailed", .taskInstanceUpstreamFailed,
    strs ["dag_id", "run_id", "task_id"] ++ ints ["try_number"]⟩

def taskInstanceSkipped : EventClass :=
  ⟨"TaskInstanceSkipped", .taskInstanceSkipped,
    strs ["dag_id", "run_id", "task_id"] ++ ints ["try_number"]⟩

-- ---------------------------------------------------------------------------
-- Dag run and dag events
-- ---------------------------------------------------------------------------

def dagRunSuccess : EventClass :=
  ⟨"DagRunSuccess", .dagRunSuccess, strs ["dag_id", "dag_hash", "run_id", "run_type"]⟩

def dagRunFailed : EventClass :=
  ⟨"DagRunFailed", .dagRunFailed, strs ["dag_id", "dag_hash", "run_id", "run_type"]⟩

def dagRunRunning : EventClass :=
  ⟨"DagRunRunning", .dagRunRunning, strs ["dag_id", "dag_hash", "run_id", "run_type"]⟩

def dagRunQueued : EventClass :=
  ⟨"DagRunQueued", .dagRunQueued, strs ["dag_id", "dag_hash", "run_id", "run_type"]⟩

def dagCreatedEvent : EventClass := ⟨"DAGCreatedEvent", .dagCreated, strs ["dag_id"]⟩

def dagUpdatedEvent : EventClass :=
  ⟨"DAGUpdatedEvent", .dagUpdated,
    [⟨"dag_id", .str⟩, ⟨"is_paused", .bool⟩, ⟨"is_active", .bool⟩]⟩

-- ---------------------------------------------------------------------------
-- Events of the other components
-- ---------------------------------------------------------------------------

def migrationCompleted : EventClass := ⟨"MigrationCompleted", .migrationCompleted, []⟩

def triggerDagsProcessingCommand : EventClass :=
  ⟨"TriggerDAGsProcessingCommand", .triggerDagsProcessingCommand, strs ["triggered_at"]⟩

/-- The source gives this class the type of `MigrationCompleted`. -/
def dagsProcessingTriggered : EventClass :=
  ⟨"DAGsProcessingTriggered", .migrationCompleted, []⟩

def dagsProcessed : EventClass := ⟨"DAGsProcessed", .dagsProcessed, []⟩

def cdcInput : EventClass := ⟨"CDCInput", .cdcInput, [⟨"metadata", .dict⟩]⟩

def newCronScheduleCreated : EventClass :=
  ⟨"NewCronScheduleCreated", .newCronCreated, strs ["dag_id", "rule_id"]⟩

def dagCronTriggered : EventClass :=
  ⟨"DAGCronTriggered", .dagCronTriggered, strs ["dag_id", "trigger_time"]⟩

def dagScheduleUpdaterEmptyEvent : EventClass :=
  ⟨"DAGScheduleUpdaterEmptyEvent", .dagScheduleUpdaterEmpty, []⟩

def apiToCliForwarderInput : EventClass :=
  ⟨"APIToCLIForwarderInput", .apiToCliForwarderInput, [⟨"args", .strs⟩]⟩

def eventClasses : List EventClass := [
  migrationCompleted, triggerDagsProcessingCommand, dagsProcessingTriggered, dagsProcessed,
  cdcInput, newCronScheduleCreated, dagCronTriggered, dagScheduleUpdaterEmptyEvent,
  apiToCliForwarderInput, dagCreatedEvent, dagUpdatedEvent,
  taskInstanceUnknown, taskInstanceScheduled, taskInstanceQueued, taskInstanceRunning,
  taskInstanceRestarting, taskInstanceShutdown, taskInstanceFailed, taskInstanceSuccess,
  taskInstanceUpForRetry, taskInstanceUpstreamFailed, taskInstanceSkipped,
  dagRunSuccess, dagRunFailed, dagRunRunning, dagRunQueued]

-- ---------------------------------------------------------------------------
-- Events
-- ---------------------------------------------------------------------------

/-- An instance of an event class; its `event_type` is the class's. -/
structure BeeflowEvent where
  cls : EventClass
  values : List (String × FieldValue)

def BeeflowEvent.field (e : BeeflowEvent) (name : String) : Option FieldValue :=
  e.values.lookup name

/-- The constructor of the class, applied to keyword arguments. -/
def EventClass.construct (cls : EventClass) (kwargs : Dict) : Except PyError BeeflowEvent :=
  match validateFields kwargs cls.fields with
  | (values, []) => .ok ⟨cls, values⟩
  | (_, errors) => .error (.validationError cls.name errors)

def EventClass.fieldNames (cls : EventClass) : List String := cls.fields.map (·.name)

theorem EventClass.construct_ok {cls : EventClass} {kwargs : Dict} :
    (∃ e, cls.construct kwargs = .ok e) ↔ ∀ f ∈ cls.fields, ∃ v, f.validate kwargs = .ok v := by
  rw [← validateFields_errors]
  unfold EventClass.construct
  split
  · rename_i values h
    simp [h]
  · rename_i values errors hne h
    simpa [h] using hne

theorem EventClass.construct_cls {cls : EventClass} {kwargs : Dict} {e : BeeflowEvent}
    (h : cls.construct kwargs = .ok e) : e.cls = cls := by
  unfold EventClass.construct at h
  split at h
  · cases h
    rfl
  · cases h

theorem EventClass.construct_field {cls : EventClass} {kwargs : Dict} {e : BeeflowEvent}
    (h : cls.construct kwargs = .ok e) (hn : cls.fieldNames.Nodup) {f : Field}
    (hf : f ∈ cls.fields) {v : FieldValue} (hv : f.validate kwargs = .ok v) :
    e.field f.name = some v := by
  unfold EventClass.construct at h
  split at h
  · rename_i values hfs
    cases h
    have hl := validateFields_lookup hn hf hv
    rwa [hfs] at hl
  · cases h

end Beeflow.Events
