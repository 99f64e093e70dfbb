import Beeflow.Events.Forwarder

/-!
# Rows without a table hint

The change data capture triggers send `row_to_json` of a row and no table
name, so the converter guesses the table from the columns. Of the three tables
only the right one has every column that the guess asks for, so the guess is
what the hint would have said.
-/

namespace Beeflow.Events

open Python

/-- `to_event_bridge_event` of the forwarder that the triggers call. -/
def ChangeDataCapture.toEventBridgeEvent (event : CDCInput) : Except PyError BeeflowEvent :=
  match event.metadata.lookup "event_type" with
  | some (.str "dag_created") => dagCreatedEvent.fromMetadata ["dag_id"] event.metadata
  | some eventType => .error (.valueError "Event type not supported " eventType "")
  | none => DatabasePassthroughEventConverter.convert ⟨event, .null⟩

-- ---------------------------------------------------------------------------
-- Full rows
-- ---------------------------------------------------------------------------

inductive Table
  | taskInstance | dagRun | dag
  deriving DecidableEq, Repr

namespace Table

def name : Table → String
  | taskInstance => "task_instance"
  | dagRun => "dag_run"
  | dag => "dag"

/-- The columns after the last migration. -/
def columns : Table → List String
  | taskInstance => ["task_id", "dag_id", "run_id", "map_index", "start_date", "end_date",
      "duration", "state", "try_number", "max_tries", "hostname", "unixname", "job_id", "pool",
      "pool_slots", "queue", "priority_weight", "operator", "queued_dttm", "queued_by_job_id",
      "pid", "executor_config", "external_executor_id", "trigger_id", "trigger_timeout",
      "next_method", "next_kwargs"]
  | dagRun => ["id", "dag_id", "queued_at", "execution_date", "start_date", "end_date", "state",
      "run_id", "creating_job_id", "external_trigger", "run_type", "conf", "data_interval_start",
      "data_interval_end", "last_scheduling_decision", "dag_hash", "log_template_id"]
  | dag => ["dag_id", "root_dag_id", "is_paused", "is_subdag", "is_active", "last_parsed_time",
      "last_pickled", "last_expired", "scheduler_lock", "pickle_id", "fileloc",
      "processor_subdir", "owners", "description", "default_view", "schedule_interval",
      "timetable_description", "max_active_tasks", "max_active_runs",
      "has_task_concurrency_limits", "has_import_errors", "next_dagrun",
      "next_dagrun_data_interval_start", "next_dagrun_data_interval_end",
      "next_dagrun_create_after"]

end Table

/-- A decoded row with each column of its table as a key, and no other key. -/
structure RowImage (table : Table) where
  metadata : Dict
  keys : ∀ key, (metadata.lookup key).isSome ↔ key ∈ table.columns

namespace RowImage

variable {table : Table}

/-- `row_to_json(NEW.*)` of a row with these values. -/
def rowToJson (table : Table) (value : String → Json) : RowImage table where
  metadata := table.columns.map fun column => (column, value column)
  keys key := by simp [List.lookup_isSome_iff]

def converter (row : RowImage table) (tableNameHint : Json) : DatabasePassthroughEventConverter :=
  ⟨⟨row.metadata⟩, tableNameHint⟩

/-- The row with `prepare_input` applied to its values. -/
def prepared (row : RowImage table) : RowImage table where
  metadata := (prepareInput row.metadata).metadata
  keys key := by
    rw [← row.keys]
    simp [prepareInput, List.lookup_isSome_iff]

/-- The guess is right where exactly the named table has all the columns it asks for. -/
theorem isEventOf_hint (row : RowImage table) {name : String} {requiredFields : List String}
    (h : (∀ field ∈ requiredFields, field ∈ table.columns) ↔ table.name = name) :
    (row.converter .null).isEventOf name requiredFields =
      (row.converter (.str table.name)).isEventOf name requiredFields := by
  rw [Bool.eq_iff_iff]
  show (requiredFields.all fun field => (row.metadata.lookup field).isSome) ↔
    (table.name == name) = true
  simp only [List.all_eq_true, row.keys, h, beq_iff_eq]

theorem isTaskInstanceEvent_hint (row : RowImage table) :
    (row.converter .null).isTaskInstanceEvent =
      (row.converter (.str table.name)).isTaskInstanceEvent :=
  row.isEventOf_hint (by cases table <;> decide)

theorem isDagEvent_hint (row : RowImage table) :
    (row.converter .null).isDagEvent = (row.converter (.str table.name)).isDagEvent :=
  row.isEventOf_hint (by cases table <;> decide)

theorem isDagRunEvent_hint (row : RowImage table) :
    (row.converter .null).isDagRunEvent = (row.converter (.str table.name)).isDagRunEvent :=
  row.isEventOf_hint (by cases table <;> decide)

theorem convert_hint (row : RowImage table) :
    (row.converter .null).convert = (row.converter (.str table.name)).convert := by
  unfold DatabasePassthroughEventConverter.convert
  rw [row.isTaskInstanceEvent_hint, row.isDagEvent_hint, row.isDagRunEvent_hint]
  -- past the classification the converter reads the row only
  rfl

/-- No table has a column `event_type`, so the trigger's rows are converted without a hint. -/
theorem toEventBridgeEvent_eq (row : RowImage table) :
    ChangeDataCapture.toEventBridgeEvent ⟨row.metadata⟩ = (row.converter .null).convert := by
  have h : row.metadata.lookup "event_type" = none := by
    rw [← Option.not_isSome_iff_eq_none, row.keys]
    cases table <;> decide
  unfold ChangeDataCapture.toEventBridgeEvent
  rw [h]
  rfl

/-- The two ways a row reaches the converter find the same table, and end in the same event or
the same error. -/
theorem converted_alike (row : RowImage table) :
    ((row.converter .null).isTaskInstanceEvent =
        (row.converter (.str table.name)).isTaskInstanceEvent ∧
      (row.converter .null).isDagEvent = (row.converter (.str table.name)).isDagEvent ∧
      (row.converter .null).isDagRunEvent = (row.converter (.str table.name)).isDagRunEvent) ∧
    (row.converter .null).convert = (row.converter (.str table.name)).convert ∧
    ChangeDataCapture.toEventBridgeEvent ⟨row.metadata⟩ =
      (row.converter (.str table.name)).convert :=
  ⟨⟨row.isTaskInstanceEvent_hint, row.isDagEvent_hint, row.isDagRunEvent_hint⟩,
    row.convert_hint, row.toEventBridgeEvent_eq.trans row.convert_hint⟩

example : ((rowToJson .dagRun fun _ => .null).converter .null).isDagRunEvent = true := by decide

/-- The record of a full row that DMS sends, and the trigger's call with the row prepared. -/
theorem toEventBridgeEvent_record (row : RowImage table) {event : KinesisStreamRecord}
    {data metadata : Dict} (hd : event.data = some (.obj data))
    (hrow : data.lookup "data" = some (.obj row.metadata))
    (hmeta : data.lookup "metadata" = some (.obj metadata))
    (hop : isDelete (.obj metadata) = .ok false)
    (hname : metadata.lookup "table-name" = some (.str table.name)) :
    Events.toEventBridgeEvent event =
      (ChangeDataCapture.toEventBridgeEvent (prepareInput row.metadata)).map
        (some ⟨·, event⟩) := by
  have h : ChangeDataCapture.toEventBridgeEvent (prepareInput row.metadata) =
      DatabasePassthroughEventConverter.convert ⟨prepareInput row.metadata, .str table.name⟩ :=
    row.prepared.toEventBridgeEvent_eq.trans row.prepared.convert_hint
  rw [h]
  simp [Events.toEventBridgeEvent, KinesisStreamRecord.dataAsJson, Json.contains, Json.item,
    Json.items, Dict.item, hd, hrow, hmeta, hop, hname, bind, Except.bind, pure, Except.pure,
    Except.map]

end RowImage

end Beeflow.Events
