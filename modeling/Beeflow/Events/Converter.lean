import Beeflow.Events.Classes

/-!
# The database event converter

`DatabasePassthroughEventConverter` tells the table of a row from a hint, or
else from the columns present, and the event from the row's state.
-/

namespace Beeflow.Events

open Python

structure CDCInput where
  metadata : Dict

structure DatabasePassthroughEventConverter where
  event : CDCInput
  tableNameHint : Json

/-- The event class's constructor applied to these keys of the row. -/
def EventClass.fromMetadata (cls : EventClass) (keys : List String) (metadata : Dict) :
    Except PyError BeeflowEvent :=
  match metadata.pick keys with
  | .ok kwargs => cls.construct kwargs
  | .error e => .error e

namespace DatabasePassthroughEventConverter

def metadata (c : DatabasePassthroughEventConverter) : Dict := c.event.metadata

/-- What the hint says, and without one whether the row has the required fields. -/
def isEventOf (table : String) (requiredFields : List String)
    (c : DatabasePassthroughEventConverter) : Bool :=
  match c.tableNameHint with
  | .null => requiredFields.all fun field => (c.metadata.lookup field).isSome
  | .str hint => hint == table
  | _ => false

def isTaskInstanceEvent : DatabasePassthroughEventConverter → Bool :=
  isEventOf "task_instance" ["task_id", "dag_id", "run_id", "operator", "max_tries", "queue",
    "pool", "try_number", "map_index"]

def isDagEvent : DatabasePassthroughEventConverter → Bool :=
  isEventOf "dag" ["dag_id", "is_paused", "is_active"]

def isDagRunEvent : DatabasePassthroughEventConverter → Bool :=
  isEventOf "dag_run" ["dag_id", "dag_hash", "run_id", "run_type", "queued_at", "execution_date"]

def convertToTaskInstanceEvent (c : DatabasePassthroughEventConverter) :
    Except PyError BeeflowEvent :=
  match c.metadata.lookup "state" with
  | none | some .null =>
    taskInstanceUnknown.fromMetadata ["dag_id", "run_id", "task_id"] c.metadata
  | some (.str "queued") =>
    taskInstanceQueued.fromMetadata ["dag_id", "run_id", "task_id", "map_index", "pool", "queue",
      "try_number", "queued_dttm"] c.metadata
  | some (.str "failed") =>
    taskInstanceFailed.fromMetadata ["dag_id", "run_id", "task_id", "map_index", "try_number"]
      c.metadata
  | some (.str "upstream_failed") =>
    taskInstanceUpstreamFailed.fromMetadata ["dag_id", "run_id", "task_id", "try_number"] c.metadata
  | some (.str "success") =>
    taskInstanceSuccess.fromMetadata ["dag_id", "run_id", "task_id", "map_index", "try_number"]
      c.metadata
  | some (.str "skipped") =>
    taskInstanceSkipped.fromMetadata ["dag_id", "run_id", "task_id", "try_number"] c.metadata
  | some (.str "running") =>
    taskInstanceRunning.fromMetadata ["dag_id", "run_id", "task_id"] c.metadata
  | some (.str "restarting") =>
    taskInstanceRestarting.fromMetadata ["dag_id", "run_id", "task_id"] c.metadata
  | some (.str "shutdown") =>
    taskInstanceShutdown.fromMetadata ["dag_id", "run_id", "task_id"] c.metadata
  | some (.str "scheduled") =>
    taskInstanceScheduled.fromMetadata ["dag_id", "run_id", "task_id"] c.metadata
  | some state => .error (.valueError "State " state " unknown")

def convertToDagEvent (c : DatabasePassthroughEventConverter) : Except PyError BeeflowEvent :=
  dagUpdatedEvent.fromMetadata ["dag_id", "is_active", "is_paused"] c.metadata

def convertToDagRunEvent (c : DatabasePassthroughEventConverter) : Except PyError BeeflowEvent :=
  match c.metadata.lookup "state" with
  | none => .error (.keyError "state")
  | some (.str "success") =>
    dagRunSuccess.fromMetadata ["dag_id", "dag_hash", "run_id", "run_type"] c.metadata
  | some (.str "failed") =>
    dagRunFailed.fromMetadata ["dag_id", "dag_hash", "run_id", "run_type"] c.metadata
  | some (.str "running") =>
    dagRunRunning.fromMetadata ["dag_id", "dag_hash", "run_id", "run_type"] c.metadata
  | some (.str "queued") =>
    dagRunQueued.fromMetadata ["dag_id", "dag_hash", "run_id", "run_type"] c.metadata
  | some state => .error (.valueError "State " state " unknown")

def convert (c : DatabasePassthroughEventConverter) : Except PyError BeeflowEvent :=
  if c.isTaskInstanceEvent then c.convertToTaskInstanceEvent
  else if c.isDagEvent then c.convertToDagEvent
  else if c.isDagRunEvent then c.convertToDagRunEvent
  else .error (.valueError "The input event " (.obj c.metadata)
    " cannot be converted to a Beeflow event")

end DatabasePassthroughEventConverter

-- ---------------------------------------------------------------------------
-- Building an event from a row
-- ---------------------------------------------------------------------------

/-- The keys a branch of the converter copies are the fields of its event class. -/
def EventClass.Reads (cls : EventClass) (keys : List String) : Prop :=
  cls.fieldNames.Nodup ∧ (∀ f ∈ cls.fields, f.name ∈ keys) ∧
    ∀ key ∈ keys, ∃ f ∈ cls.fields, f.name = key

instance (cls : EventClass) (keys : List String) : Decidable (cls.Reads keys) :=
  inferInstanceAs (Decidable (_ ∧ _ ∧ _))

theorem Field.validate_congr {f : Field} {d d' : Dict} (h : d.lookup f.name = d'.lookup f.name) :
    f.validate d = f.validate d' := by
  unfold Field.validate
  rw [h]

theorem Field.lookup_of_validate {f : Field} {d : Dict} {v : FieldValue}
    (h : f.validate d = .ok v) : ∃ w, d.lookup f.name = some w := by
  unfold Field.validate at h
  cases hl : d.lookup f.name with
  | none => simp [hl] at h
  | some w => exact ⟨w, rfl⟩

theorem EventClass.fromMetadata_ok {cls : EventClass} {keys : List String} {metadata : Dict}
    (hr : cls.Reads keys) :
    (∃ e, cls.fromMetadata keys metadata = .ok e) ↔
      ∀ f ∈ cls.fields, ∃ v, f.validate metadata = .ok v := by
  obtain ⟨-, hkeys, hfields⟩ := hr
  unfold EventClass.fromMetadata
  cases hp : metadata.pick keys with
  | error err =>
    constructor
    · rintro ⟨e, he⟩
      exact nomatch he
    · intro h
      have hall : ∀ key ∈ keys, ∃ v, metadata.lookup key = some v := by
        intro key hk
        obtain ⟨f, hf, rfl⟩ := hfields key hk
        obtain ⟨v, hv⟩ := h f hf
        exact Field.lookup_of_validate hv
      obtain ⟨kwargs, hkw⟩ := Dict.pick_ok.mpr hall
      rw [hp] at hkw
      exact nomatch hkw
  | ok kwargs =>
    rw [EventClass.construct_ok]
    refine forall₂_congr fun f hf => ?_
    rw [Field.validate_congr (Dict.pick_lookup hp (hkeys f hf))]

theorem EventClass.fromMetadata_cls {cls : EventClass} {keys : List String} {metadata : Dict}
    {e : BeeflowEvent} (h : cls.fromMetadata keys metadata = .ok e) : e.cls = cls := by
  unfold EventClass.fromMetadata at h
  cases hp : metadata.pick keys with
  | error err => simp [hp] at h
  | ok kwargs =>
    rw [hp] at h
    exact EventClass.construct_cls h

theorem EventClass.fromMetadata_field {cls : EventClass} {keys : List String} {metadata : Dict}
    {e : BeeflowEvent} (hr : cls.Reads keys) (h : cls.fromMetadata keys metadata = .ok e)
    {f : Field} (hf : f ∈ cls.fields) {v : FieldValue} (hv : f.validate metadata = .ok v) :
    e.field f.name = some v := by
  unfold EventClass.fromMetadata at h
  cases hp : metadata.pick keys with
  | error err => simp [hp] at h
  | ok kwargs =>
    rw [hp] at h
    refine EventClass.construct_field h hr.1 hf ?_
    rwa [Field.validate_congr (Dict.pick_lookup hp (hr.2.1 f hf))]

end Beeflow.Events
