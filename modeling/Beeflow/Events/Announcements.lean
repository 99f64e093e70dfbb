import Beeflow.Events.Rows

/-!
# Which rows are announced

A row is announced where the forwarder makes the event of its table and state
of it and the event names the row. `announces_iff` finds the condition field
by field of the event class.
-/

namespace Beeflow.Events

open Airflow Python

/-- The columns that say which task instance, dag run or DAG a row is about. -/
def identityColumns : List String := ["dag_id", "run_id", "task_id", "map_index", "try_number"]

/-- The event of the row's table and state, naming the row, comes out of the forwarder. -/
def Announces (r : DmsRecord) : Prop :=
  ∃ e, toEventBridgeEvent r.record = .ok (some ⟨e, r.record⟩) ∧ e.cls = r.row.eventClass ∧
    ∀ name ∈ identityColumns, name ∈ e.cls.fieldNames →
      ∃ v, r.row.identity name = some v ∧ e.field name = some v

/-- Text that `prepare_input` takes for NULL. -/
def NoneWord (s : String) : Prop := lower s ∈ noneWords

instance (s : String) : Decidable (NoneWord s) := inferInstanceAs (Decidable (_ ∈ noneWords))

def Kept (s : String) : Prop := s ≠ "f" ∧ s ≠ "t" ∧ ¬NoneWord s

def TaskInstanceRow.Convertible (row : TaskInstanceRow) : Prop :=
  (Kept row.dagId ∧ Kept row.runId ∧ Kept row.taskId) ∧
  row.state ∉ [some .removed, some .upForRetry, some .upForReschedule, some .deferred] ∧
  (row.state ∈ [some .queued, some .failed, some .upstreamFailed, some .success, some .skipped] →
    row.tryNumber.isSome) ∧
  (row.state = some .queued → ¬NoneWord row.pool ∧
    (∃ queue, row.queue = some queue ∧ ¬NoneWord queue) ∧
    ∃ dttm, row.queuedDttm = some dttm ∧ ¬NoneWord dttm)

def DagRunRow.Convertible (row : DagRunRow) : Prop :=
  Kept row.dagId ∧ Kept row.runId ∧ ¬NoneWord row.runType ∧
    ∃ hash, row.dagHash = some hash ∧ ¬NoneWord hash

def DagRow.Convertible (row : DagRow) : Prop :=
  Kept row.dagId ∧ row.isPaused.isSome ∧ row.isActive.isSome

def TableRow.Convertible : TableRow → Prop
  | taskInstance row => row.Convertible
  | dagRun row => row.Convertible
  | dag row => row.Convertible

-- ---------------------------------------------------------------------------
-- One field
-- ---------------------------------------------------------------------------

/-- The field validates, to the row's value where it identifies the row. -/
def Announced (row : TableRow) (metadata : Dict) (f : Field) : Prop :=
  ∃ v, f.validate metadata = .ok v ∧ (f.name ∈ identityColumns → row.identity f.name = some v)

theorem prepareValue_str (s : String) : prepareValue (.str s) =
    if s = "f" then .bool false else if s = "t" then .bool true
    else if NoneWord s then .null else .str s := by
  unfold prepareValue
  split
  · rename_i h
    cases h
    rfl
  · rename_i h
    cases h
    rfl
  · rename_i s' hf ht h
    cases h
    rw [if_neg hf, if_neg ht]
    rfl
  · rename_i h
    exact absurd rfl (h s)

section Field

variable {row : TableRow} {metadata : Dict} {name : String}

theorem announced_of_some {f : Field} {j : Json} (hl : metadata.lookup f.name = some j) :
    Announced row metadata f ↔
      ∃ v, f.type.validate j = .ok v ∧
        (f.name ∈ identityColumns → row.identity f.name = some v) := by
  simp only [Announced, Field.validate, hl]

theorem not_announced {f : Field} (hl : metadata.lookup f.name = none) :
    ¬Announced row metadata f := by
  simp [Announced, Field.validate, hl]

theorem announced_text {s : String} (hl : metadata.lookup name = some (prepareValue (.str s)))
    (hm : name ∈ identityColumns) (hid : row.identity name = some (.str s)) :
    Announced row metadata ⟨name, .str⟩ ↔ Kept s := by
  rw [announced_of_some hl, prepareValue_str]
  constructor
  · rintro ⟨v, hv, hvs⟩
    obtain rfl := Option.some.inj (hid.symm.trans (hvs hm))
    split_ifs at hv with hf ht hn
    · simp [FieldType.validate, strValidator, Except.map, hf] at hv
    · simp [FieldType.validate, strValidator, Except.map, ht] at hv
    · simp [FieldType.validate, strValidator, Except.map] at hv
    · exact ⟨hf, ht, hn⟩
  · rintro ⟨hf, ht, hn⟩
    rw [if_neg hf, if_neg ht, if_neg hn]
    exact ⟨_, rfl, fun _ => hid⟩

/-- A text column validates where it is not NULL, neither in the row nor prepared. -/
theorem validates_text {o : Option String}
    (hl : metadata.lookup name = o.map fun s => prepareValue (.str s)) :
    (∃ v, (Python.Field.mk name .str).validate metadata = .ok v) ↔
      ∃ s, o = some s ∧ ¬NoneWord s := by
  cases o with
  | none => simp [Field.validate, hl]
  | some s =>
    simp only [Field.validate, hl, Option.map_some, Option.some.injEq, exists_eq_left',
      prepareValue_str]
    split_ifs with hf ht hn
    · subst hf
      exact ⟨fun _ => by decide, fun _ => ⟨_, rfl⟩⟩
    · subst ht
      exact ⟨fun _ => by decide, fun _ => ⟨_, rfl⟩⟩
    · simp [FieldType.validate, strValidator, Except.map, hn]
    · simp [FieldType.validate, strValidator, Except.map, hn]

theorem announced_other {o : Option String}
    (hl : metadata.lookup name = o.map fun s => prepareValue (.str s))
    (hm : name ∉ identityColumns) :
    Announced row metadata ⟨name, .str⟩ ↔ ∃ s, o = some s ∧ ¬NoneWord s := by
  simp only [Announced, hm, false_implies, and_true]
  exact validates_text hl

theorem announced_int {o : Option Int} (hl : metadata.lookup name = o.map .int)
    (hid : row.identity name = o.map .int) :
    Announced row metadata ⟨name, .int⟩ ↔ o.isSome := by
  cases o with
  | none => simpa using not_announced hl
  | some n =>
    rw [announced_of_some hl]
    simp [FieldType.validate, intValidator, Except.map, hid]

theorem announced_bool {o : Option Bool}
    (hl : metadata.lookup name = o.map fun b => prepareValue (TableRow.boolText b))
    (hm : name ∉ identityColumns) :
    Announced row metadata ⟨name, .bool⟩ ↔ o.isSome := by
  cases o with
  | none => simpa using not_announced hl
  | some b =>
    rw [announced_of_some hl]
    cases b <;>
      simp [hm, TableRow.boolText, prepareValue, FieldType.validate, boolValidator, Except.map]

end Field

-- ---------------------------------------------------------------------------
-- One event class
-- ---------------------------------------------------------------------------

/-- Where the converter takes the branch of the expected class, a row is announced
exactly if every field of the class is. -/
theorem announces_of_branch {r : DmsRecord} {cls : EventClass} {keys : List String}
    (hb : r.converter.convert = cls.fromMetadata keys r.converter.metadata)
    (hr : cls.Reads keys) (hc : r.row.eventClass = cls) :
    Announces r ↔ ∀ f ∈ cls.fields, Announced r.row r.converter.metadata f := by
  unfold Announces
  rw [r.toEventBridgeEvent_record, hb, hc]
  constructor
  · rintro ⟨e, he, hcls, hid⟩ f hf
    have he : cls.fromMetadata keys r.converter.metadata = .ok e := by
      cases hm : cls.fromMetadata keys r.converter.metadata with
      | error err => simp [hm, Except.map] at he
      | ok e' =>
        simp only [hm, Except.map, Except.ok.injEq, Option.some.injEq, EventbridgeInput.mk.injEq,
          and_true] at he
        rw [he]
    obtain ⟨v, hv⟩ := (EventClass.fromMetadata_ok hr).mp ⟨e, he⟩ f hf
    refine ⟨v, hv, fun hname => ?_⟩
    obtain ⟨w, hw, hew⟩ := hid f.name hname (hcls ▸ List.mem_map_of_mem hf)
    rw [hw, ← hew, EventClass.fromMetadata_field hr he hf hv]
  · intro h
    obtain ⟨e, he⟩ := (EventClass.fromMetadata_ok hr).mpr fun f hf => (h f hf).imp fun _ hv => hv.1
    have hcls := EventClass.fromMetadata_cls he
    refine ⟨e, by rw [he]; rfl, hcls, fun name hname hmem => ?_⟩
    rw [hcls] at hmem
    obtain ⟨f, hf, rfl⟩ := List.mem_map.mp hmem
    obtain ⟨v, hv, hid⟩ := h f hf
    exact ⟨v, hid hname, EventClass.fromMetadata_field hr he hf hv⟩

theorem not_announces_of_error {r : DmsRecord} {err : PyError}
    (h : r.converter.convert = .error err) : ¬Announces r := by
  rintro ⟨e, he, -⟩
  rw [r.toEventBridgeEvent_record, h] at he
  exact nomatch he

-- ---------------------------------------------------------------------------
-- The tables
-- ---------------------------------------------------------------------------

section TaskInstance

variable {r : DmsRecord} {row : TaskInstanceRow} (hrow : r.row = .taskInstance row)

include hrow

theorem lookup_taskInstance {key : String}
    (hk : key ∈ (TableRow.taskInstance row).columns.map Prod.fst) :
    r.converter.metadata.lookup key =
      ((TableRow.taskInstance row).columns.lookup key).join.map prepareValue := by
  rw [← hrow] at hk ⊢
  exact r.lookup_metadata hk

theorem announced_ids : (∀ f ∈ strs ["dag_id", "run_id", "task_id"],
    Announced r.row r.converter.metadata f) ↔
      Kept row.dagId ∧ Kept row.runId ∧ Kept row.taskId := by
  have hdag : Announced r.row r.converter.metadata ⟨"dag_id", .str⟩ ↔ Kept row.dagId :=
    announced_text (lookup_taskInstance hrow (by simp [TableRow.columns])) (by decide)
      (by rw [hrow]; rfl)
  have hrun : Announced r.row r.converter.metadata ⟨"run_id", .str⟩ ↔ Kept row.runId :=
    announced_text (lookup_taskInstance hrow (by simp [TableRow.columns])) (by decide)
      (by rw [hrow]; rfl)
  have htask : Announced r.row r.converter.metadata ⟨"task_id", .str⟩ ↔ Kept row.taskId :=
    announced_text (lookup_taskInstance hrow (by simp [TableRow.columns])) (by decide)
      (by rw [hrow]; rfl)
  simp [strs, hdag, hrun, htask]

theorem announced_mapIndex : Announced r.row r.converter.metadata ⟨"map_index", .int⟩ := by
  refine (announced_int (o := some row.mapIndex) ?_ (by rw [hrow]; rfl)).mpr rfl
  exact lookup_taskInstance hrow (by simp [TableRow.columns])

theorem announced_tryNumber :
    Announced r.row r.converter.metadata ⟨"try_number", .int⟩ ↔ row.tryNumber.isSome := by
  refine announced_int ?_ (by rw [hrow]; rfl)
  rw [lookup_taskInstance hrow (by simp [TableRow.columns])]
  cases h : row.tryNumber with
  | none => simp [TableRow.columns, List.lookup_cons, h]
  | some n => simp [TableRow.columns, List.lookup_cons, h, prepareValue]

theorem convert_taskInstance : r.converter.convert = r.converter.convertToTaskInstanceEvent := by
  have hhint : r.converter.isTaskInstanceEvent = true := by
    simp [DatabasePassthroughEventConverter.isTaskInstanceEvent,
      DatabasePassthroughEventConverter.isEventOf, DmsRecord.converter, hrow, TableRow.table]
  rw [DatabasePassthroughEventConverter.convert, if_pos hhint]

theorem lookup_state :
    r.converter.metadata.lookup "state" = row.state.map (.str ·.value) := by
  rw [lookup_taskInstance hrow (by simp [TableRow.columns])]
  rcases hs : row.state with - | st
  · simp [TableRow.columns, List.lookup_cons, hs]
  · have hkept : prepareValue (.str st.value) = .str st.value := by cases st <;> rfl
    simp [TableRow.columns, List.lookup_cons, hs, hkept]

theorem announced_pool :
    Announced r.row r.converter.metadata ⟨"pool", .str⟩ ↔ ¬NoneWord row.pool := by
  rw [announced_other (o := some row.pool) (lookup_taskInstance hrow (by simp [TableRow.columns]))
    (by decide)]
  simp

theorem announced_queue : Announced r.row r.converter.metadata ⟨"queue", .str⟩ ↔
    ∃ queue, row.queue = some queue ∧ ¬NoneWord queue := by
  refine announced_other ?_ (by decide)
  rw [lookup_taskInstance hrow (by simp [TableRow.columns])]
  cases h : row.queue with
  | none => simp [TableRow.columns, List.lookup_cons, h]
  | some queue => simp [TableRow.columns, List.lookup_cons, h]

theorem announced_queuedDttm : Announced r.row r.converter.metadata ⟨"queued_dttm", .str⟩ ↔
    ∃ dttm, row.queuedDttm = some dttm ∧ ¬NoneWord dttm := by
  refine announced_other ?_ (by decide)
  rw [lookup_taskInstance hrow (by simp [TableRow.columns])]
  cases h : row.queuedDttm with
  | none => simp [TableRow.columns, List.lookup_cons, h]
  | some dttm => simp [TableRow.columns, List.lookup_cons, h]

/-- The branch of the converter that a state takes, if it has one. -/
def stateBranch : Option TaskInstanceState → Option (EventClass × List String)
  | none => some (taskInstanceUnknown, ["dag_id", "run_id", "task_id"])
  | some .scheduled => some (taskInstanceScheduled, ["dag_id", "run_id", "task_id"])
  | some .queued => some (taskInstanceQueued, ["dag_id", "run_id", "task_id", "map_index", "pool",
      "queue", "try_number", "queued_dttm"])
  | some .running => some (taskInstanceRunning, ["dag_id", "run_id", "task_id"])
  | some .success => some (taskInstanceSuccess, ["dag_id", "run_id", "task_id", "map_index",
      "try_number"])
  | some .shutdown => some (taskInstanceShutdown, ["dag_id", "run_id", "task_id"])
  | some .restarting => some (taskInstanceRestarting, ["dag_id", "run_id", "task_id"])
  | some .failed => some (taskInstanceFailed, ["dag_id", "run_id", "task_id", "map_index",
      "try_number"])
  | some .upstreamFailed => some (taskInstanceUpstreamFailed, ["dag_id", "run_id", "task_id",
      "try_number"])
  | some .skipped => some (taskInstanceSkipped, ["dag_id", "run_id", "task_id", "try_number"])
  | some .removed | some .upForRetry | some .upForReschedule | some .deferred => none

theorem convert_stateBranch : r.converter.convertToTaskInstanceEvent =
    match stateBranch row.state with
    | some (cls, keys) => cls.fromMetadata keys r.converter.metadata
    | none => .error (.valueError "State " ((row.state.map (Json.str ·.value)).getD .null)
        " unknown") := by
  have hstate := lookup_state hrow
  unfold DatabasePassthroughEventConverter.convertToTaskInstanceEvent
  rcases hs : row.state with - | st
  · simp [hstate, hs, stateBranch]
  · cases st <;> simp [hstate, hs, stateBranch, TaskInstanceState.value]

omit hrow in
theorem stateBranch_reads {st : Option TaskInstanceState} {cls : EventClass} {keys : List String}
    (h : stateBranch st = some (cls, keys)) : cls.Reads keys := by
  rcases st with - | st
  · cases h
    decide
  · cases st <;> cases h <;> decide

omit hrow in
theorem stateBranch_class {st : Option TaskInstanceState} {cls : EventClass} {keys : List String}
    (h : stateBranch st = some (cls, keys)) : TableRow.taskInstanceClass st = cls := by
  rcases st with - | st
  · cases h
    rfl
  · cases st <;> cases h <;> rfl

theorem announces_of_state {st : Option TaskInstanceState} {cls : EventClass} {keys : List String}
    (hs : row.state = st) (h : stateBranch st = some (cls, keys)) :
    Announces r ↔ ∀ f ∈ cls.fields, Announced r.row r.converter.metadata f := by
  subst hs
  refine announces_of_branch ?_ (stateBranch_reads h) (hrow ▸ stateBranch_class h)
  rw [convert_taskInstance hrow, convert_stateBranch hrow, h]

theorem not_announces_of_state (h : stateBranch row.state = none) : ¬Announces r := by
  have hc := (convert_taskInstance hrow).trans (convert_stateBranch hrow)
  rw [h] at hc
  exact not_announces_of_error hc

theorem taskInstance_announces_iff : Announces r ↔ row.Convertible := by
  have hids := announced_ids hrow
  have hmap := announced_mapIndex hrow
  have htry := announced_tryNumber hrow
  unfold TaskInstanceRow.Convertible
  rcases hs : row.state with - | st
  · rw [announces_of_state hrow hs rfl, taskInstanceUnknown, hids]
    simp
  · cases st with
    | removed | upForRetry | upForReschedule | deferred =>
      have hno := not_announces_of_state hrow (by rw [hs]; rfl)
      simp [hno]
    | scheduled | running | shutdown | restarting =>
      refine ((announces_of_state hrow hs rfl).trans hids).trans ?_
      simp
    | success | failed =>
      rw [announces_of_state hrow hs rfl]
      simp only [taskInstanceSuccess, taskInstanceFailed, List.forall_mem_append, hids]
      simp [ints, hmap, htry]
    | upstreamFailed | skipped =>
      rw [announces_of_state hrow hs rfl]
      simp only [taskInstanceUpstreamFailed, taskInstanceSkipped, List.forall_mem_append, hids]
      simp [ints, htry]
    | queued =>
      rw [announces_of_state hrow hs rfl]
      simp only [taskInstanceQueued, List.forall_mem_append, hids]
      simp [ints, strs, hmap, htry, announced_pool hrow, announced_queue hrow,
        announced_queuedDttm hrow, and_assoc]

end TaskInstance

section DagRun

variable {r : DmsRecord} {row : DagRunRow} (hrow : r.row = .dagRun row)

include hrow

theorem lookup_dagRun {key : String} (hk : key ∈ (TableRow.dagRun row).columns.map Prod.fst) :
    r.converter.metadata.lookup key =
      ((TableRow.dagRun row).columns.lookup key).join.map prepareValue := by
  rw [← hrow] at hk ⊢
  exact r.lookup_metadata hk

theorem announced_dagRun :
    (∀ f ∈ strs ["dag_id", "dag_hash", "run_id", "run_type"],
      Announced r.row r.converter.metadata f) ↔ row.Convertible := by
  have hdag : Announced r.row r.converter.metadata ⟨"dag_id", .str⟩ ↔ Kept row.dagId :=
    announced_text (lookup_dagRun hrow (by simp [TableRow.columns])) (by decide) (by rw [hrow]; rfl)
  have hrun : Announced r.row r.converter.metadata ⟨"run_id", .str⟩ ↔ Kept row.runId :=
    announced_text (lookup_dagRun hrow (by simp [TableRow.columns])) (by decide) (by rw [hrow]; rfl)
  have htype : Announced r.row r.converter.metadata ⟨"run_type", .str⟩ ↔ ¬NoneWord row.runType := by
    rw [announced_other (o := some row.runType) (lookup_dagRun hrow (by simp [TableRow.columns]))
      (by decide)]
    simp
  have hhash : Announced r.row r.converter.metadata ⟨"dag_hash", .str⟩ ↔
      ∃ hash, row.dagHash = some hash ∧ ¬NoneWord hash := by
    refine announced_other ?_ (by decide)
    rw [lookup_dagRun hrow (by simp [TableRow.columns])]
    cases h : row.dagHash with
    | none => simp [TableRow.columns, List.lookup_cons, h]
    | some hash => simp [TableRow.columns, List.lookup_cons, h]
  simp only [strs, List.map_cons, List.map_nil, List.forall_mem_cons, hdag, hhash, hrun, htype,
    DagRunRow.Convertible]
  constructor
  · rintro ⟨hdag, hhash, hrun, htype, -⟩
    exact ⟨hdag, hrun, htype, hhash⟩
  · rintro ⟨hdag, hrun, htype, hhash⟩
    exact ⟨hdag, hhash, hrun, htype, by simp⟩

theorem convert_dagRun : r.converter.convert = (TableRow.dagRunClass row.state).fromMetadata
    ["dag_id", "dag_hash", "run_id", "run_type"] r.converter.metadata := by
  have hc : r.converter.convert = r.converter.convertToDagRunEvent := by
    simp [DatabasePassthroughEventConverter.convert,
      DatabasePassthroughEventConverter.isTaskInstanceEvent,
      DatabasePassthroughEventConverter.isDagEvent, DatabasePassthroughEventConverter.isDagRunEvent,
      DatabasePassthroughEventConverter.isEventOf, DmsRecord.converter, hrow, TableRow.table]
  have hstate : r.converter.metadata.lookup "state" = some (.str row.state.value) := by
    rw [lookup_dagRun hrow (by simp [TableRow.columns])]
    cases h : row.state <;>
      simp [TableRow.columns, List.lookup_cons, h, DagRunState.value, prepareValue, lower,
        noneWords]
  rw [hc, DatabasePassthroughEventConverter.convertToDagRunEvent, hstate]
  cases row.state <;> rfl

omit hrow in
theorem dagRunClass_fields (st : DagRunState) :
    (TableRow.dagRunClass st).fields = strs ["dag_id", "dag_hash", "run_id", "run_type"] := by
  cases st <;> rfl

omit hrow in
theorem dagRunClass_reads (st : DagRunState) :
    (TableRow.dagRunClass st).Reads ["dag_id", "dag_hash", "run_id", "run_type"] := by
  cases st <;> decide

theorem dagRun_announces_iff : Announces r ↔ row.Convertible := by
  rw [← announced_dagRun hrow, ← dagRunClass_fields row.state]
  exact announces_of_branch (convert_dagRun hrow) (dagRunClass_reads _) (by rw [hrow]; rfl)

end DagRun

section Dag

variable {r : DmsRecord} {row : DagRow} (hrow : r.row = .dag row)

include hrow

theorem lookup_dag {key : String} (hk : key ∈ (TableRow.dag row).columns.map Prod.fst) :
    r.converter.metadata.lookup key =
      ((TableRow.dag row).columns.lookup key).join.map prepareValue := by
  rw [← hrow] at hk ⊢
  exact r.lookup_metadata hk

theorem convert_dag : r.converter.convert =
    dagUpdatedEvent.fromMetadata ["dag_id", "is_active", "is_paused"] r.converter.metadata := by
  simp [DatabasePassthroughEventConverter.convert,
    DatabasePassthroughEventConverter.isTaskInstanceEvent,
    DatabasePassthroughEventConverter.isDagEvent, DatabasePassthroughEventConverter.isEventOf,
    DatabasePassthroughEventConverter.convertToDagEvent, DmsRecord.converter, hrow,
    TableRow.table]

theorem dag_announces_iff : Announces r ↔ row.Convertible := by
  have hdag : Announced r.row r.converter.metadata ⟨"dag_id", .str⟩ ↔ Kept row.dagId :=
    announced_text (lookup_dag hrow (by simp [TableRow.columns])) (by decide) (by rw [hrow]; rfl)
  have hpaused : Announced r.row r.converter.metadata ⟨"is_paused", .bool⟩ ↔
      row.isPaused.isSome := by
    refine announced_bool ?_ (by decide)
    rw [lookup_dag hrow (by simp [TableRow.columns])]
    cases h : row.isPaused with
    | none => simp [TableRow.columns, List.lookup_cons, h]
    | some b => simp [TableRow.columns, List.lookup_cons, h]
  have hactive : Announced r.row r.converter.metadata ⟨"is_active", .bool⟩ ↔
      row.isActive.isSome := by
    refine announced_bool ?_ (by decide)
    rw [lookup_dag hrow (by simp [TableRow.columns])]
    cases h : row.isActive with
    | none => simp [TableRow.columns, List.lookup_cons, h]
    | some b => simp [TableRow.columns, List.lookup_cons, h]
  rw [announces_of_branch (convert_dag hrow) (by decide) (by rw [hrow]; rfl)]
  simp [dagUpdatedEvent, hdag, hpaused, hactive, DagRow.Convertible]

end Dag

theorem announces_iff_convertible (r : DmsRecord) : Announces r ↔ r.row.Convertible := by
  cases hrow : r.row with
  | taskInstance row => exact taskInstance_announces_iff hrow
  | dagRun row => exact dagRun_announces_iff hrow
  | dag row => exact dag_announces_iff hrow

/-- The update that Airflow writes when a failed try is to be retried. -/
def retryRecord : DmsRecord where
  row := .taskInstance {
    dagId := "beeflow_lambda_only", taskId := "run_this_last",
    runId := "manual__2022-12-18T19:28:42.442556+00:00", mapIndex := -1,
    state := some .upForRetry, tryNumber := some 1, pool := "default_pool",
    queue := some "lambda", queuedDttm := some "2022-12-18T19:28:42.473943Z",
    queued_dttm := fun _ => rfl }
  others := [("operator", .str "EmptyOperator"), ("max_tries", .int 1)]
  disjoint := by simp [TableRow.columns]
  operation := .update
  eventId := "shardId-000000000006:1"
  sequenceNumber := "1"

theorem retryRecord_not_announced : ¬Announces retryRecord := not_announces_of_state rfl rfl

end Beeflow.Events
