import Beeflow.Events.Announcements

/-!
# Decoding what DMS encodes

DMS writes a boolean as `t` or `f` and everything else as it is.
`prepare_input` sees the values without their types, so it gives a row back
exactly where no text of the row reads like a boolean or like NULL.
-/

namespace Beeflow.Events

open Airflow Python

-- ---------------------------------------------------------------------------
-- Typed columns
-- ---------------------------------------------------------------------------

/-- The value of a column that is not NULL. -/
inductive ColumnValue
  | boolean (b : Bool)
  | other (j : Json)

namespace ColumnValue

def value : ColumnValue → Json
  | boolean b => .bool b
  | other j => j

/-- The value as DMS writes it. -/
def encoded : ColumnValue → Json
  | boolean b => TableRow.boolText b
  | other j => j

end ColumnValue

def TableRow.typed : TableRow → List (String × Option ColumnValue)
  | taskInstance row => [
      ("dag_id", some (.other (.str row.dagId))), ("task_id", some (.other (.str row.taskId))),
      ("run_id", some (.other (.str row.runId))), ("map_index", some (.other (.int row.mapIndex))),
      ("state", row.state.map (.other <| .str ·.value)),
      ("try_number", row.tryNumber.map (.other <| .int ·)),
      ("pool", some (.other (.str row.pool))), ("queue", row.queue.map (.other <| .str ·)),
      ("queued_dttm", row.queuedDttm.map (.other <| .str ·))]
  | dagRun row => [
      ("dag_id", some (.other (.str row.dagId))), ("run_id", some (.other (.str row.runId))),
      ("state", some (.other (.str row.state.value))),
      ("run_type", some (.other (.str row.runType))),
      ("dag_hash", row.dagHash.map (.other <| .str ·))]
  | dag row => [
      ("dag_id", some (.other (.str row.dagId))), ("is_paused", row.isPaused.map .boolean),
      ("is_active", row.isActive.map .boolean)]

def encodeColumn (p : String × Option ColumnValue) : String × Option Json :=
  (p.1, p.2.map ColumnValue.encoded)

theorem TableRow.columns_eq (row : TableRow) : row.columns = row.typed.map encodeColumn := by
  cases row with
  | taskInstance row => simp [columns, typed, encodeColumn, Function.comp_def, ColumnValue.encoded]
  | dagRun row => simp [columns, typed, encodeColumn, Function.comp_def, ColumnValue.encoded]
  | dag row => simp [columns, typed, encodeColumn, Function.comp_def, ColumnValue.encoded]

theorem present_encodeColumn (l : List (String × Option ColumnValue)) :
    Comprehension.present (l.map encodeColumn) =
      (Comprehension.present l).map fun p => (p.1, p.2.encoded) := by
  unfold Comprehension.present
  rw [List.filterMap_map, List.map_filterMap]
  refine List.filterMap_congr ?_
  rintro ⟨name, v⟩ -
  cases v <;> rfl

/-- A whole row: the columns that the converter reads, and the others of its table. -/
structure TypedRow where
  row : TableRow
  others : List (String × Option ColumnValue)
  disjoint : ∀ p ∈ others, p.1 ∉ row.typed.map Prod.fst
  operation : DmsOperation
  eventId : String
  sequenceNumber : String

namespace TypedRow

def cells (r : TypedRow) : List (String × Option ColumnValue) := r.row.typed ++ r.others

/-- The columns of the row that are not NULL, with their values. -/
def values (r : TypedRow) : Dict :=
  (Comprehension.present r.cells).map fun p => (p.1, p.2.value)

/-- The same columns as DMS writes them. -/
def encoding (r : TypedRow) : Dict :=
  (Comprehension.present r.cells).map fun p => (p.1, p.2.encoded)

def dmsRecord (r : TypedRow) : DmsRecord where
  row := r.row
  others := Comprehension.present (r.others.map encodeColumn)
  disjoint := by
    intro p hp hmem
    rw [present_encodeColumn] at hp
    obtain ⟨q, hq, rfl⟩ := List.mem_map.mp hp
    obtain ⟨c, hc, hv⟩ := List.mem_filterMap.mp hq
    obtain ⟨v, -, rfl⟩ := Option.map_eq_some_iff.mp hv
    refine r.disjoint c hc ?_
    rwa [TableRow.columns_eq, List.map_map] at hmem
  operation := r.operation
  eventId := r.eventId
  sequenceNumber := r.sequenceNumber

end TypedRow

/-- The record of the row carries its encoding. -/
theorem TypedRow.data_dmsRecord (r : TypedRow) : r.dmsRecord.data = r.encoding := by
  unfold DmsRecord.data encoding cells
  rw [dmsRecord, TableRow.columns_eq, ← present_encodeColumn, List.map_append]
  exact (List.filterMap_append ..).symm

-- ---------------------------------------------------------------------------
-- Decoding
-- ---------------------------------------------------------------------------

/-- The columns that an event must carry as the row has them. -/
def carriedColumns : List String := ["dag_id", "task_id", "run_id", "pool", "queue"]

/-- `prepare_input` gives every column back, and an event of the row names what the row does. -/
structure Decodes (r : TypedRow) : Prop where
  values : (prepareInput r.encoding).metadata = r.values
  carries : ∀ e, toEventBridgeEvent r.dmsRecord.record = .ok (some ⟨e, r.dmsRecord.record⟩) →
    ∀ name ∈ carriedColumns, name ∈ e.cls.fieldNames →
      ∃ s, (name, some (.other (.str s))) ∈ r.row.typed ∧ e.field name = some (.str s)

/-- No text of the row reads like a boolean or like NULL. -/
def TypedRow.TextKept (r : TypedRow) : Prop :=
  ∀ name s, (name, some (.other (.str s))) ∈ r.cells → Kept s

theorem prepareValue_kept {s : String} : prepareValue (.str s) = .str s ↔ Kept s := by
  rw [prepareValue_str]
  split_ifs with hf ht hn
  · simp [Kept, hf]
  · simp [Kept, ht]
  · simp [Kept, hn]
  · simp [Kept, hf, ht, hn]

theorem prepareValue_encoded {v : ColumnValue} :
    prepareValue v.encoded = v.value ↔ ∀ s, v = .other (.str s) → Kept s := by
  cases v with
  | boolean b => cases b <;> simp [ColumnValue.encoded, ColumnValue.value, TableRow.boolText,
      prepareValue]
  | other j =>
    cases j with
    | str s => simpa [ColumnValue.encoded, ColumnValue.value] using prepareValue_kept
    | _ => simp [ColumnValue.encoded, ColumnValue.value, prepareValue]

theorem prepareInput_encoding (r : TypedRow) :
    (prepareInput r.encoding).metadata = r.values ↔ r.TextKept := by
  change r.encoding.map (fun p => (p.1, prepareValue p.2)) = r.values ↔ _
  rw [TypedRow.encoding, TypedRow.values, List.map_map, List.map_inj_left]
  constructor
  · rintro h name s hmem
    have hp : (name, ColumnValue.other (.str s)) ∈ Comprehension.present r.cells :=
      List.mem_filterMap.mpr ⟨_, hmem, rfl⟩
    exact prepareValue_encoded.mp (Prod.mk.inj (h _ hp)).2 s rfl
  · rintro h ⟨name, v⟩ hp
    obtain ⟨⟨name', o⟩, hmem, hv⟩ := List.mem_filterMap.mp hp
    obtain ⟨w, rfl, hw⟩ := Option.map_eq_some_iff.mp hv
    obtain ⟨rfl, rfl⟩ := Prod.mk.inj hw
    refine Prod.ext rfl (prepareValue_encoded.mpr ?_)
    rintro s rfl
    exact h _ s hmem

-- ---------------------------------------------------------------------------
-- What the event carries
-- ---------------------------------------------------------------------------

theorem typed_text (row : TableRow) {name : String} (hc : name ∈ carriedColumns)
    (hn : name ∈ row.typed.map Prod.fst) :
    ∃ o : Option String, (name, o.map (.other <| .str ·)) ∈ row.typed ∧
      row.columns.lookup name = some (o.map .str) := by
  simp only [carriedColumns, List.mem_cons, List.not_mem_nil, or_false] at hc
  cases row with
  | taskInstance row =>
    rcases hc with rfl | rfl | rfl | rfl | rfl
    · exact ⟨some row.dagId, by simp [TableRow.typed], rfl⟩
    · exact ⟨some row.taskId, by simp [TableRow.typed], rfl⟩
    · exact ⟨some row.runId, by simp [TableRow.typed], rfl⟩
    · exact ⟨some row.pool, by simp [TableRow.typed], rfl⟩
    · exact ⟨row.queue, by simp [TableRow.typed], rfl⟩
  | dagRun row =>
    rcases hc with rfl | rfl | rfl | rfl | rfl
    · exact ⟨some row.dagId, by simp [TableRow.typed], rfl⟩
    · simp [TableRow.typed] at hn
    · exact ⟨some row.runId, by simp [TableRow.typed], rfl⟩
    · simp [TableRow.typed] at hn
    · simp [TableRow.typed] at hn
  | dag row =>
    rcases hc with rfl | rfl | rfl | rfl | rfl
    · exact ⟨some row.dagId, by simp [TableRow.typed], rfl⟩
    · simp [TableRow.typed] at hn
    · simp [TableRow.typed] at hn
    · simp [TableRow.typed] at hn
    · simp [TableRow.typed] at hn

/-- Where the converter takes the branch of a class, the text fields come from the row. -/
theorem carries_of_branch {r : TypedRow} (hkept : r.TextKept) {cls : EventClass}
    {keys : List String}
    (hb : r.dmsRecord.converter.convert = cls.fromMetadata keys r.dmsRecord.converter.metadata)
    (hr : cls.Reads keys)
    (htext : ∀ f ∈ cls.fields, f.name ∈ carriedColumns →
      f.type = .str ∧ f.name ∈ r.row.typed.map Prod.fst)
    {e : BeeflowEvent}
    (he : toEventBridgeEvent r.dmsRecord.record = .ok (some ⟨e, r.dmsRecord.record⟩))
    {name : String} (hc : name ∈ carriedColumns) (hname : name ∈ e.cls.fieldNames) :
    ∃ s, (name, some (.other (.str s))) ∈ r.row.typed ∧ e.field name = some (.str s) := by
  rw [DmsRecord.toEventBridgeEvent_record, hb] at he
  cases hm : cls.fromMetadata keys r.dmsRecord.converter.metadata with
  | error err => simp [hm, Except.map] at he
  | ok e' =>
    obtain rfl : e' = e := by simpa [hm, Except.map] using he
    rw [EventClass.fromMetadata_cls hm] at hname
    obtain ⟨f, hf, rfl⟩ := List.mem_map.mp hname
    obtain ⟨htype, hmem⟩ := htext f hf hc
    obtain ⟨o, ho, hlookup⟩ := typed_text r.row hc hmem
    have hcolumn : f.name ∈ r.dmsRecord.row.columns.map Prod.fst := by
      rw [TableRow.columns_eq, List.map_map]
      exact hmem
    have hl := r.dmsRecord.lookup_metadata hcolumn
    rw [show r.dmsRecord.row.columns.lookup f.name = _ from hlookup] at hl
    obtain ⟨v, hv⟩ := (EventClass.fromMetadata_ok hr).mp ⟨e', hm⟩ f hf
    obtain ⟨w, hw⟩ := Field.lookup_of_validate hv
    cases o with
    | none => simp [hl] at hw
    | some s =>
      refine ⟨s, ho, EventClass.fromMetadata_field hr hm hf ?_⟩
      have hs : prepareValue (.str s) = .str s :=
        prepareValue_kept.mpr (hkept _ s (List.mem_append_left _ ho))
      simp [Field.validate, hl, hs, htype, FieldType.validate, strValidator, Except.map]

theorem stateBranch_texts {st : Option TaskInstanceState} {cls : EventClass} {keys : List String}
    (h : stateBranch st = some (cls, keys)) :
    ∀ f ∈ cls.fields, f.name ∈ carriedColumns → f.type = .str := by
  rcases st with - | st
  · cases h
    decide
  · cases st <;> cases h <;> decide

theorem TypedRow.TextKept.carries {r : TypedRow} (h : r.TextKept) {e : BeeflowEvent}
    (he : toEventBridgeEvent r.dmsRecord.record = .ok (some ⟨e, r.dmsRecord.record⟩))
    {name : String} (hc : name ∈ carriedColumns) (hname : name ∈ e.cls.fieldNames) :
    ∃ s, (name, some (.other (.str s))) ∈ r.row.typed ∧ e.field name = some (.str s) := by
  cases hrow : r.row with
  | taskInstance row =>
    have hdms : r.dmsRecord.row = .taskInstance row := hrow
    have hb := (convert_taskInstance hdms).trans (convert_stateBranch hdms)
    cases hs : stateBranch row.state with
    | none =>
      rw [hs] at hb
      rw [DmsRecord.toEventBridgeEvent_record, hb] at he
      exact nomatch he
    | some branch =>
      obtain ⟨cls, keys⟩ := branch
      rw [hs] at hb
      rw [← hrow]
      refine carries_of_branch h hb (stateBranch_reads hs) (fun f hf hf' => ?_) he hc hname
      refine ⟨stateBranch_texts hs f hf hf', ?_⟩
      have hcolumns : carriedColumns ⊆ (TableRow.taskInstance row).typed.map Prod.fst := by
        simp [carriedColumns, TableRow.typed]
      exact hrow ▸ hcolumns hf'
  | dagRun row =>
    rw [← hrow]
    refine carries_of_branch h (convert_dagRun hrow) (dagRunClass_reads _) ?_ he hc hname
    rw [dagRunClass_fields, hrow]
    simp [strs, carriedColumns, TableRow.typed]
  | dag row =>
    rw [← hrow]
    refine carries_of_branch h (convert_dag hrow) (by decide) ?_ he hc hname
    rw [hrow]
    simp [dagUpdatedEvent, carriedColumns, TableRow.typed]

theorem decodes_iff (r : TypedRow) : Decodes r ↔ r.TextKept :=
  ⟨fun h => (prepareInput_encoding r).mp h.values,
    fun h => ⟨(prepareInput_encoding r).mpr h, fun _ he _ hc hname => h.carries he hc hname⟩⟩

/-- A task instance of a DAG whose id is the letter `t`. -/
def letterRow : TypedRow where
  row := .taskInstance {
    dagId := "t", taskId := "run_this_last", runId := "scheduled__2022-12-18T00:00:00+00:00",
    mapIndex := -1, state := some .queued, tryNumber := some 1, pool := "default_pool",
    queue := some "lambda", queuedDttm := some "2022-12-18T19:28:42.473943Z",
    queued_dttm := fun _ => rfl }
  others := [("operator", some (.other (.str "EmptyOperator")))]
  disjoint := by simp [TableRow.typed]
  operation := .update
  eventId := "shardId-000000000006:1"
  sequenceNumber := "1"

/-- Its event names the DAG `True`. -/
theorem letterRow_not_decoded : ¬Decodes letterRow ∧
    ∃ e, toEventBridgeEvent letterRow.dmsRecord.record =
      .ok (some ⟨e, letterRow.dmsRecord.record⟩) ∧ e.field "dag_id" = some (.str "True") := by
  refine ⟨fun h => ?_, ?_⟩
  · obtain ⟨-, hkept, -⟩ := (prepareInput_encoding _).mp h.values "dag_id" "t" List.mem_cons_self
    exact hkept rfl
  · exact ⟨_, rfl, rfl⟩

end Beeflow.Events
