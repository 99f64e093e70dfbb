import Beeflow.Airflow.Tables
import Beeflow.Events.Forwarder

/-!
# The rows DMS delivers

An inserted or updated row as a Kinesis record: NULL columns are left out,
booleans are `t` or `f`, and the metadata names the table. The forwarder turns
it into the event of its table and state exactly where the converter knows
the state, no column it copies is NULL, and `prepare_input` leaves the text
it copies alone.
-/

namespace Beeflow.Events

open Airflow Python

-- ---------------------------------------------------------------------------
-- Rows
-- ---------------------------------------------------------------------------

structure TaskInstanceRow where
  dagId : String
  taskId : String
  runId : String
  mapIndex : Int
  state : Option TaskInstanceState
  tryNumber : Option Int
  pool : String
  queue : Option String
  queuedDttm : Option String
  queued_dttm : state = some .queued → queuedDttm.isSome

structure DagRunRow where
  dagId : String
  runId : String
  state : DagRunState
  runType : String
  dagHash : Option String

structure DagRow where
  dagId : String
  isPaused : Option Bool
  isActive : Option Bool

inductive TableRow
  | taskInstance (row : TaskInstanceRow)
  | dagRun (row : DagRunRow)
  | dag (row : DagRow)

namespace TableRow

def table : TableRow → String
  | taskInstance _ => "task_instance"
  | dagRun _ => "dag_run"
  | dag _ => "dag"

def boolText (b : Bool) : Json := .str (if b then "t" else "f")

/-- The columns the converter reads, as DMS writes them. -/
def columns : TableRow → List (String × Option Json)
  | taskInstance row => [
      ("dag_id", some (.str row.dagId)), ("task_id", some (.str row.taskId)),
      ("run_id", some (.str row.runId)), ("map_index", some (.int row.mapIndex)),
      ("state", row.state.map (.str ·.value)), ("try_number", row.tryNumber.map .int),
      ("pool", some (.str row.pool)), ("queue", row.queue.map .str),
      ("queued_dttm", row.queuedDttm.map .str)]
  | dagRun row => [
      ("dag_id", some (.str row.dagId)), ("run_id", some (.str row.runId)),
      ("state", some (.str row.state.value)), ("run_type", some (.str row.runType)),
      ("dag_hash", row.dagHash.map .str)]
  | dag row => [
      ("dag_id", some (.str row.dagId)), ("is_paused", row.isPaused.map boolText),
      ("is_active", row.isActive.map boolText)]

/-- The row's value of a column that identifies it. -/
def identity : TableRow → String → Option FieldValue
  | taskInstance row, "dag_id" => some (.str row.dagId)
  | taskInstance row, "run_id" => some (.str row.runId)
  | taskInstance row, "task_id" => some (.str row.taskId)
  | taskInstance row, "map_index" => some (.int row.mapIndex)
  | taskInstance row, "try_number" => row.tryNumber.map .int
  | dagRun row, "dag_id" => some (.str row.dagId)
  | dagRun row, "run_id" => some (.str row.runId)
  | dag row, "dag_id" => some (.str row.dagId)
  | _, _ => none

/-- The event class of a state. One without a class of its own may only become
`TaskInstanceUnknown`. -/
def taskInstanceClass : Option TaskInstanceState → EventClass
  | none | some .removed | some .upForReschedule | some .deferred => taskInstanceUnknown
  | some .scheduled => taskInstanceScheduled
  | some .queued => taskInstanceQueued
  | some .running => taskInstanceRunning
  | some .success => taskInstanceSuccess
  | some .shutdown => taskInstanceShutdown
  | some .restarting => taskInstanceRestarting
  | some .failed => taskInstanceFailed
  | some .upForRetry => taskInstanceUpForRetry
  | some .upstreamFailed => taskInstanceUpstreamFailed
  | some .skipped => taskInstanceSkipped

def dagRunClass : DagRunState → EventClass
  | .queued => dagRunQueued
  | .running => dagRunRunning
  | .success => dagRunSuccess
  | .failed => dagRunFailed

def eventClass : TableRow → EventClass
  | taskInstance row => taskInstanceClass row.state
  | dagRun row => dagRunClass row.state
  | dag _ => dagUpdatedEvent

end TableRow

-- ---------------------------------------------------------------------------
-- Records
-- ---------------------------------------------------------------------------

inductive DmsOperation
  | insert | update
  deriving DecidableEq, Repr

def DmsOperation.value : DmsOperation → String
  | insert => "insert"
  | update => "update"

/-- A row, with the columns of its table that the converter does not read. -/
structure DmsRecord where
  row : TableRow
  others : Dict
  disjoint : ∀ p ∈ others, p.1 ∉ row.columns.map Prod.fst
  operation : DmsOperation
  eventId : String
  sequenceNumber : String

namespace DmsRecord

def data (r : DmsRecord) : Dict := Comprehension.present r.row.columns ++ r.others

def record (r : DmsRecord) : KinesisStreamRecord where
  eventId := r.eventId
  sequenceNumber := r.sequenceNumber
  data := some (.obj [("data", .obj r.data), ("metadata", .obj [("record-type", .str "data"),
    ("operation", .str r.operation.value), ("partition-key-type", .str "schema-table"),
    ("schema-name", .str "public"), ("table-name", .str r.row.table)])])

def converter (r : DmsRecord) : DatabasePassthroughEventConverter :=
  ⟨prepareInput r.data, .str r.row.table⟩

theorem toEventBridgeEvent_record (r : DmsRecord) :
    toEventBridgeEvent r.record = r.converter.convert.map fun e => some ⟨e, r.record⟩ := by
  have hop : (r.operation.value == "delete") = false := by cases r.operation <;> decide
  simp [toEventBridgeEvent, record, KinesisStreamRecord.dataAsJson, Json.contains, Json.item,
    Json.items, Dict.item, List.lookup_cons, isDelete, hop, bind, Except.bind, pure, Except.pure,
    converter, Except.map]

theorem lookup_metadata (r : DmsRecord) {key : String} (hk : key ∈ r.row.columns.map Prod.fst) :
    r.converter.metadata.lookup key = (r.row.columns.lookup key).join.map prepareValue := by
  have hn : (r.row.columns.map Prod.fst).Nodup := by
    cases r.row with
    | taskInstance row => simp [TableRow.columns]
    | dagRun row => simp [TableRow.columns]
    | dag row => simp [TableRow.columns]
  have ho : r.others.lookup key = none :=
    Comprehension.lookup_eq_none fun p hp he => r.disjoint p hp (he ▸ hk)
  change ((Comprehension.present r.row.columns ++ r.others).map
    fun p => (p.1, prepareValue p.2)).lookup key = _
  rw [Comprehension.lookup_map (fun _ => prepareValue), Comprehension.lookup_append, ho,
    Option.or_none, Comprehension.lookup_present hn]

end DmsRecord

end Beeflow.Events
