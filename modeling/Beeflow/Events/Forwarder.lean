import Beeflow.Events.Converter
import Beeflow.Lib.Comprehension

/-!
# The CDC forwarder

`handle_records` turns the records of a Kinesis batch into Beeflow events,
puts them on the event bus and reports the records whose entries failed.
-/

namespace Beeflow.Events

open Python

/-- A record as DMS wrote it, with its data as JSON, if it is JSON. -/
structure KinesisStreamRecord where
  eventId : String
  sequenceNumber : String
  data : Option Json

def KinesisStreamRecord.dataAsJson (r : KinesisStreamRecord) : Except PyError Json :=
  match r.data with
  | some j => .ok j
  | none => .error .jsonDecodeError

structure EventbridgeInput where
  beeflowEvent : BeeflowEvent
  input : KinesisStreamRecord

-- ---------------------------------------------------------------------------
-- Converting a record
-- ---------------------------------------------------------------------------

def noneWords : List String := ["none", "nonetype", "none_type", "null", "nil"]

def prepareValue : Json → Json
  | .str "f" => .bool false
  | .str "t" => .bool true
  | .str s => if lower s ∈ noneWords then .null else .str s
  | v => v

def prepareInput (event : Dict) : CDCInput := ⟨event.map fun p => (p.1, prepareValue p.2)⟩

def isDelete (metadata : Json) : Except PyError Bool := do
  if ← metadata.contains "operation" then
    match ← metadata.item "operation" with
    | .str operation => return operation == "delete"
    | _ => return false
  else return false

def toEventBridgeEvent (event : KinesisStreamRecord) :
    Except PyError (Option EventbridgeInput) := do
  let data ← event.dataAsJson
  if !(← data.contains "data") then return none
  if !(← data.contains "metadata") then return none
  let metadata ← data.item "metadata"
  if ← isDelete metadata then return none
  let cdcInput := prepareInput (← (← data.item "data").items)
  let hint ← metadata.item "table-name"
  let beeflowEvent ← DatabasePassthroughEventConverter.convert ⟨cdcInput, hint⟩
  return some ⟨beeflowEvent, event⟩

-- ---------------------------------------------------------------------------
-- Handling a batch
-- ---------------------------------------------------------------------------

structure PutEventsEntry where
  /-- the event, sent as its JSON -/
  detail : BeeflowEvent
  detailType : String
  resources : List String
  source : String
  eventBusName : String

structure PutEventsResultEntry where
  eventId : Option String
  errorCode : Option String
  deriving DecidableEq, Repr

def entryOf (busname : String) (entry : EventbridgeInput) : PutEventsEntry where
  detail := entry.beeflowEvent
  detailType := entry.beeflowEvent.cls.eventType.name
  resources := []
  source := "com.beeflow.dms_cdc_forwarder"
  eventBusName := busname

/-- The list comprehension over the records: the first exception ends it. -/
def transformed : List KinesisStreamRecord → Except PyError (List (Option EventbridgeInput))
  | [] => .ok []
  | record :: records => do
    let event ← toEventBridgeEvent record
    return event :: (← transformed records)

/-- The call of `put_events`, if it is reached, and the `itemIdentifier`s of `batchItemFailures`. -/
structure Handled where
  submitted : List PutEventsEntry
  batchItemFailures : Except PyError (List String)

/-- The events of the zip with the response whose entry has an `ErrorCode`. -/
def failedEvents (response : List PutEventsResultEntry) (filtered : List EventbridgeInput) :
    List String :=
  (Comprehension.failing (·.errorCode.isSome) response filtered).map (·.input.eventId)

def handleRecords (records : List KinesisStreamRecord) (busname : String)
    (putEvents : List PutEventsEntry → List PutEventsResultEntry) : Handled :=
  match transformed records with
  | .error e => ⟨[], .error e⟩
  | .ok events =>
    let filtered := events.filterMap id
    if filtered.length = 0 then ⟨[], .ok []⟩
    else
      let entries := filtered.map (entryOf busname)
      ⟨entries, .ok (failedEvents (putEvents entries) filtered)⟩

end Beeflow.Events
