import Beeflow.Events.Announcements

/-!
# Which rows become an event

The forwarder makes an event of some rows that it does not announce: an id that
reads `t` or `f` becomes the text of a boolean. It makes none of a row in a
state without a branch, and none where a column that the event copies is NULL.
-/

namespace Beeflow.Events

open Airflow Python

def TaskInstanceRow.Converts (row : TaskInstanceRow) : Prop :=
  (¬NoneWord row.dagId ∧ ¬NoneWord row.runId ∧ ¬NoneWord row.taskId) ∧
  row.state ∉ [some .removed, some .upForRetry, some .upForReschedule, some .deferred] ∧
  (row.state ∈ [some .queued, some .failed, some .upstreamFailed, some .success, some .skipped] →
    row.tryNumber.isSome) ∧
  (row.state = some .queued → ¬NoneWord row.pool ∧
    (∃ queue, row.queue = some queue ∧ ¬NoneWord queue) ∧
    ∃ dttm, row.queuedDttm = some dttm ∧ ¬NoneWord dttm)

def DagRunRow.Converts (row : DagRunRow) : Prop :=
  ¬NoneWord row.dagId ∧ ¬NoneWord row.runId ∧ ¬NoneWord row.runType ∧
    ∃ hash, row.dagHash = some hash ∧ ¬NoneWord hash

def DagRow.Converts (row : DagRow) : Prop :=
  ¬NoneWord row.dagId ∧ row.isPaused.isSome ∧ row.isActive.isSome

def TableRow.Converts : TableRow → Prop
  | taskInstance row => row.Converts
  | dagRun row => row.Converts
  | dag row => row.Converts

theorem TableRow.Convertible.converts {row : TableRow} (h : row.Convertible) : row.Converts := by
  cases row with
  | taskInstance row =>
    obtain ⟨⟨hdag, hrun, htask⟩, hrest⟩ := h
    exact ⟨⟨hdag.2.2, hrun.2.2, htask.2.2⟩, hrest⟩
  | dagRun row =>
    obtain ⟨hdag, hrun, hrest⟩ := h
    exact ⟨hdag.2.2, hrun.2.2, hrest⟩
  | dag row => exact ⟨h.1.2.2, h.2⟩

-- ---------------------------------------------------------------------------
-- One field, one event class
-- ---------------------------------------------------------------------------

section Tables

variable {r : DmsRecord}

end Tables

/-- A change of a row of any table as DMS would write it. -/
structure RowChange where
  table : String
  operation : String
  data : Dict
  eventId : String
  sequenceNumber : String

namespace RowChange

def record (c : RowChange) : KinesisStreamRecord where
  eventId := c.eventId
  sequenceNumber := c.sequenceNumber
  data := some (.obj [("data", .obj c.data), ("metadata", .obj [("record-type", .str "data"),
    ("operation", .str c.operation), ("partition-key-type", .str "schema-table"),
    ("schema-name", .str "public"), ("table-name", .str c.table)])])

end RowChange

end Beeflow.Events
