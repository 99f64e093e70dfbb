import Beeflow.Events.Announcements

/-!
# What becomes of the records of a batch

Where every record of a batch converts or is dropped, the entries, the
response and the records stay aligned, and each record is dropped, accepted
or reported. One record that cannot be converted ends the handler before it
submits anything.
-/

namespace Beeflow.Events

open Python

/-- What `to_event_bridge_event` made of the record, if it made an event. -/
def converted (record : KinesisStreamRecord) : Option EventbridgeInput :=
  match toEventBridgeEvent record with
  | .ok event => event
  | .error _ => none

def Dropped (record : KinesisStreamRecord) : Prop := toEventBridgeEvent record = .ok none

def Handles (record : KinesisStreamRecord) : Prop := ∃ event, toEventBridgeEvent record = .ok event

theorem toEventBridgeEvent_input {record : KinesisStreamRecord} {event : EventbridgeInput}
    (h : toEventBridgeEvent record = .ok (some event)) : event.input = record := by
  unfold toEventBridgeEvent at h
  simp only [bind, Except.bind, pure, Except.pure] at h
  repeat' split at h
  all_goals cases h
  rfl

theorem converted_input {record : KinesisStreamRecord} {event : EventbridgeInput}
    (h : converted record = some event) : event.input = record := by
  unfold converted at h
  split at h
  · rename_i heq
    exact toEventBridgeEvent_input (heq.trans (congrArg _ h))
  · exact nomatch h

-- ---------------------------------------------------------------------------
-- The comprehension over the records
-- ---------------------------------------------------------------------------

theorem transformed_ok {records : List KinesisStreamRecord} (h : ∀ r ∈ records, Handles r) :
    ∃ events, transformed records = .ok events ∧
      events.filterMap id = records.filterMap converted := by
  induction records with
  | nil => exact ⟨[], rfl, rfl⟩
  | cons r records ih =>
    obtain ⟨hr, h⟩ := List.forall_mem_cons.mp h
    obtain ⟨event, he⟩ := hr
    obtain ⟨events, hes, hf⟩ := ih h
    refine ⟨event :: events, ?_, ?_⟩
    · simp [transformed, he, hes, bind, Except.bind, pure, Except.pure]
    have hc : converted r = event := by simp [converted, he]
    cases event with
    | none => simpa [List.filterMap_cons, hc] using hf
    | some event => simpa [List.filterMap_cons, hc] using hf

theorem transformed_error {records : List KinesisStreamRecord} {r : KinesisStreamRecord}
    (hr : r ∈ records) (h : ¬Handles r) : ∃ e, transformed records = .error e := by
  induction records with
  | nil => exact nomatch hr
  | cons r' records ih =>
    cases he : toEventBridgeEvent r' with
    | error e => exact ⟨e, by simp [transformed, he, bind, Except.bind]⟩
    | ok event =>
      rcases List.mem_cons.mp hr with rfl | hr
      · exact absurd ⟨event, he⟩ h
      · obtain ⟨e, hes⟩ := ih hr
        exact ⟨e, by simp [transformed, he, hes, bind, Except.bind]⟩

theorem handleRecords_ok {records : List KinesisStreamRecord} (h : ∀ r ∈ records, Handles r)
    (busname : String) (putEvents : List PutEventsEntry → List PutEventsResultEntry) :
    handleRecords records busname putEvents =
      ⟨(records.filterMap converted).map (entryOf busname),
        .ok (failedEvents (putEvents ((records.filterMap converted).map (entryOf busname)))
          (records.filterMap converted))⟩ := by
  obtain ⟨events, hes, hf⟩ := transformed_ok h
  unfold handleRecords
  simp only [hes, hf]
  split_ifs with hn
  · have hnil := List.length_eq_zero_iff.mp hn
    simp [hnil, failedEvents, Comprehension.failing]
  · rfl

theorem handleRecords_error {records : List KinesisStreamRecord} {r : KinesisStreamRecord}
    (hr : r ∈ records) (h : ¬Handles r) (busname : String)
    (putEvents : List PutEventsEntry → List PutEventsResultEntry) :
    ∃ e, handleRecords records busname putEvents = ⟨[], .error e⟩ := by
  obtain ⟨e, he⟩ := transformed_error hr h
  exact ⟨e, by simp [handleRecords, he]⟩

-- ---------------------------------------------------------------------------
-- Accounting for the records
-- ---------------------------------------------------------------------------

/-- The records of a batch; no two share their event id. -/
structure KinesisBatch where
  records : List KinesisStreamRecord
  distinct : (records.map (·.eventId)).Nodup

def entryIndex (records : List KinesisStreamRecord) (k : Nat) : Nat :=
  ((records.take k).filterMap converted).length

section Accounting

variable (batch : KinesisBatch) (busname : String)
  (putEvents : List PutEventsEntry → List PutEventsResultEntry)

def Submitted (k : Nat) (event : EventbridgeInput) : Prop :=
  (handleRecords batch.records busname putEvents).submitted[entryIndex batch.records k]? =
    some (entryOf busname event)

/-- The record's entry was submitted and its response entry has no `ErrorCode`. -/
def Accepted (k : Nat) (record : KinesisStreamRecord) : Prop :=
  ∃ event, toEventBridgeEvent record = .ok (some event) ∧
    Submitted batch busname putEvents k event ∧
    ∃ result, (putEvents (handleRecords batch.records busname putEvents).submitted)[
      entryIndex batch.records k]? = some result ∧ result.errorCode = none

def Reported (record : KinesisStreamRecord) : Prop :=
  ∃ ids, (handleRecords batch.records busname putEvents).batchItemFailures = .ok ids ∧
    record.eventId ∈ ids

/-- Exactly one of the three outcomes, and an event that exists is submitted. -/
structure RecordAccounted (k : Nat) (record : KinesisStreamRecord) : Prop where
  some_class : Dropped record ∨ Accepted batch busname putEvents k record ∨
    Reported batch busname putEvents record
  not_dropped_accepted : ¬(Dropped record ∧ Accepted batch busname putEvents k record)
  not_dropped_reported : ¬(Dropped record ∧ Reported batch busname putEvents record)
  not_accepted_reported : ¬(Accepted batch busname putEvents k record ∧
    Reported batch busname putEvents record)
  submitted : ∀ event, toEventBridgeEvent record = .ok (some event) →
    Submitted batch busname putEvents k event

def Accounted : Prop := ∀ k record, batch.records[k]? = some record →
  RecordAccounted batch busname putEvents k record

end Accounting

variable {batch : KinesisBatch} (busname : String)
  (putEvents : List PutEventsEntry → List PutEventsResultEntry)

theorem converted_of_ok {record : KinesisStreamRecord} {event : Option EventbridgeInput}
    (h : toEventBridgeEvent record = .ok event) : converted record = event := by
  simp [converted, h]

theorem submitted_of_handles (h : ∀ r ∈ batch.records, Handles r) {k : Nat}
    {record : KinesisStreamRecord} (hk : batch.records[k]? = some record)
    {event : EventbridgeInput} (he : toEventBridgeEvent record = .ok (some event)) :
    Submitted batch busname putEvents k event := by
  have hi := Comprehension.filterMap_getElem? hk (converted_of_ok he)
  rw [Submitted, handleRecords_ok h, List.getElem?_map]
  exact congrArg _ hi

theorem converted_inputs_sublist (records : List KinesisStreamRecord) :
    ((records.filterMap converted).map (·.input)).Sublist records := by
  induction records with
  | nil => exact .refl _
  | cons r records ih =>
    cases hc : converted r with
    | none => simpa [List.filterMap_cons, hc] using ih.cons r
    | some event =>
      have hinput := converted_input hc
      simpa [List.filterMap_cons, hc, hinput] using ih.cons_cons r

/-- The entries keep the order of their records, so their event ids differ too. -/
theorem converted_eventIds_nodup (batch : KinesisBatch) :
    ((batch.records.filterMap converted).map (·.input.eventId)).Nodup := by
  refine List.Sublist.nodup ?_ batch.distinct
  simpa [List.map_map, Function.comp_def] using
    (converted_inputs_sublist batch.records).map (·.eventId)

/-- The identifiers in the answer are those of the records whose response entry failed. -/
theorem reported_iff (h : ∀ r ∈ batch.records, Handles r) {k : Nat}
    {record : KinesisStreamRecord} (hk : batch.records[k]? = some record) :
    Reported batch busname putEvents record ↔
      ∃ event, toEventBridgeEvent record = .ok (some event) ∧
        ∃ result, (putEvents (handleRecords batch.records busname putEvents).submitted)[
          entryIndex batch.records k]? = some result ∧ result.errorCode.isSome := by
  simp only [Reported, handleRecords_ok h, Except.ok.injEq, exists_eq_left', failedEvents,
    List.mem_map, Comprehension.mem_failing]
  constructor
  · rintro ⟨event, ⟨i, result, hr, hi, hfail⟩, hid⟩
    have hmem := List.mem_of_getElem? hi
    obtain ⟨r, hrmem, hc⟩ := List.mem_filterMap.mp hmem
    have hrid : r.eventId = record.eventId := converted_input hc ▸ hid
    have heq : r = record := List.inj_on_of_nodup_map batch.distinct hrmem
      (List.mem_of_getElem? hk) hrid
    subst heq
    obtain ⟨o, ho⟩ := h r hrmem
    obtain rfl : o = some event := (converted_of_ok ho).symm.trans hc
    have hplace := Comprehension.filterMap_getElem? hk hc
    obtain rfl := Comprehension.getElem?_inj (converted_eventIds_nodup batch) hi hplace rfl
    exact ⟨event, ho, result, hr, hfail⟩
  · rintro ⟨event, he, result, hr, hfail⟩
    have hc := converted_of_ok he
    refine ⟨event, ⟨_, result, hr, Comprehension.filterMap_getElem? hk hc, hfail⟩, ?_⟩
    rw [converted_input hc]

/-- Where every record is handled, an event that was made is accepted or reported. -/
theorem accepted_or_reported (hput : ∀ entries, (putEvents entries).length = entries.length)
    (h : ∀ r ∈ batch.records, Handles r) {k : Nat} {record : KinesisStreamRecord}
    (hk : batch.records[k]? = some record) {event : EventbridgeInput}
    (he : toEventBridgeEvent record = .ok (some event)) :
    Accepted batch busname putEvents k record ∨ Reported batch busname putEvents record := by
  have hsub := submitted_of_handles busname putEvents h hk he
  -- the response has an entry at the record's place
  have hlt := (List.getElem?_eq_some_iff.mp hsub).1
  rw [← hput] at hlt
  have hres := List.getElem?_eq_getElem hlt
  cases hcode : ((putEvents (handleRecords batch.records busname putEvents).submitted)[
      entryIndex batch.records k]).errorCode with
  | none => exact .inl ⟨event, he, hsub, _, hres, hcode⟩
  | some code =>
    exact .inr ((reported_iff busname putEvents h hk).mpr
      ⟨event, he, _, hres, by rw [hcode]; rfl⟩)

theorem recordAccounted_of_handles
    (hput : ∀ entries, (putEvents entries).length = entries.length)
    (h : ∀ r ∈ batch.records, Handles r) {k : Nat} {record : KinesisStreamRecord}
    (hk : batch.records[k]? = some record) : RecordAccounted batch busname putEvents k record := by
  have hreported := reported_iff busname putEvents h hk
  obtain ⟨event, he⟩ := h record (List.mem_of_getElem? hk)
  refine ⟨?_, ?_, ?_, ?_, fun event he => submitted_of_handles busname putEvents h hk he⟩
  · cases event with
    | none => exact .inl he
    | some event => exact .inr (accepted_or_reported busname putEvents hput h hk he)
  · rintro ⟨hd, event, he, -⟩
    exact nomatch hd.symm.trans he
  · rintro ⟨hd, hr⟩
    obtain ⟨event, he, -⟩ := hreported.mp hr
    exact nomatch hd.symm.trans he
  · rintro ⟨⟨event, he, -, result, hres, hnone⟩, hr⟩
    obtain ⟨-, -, result', hres', hsome⟩ := hreported.mp hr
    obtain rfl := Option.some.inj (hres.symm.trans hres')
    rw [hnone] at hsome
    exact nomatch hsome

/-- A record that raises is neither dropped, nor accepted, nor reported. -/
theorem not_recordAccounted_of_raises {k : Nat} {record : KinesisStreamRecord}
    (hk : batch.records[k]? = some record) (hraise : ¬Handles record) :
    ¬RecordAccounted batch busname putEvents k record := by
  intro hacc
  obtain ⟨e, he⟩ :=
    handleRecords_error (List.mem_of_getElem? hk) hraise busname putEvents
  rcases hacc.some_class with hd | ⟨event, hev, -⟩ | ⟨ids, hids, -⟩
  · exact hraise ⟨none, hd⟩
  · exact hraise ⟨some event, hev⟩
  · rw [he] at hids
    exact nomatch hids

theorem handleRecords_accounted_iff
    (hput : ∀ entries, (putEvents entries).length = entries.length) :
    Accounted batch busname putEvents ↔ ∀ r ∈ batch.records, Handles r := by
  constructor
  · intro hacc r hr
    by_contra hraise
    obtain ⟨k, hk⟩ := List.mem_iff_getElem?.mp hr
    exact not_recordAccounted_of_raises busname putEvents hk hraise (hacc k r hk)
  · intro h k record hk
    exact recordAccounted_of_handles busname putEvents hput h hk

def pausedDag : DmsRecord where
  row := .dag { dagId := "beeflow_lambda_only", isPaused := some true, isActive := some true }
  others := [("fileloc", .str "/dags/beeflow_lambda_only.py")]
  disjoint := by simp [TableRow.columns]
  operation := .update
  eventId := "shardId-000000000006:0"
  sequenceNumber := "0"

/-- A paused DAG, and behind it a retry that no event class of the converter takes. -/
def retryBatch : KinesisBatch where
  records := [pausedDag.record, retryRecord.record]
  distinct := by decide

def deletedDag : KinesisStreamRecord where
  eventId := "shardId-000000000006:1"
  sequenceNumber := "1"
  data := some (.obj [("data", .obj [("dag_id", .str "beeflow_lambda_only")]),
    ("metadata", .obj [("operation", .str "delete"), ("table-name", .str "dag")])])

/-- A paused DAG, and behind it a deletion. -/
def deletedBatch : KinesisBatch where
  records := [pausedDag.record, deletedDag]
  distinct := by decide

def acceptEntries (entries : List PutEventsEntry) : List PutEventsResultEntry :=
  entries.map fun _ => ⟨some "123", none⟩

def refuseEntries (entries : List PutEventsEntry) : List PutEventsResultEntry :=
  entries.map fun _ => ⟨none, some "ThrottlingException"⟩

/-- The refused paused DAG is reported, and the deletion is dropped. -/
theorem handleRecords_accounted_iff_retryBatch :
    (Accounted retryBatch "bus" acceptEntries ↔ ∀ r ∈ retryBatch.records, Handles r) ∧
      Accounted deletedBatch "bus" refuseEntries ∧
      Reported deletedBatch "bus" refuseEntries pausedDag.record ∧ Dropped deletedDag := by
  have hhandles : ∀ r ∈ deletedBatch.records, Handles r :=
    List.forall_mem_cons.mpr ⟨⟨_, rfl⟩, List.forall_mem_singleton.mpr ⟨none, rfl⟩⟩
  exact ⟨handleRecords_accounted_iff "bus" acceptEntries fun entries => by simp [acceptEntries],
    (handleRecords_accounted_iff "bus" refuseEntries fun entries => by
      simp [refuseEntries]).mpr hhandles, ⟨_, rfl, by decide⟩, rfl⟩

/-- The paused DAG is not submitted: the retry behind it raised. -/
theorem retryBatch_not_accounted : ¬Accounted retryBatch "bus" acceptEntries := by
  intro h
  have hsub := (h 0 _ rfl).submitted _ rfl
  exact nomatch hsub

end Beeflow.Events
