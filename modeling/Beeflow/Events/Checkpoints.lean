import Beeflow.Lib.Machine
import Beeflow.Events.Batches

/-!
# The forwarder under the checkpoints of Lambda

Lambda hands the records of a shard to the forwarder batch by batch and
retries what `batchItemFailures` reports: from the lowest identifier on that is
a sequence number of the batch, or the whole batch where an identifier is none.
The forwarder reports event ids, which never are sequence numbers.
-/

namespace Beeflow.Events

open Python

-- ---------------------------------------------------------------------------
-- The event source mapping
-- ---------------------------------------------------------------------------

/-- The records of a shard, as Kinesis numbers them. -/
structure Shard where
  shardId : String
  records : List KinesisStreamRecord
  eventIds : ∀ r ∈ records, r.eventId = shardId ++ ":" ++ r.sequenceNumber
  distinct : (records.map (·.sequenceNumber)).Nodup

structure Invocation where
  batch : List KinesisStreamRecord
  putEvents : List PutEventsEntry → List PutEventsResultEntry

def batchSize : Nat := 10

def maximumRetryAttempts : Nat := 5

/-- The records before `checkpoint` are done with, and the `pending` ones behind it are retried. -/
structure EventSource where
  checkpoint : Nat
  pending : Nat
  attempts : Nat
  invocations : List Invocation

def EventSource.latest : EventSource := ⟨0, 0, 0, []⟩

/-- The size of the batch, if a new one is due, and the answers of `put_events`. -/
structure Delivery where
  size : Nat
  putEvents : List PutEventsEntry → List PutEventsResultEntry

/-- How many records of the batch Lambda is done with, given the reported identifiers. -/
def recordsDone (batch : List KinesisStreamRecord) (identifiers : List String) : Nat :=
  if ∀ i ∈ identifiers, i ∈ batch.map (·.sequenceNumber) then
    batch.findIdx (·.sequenceNumber ∈ identifiers)
  else 0

section Mapping

variable (busname : String)

def Invocation.handled (i : Invocation) : Handled := handleRecords i.batch busname i.putEvents

def Invocation.done (i : Invocation) : Nat :=
  match (i.handled busname).batchItemFailures with
  | .error _ => 0
  | .ok identifiers => recordsDone i.batch identifiers

/-- One invocation of the forwarder, and what Lambda makes of its answer. -/
def EventSource.step (records : List KinesisStreamRecord) (s : EventSource) (l : Delivery) :
    Option EventSource :=
  let size := if s.pending = 0 then l.size else s.pending
  if size = 0 ∨ batchSize < size ∨ records.length < s.checkpoint + size then none
  else
    let i : Invocation := ⟨(records.drop s.checkpoint).take size, l.putEvents⟩
    let left := size - i.done busname
    if left = 0 ∨ maximumRetryAttempts ≤ s.attempts then
      some ⟨s.checkpoint + size, 0, 0, s.invocations ++ [i]⟩
    else some ⟨s.checkpoint + i.done busname, left, s.attempts + 1, s.invocations ++ [i]⟩

-- ---------------------------------------------------------------------------
-- What became of the records
-- ---------------------------------------------------------------------------

/-- The events the invocation submits. -/
def Invocation.submitted (i : Invocation) : List EventbridgeInput :=
  match transformed i.batch with
  | .error _ => []
  | .ok events => events.filterMap id

def Invocation.response (i : Invocation) : List PutEventsResultEntry :=
  i.putEvents (i.submitted.map (entryOf busname))

/-- The records whose entries failed, in batch order. -/
def Invocation.failed (i : Invocation) : List KinesisStreamRecord :=
  (Comprehension.failing (·.errorCode.isSome) (i.response busname) i.submitted).map (·.input)

def Invocation.published (i : Invocation) : List KinesisStreamRecord :=
  (Comprehension.failing (·.errorCode.isNone) (i.response busname) i.submitted).map (·.input)

/-- The record and those before it in the batch did not fail. -/
def Invocation.BeforeFailures (i : Invocation) (r : KinesisStreamRecord) : Prop :=
  ∃ before after, i.batch = before ++ r :: after ∧
    ∀ q ∈ before ++ [r], q ∉ i.failed busname

structure Checkpointed (shard : Shard) (s : EventSource) : Prop where
  identifiers : ∀ i ∈ s.invocations, ∀ identifiers,
    (i.handled busname).batchItemFailures = .ok identifiers →
      identifiers.Sublist ((i.failed busname).map (·.sequenceNumber))
  not_skipped : ∀ r ∈ shard.records.take s.checkpoint,
    (∃ i ∈ s.invocations, r ∈ i.failed busname) → ∃ i ∈ s.invocations, r ∈ i.published busname
  published_once : s.invocations.Pairwise fun i j =>
    ∀ r, i.BeforeFailures busname r → r ∈ i.published busname → r ∉ j.published busname

end Mapping

-- ---------------------------------------------------------------------------
-- One invocation
-- ---------------------------------------------------------------------------

variable {busname : String}

theorem Invocation.submitted_input {i : Invocation} {event : EventbridgeInput}
    (h : event ∈ i.submitted) : event.input ∈ i.batch := by
  unfold submitted at h
  by_cases hall : ∀ r ∈ i.batch, Handles r
  · obtain ⟨events, hes, hf⟩ := transformed_ok hall
    simp only [hes, hf] at h
    obtain ⟨r, hr, hc⟩ := List.mem_filterMap.mp h
    exact converted_input hc ▸ hr
  · push Not at hall
    obtain ⟨r, hr, hraise⟩ := hall
    obtain ⟨e, he⟩ := transformed_error hr hraise
    simp [he] at h

theorem mem_batch_of_failing {i : Invocation} {p : PutEventsResultEntry → Bool}
    {response : List PutEventsResultEntry} {r : KinesisStreamRecord}
    (h : r ∈ (Comprehension.failing p response i.submitted).map (·.input)) : r ∈ i.batch := by
  obtain ⟨event, he, rfl⟩ := List.mem_map.mp h
  obtain ⟨k, -, -, hk, -⟩ := Comprehension.mem_failing.mp he
  exact Invocation.submitted_input (List.mem_of_getElem? hk)

/-- The identifiers are the event ids of the failed records. -/
theorem Invocation.handled_cases (busname : String) (i : Invocation) :
    (i.handled busname).batchItemFailures = .ok ((i.failed busname).map (·.eventId)) ∨
      (∃ e, (i.handled busname).batchItemFailures = .error e) ∧ i.submitted = [] := by
  unfold handled handleRecords failed response submitted
  cases transformed i.batch with
  | error e => exact .inr ⟨⟨e, rfl⟩, rfl⟩
  | ok events =>
    refine .inl ?_
    dsimp only
    split_ifs with hn
    · rw [List.length_eq_zero_iff.mp hn]
      simp [Comprehension.failing]
    · simp [failedEvents, List.map_map, Function.comp_def]

theorem recordsDone_nil (batch : List KinesisStreamRecord) :
    recordsDone batch [] = batch.length := by
  simp [recordsDone]

/-- Where nothing failed Lambda is done with the batch, or nothing was published. -/
theorem Invocation.done_of_clean {i : Invocation} (h : i.failed busname = []) :
    i.done busname = i.batch.length ∨ i.published busname = [] := by
  rcases i.handled_cases busname with hok | ⟨-, hnone⟩
  · rw [h, List.map_nil] at hok
    simp [done, hok, recordsDone_nil]
  · simp [published, hnone, Comprehension.failing]

-- ---------------------------------------------------------------------------
-- Runs
-- ---------------------------------------------------------------------------

structure EventSource.Clean (busname : String) (records : List KinesisStreamRecord)
    (s : EventSource) : Prop where
  published : ∀ i ∈ s.invocations, ∀ r ∈ i.published busname, r ∈ records.take s.checkpoint
  once : s.invocations.Pairwise fun i j => ∀ r ∈ i.published busname, r ∉ j.published busname

theorem EventSource.step_cases {records : List KinesisStreamRecord} {s t : EventSource}
    {l : Delivery} (h : s.step busname records l = some t) :
    ∃ (i : Invocation) (size : Nat), i.batch = (records.drop s.checkpoint).take size ∧
      i.batch.length = size ∧ t.invocations = s.invocations ++ [i] ∧
      (t.checkpoint = s.checkpoint + size ∨ t.checkpoint = s.checkpoint + i.done busname ∧
        i.done busname ≠ size) := by
  unfold step at h
  dsimp only at h
  generalize (if s.pending = 0 then l.size else s.pending) = size at h
  split_ifs at h with hsize hleft
  all_goals obtain rfl := Option.some.inj h
  all_goals
    refine ⟨_, size, rfl, ?_, rfl, ?_⟩
  · simp
    omega
  · exact .inl rfl
  · simp
    omega
  · refine .inr ⟨rfl, ?_⟩
    omega

theorem EventSource.latest_clean {records : List KinesisStreamRecord} :
    EventSource.latest.Clean busname records where
  published := by simp [latest]
  once := by simp [latest]

theorem EventSource.Clean.step {shard : Shard} {s t : EventSource} {l : Delivery}
    (h : s.Clean busname shard.records) (hstep : s.step busname shard.records l = some t)
    (hclean : ∀ i ∈ t.invocations, i.failed busname = []) : t.Clean busname shard.records := by
  obtain ⟨i, size, hbatch, hlength, hinvocations, hcheckpoint⟩ := EventSource.step_cases hstep
  have hle : s.checkpoint ≤ t.checkpoint := by omega
  have htake : ∀ r ∈ shard.records.take s.checkpoint, r ∈ shard.records.take t.checkpoint :=
    fun r hr => (List.take_subset_take_left _ hle) hr
  have hdone := Invocation.done_of_clean (hclean i (by simp [hinvocations]))
  constructor
  · rw [hinvocations]
    intro j hj r hr
    rcases List.mem_append.mp hj with hj | hj
    · exact htake r (h.published j hj r hr)
    obtain rfl := List.mem_singleton.mp hj
    rcases hdone with hdone | hnone
    · have hnext : t.checkpoint = s.checkpoint + size := by omega
      have hmem : r ∈ (shard.records.drop s.checkpoint).take size :=
        hbatch ▸ mem_batch_of_failing hr
      rw [hnext, List.take_add]
      exact List.mem_append_right _ hmem
    · simp [hnone] at hr
  · rw [hinvocations, List.pairwise_append]
    refine ⟨h.once, List.pairwise_singleton _ _, fun j hj k hk r hr hr' => ?_⟩
    obtain rfl := List.mem_singleton.mp hk
    have hmem : r ∈ (shard.records.drop s.checkpoint).take size :=
      hbatch ▸ mem_batch_of_failing hr'
    have hn : shard.records.Nodup := shard.distinct.of_map
    rw [← List.take_append_drop s.checkpoint shard.records, List.nodup_append] at hn
    exact hn.2.2 r (h.published j hj r hr) r (List.mem_of_mem_take hmem) rfl

/-- Every batch is of the shard. -/
theorem batch_of_run {shard : Shard} {ls : List Delivery} {s : EventSource}
    (hr : Machine.run (EventSource.step busname shard.records) .latest ls = some s) :
    ∀ i ∈ s.invocations, i.batch ⊆ shard.records := by
  refine Machine.run_invariant_all (I := fun s => ∀ i ∈ s.invocations, i.batch ⊆ shard.records)
    (fun s l t h hstep => ?_) (by simp [EventSource.latest]) hr
  obtain ⟨i, size, hbatch, -, hinvocations, -⟩ := EventSource.step_cases hstep
  rw [hinvocations]
  intro j hj
  rcases List.mem_append.mp hj with hj | hj
  · exact h j hj
  · obtain rfl := List.mem_singleton.mp hj
    rw [hbatch]
    exact fun r hr => List.mem_of_mem_drop (List.mem_of_mem_take hr)

theorem clean_of_run {shard : Shard} {ls : List Delivery} {s : EventSource}
    (hr : Machine.run (EventSource.step busname shard.records) .latest ls = some s)
    (hclean : ∀ i ∈ s.invocations, i.failed busname = []) : s.Clean busname shard.records := by
  refine Machine.run_invariant_all
    (I := fun s => (∀ i ∈ s.invocations, i.failed busname = []) → s.Clean busname shard.records)
    (fun s l t h hstep hclean => ?_) (fun _ => EventSource.latest_clean) hr hclean
  obtain ⟨i, -, -, -, hinvocations, -⟩ := EventSource.step_cases hstep
  refine EventSource.Clean.step (h fun j hj => hclean j ?_) hstep hclean
  exact hinvocations ▸ List.mem_append_left _ hj

theorem eventId_ne_sequenceNumber {shard : Shard} {r : KinesisStreamRecord}
    (hr : r ∈ shard.records) : r.eventId ≠ r.sequenceNumber := by
  intro h
  have hlen := congrArg String.length (h.symm.trans (shard.eventIds r hr))
  rw [String.length_append, String.length_append, show ":".length = 1 from rfl] at hlen
  omega

/-- The checkpoints hold what is claimed of them exactly as long as no entry fails. -/
theorem checkpointed_iff {shard : Shard} {ls : List Delivery} {s : EventSource}
    (hr : Machine.run (EventSource.step busname shard.records) .latest ls = some s) :
    Checkpointed busname shard s ↔ ∀ i ∈ s.invocations, i.failed busname = [] := by
  constructor
  · intro h i hi
    rcases i.handled_cases busname with hok | ⟨-, hnone⟩
    · have hsub := h.identifiers i hi _ hok
      have heq := List.map_inj_left.mp (hsub.eq_of_length (by simp))
      refine List.eq_nil_iff_forall_not_mem.mpr fun r hr' => ?_
      exact eventId_ne_sequenceNumber (batch_of_run hr i hi (mem_batch_of_failing hr')) (heq r hr')
    · simp [Invocation.failed, hnone, Comprehension.failing]
  · intro hclean
    have h := clean_of_run hr hclean
    refine ⟨fun i hi ids hids => ?_, fun r _ hfailed => ?_, ?_⟩
    · rcases i.handled_cases busname with hok | ⟨⟨e, he⟩, -⟩
      · obtain rfl := Except.ok.inj (hok.symm.trans hids)
        simp [hclean i hi]
      · cases he.symm.trans hids
    · obtain ⟨i, hi, hmem⟩ := hfailed
      simp [hclean i hi] at hmem
    · exact h.once.imp fun hij r _ => hij r

/-- Two paused DAGs on one shard. -/
def pausedDags : Shard where
  shardId := "shardId-000000000006"
  records := ["0", "1"].map fun sequenceNumber => DmsRecord.record {
    row := .dag { dagId := "dag_" ++ sequenceNumber, isPaused := some true, isActive := some true }
    others := []
    disjoint := by simp
    operation := .update
    eventId := "shardId-000000000006:" ++ sequenceNumber
    sequenceNumber := sequenceNumber }
  eventIds := by simp [DmsRecord.record]
  distinct := by decide

/-- The bus takes the first entry and refuses the others. -/
def acceptFirst (entries : List PutEventsEntry) : List PutEventsResultEntry :=
  entries.mapIdx fun k _ => ⟨some "123", if k = 0 then none else some "ThrottlingException"⟩

theorem checkpointed_iff_pausedDags : ∃ s,
    Machine.run (EventSource.step "bus" pausedDags.records) .latest [⟨2, acceptEntries⟩] = some s ∧
      (Checkpointed "bus" pausedDags s ↔ ∀ i ∈ s.invocations, i.failed "bus" = []) :=
  ⟨_, rfl, @checkpointed_iff "bus" pausedDags [⟨2, acceptEntries⟩] _ rfl⟩

/-- The second entry fails, its event id is no sequence number, and the first is published again. -/
theorem pausedDags_published_twice : ∃ s,
    Machine.run (EventSource.step "bus" pausedDags.records) .latest
      [⟨2, acceptFirst⟩, ⟨2, acceptEntries⟩] = some s ∧ ¬Checkpointed "bus" pausedDags s := by
  refine ⟨_, rfl, fun h => ?_⟩
  have honce := (List.pairwise_cons.mp h.published_once).1 _ List.mem_cons_self
  refine honce _ ⟨[], _, rfl, fun q hq => ?_⟩ List.mem_cons_self List.mem_cons_self
  obtain rfl := List.mem_singleton.mp hq
  intro hfailed
  have heq := List.mem_singleton.mp hfailed
  exact absurd (congrArg (·.sequenceNumber) heq) (by decide)

end Beeflow.Events
