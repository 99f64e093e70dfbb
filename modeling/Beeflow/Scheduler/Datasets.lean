import Beeflow.Airflow.Tables
import Beeflow.Lib.Machine

/-!
# Dataset-triggered runs

A change of a dataset is recorded as a dataset event and queued for every DAG
that is scheduled on the dataset, unless a row for the two is queued already. A
DAG with a row for each of its datasets is due. Its run consumes the events up
to the time of the last row, and takes all the rows of the DAG away.
-/

namespace Beeflow.Scheduler

open Airflow

-- ---------------------------------------------------------------------------
-- Tables
-- ---------------------------------------------------------------------------

structure DatasetEvent where
  id : Nat
  datasetId : Nat
  timestamp : Time
  /-- `dag_id` and `run_id` of `source_dag_run` -/
  source : String × String
  deriving DecidableEq, Repr

structure DatasetDagRunQueue where
  datasetId : Nat
  targetDagId : String
  createdAt : Time
  deriving DecidableEq, Repr

structure DagScheduleDatasetReference where
  datasetId : Nat
  dagId : String
  deriving DecidableEq, Repr

/-- A row of `dag_run`, with the dataset events that the run consumed. -/
structure ConsumingDagRun where
  dagId : String
  runId : String
  runType : DagRunType
  state : DagRunState
  executionDate : Time
  dataInterval : Time × Time
  externalTrigger : Bool
  dagHash : Option String
  creatingJobId : Option Nat
  consumedDatasetEvents : List DatasetEvent
  deriving DecidableEq, Repr

def ConsumingDagRun.key (run : ConsumingDagRun) : String × String := (run.dagId, run.runId)

structure DatasetTriggeredTimetable where
  dataIntervalForEvents : Time → List DatasetEvent → Time × Time
  generateRunId : DagRunType → Time → Time × Time → List DatasetEvent → String

/-- What the dagbag has of a DAG. Only a timetable of the class is kept. -/
structure DatasetDag where
  dagId : String
  dagHash : Option String
  timetable : Option DatasetTriggeredTimetable

/-- A pass under way: the DAGs it has still to look at, the runs it found to exist. -/
structure DatasetPass where
  execDates : String → Option Time
  existingDagruns : Option (List (String × Time))
  dagModels : List String

structure DatasetState where
  references : List DagScheduleDatasetReference
  dagbag : List DatasetDag
  datasetEvents : List DatasetEvent
  queue : List DatasetDagRunQueue
  dagRuns : List ConsumingDagRun
  /-- by the id of the scheduler job -/
  passes : Nat → Option DatasetPass

namespace DatasetState

variable (s : DatasetState)

/-- The datasets that the DAG is scheduled on. -/
def datasetsOf (dagId : String) : List Nat :=
  (s.references.filter (·.dagId = dagId)).map (·.datasetId)

def consumingDags (datasetId : Nat) : List String :=
  (s.references.filter (·.datasetId = datasetId)).map (·.dagId)

def queueRow (datasetId : Nat) (dagId : String) : Option DatasetDagRunQueue :=
  s.queue.find? fun row => row.datasetId = datasetId ∧ row.targetDagId = dagId

def HasRun (key : String × String) : Prop := ∃ run ∈ s.dagRuns, run.key = key

instance (key : String × String) : Decidable (s.HasRun key) :=
  inferInstanceAs (Decidable (∃ run ∈ s.dagRuns, _))

end DatasetState

-- ---------------------------------------------------------------------------
-- Dataset events and the queue
-- ---------------------------------------------------------------------------

structure DatasetChange where
  datasetId : Nat
  timestamp : Time
  source : String × String
  deriving DecidableEq, Repr

/-- A task instance of the run `source` has changed the dataset. -/
def registerDatasetChange (s : DatasetState) (c : DatasetChange) : Option DatasetState :=
  if s.HasRun c.source then
    let dags := (s.consumingDags c.datasetId).filter fun d => (s.queueRow c.datasetId d).isNone
    some { s with
      datasetEvents := s.datasetEvents ++ [⟨s.datasetEvents.length, c.datasetId, c.timestamp,
        c.source⟩]
      queue := s.queue ++ dags.map (⟨c.datasetId, ·, c.timestamp⟩) }
  else none

/-- `dags_needing_dagruns`: the first and the last time, of a DAG with a row for each dataset. -/
def datasetTriggeredDagInfo (s : DatasetState) (dagId : String) : Option (Time × Time) := do
  let rows ← (s.datasetsOf dagId).mapM (s.queueRow · dagId)
  some (← (rows.map (·.createdAt)).min?, ← (rows.map (·.createdAt)).max?)

-- ---------------------------------------------------------------------------
-- `_create_dag_runs_dataset_triggered`
-- ---------------------------------------------------------------------------

/-- The execution date of `previous_dag_run`. -/
def previousExecutionDate (s : DatasetState) (dagId : String) (execDate : Time) : Option Time :=
  ((s.dagRuns.filter fun run =>
    run.dagId = dagId ∧ run.executionDate < execDate ∧ run.runType = .datasetTriggered).map
      (·.executionDate)).max?

/-- The query for `dataset_events`. -/
def datasetEventsOf (s : DatasetState) (dagId : String) (execDate : Time) : List DatasetEvent :=
  s.datasetEvents.filter fun e =>
    e.datasetId ∈ s.datasetsOf dagId ∧ s.HasRun e.source ∧ e.timestamp ≤ execDate ∧
      ∀ prev ∈ previousExecutionDate s dagId execDate, prev < e.timestamp

/-- The run of one turn of the loop; `none` where the turn is left by `continue` or the run is
found to exist. -/
def triggeredRun (s : DatasetState) (job : Nat) (pass : DatasetPass) (dagId : String) :
    Option ConsumingDagRun := do
  let dag ← s.dagbag.find? (·.dagId = dagId)
  let timetable ← dag.timetable
  let execDate ← pass.execDates dagId
  let existing ← pass.existingDagruns
  if ∃ p ∈ existing, p.1 = dagId ∧ p.2 = execDate then none
  else
    let events := datasetEventsOf s dagId execDate
    let dataInterval := timetable.dataIntervalForEvents execDate events
    some {
      dagId := dagId
      runId := timetable.generateRunId .datasetTriggered execDate dataInterval events
      runType := .datasetTriggered
      state := .queued
      executionDate := execDate
      dataInterval := dataInterval
      externalTrigger := false
      dagHash := dag.dagHash
      creatingJobId := some job
      consumedDatasetEvents := events }

/-- The table `dag_run` has one run of a DAG for a run id and one for an execution date. -/
def Insertable (s : DatasetState) (run : ConsumingDagRun) : Prop :=
  ∀ other ∈ s.dagRuns, other.dagId = run.dagId →
    other.runId ≠ run.runId ∧ other.executionDate ≠ run.executionDate

instance (s : DatasetState) (run : ConsumingDagRun) : Decidable (Insertable s run) :=
  inferInstanceAs (Decidable (∀ other ∈ s.dagRuns, _))

/-- `dag.create_dagrun` and the delete. -/
def createDagrun (s : DatasetState) (run : ConsumingDagRun) : Option DatasetState :=
  if Insertable s run then
    some { s with
      dagRuns := s.dagRuns ++ [run]
      queue := s.queue.filter (·.targetDagId ≠ run.dagId) }
  else none

inductive DatasetLabel
  | change (c : DatasetChange)
  /-- a pass reads the queue and takes some of the due DAGs -/
  | begin (job : Nat) (dagIds : List String)
  | readExisting (job : Nat)
  /-- one turn of the loop; the changes come behind its query for the events -/
  | examine (job : Nat) (arriving : List DatasetChange)
  | finish (job : Nat)
  /-- a run that is not triggered by datasets -/
  | otherRun (run : ConsumingDagRun)
  | updateState (key : String × String) (state : DagRunState)

/-- A pass that raises is rolled back, so none of its steps is in a run. -/
def datasetStep (s : DatasetState) : DatasetLabel → Option DatasetState
  | .change c => registerDatasetChange s c
  | .begin job dagIds =>
    if (s.passes job).isNone ∧ ∀ d ∈ dagIds, (datasetTriggeredDagInfo s d).isSome then
      some { s with passes := Function.update s.passes job (some
        ⟨fun d => (datasetTriggeredDagInfo s d).map Prod.snd, none, dagIds⟩) }
    else none
  | .readExisting job =>
    match s.passes job with
    | some ⟨execDates, none, dagModels⟩ =>
      let existing := (s.dagRuns.map fun run => (run.dagId, run.executionDate)).filter fun p =>
        execDates p.1 = some p.2
      some { s with passes := Function.update s.passes job (some
        ⟨execDates, some existing, dagModels⟩) }
    | _ => none
  | .examine job arriving =>
    match s.passes job with
    | some ⟨execDates, some existing, dagId :: dagModels⟩ => do
      let created := triggeredRun s job ⟨execDates, some existing, dagId :: dagModels⟩ dagId
      let s' ← arriving.foldlM registerDatasetChange { s with
        passes := Function.update s.passes job (some ⟨execDates, some existing, dagModels⟩) }
      match created with
      | none => some s'
      | some run => createDagrun s' run
    | _ => none
  | .finish job =>
    match s.passes job with
    | some ⟨_, some _, []⟩ => some { s with passes := Function.update s.passes job none }
    | _ => none
  | .otherRun run =>
    if Insertable s run ∧ run.runType ≠ .datasetTriggered ∧ run.consumedDatasetEvents = [] then
      some { s with dagRuns := s.dagRuns ++ [run] }
    else none
  | .updateState key state =>
    some { s with dagRuns := s.dagRuns.map fun run =>
      if run.key = key then { run with state := state } else run }

-- ---------------------------------------------------------------------------
-- Events that no run has consumed
-- ---------------------------------------------------------------------------

def Consumed (s : DatasetState) (dagId : String) (e : DatasetEvent) : Prop :=
  ∃ run ∈ s.dagRuns, run.dagId = dagId ∧ e ∈ run.consumedDatasetEvents

instance (s : DatasetState) (dagId : String) (e : DatasetEvent) : Decidable (Consumed s dagId e) :=
  inferInstanceAs (Decidable (∃ run ∈ s.dagRuns, _))

def Queued (s : DatasetState) (datasetId : Nat) (dagId : String) : Prop :=
  ∃ row ∈ s.queue, row.datasetId = datasetId ∧ row.targetDagId = dagId

instance (s : DatasetState) (datasetId : Nat) (dagId : String) :
    Decidable (Queued s datasetId dagId) := inferInstanceAs (Decidable (∃ row ∈ s.queue, _))

/-- Every event of one of a DAG's datasets is consumed by a run of the DAG or still queued. -/
def NoEventDropped (s : DatasetState) : Prop :=
  ∀ dagId, ∀ e ∈ s.datasetEvents, e.datasetId ∈ s.datasetsOf dagId → ¬Consumed s dagId e →
    Queued s e.datasetId dagId

/-- What no earlier run consumed is no newer than the run and newer than the run before it. -/
def InWindow (s : DatasetState) (dagId : String) (execDate : Time) : Prop :=
  ∀ e ∈ s.datasetEvents, e.datasetId ∈ s.datasetsOf dagId → ¬Consumed s dagId e →
    e.timestamp ≤ execDate ∧ ∀ prev ∈ previousExecutionDate s dagId execDate, prev < e.timestamp

instance (s : DatasetState) (dagId : String) (execDate : Time) :
    Decidable (InWindow s dagId execDate) :=
  inferInstanceAs (Decidable (∀ e ∈ s.datasetEvents, _))

/-- The run that the turn of the loop creates. -/
def creates (s : DatasetState) (job : Nat) : Option ConsumingDagRun := do
  let pass ← s.passes job
  triggeredRun s job pass (← pass.dagModels.head?)

/-- Where a turn creates a run, its window has every event that waits for the DAG, and none
comes meanwhile. -/
def WindowCovers (s : DatasetState) : DatasetLabel → Prop
  | .examine job arriving => ∀ run ∈ creates s job,
    InWindow s run.dagId run.executionDate ∧
      ∀ c ∈ arriving, c.datasetId ∉ s.datasetsOf run.dagId
  | _ => True

instance (s : DatasetState) : (l : DatasetLabel) → Decidable (WindowCovers s l)
  | .examine job arriving => inferInstanceAs (Decidable (∀ run ∈ creates s job,
    InWindow s run.dagId run.executionDate ∧ ∀ c ∈ arriving, c.datasetId ∉ s.datasetsOf run.dagId))
  | .change _ | .begin .. | .readExisting _ | .finish _ | .otherRun _ | .updateState .. =>
    .isTrue trivial

-- ---------------------------------------------------------------------------
-- Steps that take no row away
-- ---------------------------------------------------------------------------

/-- Rows, events and runs stay, and what comes is queued and not consumed yet. -/
structure Grows (s t : DatasetState) : Prop where
  references : t.references = s.references
  queued : ∀ {datasetId dagId}, Queued s datasetId dagId → Queued t datasetId dagId
  consumed : ∀ {dagId e}, Consumed t dagId e ↔ Consumed s dagId e
  hasRun : ∀ {key}, s.HasRun key → t.HasRun key
  length : s.datasetEvents.length ≤ t.datasetEvents.length
  kept : ∀ e ∈ s.datasetEvents, e ∈ t.datasetEvents
  events : ∀ e ∈ t.datasetEvents, e ∈ s.datasetEvents ∨
    (s.datasetEvents.length ≤ e.id ∧ e.id < t.datasetEvents.length) ∧ t.HasRun e.source ∧
      ∀ dagId, e.datasetId ∈ t.datasetsOf dagId → Queued t e.datasetId dagId

theorem datasetsOf_congr {s t : DatasetState} (h : t.references = s.references) (dagId : String) :
    t.datasetsOf dagId = s.datasetsOf dagId := by
  rw [DatasetState.datasetsOf, DatasetState.datasetsOf, h]

section Grows

variable {s t u : DatasetState}

theorem Grows.refl (s : DatasetState) : Grows s s :=
  ⟨rfl, id, .rfl, id, Nat.le_refl _, fun _ => id, fun _ => .inl⟩

theorem Grows.trans (h : Grows s t) (h' : Grows t u) : Grows s u where
  references := h'.references.trans h.references
  queued := h'.queued ∘ h.queued
  consumed := h'.consumed.trans h.consumed
  hasRun := h'.hasRun ∘ h.hasRun
  length := Nat.le_trans h.length h'.length
  kept := fun e he => h'.kept e (h.kept e he)
  events := by
    intro e he
    rcases h'.events e he with he | ⟨⟨hlow, hhigh⟩, hnew⟩
    · rcases h.events e he with he | ⟨⟨hlow, hhigh⟩, hrun, hqueued⟩
      · exact .inl he
      · refine .inr ⟨⟨hlow, Nat.lt_of_lt_of_le hhigh h'.length⟩, h'.hasRun hrun, fun dagId hd => ?_⟩
        rw [datasetsOf_congr h'.references] at hd
        exact h'.queued (hqueued dagId hd)
    · exact .inr ⟨⟨Nat.le_trans h.length hlow, hhigh⟩, hnew⟩

/-- A step that leaves events and queue alone, and every run with what it consumed. -/
theorem Grows.of_runs (hreferences : t.references = s.references)
    (hevents : t.datasetEvents = s.datasetEvents) (hqueue : t.queue = s.queue)
    (hrun : ∀ {key}, s.HasRun key → t.HasRun key)
    (hconsumed : ∀ {dagId e}, Consumed t dagId e ↔ Consumed s dagId e) : Grows s t where
  references := hreferences
  queued := by
    rintro datasetId dagId ⟨row, hrow, h⟩
    exact ⟨row, hqueue ▸ hrow, h⟩
  consumed := hconsumed
  hasRun := hrun
  length := Nat.le_of_eq (congrArg List.length hevents.symm)
  kept := fun e he => hevents ▸ he
  events := fun e he => .inl (hevents ▸ he)

theorem mem_datasetsOf {datasetId : Nat} {dagId : String} :
    datasetId ∈ s.datasetsOf dagId ↔ dagId ∈ s.consumingDags datasetId := by
  simp only [DatasetState.datasetsOf, DatasetState.consumingDags, List.mem_map, List.mem_filter,
    decide_eq_true_eq]
  constructor
  · rintro ⟨ref, ⟨href, hdag⟩, hdataset⟩
    exact ⟨ref, ⟨href, hdataset⟩, hdag⟩
  · rintro ⟨ref, ⟨href, hdataset⟩, hdag⟩
    exact ⟨ref, ⟨href, hdag⟩, hdataset⟩

theorem registerDatasetChange_grows {c : DatasetChange} (h : registerDatasetChange s c = some t) :
    Grows s t := by
  unfold registerDatasetChange at h
  split_ifs at h with hrun
  obtain rfl := Option.some.inj h
  refine ⟨rfl, ?_, .rfl, id, by simp, fun e => List.mem_append_left _, ?_⟩
  · rintro datasetId dagId ⟨row, hrow, hkey⟩
    exact ⟨row, List.mem_append_left _ hrow, hkey⟩
  · intro e he
    rcases List.mem_append.mp he with he | he
    · exact .inl he
    · obtain rfl := List.mem_singleton.mp he
      refine .inr ⟨⟨Nat.le_refl _, by simp⟩, hrun, fun dagId hd => ?_⟩
      by_cases hrow : (s.queueRow c.datasetId dagId).isNone
      · have hdag : dagId ∈ s.consumingDags c.datasetId := mem_datasetsOf.mp hd
        refine ⟨⟨c.datasetId, dagId, c.timestamp⟩, List.mem_append_right _ ?_, rfl, rfl⟩
        exact List.mem_map.mpr ⟨dagId, List.mem_filter.mpr ⟨hdag, hrow⟩, rfl⟩
      · rw [Bool.not_eq_true, Option.isNone_eq_false_iff, Option.isSome_iff_exists] at hrow
        obtain ⟨row, hrow⟩ := hrow
        have hkey := List.find?_some hrow
        exact ⟨row, List.mem_append_left _ (List.mem_of_find?_eq_some hrow), by simpa using hkey⟩

/-- What a list of changes adds. -/
structure Registered (s : DatasetState) (cs : List DatasetChange) (t : DatasetState) : Prop where
  grows : Grows s t
  new : ∀ e ∈ t.datasetEvents, e ∈ s.datasetEvents ∨ ∃ c ∈ cs, e.datasetId = c.datasetId
  added : ∀ c ∈ cs, ∃ e ∈ t.datasetEvents,
    e.datasetId = c.datasetId ∧ s.datasetEvents.length ≤ e.id

theorem Registered.one {c : DatasetChange} (h : registerDatasetChange s c = some t) :
    Registered s [c] t := by
  have hgrows := registerDatasetChange_grows h
  unfold registerDatasetChange at h
  split_ifs at h
  obtain rfl := Option.some.inj h
  refine ⟨hgrows, fun e he => ?_, fun c' hc' => ?_⟩
  · rcases List.mem_append.mp he with he | he
    · exact .inl he
    · exact .inr ⟨c, List.mem_cons_self, List.mem_singleton.mp he ▸ rfl⟩
  · obtain rfl := List.mem_singleton.mp hc'
    exact ⟨_, List.mem_append_right _ List.mem_cons_self, rfl, Nat.le_refl _⟩

theorem Registered.append {cs cs' : List DatasetChange} (h : Registered s cs t)
    (h' : Registered t cs' u) : Registered s (cs ++ cs') u where
  grows := h.grows.trans h'.grows
  new := by
    intro e he
    rcases h'.new e he with he | ⟨c, hc, hid⟩
    · rcases h.new e he with he | ⟨c, hc, hid⟩
      · exact .inl he
      · exact .inr ⟨c, List.mem_append_left _ hc, hid⟩
    · exact .inr ⟨c, List.mem_append_right _ hc, hid⟩
  added := by
    intro c hc
    rcases List.mem_append.mp hc with hc | hc
    · obtain ⟨e, he, hid, hlow⟩ := h.added c hc
      exact ⟨e, h'.grows.kept e he, hid, hlow⟩
    · obtain ⟨e, he, hid, hlow⟩ := h'.added c hc
      exact ⟨e, he, hid, Nat.le_trans h.grows.length hlow⟩

theorem Registered.all {cs : List DatasetChange} (h : cs.foldlM registerDatasetChange s = some t) :
    Registered s cs t := by
  induction cs generalizing s with
  | nil =>
    obtain rfl := Option.some.inj h
    exact ⟨.refl s, fun _ => .inl, by simp⟩
  | cons c cs ih =>
    rw [List.foldlM_cons, Option.bind_eq_bind, Option.bind_eq_some_iff] at h
    obtain ⟨u, hu, h⟩ := h
    exact (Registered.one hu).append (ih h)

theorem Grows.setPass (s : DatasetState) (passes : Nat → Option DatasetPass) :
    Grows s { s with passes := passes } :=
  .of_runs rfl rfl rfl id .rfl

/-- The changes that arrive come before the run. -/
theorem examine_cases {job : Nat} {arriving : List DatasetChange}
    (h : datasetStep s (.examine job arriving) = some t) :
    ∃ passes u, arriving.foldlM registerDatasetChange { s with passes := passes } = some u ∧
      (creates s job = none ∧ t = u ∨
        ∃ run, creates s job = some run ∧ createDagrun u run = some t) := by
  simp only [datasetStep] at h
  split at h
  · rename_i execDates existing dagId dagModels hpass
    rw [Option.bind_eq_bind, Option.bind_eq_some_iff] at h
    obtain ⟨u, hu, h⟩ := h
    refine ⟨_, u, hu, ?_⟩
    have hcreates : creates s job =
        triggeredRun s job ⟨execDates, some existing, dagId :: dagModels⟩ dagId := by
      simp [creates, hpass]
    rw [hcreates]
    split at h
    · rename_i hnone
      exact .inl ⟨hnone, (Option.some.inj h).symm⟩
    · rename_i run hrun
      exact .inr ⟨run, hrun, h⟩
  · cases h

/-- A step takes rows away only where a turn of the loop creates a run. -/
theorem datasetStep_cases {l : DatasetLabel} (h : datasetStep s l = some t) :
    Grows s t ∨ ∃ job arriving run u, l = .examine job arriving ∧ creates s job = some run ∧
      Grows s u ∧ (∀ e ∈ u.datasetEvents, e ∈ s.datasetEvents ∨
        ∃ c ∈ arriving, e.datasetId = c.datasetId) ∧ createDagrun u run = some t := by
  cases l with
  | change c => exact .inl (registerDatasetChange_grows h)
  | begin job dagIds =>
    simp only [datasetStep] at h
    split_ifs at h
    obtain rfl := Option.some.inj h
    exact .inl (.setPass s _)
  | readExisting job =>
    simp only [datasetStep] at h
    split at h
    · obtain rfl := Option.some.inj h
      exact .inl (.setPass s _)
    · cases h
  | examine job arriving =>
    obtain ⟨passes, u, hu, hrun⟩ := examine_cases h
    have hu := Registered.all hu
    have hgrows := (Grows.setPass s passes).trans hu.grows
    rcases hrun with ⟨-, rfl⟩ | ⟨run, hrun, ht⟩
    · exact .inl hgrows
    · exact .inr ⟨job, arriving, run, u, rfl, hrun, hgrows, hu.new, ht⟩
  | finish job =>
    simp only [datasetStep] at h
    split at h
    · obtain rfl := Option.some.inj h
      exact .inl (.setPass s _)
    · cases h
  | otherRun run =>
    simp only [datasetStep] at h
    split_ifs at h with hrun
    obtain rfl := Option.some.inj h
    refine .inl (.of_runs rfl rfl rfl ?_ ?_)
    · rintro key ⟨r, hr, hkey⟩
      exact ⟨r, List.mem_append_left _ hr, hkey⟩
    · simp [Consumed, or_and_right, exists_or, hrun.2.2]
  | updateState key state =>
    obtain rfl := Option.some.inj h
    refine .inl (.of_runs rfl rfl rfl ?_ ?_)
    · rintro key' ⟨r, hr, hkey⟩
      refine ⟨_, List.mem_map_of_mem hr, ?_⟩
      split_ifs <;> exact hkey
    · intro dagId e
      simp only [Consumed, List.mem_map, exists_exists_and_eq_and]
      refine exists_congr fun r => and_congr_right fun _ => ?_
      split_ifs <;> rfl

end Grows

-- ---------------------------------------------------------------------------
-- The step that creates a run
-- ---------------------------------------------------------------------------

/-- What every run of steps keeps while the windows cover. -/
structure Accounted (s : DatasetState) : Prop where
  sourced : ∀ e ∈ s.datasetEvents, s.HasRun e.source
  noEventDropped : NoEventDropped s

section Accounted

variable {s t u : DatasetState} {job : Nat} {run : ConsumingDagRun}

theorem Accounted.of_no_events (h : s.datasetEvents = []) : Accounted s := by
  constructor
  · simp [h]
  · intro dagId e he
    simp [h] at he

theorem Accounted.grows (hs : Accounted s) (h : Grows s t) : Accounted t where
  sourced := by
    intro e he
    rcases h.events e he with he | ⟨-, hrun, -⟩
    · exact h.hasRun (hs.sourced e he)
    · exact hrun
  noEventDropped := by
    intro dagId e he hd hunconsumed
    rcases h.events e he with he | ⟨-, -, hqueued⟩
    · rw [datasetsOf_congr h.references] at hd
      exact h.queued (hs.noEventDropped dagId e he hd fun hc => hunconsumed (h.consumed.mpr hc))
    · exact hqueued dagId hd

theorem triggeredRun_consumed {pass : DatasetPass} {dagId : String}
    (h : triggeredRun s job pass dagId = some run) :
    run.consumedDatasetEvents = datasetEventsOf s run.dagId run.executionDate := by
  simp only [triggeredRun, Option.bind_eq_bind, Option.bind_eq_some_iff] at h
  obtain ⟨dag, -, timetable, -, execDate, -, existing, -, h⟩ := h
  split_ifs at h
  obtain rfl := Option.some.inj h
  rfl

theorem creates_consumed (h : creates s job = some run) :
    run.consumedDatasetEvents = datasetEventsOf s run.dagId run.executionDate := by
  simp only [creates, Option.bind_eq_bind, Option.bind_eq_some_iff] at h
  obtain ⟨pass, -, dagId, -, h⟩ := h
  exact triggeredRun_consumed h

theorem createDagrun_eq (h : createDagrun s run = some t) :
    t = { s with
      dagRuns := s.dagRuns ++ [run]
      queue := s.queue.filter (·.targetDagId ≠ run.dagId) } := by
  unfold createDagrun at h
  split_ifs at h
  exact (Option.some.inj h).symm

/-- The rows of the other DAGs stay; those of the run's DAG are not needed any more. -/
theorem Accounted.created (hs : Accounted s) (hgrows : Grows s u)
    (hnew : ∀ e ∈ u.datasetEvents, e ∈ s.datasetEvents ∨
      e.datasetId ∉ s.datasetsOf run.dagId)
    (hconsumed : run.consumedDatasetEvents = datasetEventsOf s run.dagId run.executionDate)
    (hwindow : InWindow s run.dagId run.executionDate) (ht : createDagrun u run = some t) :
    Accounted t := by
  have hu := hs.grows hgrows
  obtain rfl := createDagrun_eq ht
  constructor
  · intro e he
    obtain ⟨r, hr, hkey⟩ := hu.sourced e he
    exact ⟨r, List.mem_append_left _ hr, hkey⟩
  · intro dagId e he hd hunconsumed
    have hbefore : ¬Consumed u dagId e := by
      rintro ⟨r, hr, h⟩
      exact hunconsumed ⟨r, List.mem_append_left _ hr, h⟩
    by_cases hdag : dagId = run.dagId
    · subst hdag
      have hd : e.datasetId ∈ s.datasetsOf run.dagId := datasetsOf_congr hgrows.references _ ▸ hd
      have he := (hnew e he).resolve_right (not_not_intro hd)
      -- an event that waited for the DAG is one of those the run consumes
      have hin := hwindow e he hd fun hc => hbefore (hgrows.consumed.mpr hc)
      refine absurd ⟨run, List.mem_append_right _ List.mem_cons_self, rfl, ?_⟩ hunconsumed
      rw [hconsumed, datasetEventsOf, List.mem_filter, decide_eq_true_eq]
      exact ⟨he, hd, hs.sourced e he, hin⟩
    · obtain ⟨row, hrow, hkey⟩ := hu.noEventDropped dagId e he hd hbefore
      refine ⟨row, List.mem_filter.mpr ⟨hrow, ?_⟩, hkey⟩
      rw [hkey.2]
      exact decide_eq_true hdag

theorem Accounted.step {l : DatasetLabel} (hs : Accounted s) (hc : WindowCovers s l)
    (h : datasetStep s l = some t) : Accounted t := by
  rcases datasetStep_cases h with hgrows | ⟨job, arriving, run, u, rfl, hrun, hgrows, hnew, ht⟩
  · exact hs.grows hgrows
  · obtain ⟨hwindow, harriving⟩ := hc run hrun
    refine hs.created hgrows (fun e he => (hnew e he).imp_right ?_) (creates_consumed hrun)
      hwindow ht
    rintro ⟨c, hc, he⟩
    rw [he]
    exact harriving c hc

/-- Where the windows cover, every event waits in the queue until a run consumes it. -/
theorem noEventDropped_run {ls : List DatasetLabel} (hs : Accounted s)
    (hc : Machine.Along datasetStep WindowCovers s ls)
    (hr : Machine.run datasetStep s ls = some t) : NoEventDropped t :=
  (Machine.run_invariant (fun _ _ _ hs hc h => Accounted.step hs hc h) hs hc hr).noEventDropped

-- ---------------------------------------------------------------------------
-- Windows that do not cover
-- ---------------------------------------------------------------------------

/-- Events are numbered in the order of their rows, and a run consumes recorded ones. -/
structure Recorded (s : DatasetState) : Prop where
  ids : ∀ e ∈ s.datasetEvents, e.id < s.datasetEvents.length
  consumed : ∀ {dagId e}, Consumed s dagId e → e ∈ s.datasetEvents

theorem Recorded.grows (hs : Recorded s) (h : Grows s t) : Recorded t where
  ids := by
    intro e he
    rcases h.events e he with he | ⟨⟨-, hhigh⟩, -⟩
    · exact Nat.lt_of_lt_of_le (hs.ids e he) h.length
    · exact hhigh
  consumed := fun hc => h.kept _ (hs.consumed (h.consumed.mp hc))

theorem consumed_created (ht : createDagrun u run = some t) {dagId : String} {e : DatasetEvent} :
    Consumed t dagId e ↔
      Consumed u dagId e ∨ run.dagId = dagId ∧ e ∈ run.consumedDatasetEvents := by
  obtain rfl := createDagrun_eq ht
  simp [Consumed, or_and_right, exists_or]

theorem Recorded.step {l : DatasetLabel} (hs : Recorded s) (h : datasetStep s l = some t) :
    Recorded t := by
  rcases datasetStep_cases h with hgrows | ⟨job, arriving, run, u, rfl, hrun, hgrows, -, ht⟩
  · exact hs.grows hgrows
  · have hu := hs.grows hgrows
    have hconsumed := @consumed_created t u run ht
    have hevents : t.datasetEvents = u.datasetEvents := by rw [createDagrun_eq ht]
    refine ⟨hevents ▸ hu.ids, fun {dagId e} hc => hevents ▸ ?_⟩
    rcases hconsumed.mp hc with hc | ⟨-, he⟩
    · exact hu.consumed hc
    · rw [creates_consumed hrun] at he
      exact hgrows.kept e (List.mem_filter.mp he).1

/-- The run leaves no row of its DAG for what it did not consume. -/
theorem consumed_of_noEventDropped (ht : createDagrun u run = some t) (hnone : NoEventDropped t)
    {e : DatasetEvent} (he : e ∈ u.datasetEvents) (hd : e.datasetId ∈ u.datasetsOf run.dagId) :
    Consumed u run.dagId e ∨ e ∈ run.consumedDatasetEvents := by
  by_contra hwaits
  have hunconsumed : ¬Consumed t run.dagId e := by
    rw [consumed_created ht]
    simpa using hwaits
  obtain rfl := createDagrun_eq ht
  obtain ⟨row, hrow, -, hdag⟩ := hnone run.dagId e he hd hunconsumed
  exact absurd hdag (by simpa using (List.mem_filter.mp hrow).2)

/-- A window that does not cover drops an event. -/
theorem noEventDropped_step_iff {l : DatasetLabel} (hs : Accounted s) (hrec : Recorded s)
    (h : datasetStep s l = some t) : NoEventDropped t ↔ WindowCovers s l := by
  refine ⟨fun hnone => ?_, fun hc => (hs.step hc h).noEventDropped⟩
  cases l with
  | examine job arriving =>
    intro run hrun
    obtain ⟨passes, u, hu, ⟨hnot, -⟩ | ⟨run', hrun', ht⟩⟩ := examine_cases h
    · rw [hnot] at hrun
      cases hrun
    obtain rfl : run' = run := Option.some.inj (hrun'.symm.trans hrun)
    have hu := Registered.all hu
    have hdatasets := datasetsOf_congr hu.grows.references run'.dagId
    refine ⟨fun e he hd hwaits => ?_, fun c hc hd => ?_⟩
    · rcases consumed_of_noEventDropped ht hnone (hu.grows.kept e he) (hdatasets ▸ hd) with hc | hc
      · exact absurd (hu.grows.consumed.mp hc) hwaits
      · rw [creates_consumed hrun, datasetEventsOf, List.mem_filter, decide_eq_true_eq] at hc
        exact hc.2.2.2
    · -- the event of the change is recorded behind those that a run consumed
      obtain ⟨e, he, hid, hlow⟩ := hu.added c hc
      have hin : e ∈ s.datasetEvents := by
        rcases consumed_of_noEventDropped ht hnone he (hdatasets ▸ hid ▸ hd) with hc | hc
        · exact hrec.consumed (hu.grows.consumed.mp hc)
        · rw [creates_consumed hrun] at hc
          exact (List.mem_filter.mp hc).1
      exact absurd (hrec.ids e hin) (Nat.not_lt.mpr hlow)
  | _ => trivial

end Accounted

def etlRun : ConsumingDagRun where
  dagId := "etl"
  runId := "scheduled__1"
  runType := .scheduled
  state := .running
  executionDate := 0
  dataInterval := (0, 0)
  externalTrigger := false
  dagHash := none
  creatingJobId := none
  consumedDatasetEvents := []

/-- The DAG `report` is scheduled on the datasets 1 and 2, which the run of `etl` updates. -/
def reportState : DatasetState where
  references := [⟨1, "report"⟩, ⟨2, "report"⟩]
  dagbag := [⟨"report", none, some ⟨fun _ _ => etlRun.dataInterval,
    fun _ execDate _ _ => "dataset_triggered__" ++ toString execDate⟩⟩]
  datasetEvents := []
  queue := []
  dagRuns := [etlRun]
  passes := fun _ => none

def updated (datasetId : Nat) (timestamp : Time) : DatasetLabel :=
  .change ⟨datasetId, timestamp, etlRun.key⟩

def reportPass : List DatasetLabel :=
  [.begin 7 ["report"], .readExisting 7, .examine 7 [], .finish 7]

theorem noEventDropped_run_report : ∃ t,
    Machine.run datasetStep reportState
      (updated 1 1 :: updated 2 3 :: reportPass ++ [updated 1 5]) = some t ∧ NoEventDropped t :=
  ⟨_, rfl, @noEventDropped_run reportState _ (updated 1 1 :: updated 2 3 :: reportPass ++
    [updated 1 5]) (.of_no_events rfl) (by decide) rfl⟩

/-- The second update of dataset 1 is newer than the run, and its row has the time of the first. -/
theorem secondUpdate_dropped : ∃ t,
    Machine.run datasetStep reportState
      (updated 1 1 :: updated 2 3 :: updated 1 5 :: reportPass) = some t ∧ ¬NoEventDropped t := by
  refine ⟨_, rfl, fun h => ?_⟩
  have hqueued := h "report" ⟨2, 1, 5, etlRun.key⟩ (by decide) (by decide) (by decide)
  exact absurd hqueued (by decide)

end Beeflow.Scheduler
