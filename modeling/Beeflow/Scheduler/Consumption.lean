import Beeflow.Lib.Windows
import Beeflow.Scheduler.Datasets

/-!
# Events that are consumed once

A dataset-triggered run consumes the events from behind the dataset-triggered
run before it up to its own execution date. As long as each run is later than
those before it, and no event comes that is older than a run, these windows are
cut once and for all.
-/

namespace Beeflow.Scheduler

open Airflow

def triggeredRuns (s : DatasetState) (dagId : String) : List ConsumingDagRun :=
  s.dagRuns.filter fun run => run.dagId = dagId ∧ run.runType = .datasetTriggered

/-- Where the windows of the DAG end. -/
def cuts (s : DatasetState) (dagId : String) : List Time :=
  (triggeredRuns s dagId).map (·.executionDate)

/-- How many runs of the DAG consumed the event. -/
def consumers (s : DatasetState) (dagId : String) (e : DatasetEvent) : Nat :=
  s.dagRuns.countP fun run => run.dagId = dagId ∧ e ∈ run.consumedDatasetEvents

/-- No event is consumed twice, and none of the DAG's up to its latest run is left out. -/
def ConsumedOnce (s : DatasetState) (dagId : String) : Prop :=
  (∀ e, consumers s dagId e ≤ 1) ∧
    ∀ e ∈ s.datasetEvents, e.datasetId ∈ s.datasetsOf dagId →
      (∃ run ∈ triggeredRuns s dagId, e.timestamp ≤ run.executionDate) → consumers s dagId e = 1

/-- The run that the turn creates for the DAG. -/
def createsFor (s : DatasetState) (job : Nat) (dagId : String) : Option ConsumingDagRun :=
  (creates s job).filter (·.dagId = dagId)

/-- The execution dates of a DAG's passes increase. -/
def Increasing (dagId : String) (s : DatasetState) : DatasetLabel → Prop
  | .examine job _ =>
    ∀ run ∈ createsFor s job dagId, ∀ cut ∈ cuts s dagId, cut < run.executionDate
  | _ => True

/-- An event that comes behind a run's query for the events is newer than the run. -/
def Visible (dagId : String) (s : DatasetState) : DatasetLabel → Prop
  | .change c => c.datasetId ∈ s.datasetsOf dagId → ∀ cut ∈ cuts s dagId, cut < c.timestamp
  | .examine job arriving => ∀ c ∈ arriving, c.datasetId ∈ s.datasetsOf dagId →
    (∀ cut ∈ cuts s dagId, cut < c.timestamp) ∧
      ∀ run ∈ createsFor s job dagId, run.executionDate < c.timestamp
  | _ => True

def InOrder (dagId : String) (s : DatasetState) (l : DatasetLabel) : Prop :=
  Increasing dagId s l ∧ Visible dagId s l

instance (dagId : String) (s : DatasetState) : (l : DatasetLabel) → Decidable (InOrder dagId s l)
  | .examine job arriving => inferInstanceAs (Decidable (
    (∀ run ∈ createsFor s job dagId, ∀ cut ∈ cuts s dagId, cut < run.executionDate) ∧
      ∀ c ∈ arriving, c.datasetId ∈ s.datasetsOf dagId →
        (∀ cut ∈ cuts s dagId, cut < c.timestamp) ∧
          ∀ run ∈ createsFor s job dagId, run.executionDate < c.timestamp))
  | .change c => inferInstanceAs (Decidable (True ∧
    (c.datasetId ∈ s.datasetsOf dagId → ∀ cut ∈ cuts s dagId, cut < c.timestamp)))
  | .begin .. | .readExisting _ | .finish _ | .otherRun _ | .updateState .. =>
    .isTrue ⟨trivial, trivial⟩

-- ---------------------------------------------------------------------------
-- Each run has its window
-- ---------------------------------------------------------------------------

structure Windowed (s : DatasetState) (dagId : String) : Prop where
  sourced : ∀ e ∈ s.datasetEvents, s.HasRun e.source
  increasing : (cuts s dagId).Pairwise (· < ·)
  others : ∀ run ∈ s.dagRuns, run.dagId = dagId → run.runType ≠ .datasetTriggered →
    run.consumedDatasetEvents = []
  windows : ∀ run ∈ triggeredRuns s dagId, ∀ e, e ∈ run.consumedDatasetEvents ↔
    e ∈ s.datasetEvents ∧ e.datasetId ∈ s.datasetsOf dagId ∧
      Windows.Within (cuts s dagId) run.executionDate e.timestamp

section Windowed

variable {s t u : DatasetState} {dagId : String} {job : Nat} {run : ConsumingDagRun}

theorem mem_cuts {cut : Time} :
    cut ∈ cuts s dagId ↔ ∃ run ∈ triggeredRuns s dagId, run.executionDate = cut := List.mem_map

/-- The window counts the runs: a run of the DAG consumes what lies in its window. -/
theorem Windowed.consumers_eq (h : Windowed s dagId) (e : DatasetEvent) :
    consumers s dagId e =
      if (e ∈ s.datasetEvents ∧ e.datasetId ∈ s.datasetsOf dagId) ∧
        ∃ cut ∈ cuts s dagId, e.timestamp ≤ cut then 1 else 0 := by
  have htriggered : consumers s dagId e =
      (triggeredRuns s dagId).countP (e ∈ ·.consumedDatasetEvents) := by
    rw [consumers, triggeredRuns, List.countP_filter]
    refine List.countP_congr fun run hrun => ?_
    simp only [decide_eq_true_eq, Bool.and_eq_true]
    refine ⟨fun ⟨hid, he⟩ => ⟨he, hid, ?_⟩, fun ⟨he, hid, _⟩ => ⟨hid, he⟩⟩
    by_contra htype
    rw [h.others run hrun hid htype] at he
    exact nomatch he
  by_cases hof : e ∈ s.datasetEvents ∧ e.datasetId ∈ s.datasetsOf dagId
  · have hcut := Windows.countP_within h.increasing e.timestamp
    rw [htriggered]
    simp only [hof, true_and, ← hcut]
    rw [cuts, List.countP_map]
    refine List.countP_congr fun run hrun => ?_
    simp only [decide_eq_true_eq, Function.comp_apply, h.windows run hrun e, hof, true_and]
    rfl
  · rw [htriggered, if_neg fun h => hof h.1]
    refine List.countP_eq_zero.mpr fun run hrun he => hof ?_
    obtain ⟨hin, hid, -⟩ := (h.windows run hrun e).mp (of_decide_eq_true he)
    exact ⟨hin, hid⟩

theorem Windowed.consumedOnce (h : Windowed s dagId) : ConsumedOnce s dagId := by
  constructor
  · intro e
    rw [h.consumers_eq e]
    split_ifs <;> decide
  · rintro e he hd ⟨run, hrun, hle⟩
    rw [h.consumers_eq e, if_pos]
    exact ⟨⟨he, hd⟩, run.executionDate, mem_cuts.mpr ⟨run, hrun, rfl⟩, hle⟩

-- ---------------------------------------------------------------------------
-- What a step does to the windows
-- ---------------------------------------------------------------------------

/-- The query for the previous run gives the last of the cuts before the date. -/
theorem forall_previous_lt {date time : Time} :
    (∀ prev ∈ previousExecutionDate s dagId date, prev < time) ↔
      ∀ cut ∈ cuts s dagId, cut < date → cut < time := by
  let dates : List Time := (s.dagRuns.filter fun run => run.dagId = dagId ∧
    run.executionDate < date ∧ run.runType = .datasetTriggered).map (·.executionDate)
  have hmem : ∀ cut, cut ∈ dates ↔ cut ∈ cuts s dagId ∧ cut < date := by
    intro cut
    simp only [dates, cuts, triggeredRuns, List.mem_map, List.mem_filter, decide_eq_true_eq]
    constructor
    · rintro ⟨run, ⟨hrun, hid, hlt, htype⟩, rfl⟩
      exact ⟨⟨run, ⟨hrun, hid, htype⟩, rfl⟩, hlt⟩
    · rintro ⟨⟨run, ⟨hrun, hid, htype⟩, rfl⟩, hlt⟩
      exact ⟨run, ⟨hrun, hid, hlt, htype⟩, rfl⟩
  change (∀ prev ∈ dates.max?, prev < time) ↔ _
  cases hmax : dates.max? with
  | none =>
    refine ⟨fun _ cut hcut hlt => ?_, fun _ _ h => nomatch h⟩
    have hin := (hmem cut).mpr ⟨hcut, hlt⟩
    rw [List.max?_eq_none_iff.mp hmax] at hin
    exact nomatch hin
  | some last =>
    obtain ⟨hlast, hle⟩ := List.max?_eq_some_iff.mp hmax
    obtain ⟨hcut, hlt⟩ := (hmem last).mp hlast
    refine ⟨fun h cut hc hd => ?_, fun h prev hprev => ?_⟩
    · exact Int.lt_of_le_of_lt (hle cut ((hmem cut).mpr ⟨hc, hd⟩)) (h last rfl)
    · obtain rfl := Option.some.inj hprev
      exact h _ hcut hlt

theorem registerDatasetChange_new {c : DatasetChange} (h : registerDatasetChange s c = some t) :
    t.dagRuns = s.dagRuns ∧ ∀ e ∈ t.datasetEvents,
      e ∈ s.datasetEvents ∨ e.datasetId = c.datasetId ∧ e.timestamp = c.timestamp := by
  unfold registerDatasetChange at h
  split_ifs at h
  obtain rfl := Option.some.inj h
  refine ⟨rfl, fun e he => (List.mem_append.mp he).imp_right fun he => ?_⟩
  obtain rfl := List.mem_singleton.mp he
  exact ⟨rfl, rfl⟩

theorem registerDatasetChanges_new {cs : List DatasetChange}
    (h : cs.foldlM registerDatasetChange s = some t) :
    t.dagRuns = s.dagRuns ∧ ∀ e ∈ t.datasetEvents,
      e ∈ s.datasetEvents ∨ ∃ c ∈ cs, e.datasetId = c.datasetId ∧ e.timestamp = c.timestamp := by
  induction cs generalizing s with
  | nil =>
    obtain rfl := Option.some.inj h
    exact ⟨rfl, fun _ => .inl⟩
  | cons c cs ih =>
    rw [List.foldlM_cons, Option.bind_eq_bind, Option.bind_eq_some_iff] at h
    obtain ⟨u, hu, h⟩ := h
    obtain ⟨hruns, hnew⟩ := registerDatasetChange_new hu
    obtain ⟨hruns', hnew'⟩ := ih h
    refine ⟨hruns'.trans hruns, fun e he => ?_⟩
    rcases hnew' e he with he | ⟨c', hc', he⟩
    · exact (hnew e he).imp_right fun he => ⟨c, List.mem_cons_self, he⟩
    · exact .inr ⟨c', List.mem_cons_of_mem _ hc', he⟩

/-- New events of the DAG lie behind its windows. -/
theorem Windowed.arrive (h : Windowed s dagId) (hgrows : Grows s t)
    (hruns : t.dagRuns = s.dagRuns)
    (hnew : ∀ e ∈ t.datasetEvents, e ∈ s.datasetEvents ∨
      (e.datasetId ∈ s.datasetsOf dagId → ∀ cut ∈ cuts s dagId, cut < e.timestamp)) :
    Windowed t dagId := by
  have htriggered : triggeredRuns t dagId = triggeredRuns s dagId := by
    rw [triggeredRuns, triggeredRuns, hruns]
  have hcuts : cuts t dagId = cuts s dagId := by rw [cuts, cuts, htriggered]
  refine ⟨fun e he => ?_, hcuts ▸ h.increasing, hruns ▸ h.others, fun run hrun e => ?_⟩
  · rcases hgrows.events e he with he | ⟨-, hsource, -⟩
    · exact hgrows.hasRun (h.sourced e he)
    · exact hsource
  · rw [htriggered] at hrun
    rw [h.windows run hrun e, datasetsOf_congr hgrows.references, hcuts]
    refine ⟨fun ⟨he, hin⟩ => ⟨hgrows.kept e he, hin⟩, fun ⟨he, hd, hin⟩ => ⟨?_, hd, hin⟩⟩
    refine (hnew e he).resolve_right fun hlater => ?_
    have hlt := hlater hd run.executionDate (mem_cuts.mpr ⟨run, hrun, rfl⟩)
    exact absurd hin.1 (Int.not_le.mpr hlt)

/-- A run that is not of the DAG, or not triggered by datasets. -/
theorem Windowed.otherRun (h : Windowed s dagId)
    (hrun : run.dagId = dagId →
      run.runType ≠ .datasetTriggered ∧ run.consumedDatasetEvents = [])
    (queue : List DatasetDagRunQueue) :
    Windowed { s with dagRuns := s.dagRuns ++ [run], queue := queue } dagId := by
  have htriggered : triggeredRuns { s with dagRuns := s.dagRuns ++ [run], queue := queue } dagId =
      triggeredRuns s dagId := by
    have hnot : ¬(run.dagId = dagId ∧ run.runType = .datasetTriggered) :=
      fun ⟨hid, htype⟩ => (hrun hid).1 htype
    simp only [triggeredRuns, List.filter_append, List.filter_cons, List.filter_nil, hnot,
      decide_false, Bool.false_eq_true, if_false, List.append_nil]
  refine ⟨fun e he => ?_, ?_, fun r hr hid htype => ?_, ?_⟩
  · obtain ⟨r, hr, hkey⟩ := h.sourced e he
    exact ⟨r, List.mem_append_left _ hr, hkey⟩
  · rw [cuts, htriggered]
    exact h.increasing
  · rcases List.mem_append.mp hr with hr | hr
    · exact h.others r hr hid htype
    · obtain rfl := List.mem_singleton.mp hr
      exact (hrun hid).2
  · rw [cuts, htriggered]
    exact h.windows

/-- The next run of the DAG cuts the window behind all others. -/
theorem Windowed.nextRun (h : Windowed s dagId) (hid : run.dagId = dagId)
    (htype : run.runType = .datasetTriggered)
    (hlater : ∀ cut ∈ cuts s dagId, cut < run.executionDate)
    (hconsumed : ∀ e, e ∈ run.consumedDatasetEvents ↔
      e ∈ s.datasetEvents ∧ e.datasetId ∈ s.datasetsOf dagId ∧ e.timestamp ≤ run.executionDate ∧
        ∀ cut ∈ cuts s dagId, cut < e.timestamp) (queue : List DatasetDagRunQueue) :
    Windowed { s with dagRuns := s.dagRuns ++ [run], queue := queue } dagId := by
  have htriggered : triggeredRuns { s with dagRuns := s.dagRuns ++ [run], queue := queue } dagId =
      triggeredRuns s dagId ++ [run] := by
    simp [triggeredRuns, List.filter_append, hid, htype]
  have hcuts : cuts { s with dagRuns := s.dagRuns ++ [run], queue := queue } dagId =
      cuts s dagId ++ [run.executionDate] := by
    rw [cuts, htriggered, List.map_append]
    rfl
  refine ⟨fun e he => ?_, ?_, fun r hr hid htype' => ?_, fun r hr e => ?_⟩
  · obtain ⟨r, hr, hkey⟩ := h.sourced e he
    exact ⟨r, List.mem_append_left _ hr, hkey⟩
  · rw [hcuts]
    refine List.pairwise_append.mpr ⟨h.increasing, List.pairwise_singleton _ _, ?_⟩
    rintro cut hcut _ hnew
    exact List.mem_singleton.mp hnew ▸ hlater cut hcut
  · rcases List.mem_append.mp hr with hr | hr
    · exact h.others r hr hid htype'
    · exact absurd (List.mem_singleton.mp hr ▸ htype) htype'
  · rw [htriggered] at hr
    rw [hcuts]
    rcases List.mem_append.mp hr with hr | hr
    · rw [h.windows r hr e, Windows.within_append hlater (mem_cuts.mpr ⟨r, hr, rfl⟩)]
      rfl
    · obtain rfl := List.mem_singleton.mp hr
      rw [hconsumed e, Windows.within_new hlater]
      rfl

section StateOnly

variable {f : ConsumingDagRun → ConsumingDagRun}

theorem triggeredRuns_map (hf : ∀ run, ∃ state, f run = { run with state := state }) :
    triggeredRuns { s with dagRuns := s.dagRuns.map f } dagId = (triggeredRuns s dagId).map f := by
  rw [triggeredRuns, triggeredRuns, List.filter_map]
  congr 2
  funext run
  obtain ⟨state, he⟩ := hf run
  rw [Function.comp_apply, he]

theorem cuts_map (hf : ∀ run, ∃ state, f run = { run with state := state }) :
    cuts { s with dagRuns := s.dagRuns.map f } dagId = cuts s dagId := by
  rw [cuts, cuts, triggeredRuns_map hf, List.map_map]
  refine List.map_congr_left fun run _ => ?_
  obtain ⟨state, he⟩ := hf run
  rw [Function.comp_apply, he]

/-- The windows do not depend on the states of the runs. -/
theorem Windowed.map (h : Windowed s dagId)
    (hf : ∀ run, ∃ state, f run = { run with state := state }) :
    Windowed { s with dagRuns := s.dagRuns.map f } dagId := by
  refine ⟨fun e he => ?_, ?_, fun r hr hid htype => ?_, fun r hr e => ?_⟩
  · obtain ⟨r, hr, hkey⟩ := h.sourced e he
    refine ⟨f r, List.mem_map_of_mem hr, ?_⟩
    obtain ⟨state, he⟩ := hf r
    rw [he]
    exact hkey
  · rw [cuts_map hf]
    exact h.increasing
  · obtain ⟨run, hrun, rfl⟩ := List.mem_map.mp hr
    change (f run).dagId = dagId at hid
    change (f run).runType ≠ .datasetTriggered at htype
    obtain ⟨state, he⟩ := hf run
    rw [he] at hid htype ⊢
    exact h.others run hrun hid htype
  · rw [triggeredRuns_map hf] at hr
    obtain ⟨run, hrun, rfl⟩ := List.mem_map.mp hr
    obtain ⟨state, he⟩ := hf run
    rw [he, cuts_map hf]
    exact h.windows run hrun e

end StateOnly

theorem Windowed.updateState (h : Windowed s dagId) (key : String × String)
    (state : DagRunState) :
    Windowed { s with dagRuns := s.dagRuns.map fun run =>
      if run.key = key then { run with state := state } else run } dagId := by
  refine h.map fun run => ?_
  split_ifs
  · exact ⟨state, rfl⟩
  · exact ⟨run.state, rfl⟩

-- ---------------------------------------------------------------------------
-- Whole runs
-- ---------------------------------------------------------------------------

theorem creates_runType (h : creates s job = some run) : run.runType = .datasetTriggered := by
  simp only [creates, triggeredRun, Option.bind_eq_bind, Option.bind_eq_some_iff] at h
  obtain ⟨pass, -, dagId, -, dag, -, timetable, -, execDate, -, existing, -, h⟩ := h
  split_ifs at h
  obtain rfl := Option.some.inj h
  rfl

theorem Windowed.setPass (h : Windowed s dagId) (passes : Nat → Option DatasetPass) :
    Windowed { s with passes := passes } dagId :=
  ⟨h.sourced, h.increasing, h.others, h.windows⟩

/-- The run is created in a state that has the changes which came behind its query. -/
theorem Windowed.examine (h : Windowed s dagId) {arriving : List DatasetChange}
    (hc : InOrder dagId s (.examine job arriving))
    (hstep : datasetStep s (.examine job arriving) = some t) : Windowed t dagId := by
  obtain ⟨hincreasing, hvisible⟩ := hc
  obtain ⟨passes, u, hu, hrun⟩ := examine_cases hstep
  have hgrows : Grows s u := (Grows.setPass s passes).trans (Registered.all hu).grows
  obtain ⟨hruns, hnew⟩ := registerDatasetChanges_new hu
  have hcuts : cuts u dagId = cuts s dagId := by rw [cuts, cuts, triggeredRuns, hruns]; rfl
  have hdatasets := datasetsOf_congr hgrows.references dagId
  have harrived : Windowed u dagId := by
    refine h.arrive hgrows hruns fun e he => (hnew e he).imp_right ?_
    rintro ⟨c, hc, hid, htime⟩ hd
    exact htime ▸ (hvisible c hc (hid ▸ hd)).1
  rcases hrun with ⟨-, rfl⟩ | ⟨run, hrun, ht⟩
  · exact harrived
  obtain rfl := createDagrun_eq ht
  by_cases hid : run.dagId = dagId
  · have hfor : run ∈ createsFor s job dagId := by simp [createsFor, hrun, hid]
    have hlater := hincreasing run hfor
    refine harrived.nextRun hid (creates_runType hrun) (hcuts ▸ hlater) (fun e => ?_) _
    rw [creates_consumed hrun, hid, datasetEventsOf, List.mem_filter, decide_eq_true_eq,
      forall_previous_lt, hcuts, hdatasets]
    constructor
    · rintro ⟨he, hd, -, hle, hwindow⟩
      exact ⟨hgrows.kept e he, hd, hle, fun cut hcut => hwindow cut hcut (hlater cut hcut)⟩
    · rintro ⟨he, hd, hle, hwindow⟩
      have he : e ∈ s.datasetEvents := by
        refine (hnew e he).resolve_right ?_
        rintro ⟨c, hc, hid, htime⟩
        have hlt := (hvisible c hc (hid ▸ hd)).2 run hfor
        exact absurd hle (Int.not_le.mpr (htime ▸ hlt))
      exact ⟨he, hd, h.sourced e he, hle, fun cut hcut _ => hwindow cut hcut⟩
  · exact harrived.otherRun (fun he => absurd he hid) _

theorem Windowed.step (h : Windowed s dagId) {l : DatasetLabel} (hc : InOrder dagId s l)
    (hstep : datasetStep s l = some t) : Windowed t dagId := by
  cases l with
  | change c =>
    obtain ⟨hruns, hnew⟩ := registerDatasetChange_new hstep
    refine h.arrive (registerDatasetChange_grows hstep) hruns fun e he =>
      (hnew e he).imp_right ?_
    rintro ⟨hid, htime⟩ hd
    exact htime ▸ hc.2 (hid ▸ hd)
  | begin job dagIds =>
    simp only [datasetStep] at hstep
    split_ifs at hstep
    exact Option.some.inj hstep ▸ h.setPass _
  | readExisting job =>
    simp only [datasetStep] at hstep
    split at hstep
    · exact Option.some.inj hstep ▸ h.setPass _
    · cases hstep
  | examine job arriving => exact h.examine hc hstep
  | finish job =>
    simp only [datasetStep] at hstep
    split at hstep
    · exact Option.some.inj hstep ▸ h.setPass _
    · cases hstep
  | otherRun run =>
    simp only [datasetStep] at hstep
    split_ifs at hstep with hrun
    exact Option.some.inj hstep ▸ h.otherRun (fun _ => hrun.2) s.queue
  | updateState key state => exact Option.some.inj hstep ▸ h.updateState key state

/-- No run of the DAG is triggered by datasets yet. -/
structure Untriggered (s : DatasetState) (dagId : String) : Prop where
  sourced : ∀ e ∈ s.datasetEvents, s.HasRun e.source
  otherRuns : ∀ run ∈ s.dagRuns, run.dagId = dagId →
    run.runType ≠ .datasetTriggered ∧ run.consumedDatasetEvents = []

theorem Untriggered.windowed (h : Untriggered s dagId) : Windowed s dagId := by
  have hnone : triggeredRuns s dagId = [] := by
    refine List.filter_eq_nil_iff.mpr fun run hrun hof => ?_
    obtain ⟨hid, htype⟩ := of_decide_eq_true hof
    exact (h.otherRuns run hrun hid).1 htype
  refine ⟨h.sourced, ?_, fun run hrun hid _ => (h.otherRuns run hrun hid).2, ?_⟩
  · rw [cuts, hnone]
    exact .nil
  · rw [hnone]
    exact fun run hrun => nomatch hrun

/-- Where the runs of a DAG come in order, each event is consumed once. -/
theorem consumedOnce_run {ls : List DatasetLabel} (hs : Untriggered s dagId)
    (hc : Machine.Along datasetStep (InOrder dagId) s ls)
    (hr : Machine.run datasetStep s ls = some t) : ConsumedOnce t dagId :=
  (Machine.run_invariant (I := (Windowed · dagId)) (fun _ _ _ h hc hstep => h.step hc hstep)
    hs.windowed hc hr).consumedOnce

end Windowed

/-- Two runs of `report`; the last update waits for a third. -/
def twoReports : List DatasetLabel :=
  updated 1 1 :: updated 2 3 :: reportPass ++ updated 1 5 :: updated 2 6 :: reportPass ++
    [updated 1 7]

theorem consumedOnce_run_report : ∃ t,
    Machine.run datasetStep reportState twoReports = some t ∧ ConsumedOnce t "report" ∧
      cuts t "report" = [3, 6] :=
  ⟨_, rfl, @consumedOnce_run reportState _ "report" twoReports
    ⟨fun _ he => (nomatch he), by decide⟩ (by decide) rfl, rfl⟩

end Beeflow.Scheduler
