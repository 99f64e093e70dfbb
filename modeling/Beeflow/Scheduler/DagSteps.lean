import Beeflow.Scheduler.DagViews

/-!
# The steps of one DAG

`DagStep` lists all that a step can do to the row and the runs of one DAG, and
`schedulerStep_dag` says that a step does no more than that. Invariants of a
DAG follow by cases on it.
-/

namespace Beeflow.Scheduler

open Airflow

/-- What `_update_dag_run_state_for_paused_dags` does to a DAG it looks at. -/
def DagView.updatePaused (v : DagView) (updateState : DagRun → DagRunState) : DagView :=
  ⟨v.dagModel, v.runs.map fun run =>
    if run.state = .running ∧ run.runType ≠ .backfillJob then { run with state := updateState run }
    else run⟩

inductive DagStep (dag : Dag) (s : SchedulerState) (v : DagView) : SchedulerLabel → DagView → Prop
  | other (l) : DagStep dag s v l v
  | created {dagIds now} (hid : dag.dagId ∈ dagIds) :
      DagStep dag s v (.createDagRuns dagIds now) (v.created dag)
  | started {keys now} {f : DagRun → DagRun} (hf : ∀ run, f run = run ∨ f run = startRun now run) :
      DagStep dag s v (.startQueuedDagruns keys now) ⟨v.dagModel, v.runs.map f⟩
  | arrived {key now decision run} (hkey : s.db.dagRun key = some run)
      (hid : run.dagId = dag.dagId) (hrun : run ∈ v.runs) (hrunning : run.state = .running) :
      DagStep dag s v (.scheduleDagRun key now decision)
        (v.arrived dag run (arrives dag run now decision))
  | paused {updateState} (hid : dag.dagId ∈ pausedDags s.db s.withoutRunningDagruns) :
      DagStep dag s v (.updatePausedDags updateState) (v.updatePaused updateState)
  | setPaused (isPaused) :
      DagStep dag s v (.setPaused dag.dagId isPaused)
        ⟨v.dagModel.map fun m => { m with isPaused := isPaused }, v.runs⟩
  | triggered {runId executionDate interval}
      (hlatest : latestComplete dag.timetable interval executionDate) :
      DagStep dag s v (.trigger dag.dagId runId executionDate interval)
        ⟨v.dagModel, v.runs ++ [manualRun dag.dagId runId executionDate interval]⟩

-- ---------------------------------------------------------------------------
-- Every step is one of these
-- ---------------------------------------------------------------------------

section Steps

variable {s t : SchedulerState} {l : SchedulerLabel} {dag : Dag} {db : Database}

theorem filterMap_dagModel_dagId {dagIds : List String}
    (h : ∀ dagId ∈ dagIds, (db.dagModel dagId).isSome) :
    (dagIds.filterMap db.dagModel).map (·.dagId) = dagIds := by
  induction dagIds with
  | nil => rfl
  | cons dagId dagIds ih =>
    obtain ⟨m, hm⟩ := Option.isSome_iff_exists.mp (h dagId (List.mem_cons_self ..))
    rw [List.filterMap_cons_some hm, List.map_cons, dagModel_dagId hm,
      ih fun d hd => h d (List.mem_cons_of_mem _ hd)]

theorem dagModel_isSome {dagId : String} {now : Time}
    (h : (db.dagModel dagId).any (needsDagrun · now)) : (db.dagModel dagId).isSome := by
  obtain ⟨m, hm, -⟩ := (Option.any_eq_true _ _).mp h
  simp [hm]

theorem mem_existing (dagId : String) (time : Time) :
    (dagId, time) ∈ db.dagRuns.map (fun run => (run.dagId, run.executionDate)) ↔
      time ∈ (view db dagId).runs.map (·.executionDate) := by
  simp only [view, List.mem_map, List.mem_filter, Prod.mk.injEq, decide_eq_true_eq]
  constructor
  · rintro ⟨run, hrun, rfl, rfl⟩
    exact ⟨run, ⟨hrun, rfl⟩, rfl⟩
  · rintro ⟨run, ⟨hrun, hid⟩, rfl⟩
    exact ⟨run, hrun, hid, rfl⟩

theorem createDagRuns_self {dagIds : List String} {now : Time} (hnodup : dagIds.Nodup)
    (hneeds : ∀ dagId ∈ dagIds, (s.db.dagModel dagId).any (needsDagrun · now))
    (hdag : s.db.getDag dag.dagId = some dag) (hmem : dag.dagId ∈ dagIds)
    (h : createDagRuns s.db (dagIds.filterMap s.db.dagModel) = some db) :
    view db dag.dagId = (view s.db dag.dagId).created dag := by
  have hids := filterMap_dagModel_dagId fun dagId hd => dagModel_isSome (hneeds dagId hd)
  obtain ⟨m, hm⟩ := Option.isSome_iff_exists.mp (dagModel_isSome (hneeds dag.dagId hmem))
  have hid := dagModel_dagId hm
  rw [← hid]
  exact createDagRunsLoop_self h (List.mem_filterMap.mpr ⟨_, hmem, hm⟩) (by rwa [hids])
    (hid ▸ hdag) (hid ▸ hm) (mem_existing _) (activeRuns_view s.db _)

theorem createDagRuns_dag {dagIds : List String} {now : Time} (hnodup : dagIds.Nodup)
    (hneeds : ∀ dagId ∈ dagIds, (s.db.dagModel dagId).any (needsDagrun · now))
    (hdag : s.db.getDag dag.dagId = some dag)
    (h : createDagRuns s.db (dagIds.filterMap s.db.dagModel) = some db) :
    DagStep dag s (view s.db dag.dagId) (.createDagRuns dagIds now) (view db dag.dagId) := by
  by_cases hmem : dag.dagId ∈ dagIds
  · rw [createDagRuns_self hnodup hneeds hdag hmem h]
    exact .created hmem
  · have hids := filterMap_dagModel_dagId fun dagId hd => dagModel_isSome (hneeds dagId hd)
    rw [createDagRunsLoop_other h (by rwa [hids])]
    exact .other _

theorem mem_view {run : DagRun} (hrun : run ∈ db.dagRuns) : run ∈ (view db run.dagId).runs :=
  List.mem_filter.mpr ⟨hrun, decide_eq_true rfl⟩

theorem scheduleDagRun_dag {key : String × String} {run : DagRun} {now : Time}
    {decision : Decision} (hkey : s.db.dagRun key = some run)
    (hexamine : toExamine s.db .running now run) (hdag : s.db.getDag dag.dagId = some dag) :
    DagStep dag s (view s.db dag.dagId) (.scheduleDagRun key now decision)
      (view (scheduleDagRun s.db run now decision) dag.dagId) := by
  by_cases hid : run.dagId = dag.dagId
  · have hrunning : run.state = .running := by
      simp only [toExamine, Bool.and_eq_true, decide_eq_true_eq] at hexamine
      exact hexamine.1.1.1
    rw [← hid, scheduleDagRun_self (hid ▸ hdag)]
    exact .arrived hkey hid (mem_view (List.mem_of_find?_eq_some hkey)) hrunning
  · rw [scheduleDagRun_other (Ne.symm hid)]
    exact .other _

theorem updatePausedDags_dag {updateState : DagRun → DagRunState}
    (h : schedulerStep s (.updatePausedDags updateState) = some t) (dag : Dag) :
    view t.db dag.dagId =
      if dag.dagId ∈ pausedDags s.db s.withoutRunningDagruns then
        (view s.db dag.dagId).updatePaused updateState
      else view s.db dag.dagId := by
  obtain rfl := Option.some.inj h
  have hid : ∀ run : DagRun, (if run.dagId ∈ pausedDags s.db s.withoutRunningDagruns ∧
      run.state = .running ∧ run.runType ≠ .backfillJob then
        { run with state := updateState run } else run).dagId = run.dagId := by
    intro run
    split_ifs <;> rfl
  have hruns := filter_map_runs hid s.db.dagRuns dag.dagId
  have hdag : ∀ run ∈ s.db.dagRuns.filter (·.dagId = dag.dagId), run.dagId = dag.dagId :=
    fun run hrun => by simpa using (List.mem_filter.mp hrun).2
  split_ifs with hmem
  · refine congrArg (DagView.mk _) (hruns.trans (List.map_congr_left fun run hrun => ?_))
    simp only [hdag run hrun, hmem, true_and]
  · refine congrArg (DagView.mk _) (hruns.trans ((List.map_congr_left fun run hrun => ?_).trans
      (List.map_id _)))
    simp only [hdag run hrun, hmem, false_and, if_false, id]

theorem setPaused_dag (dagId : String) (isPaused : Bool) :
    DagStep dag s (view s.db dag.dagId) (.setPaused dagId isPaused)
      (view (s.db.updateDagModel dagId fun m => { m with isPaused := isPaused }) dag.dagId) := by
  have hf : ∀ m : DagModel, { m with isPaused := isPaused }.dagId = m.dagId := fun _ => rfl
  by_cases hid : dag.dagId = dagId
  · rw [← hid, view_updateDagModel_self s.db _ hf]
    exact .setPaused isPaused
  · rw [view_updateDagModel_other s.db hid hf]
    exact .other _

theorem trigger_dag {dagId : String} {dag' : Dag} (runId : String) {executionDate : Time}
    {interval : Int} (hdag : s.db.getDag dag.dagId = some dag)
    (hdag' : s.db.getDag dagId = some dag')
    (hlatest : latestComplete dag'.timetable interval executionDate) :
    DagStep dag s (view s.db dag.dagId) (.trigger dagId runId executionDate interval)
      (view { s.db with
        dagRuns := s.db.dagRuns ++ [manualRun dagId runId executionDate interval] } dag.dagId) := by
  rw [view_addRun]
  by_cases hid : dagId = dag.dagId
  · subst hid
    obtain rfl : dag = dag' := Option.some.inj (hdag.symm.trans hdag')
    rw [if_pos (by rfl)]
    exact .triggered hlatest
  · rw [if_neg (by exact hid), List.append_nil]
    exact .other _

theorem schedulerStep_dag (h : schedulerStep s l = some t)
    (hdag : s.db.getDag dag.dagId = some dag) :
    DagStep dag s (view s.db dag.dagId) l (view t.db dag.dagId) := by
  cases l with
  | createDagRuns dagIds now =>
    simp only [schedulerStep] at h
    split_ifs at h with hguard
    obtain ⟨db, hdb, rfl⟩ := Option.map_eq_some_iff.mp h
    exact createDagRuns_dag hguard.1 hguard.2 hdag hdb
  | startQueuedDagruns keys now =>
    simp only [schedulerStep] at h
    split_ifs at h
    obtain rfl := Option.some.inj h
    obtain ⟨f, hf, hview⟩ := startQueuedDagrunsLoop_view now (keys.filterMap s.db.dagRun) s.db
      (runningRuns s.db.dagRuns) dag.dagId
    rw [startQueuedDagruns, hview]
    exact .started hf
  | scheduleDagRun key now decision =>
    simp only [schedulerStep] at h
    split at h
    · rename_i run hkey
      split_ifs at h with hexamine
      obtain rfl := Option.some.inj h
      exact scheduleDagRun_dag hkey hexamine hdag
    · exact nomatch h
  | updatePausedDags updateState =>
    rw [updatePausedDags_dag h]
    split_ifs with hmem
    · exact .paused hmem
    · exact .other _
  | newJob =>
    obtain rfl := Option.some.inj h
    exact .other _
  | setPaused dagId isPaused =>
    obtain rfl := Option.some.inj h
    exact setPaused_dag dagId isPaused
  | trigger dagId runId executionDate interval =>
    simp only [schedulerStep] at h
    split at h
    · rename_i dag' hdag'
      split_ifs at h with hguard
      obtain rfl := Option.some.inj h
      exact trigger_dag runId hdag hdag' hguard.1
    · exact nomatch h

theorem schedulerStep_serializedDags (h : schedulerStep s l = some t) :
    t.db.serializedDags = s.db.serializedDags := by
  cases l with
  | createDagRuns dagIds now =>
    simp only [schedulerStep] at h
    split_ifs at h
    obtain ⟨db, hdb, rfl⟩ := Option.map_eq_some_iff.mp h
    exact createDagRunsLoop_serializedDags hdb
  | startQueuedDagruns keys now =>
    simp only [schedulerStep] at h
    split_ifs at h
    obtain rfl := Option.some.inj h
    exact startQueuedDagrunsLoop_serializedDags _ _ _ _
  | scheduleDagRun key now decision =>
    simp only [schedulerStep] at h
    split at h
    · split_ifs at h
      obtain rfl := Option.some.inj h
      exact scheduleDagRun_serializedDags
    · exact nomatch h
  | updatePausedDags updateState => obtain rfl := Option.some.inj h; rfl
  | newJob => obtain rfl := Option.some.inj h; rfl
  | setPaused dagId isPaused => obtain rfl := Option.some.inj h; rfl
  | trigger dagId runId executionDate interval =>
    simp only [schedulerStep] at h
    split at h
    · split_ifs at h
      obtain rfl := Option.some.inj h
      rfl
    · exact nomatch h

theorem schedulerStep_getDag (h : schedulerStep s l = some t)
    (hdag : s.db.getDag dag.dagId = some dag) : t.db.getDag dag.dagId = some dag := by
  rw [Database.getDag, schedulerStep_serializedDags h]
  exact hdag

end Steps

end Beeflow.Scheduler
