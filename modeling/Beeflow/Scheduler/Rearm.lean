import Beeflow.Scheduler.Intervals

/-!
# Disarmed dags

At the limit `_should_update_dag_next_dagruns` takes `next_dagrun_create_after`
away. The end of a run gives it back, if the run ends in `_schedule_dag_run`;
one that ends in `_update_dag_run_state_for_paused_dags` does not.
-/

namespace Beeflow.Scheduler

open Airflow

namespace DagView

def nextDagrunCreateAfter (v : DagView) : Option Time := v.dagModel.bind (·.nextDagrunCreateAfter)

/-- There is an interval to come, but nothing will create its run. -/
def Disarmed (v : DagView) : Prop := v.nextDagrun.isSome ∧ v.nextDagrunCreateAfter = none

instance (v : DagView) : Decidable v.Disarmed := inferInstanceAs (Decidable (_ ∧ _))

/-- A run of a disarmed DAG is still queued or running. -/
def Rearmable (v : DagView) : Prop := v.Disarmed → 0 < v.activeRuns

instance (v : DagView) : Decidable v.Rearmable := inferInstanceAs (Decidable (_ → _))

end DagView

def Armed (db : Database) (dag : Dag) : Prop :=
  db.getDag dag.dagId = some dag ∧ (view db dag.dagId).nextDagrunCreateAfter.isSome

/-- If the step looks at the runs of a paused, disarmed DAG, an active one stays active. -/
def KeepsRearmable (dag : Dag) (s : SchedulerState) : SchedulerLabel → Prop
  | .updatePausedDags updateState =>
    let v := view s.db dag.dagId
    dag.dagId ∈ pausedDags s.db s.withoutRunningDagruns → v.Disarmed →
      ∃ run ∈ v.runs, run.state.active = true ∧
        (run.state = .running → run.runType ≠ .backfillJob → (updateState run).active = true)
  | _ => True

-- ---------------------------------------------------------------------------
-- One step
-- ---------------------------------------------------------------------------

section UpdateNextDagrun

variable {dag : Dag} {m : DagModel} {total : Nat} {interval : Int}

/-- It is the limit that disarms a DAG which has an interval to come. -/
theorem updateNextDagrun_disarmed
    (hnext : (updateNextDagrun dag total interval m).nextDagrun.isSome)
    (hcreate : (updateNextDagrun dag total interval m).nextDagrunCreateAfter = none) :
    dag.maxActiveRuns ≤ total := by
  by_contra hfree
  rw [updateNextDagrun_free (Nat.not_le.mp hfree), calculateDagrunDateFields] at hnext hcreate
  split_ifs at hnext hcreate
  cases hnext

end UpdateNextDagrun

namespace DagView

variable {dag : Dag} {s : SchedulerState} {v v' : DagView} {l : SchedulerLabel}

theorem activeRuns_pos : 0 < v.activeRuns ↔ ∃ run ∈ v.runs, run.state.active = true :=
  List.countP_pos_iff

theorem Rearmable.of_armed (h : v.nextDagrunCreateAfter.isSome) : v.Rearmable := by
  rintro ⟨-, hnone⟩
  rw [hnone] at h
  exact nomatch h

theorem rearmable_update (hmax : 1 ≤ dag.maxActiveRuns) (dagModel : Option DagModel)
    (runs : List DagRun) (interval : Int) :
    (DagView.mk (dagModel.map (updateNextDagrun dag (runs.countP (·.state.active)) interval))
      runs).Rearmable := by
  rintro ⟨hnext, hcreate⟩
  cases dagModel with
  | none => exact nomatch hnext
  | some m => exact Nat.le_trans hmax (updateNextDagrun_disarmed hnext hcreate)

theorem Rearmable.mono (h : v.Rearmable) (hnext : v'.nextDagrun = v.nextDagrun)
    (hcreate : v'.nextDagrunCreateAfter = v.nextDagrunCreateAfter)
    (hruns : v.Disarmed → 0 < v.activeRuns → 0 < v'.activeRuns) : v'.Rearmable := by
  intro hdis
  rw [Disarmed, hnext, hcreate] at hdis
  exact hruns hdis (h hdis)

theorem Rearmable.created (hmax : 1 ≤ dag.maxActiveRuns) (h : v.Rearmable) :
    (v.created dag).Rearmable := by
  unfold DagView.created
  split
  · exact h
  split
  · exact h
  · exact rearmable_update hmax (some _) _ _

theorem Rearmable.arrived (hmax : 1 ≤ dag.maxActiveRuns) (h : v.Rearmable) {run : DagRun}
    (hrun : run ∈ v.runs) (state : Option DagRunState) : (v.arrived dag run state).Rearmable := by
  cases state with
  | none => exact h
  | some state =>
    unfold DagView.arrived
    dsimp only
    split_ifs with hfin
    · exact rearmable_update hmax v.dagModel _ run.dataInterval
    · refine h.mono rfl rfl fun _ _ => activeRuns_pos.mpr ⟨_, List.mem_map_of_mem hrun, ?_⟩
      rw [if_pos rfl]
      cases state <;> first | rfl | exact absurd rfl hfin

theorem Rearmable.step (hmax : 1 ≤ dag.maxActiveRuns) (h : (view s.db dag.dagId).Rearmable)
    (hc : KeepsRearmable dag s l) (hstep : DagStep dag s (view s.db dag.dagId) l v') :
    v'.Rearmable := by
  cases hstep with
  | other => exact h
  | created => exact h.created hmax
  | started hf =>
    refine h.mono rfl rfl fun _ hpos => ?_
    obtain ⟨run, hrun, hactive⟩ := activeRuns_pos.mp hpos
    refine activeRuns_pos.mpr ⟨_, List.mem_map_of_mem hrun, ?_⟩
    rcases hf run with he | he <;> rw [he]
    · exact hactive
    · rfl
  | arrived _ _ hrun => exact h.arrived hmax hrun _
  | paused hid =>
    refine h.mono rfl rfl fun hdis _ => ?_
    obtain ⟨run, hrun, hactive, hstays⟩ := hc hid hdis
    refine activeRuns_pos.mpr ⟨_, List.mem_map_of_mem hrun, ?_⟩
    split_ifs with hrunning
    · exact hstays hrunning.1 hrunning.2
    · exact hactive
  | setPaused isPaused =>
    refine h.mono ?_ ?_ fun _ hpos => hpos
    · rw [DagView.nextDagrun, Option.bind_map]
      rfl
    · rw [DagView.nextDagrunCreateAfter, Option.bind_map]
      rfl
  | triggered =>
    refine h.mono rfl rfl fun _ hpos => ?_
    obtain ⟨run, hrun, hactive⟩ := activeRuns_pos.mp hpos
    exact activeRuns_pos.mpr ⟨run, List.mem_append_left _ hrun, hactive⟩

end DagView

section Runs

variable {s t : SchedulerState} {l : SchedulerLabel} {ls : List SchedulerLabel} {dag : Dag}

/-- A step that does not meet the condition strands the DAG. -/
theorem keepsRearmable_of_rearmable (hstep : schedulerStep s l = some t)
    (hkept : (view t.db dag.dagId).Rearmable) : KeepsRearmable dag s l := by
  cases l with
  | updatePausedDags updateState =>
    intro hid hdis
    rw [updatePausedDags_dag hstep, if_pos hid] at hkept
    obtain ⟨_, hr, hactive⟩ := DagView.activeRuns_pos.mp (hkept hdis)
    obtain ⟨run, hrun, rfl⟩ := List.mem_map.mp hr
    refine ⟨run, hrun, ?_⟩
    split_ifs at hactive with hrunning
    · exact ⟨by rw [hrunning.1]; rfl, fun _ _ => hactive⟩
    · exact ⟨hactive, fun h htype => absurd ⟨h, htype⟩ hrunning⟩
  | createDagRuns | startQueuedDagruns | scheduleDagRun | newJob | setPaused | trigger => trivial

theorem rearmable_run (hmax : 1 ≤ dag.maxActiveRuns) (harmed : Armed s.db dag)
    (hc : Machine.Along schedulerStep (KeepsRearmable dag) s ls)
    (hr : Machine.run schedulerStep s ls = some t) : (view t.db dag.dagId).Rearmable := by
  have hinv : t.db.getDag dag.dagId = some dag ∧ (view t.db dag.dagId).Rearmable :=
    Machine.run_invariant
      (I := fun s => s.db.getDag dag.dagId = some dag ∧ (view s.db dag.dagId).Rearmable)
      (fun _ _ _ hi hc hstep => ⟨schedulerStep_getDag hstep hi.1,
        hi.2.step hmax hc (schedulerStep_dag hstep hi.1)⟩)
      ⟨harmed.1, .of_armed harmed.2⟩ hc hr
  exact hinv.2

end Runs

-- ---------------------------------------------------------------------------
-- A run that ends while its DAG is paused
-- ---------------------------------------------------------------------------

def serialDag : Dag := { dailyDag with maxActiveRuns := 1 }

def serialStart : SchedulerState :=
  { dailyStart with db := { dailyStart.db with serializedDags := [serialDag] } }

/-- The DAG is paused while its only run is running, and its runs are looked at. -/
def pausedRun (updateState : DagRun → DagRunState) : List SchedulerLabel :=
  [.createDagRuns ["daily"] (4 * day), .startQueuedDagruns [("daily", "scheduled")] (4 * day),
    .setPaused "daily" true, .updatePausedDags updateState, .setPaused "daily" false]

theorem pausedRun_strands :
    1 ≤ serialDag.maxActiveRuns ∧ Armed serialStart.db serialDag ∧
      ∃ t, Machine.run schedulerStep serialStart (pausedRun fun _ => .success) = some t ∧
        (view t.db serialDag.dagId).Disarmed ∧ (view t.db serialDag.dagId).activeRuns = 0 :=
  ⟨by decide, ⟨by rfl, by rfl⟩, _, rfl, by decide, by decide⟩

/-- The run is still running behind the pause, and ends when the DAG is back. -/
theorem rearmable_run_paused :
    ∃ t, Machine.run schedulerStep serialStart ((pausedRun fun run => run.state) ++
        [.scheduleDagRun ("daily", "scheduled") (4 * day) ⟨.success, []⟩]) = some t ∧
      (view t.db serialDag.dagId).Rearmable := by
  have hc : Machine.Along schedulerStep (KeepsRearmable serialDag) serialStart
      ((pausedRun fun run => run.state) ++
        [.scheduleDagRun ("daily", "scheduled") (4 * day) ⟨.success, []⟩]) := by
    refine ⟨trivial, trivial, trivial, fun _ _ => ?_, trivial, trivial, trivial⟩
    exact ⟨_, List.mem_singleton_self _, rfl, fun _ _ => rfl⟩
  exact ⟨_, rfl, rearmable_run (by decide) ⟨by rfl, by rfl⟩ hc rfl⟩

end Beeflow.Scheduler
