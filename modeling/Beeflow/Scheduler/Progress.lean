import Beeflow.Scheduler.SchedulerLoop

/-!
# What a step of any party does

A pass takes task instances into execution. Every other step is `Progress`: it
leaves the limits alone, takes no task instance into execution, adds dag runs
that are queued, and moves the others on, from queued to running and from
running to the state `update_state` arrives at.
-/

namespace Beeflow.Airflow

/-- The columns that limit a DAG. -/
def DagModel.limits (m : DagModel) : String × Int × Bool :=
  (m.dagId, m.maxActiveTasks, m.hasTaskConcurrencyLimits)

end Beeflow.Airflow

namespace Beeflow.Scheduler

open Airflow Machine

-- ---------------------------------------------------------------------------
-- What a step does
-- ---------------------------------------------------------------------------

/-- `update_state` never queues a run. -/
def Decides (s : SchedulerState) : LoopLabel → Prop
  | .scheduler (.scheduleDagRun _ _ decision) => decision.state ≠ .queued
  | .scheduler (.updatePausedDags updateState) => ∀ run ∈ s.db.dagRuns, updateState run ≠ .queued
  | _ => True

instance (s : SchedulerState) : (l : LoopLabel) → Decidable (Decides s l)
  | .scheduler (.scheduleDagRun ..) => inferInstanceAs (Decidable (_ ≠ _))
  | .scheduler (.updatePausedDags _) => inferInstanceAs (Decidable (∀ run ∈ _, _))
  | .scheduler (.createDagRuns ..) | .scheduler (.startQueuedDagruns ..) | .scheduler .newJob
  | .scheduler (.setPaused ..) | .scheduler (.trigger ..) | .pass _ | .queue _ => .isTrue trivial

/-- What may become of the row of a dag run. -/
inductive RunMoves (settled decided : Prop) (db' : Database) (run : DagRun) : DagRun → Prop
  | stays : RunMoves settled decided db' run run
  | starts (hqueued : run.state = .queued) (now : Time) :
      RunMoves settled decided db' run (startRun now run)
  | moves (hrunning : run.state = .running) (state : DagRunState)
      (hidle : settled → state ≠ .running → Idle db' run.key)
      (hdecided : decided → state ≠ .queued) :
      RunMoves settled decided db' run { run with state := state }

/-- A step that takes no task instance into execution. -/
structure Progress (settled decided : Prop) (db db' : Database) : Prop where
  pools : db'.pools = db.pools
  dags : db'.serializedDags = db.serializedDags
  models : ∃ f : DagModel → DagModel, (∀ m, (f m).limits = m.limits) ∧
    db'.dagModels = db.dagModels.map f
  runs : ∃ (g : DagRun → DagRun) (new : List DagRun),
    (∀ run ∈ db.dagRuns, RunMoves settled decided db' run (g run)) ∧
      (∀ run ∈ new, run.state = .queued) ∧
      db'.dagRuns = db.dagRuns.map g ++ new
  running : ∀ dagId dag, db.getDag dagId = some dag → 0 < dag.maxActiveRuns →
    runningRuns db'.dagRuns dagId ≤ max (runningRuns db.dagRuns dagId) dag.maxActiveRuns
  rows : db'.taskInstances.rows.map charge = db.taskInstances.rows.map charge
  charges : ((db'.taskInstances.rows.filter (·.inExecution)).map charge).Sublist
    ((db.taskInstances.rows.filter (·.inExecution)).map charge)

section Steps

variable {settled decided : Prop} {db db' : Database} {s t : SchedulerState}

-- The task instances

theorem idle_of_charges {key : String × String}
    (hsub : ((db'.taskInstances.rows.filter (·.inExecution)).map charge).Sublist
      ((db.taskInstances.rows.filter (·.inExecution)).map charge))
    (h : Idle db key) : Idle db' key := by
  intro ti hti hkey
  by_contra hin
  have hmem := hsub.subset (List.mem_map_of_mem
    (List.mem_filter.mpr ⟨hti, by simpa using hin⟩))
  obtain ⟨ti', hti', hcharge⟩ := List.mem_map.mp hmem
  obtain ⟨hti', hin'⟩ := List.mem_filter.mp hti'
  have hkey' : ti'.key = ti.key := congrArg Prod.fst hcharge
  exact absurd hin' (by simp [h ti' hti' (hkey' ▸ hkey)])

-- The dag runs

theorem runningRuns_append (runs new : List DagRun) (hnew : ∀ run ∈ new, run.state = .queued)
    (dagId : String) : runningRuns (runs ++ new) dagId = runningRuns runs dagId := by
  have hnone : new.countP (fun run => run.state = .running && run.dagId = dagId) = 0 := by
    rw [List.countP_eq_zero]
    intro run hrun
    simp [hnew run hrun]
  rw [runningRuns_eq, runningRuns_eq, List.countP_append, hnone, Nat.add_zero]

theorem runningRuns_map {runs : List DagRun} {g : DagRun → DagRun}
    (hid : ∀ run, (g run).dagId = run.dagId)
    (hrunning : ∀ run ∈ runs, (g run).state = .running → run.state = .running) (dagId : String) :
    runningRuns (runs.map g) dagId ≤ runningRuns runs dagId := by
  rw [runningRuns_eq, runningRuns_eq, List.countP_map]
  refine List.countP_mono_left fun run hmem hrun => ?_
  simp only [Function.comp_apply, Bool.and_eq_true, decide_eq_true_eq, hid] at hrun ⊢
  exact ⟨hrunning run hmem hrun.1, hrun.2⟩

/-- A step that starts no run. -/
theorem Progress.of_rows {f : DagModel → DagModel} {g : DagRun → DagRun} (new : List DagRun)
    {tis : TaskTable} (hf : ∀ m, (f m).limits = m.limits)
    (hmoves : ∀ run ∈ db.dagRuns, RunMoves settled decided db' run (g run))
    (hid : ∀ run, (g run).dagId = run.dagId)
    (hrunning : ∀ run ∈ db.dagRuns, (g run).state = .running → run.state = .running)
    (hnew : ∀ run ∈ new, run.state = .queued)
    (hrows : tis.rows.map charge = db.taskInstances.rows.map charge)
    (hcharges : ((tis.rows.filter (·.inExecution)).map charge).Sublist
      ((db.taskInstances.rows.filter (·.inExecution)).map charge))
    (hdb : db' = { db with
      dagModels := db.dagModels.map f
      dagRuns := db.dagRuns.map g ++ new
      taskInstances := tis }) : Progress settled decided db db' := by
  subst hdb
  refine ⟨rfl, rfl, ⟨f, hf, rfl⟩, ⟨g, new, hmoves, hnew, rfl⟩, fun dagId dag _ _ => ?_, hrows,
    hcharges⟩
  rw [runningRuns_append _ _ hnew]
  exact (runningRuns_map hid hrunning dagId).trans (le_max_left _ _)

/-- A step that leaves the dag runs and the task instances alone. -/
theorem Progress.of_models {f : DagModel → DagModel} (hf : ∀ m, (f m).limits = m.limits)
    (new : List DagRun) (hnew : ∀ run ∈ new, run.state = .queued)
    (hdb : db' = { db with dagModels := db.dagModels.map f, dagRuns := db.dagRuns ++ new }) :
    Progress settled decided db db' := by
  refine .of_rows (g := id) new hf (fun run _ => .stays) (fun _ => rfl) (fun _ _ h => h) hnew rfl
    (List.Sublist.refl _) ?_
  rw [hdb, List.map_id]

theorem Progress.of_new {new : List DagRun} (hnew : ∀ run ∈ new, run.state = .queued) :
    Progress settled decided db { db with dagRuns := db.dagRuns ++ new } := by
  refine .of_models (f := id) (fun _ => rfl) new hnew ?_
  rw [List.map_id]

theorem settings_limits {f : DagModel → DagModel} (hf : ∀ m, (f m).settings = m.settings)
    (m : DagModel) : (f m).limits = m.limits :=
  congrArg (fun c : String × Bool × Bool × Int × Bool => (c.1, c.2.2.2)) (hf m)

theorem createDagRunsLoop_rows {existing : List (String × Time)} {ms : List DagModel}
    {active : String → Nat} (h : createDagRunsLoop existing ms db active = some db') :
    ∃ (f : DagModel → DagModel) (new : List DagRun), (∀ m, (f m).settings = m.settings) ∧
      (∀ run ∈ new, run.state = .queued) ∧
      db' = { db with dagModels := db.dagModels.map f, dagRuns := db.dagRuns ++ new } := by
  induction ms generalizing db active with
  | nil =>
    obtain rfl := Option.some.inj h
    exact ⟨id, [], fun _ => rfl, by simp, by rw [List.map_id, List.append_nil]⟩
  | cons m ms ih =>
    have hnext : ∀ (dag : Dag) (total : Nat) (interval : Int) (m : DagModel),
        (if m.dagId = dag.dagId then updateNextDagrun dag total interval m else m).settings =
          m.settings := by
      intro dag total interval m
      split_ifs
      · exact updateNextDagrun_settings ..
      · rfl
    unfold createDagRunsLoop at h
    split at h
    · exact ih h
    rename_i dag hdag
    split at h
    · cases h
    rename_i interval hinterval
    split_ifs at h
    · obtain ⟨f, new, hf, hnew, rfl⟩ := ih h
      refine ⟨fun m => f _, new, fun m => (hf _).trans (hnext dag (active dag.dagId) interval m),
        hnew, ?_⟩
      simp only [Database.updateDagModel, List.map_map, Function.comp_def]
    · obtain ⟨f, new, hf, hnew, rfl⟩ := ih h
      refine ⟨fun m => f _, scheduledRun dag interval :: new,
        fun m => (hf _).trans (hnext dag (Tally.bump active dag.dagId 1 dag.dagId) interval m),
        List.forall_mem_cons.mpr ⟨rfl, hnew⟩, ?_⟩
      simp only [Database.updateDagModel, List.map_map, Function.comp_def, List.append_assoc,
        List.singleton_append]

theorem startQueuedDagruns_progress (hu : UniqueRuns db) {keys : List (String × String)}
    {now : Time}
    (hkeys : keys.Nodup ∧ ∀ key ∈ keys, (db.dagRun key).any (toExamine db .queued now)) :
    Progress settled decided db (startQueuedDagruns db (keys.filterMap db.dagRun) now) := by
  obtain ⟨hnodup, hexamined⟩ := examined_runs hkeys
  have hqueued : ∀ run ∈ keys.filterMap db.dagRun, run ∈ db.dagRuns ∧ run.state = .queued := by
    intro run hrun
    obtain ⟨hrow, hexamine⟩ := hexamined run hrun
    simp only [toExamine, Bool.and_eq_true, decide_eq_true_eq] at hexamine
    exact ⟨((dagRun_eq_some hu).mp hrow).1, hexamine.1.1.1⟩
  have hstep : startStep db (.pass (keys.filterMap db.dagRun) now) =
      some (startQueuedDagruns db (keys.filterMap db.dagRun) now) := if_pos ⟨hnodup, hqueued⟩
  obtain ⟨started, hsub, hrows, -⟩ :=
    startQueuedDagruns_startsFirst db (keys.filterMap db.dagRun) now
  have hmoves : ∀ run ∈ db.dagRuns, RunMoves settled decided
      (startQueuedDagruns db (keys.filterMap db.dagRun) now) run
      (if run.key ∈ started.map (·.key) then startRun now run else run) := by
    intro run hrun
    split_ifs with hmem
    · obtain ⟨run', hrun', hkey⟩ := List.mem_map.mp hmem
      obtain ⟨hrow, hstate⟩ := hqueued run' (hsub.subset hrun')
      have hsame : run' = run := List.inj_on_of_nodup_map hu hrow hrun hkey
      exact .starts (hsame ▸ hstate) now
    · exact .stays
  refine ⟨by rw [hrows]; rfl, by rw [hrows]; rfl,
    ⟨id, fun _ => rfl, by rw [hrows, List.map_id]; rfl⟩,
    ⟨_, [], hmoves, by simp, by rw [hrows, List.append_nil]; rfl⟩, ?_, by rw [hrows]; rfl,
    by rw [hrows]; exact List.Sublist.refl _⟩
  intro dagId dag hdag hlimit
  exact startStep_running hu hstep hdag hlimit

theorem unfinished_of_inExecution {ti : TaskInstance} (h : ti.inExecution) :
    ti.state.any (·.unfinished) := by
  unfold TaskInstance.inExecution at h
  cases hst : ti.state with
  | none => simp [hst] at h
  | some st =>
    rw [hst] at h
    cases st <;> first | rfl | contradiction

theorem idle_skipped (db : Database) (run : DagRun) :
    Idle (setTaskState db (fun ti => ti.dagId = run.dagId && ti.key.runId = run.runId &&
      ti.state.any (·.unfinished)) .skipped) run.key := by
  intro ti' hti' hkey
  obtain ⟨ti, hti, rfl⟩ := List.mem_map.mp hti'
  split_ifs at hkey ⊢ with hp
  · rfl
  · by_contra hin
    have hunfinished := unfinished_of_inExecution (by simpa using hin)
    have hdag : ti.dagId = run.dagId := congrArg Prod.fst hkey
    have hrun : ti.key.runId = run.runId := congrArg Prod.snd hkey
    simp [hunfinished, hdag, hrun] at hp

theorem scheduleDagRun_progress (hu : UniqueRuns db) {run : DagRun} {now : Time}
    {decision : Decision} (hrow : db.dagRun run.key = some run) (hrunning : run.state = .running)
    (hsettled : settled → decision.state ≠ .running → Idle db run.key)
    (hdecided : decided → decision.state ≠ .queued) :
    Progress settled decided db (scheduleDagRun db run now decision) := by
  have hsame : ∀ r ∈ db.dagRuns, r.key = run.key → r.state = .running := by
    intro r hr hkey
    obtain rfl := List.inj_on_of_nodup_map hu hr ((dagRun_eq_some hu).mp hrow).1 hkey
    exact hrunning
  have hfollow : ∀ (db' : Database) (state : DagRunState),
      (settled → state ≠ .running → Idle db' run.key) → (decided → state ≠ .queued) →
        ∀ r ∈ db.dagRuns, RunMoves settled decided db' r
          (if r.key = run.key then { r with state := state } else r) := by
    intro db' state hidle hmay r hr
    split_ifs with hkey
    · exact .moves (hsame r hr hkey) state (hkey ▸ hidle) hmay
    · exact .stays
  have hid : ∀ (state : DagRunState) (r : DagRun),
      (if r.key = run.key then { r with state := state } else r).dagId = r.dagId := by
    intro state r
    split_ifs <;> rfl
  have hstate : ∀ (state : DagRunState), ∀ r ∈ db.dagRuns,
      (if r.key = run.key then { r with state := state } else r).state = .running →
        r.state = .running := by
    intro state r hr h
    split_ifs at h with hkey
    · exact hsame r hr hkey
    · exact h
  rcases scheduleDagRun_cases db run now decision with h | ⟨f, hf, h | h⟩
  · rw [h]
    exact .of_models (f := id) (fun _ => rfl) [] (by simp)
      (by rw [List.map_id, List.append_nil])
  · rw [h]
    exact .of_rows [] (settings_limits hf)
      (hfollow _ .failed (fun _ _ => idle_skipped db run) fun _ => by decide) (hid .failed)
      (hstate .failed) (by simp)
      (writeRows_charge _ _ (some .skipped)) (writeRows_charges fun _ _ _ hin => nomatch hin)
      (by rw [List.append_nil]; rfl)
  · have hcharges : (((writeRows db.taskInstances (·.key ∈ decision.schedulableTis)
        (some .scheduled)).rows.filter (·.inExecution)).map charge).Sublist
        ((db.taskInstances.rows.filter (·.inExecution)).map charge) :=
      writeRows_charges fun _ _ _ hin => nomatch hin
    rw [h]
    exact .of_rows [] (settings_limits hf)
      (hfollow _ decision.state (fun hs hne => idle_of_charges hcharges (hsettled hs hne)) hdecided)
      (hid decision.state) (hstate decision.state) (by simp) (writeRows_charge _ _ _) hcharges
      (by rw [List.append_nil]; rfl)

/-- The body of the loop over the paused DAGs. -/
theorem updatePaused_progress (ids : List String) (updateState : DagRun → DagRunState)
    (hsettled : settled → ∀ run ∈ db.dagRuns, run.state = .running → updateState run ≠ .running →
      Idle db run.key) (hdecided : decided → ∀ run ∈ db.dagRuns, updateState run ≠ .queued) :
    Progress settled decided db { db with dagRuns := db.dagRuns.map fun run =>
      if run.dagId ∈ ids ∧ run.state = .running ∧ run.runType ≠ .backfillJob then
        { run with state := updateState run }
      else run } := by
  refine .of_rows (f := id) [] (fun _ => rfl) (fun run hrun => ?_) (fun run => ?_)
    (fun run hrun hstate => ?_) (by simp) rfl (List.Sublist.refl _)
    (by rw [List.append_nil, List.map_id])
  · split_ifs with hlooked
    · exact .moves hlooked.2.1 _ (fun hs => hsettled hs run hrun hlooked.2.1)
        fun hd => hdecided hd run hrun
    · exact .stays
  · split_ifs <;> rfl
  · split_ifs at hstate with hlooked
    · exact hlooked.2.1
    · exact hstate

theorem write_progress {key : TaskInstanceKey} {state : Option TaskInstanceState}
    (hstays : ¬EntersExecution db.taskInstances key state) :
    Progress settled decided db
      { db with taskInstances := writeState db.taskInstances key state } :=
  .of_rows (f := id) (g := id) [] (fun _ => rfl) (fun run _ => .stays) (fun _ => rfl)
    (fun _ _ h => h) (by simp) (writeRows_charge _ _ state) (writeState_charges hstays)
    (by rw [List.append_nil, List.map_id, List.map_id]; rfl)

theorem schedulerStep_progress {l : SchedulerLabel} (hu : UniqueRuns s.db)
    (h : schedulerStep s l = some t) :
    Progress (Settles s (.scheduler l)) (Decides s (.scheduler l)) s.db t.db := by
  cases l with
  | createDagRuns dagIds now =>
    simp only [schedulerStep] at h
    split_ifs at h
    obtain ⟨db, hdb, rfl⟩ := Option.map_eq_some_iff.mp h
    obtain ⟨f, new, hf, hnew, rfl⟩ := createDagRunsLoop_rows hdb
    exact .of_models (settings_limits hf) new hnew rfl
  | startQueuedDagruns keys now =>
    simp only [schedulerStep] at h
    split_ifs at h with hkeys
    obtain rfl := Option.some.inj h
    exact startQueuedDagruns_progress hu hkeys
  | scheduleDagRun key now decision =>
    simp only [schedulerStep] at h
    split at h
    · rename_i run hrow
      split_ifs at h with hexamine
      obtain rfl := Option.some.inj h
      simp only [toExamine, Bool.and_eq_true, decide_eq_true_eq] at hexamine
      obtain ⟨-, rfl⟩ := (dagRun_eq_some hu).mp hrow
      exact scheduleDagRun_progress hu hrow hexamine.1.1.1 id id
    · cases h
  | updatePausedDags updateState =>
    obtain rfl := Option.some.inj h
    exact updatePaused_progress _ updateState id id
  | newJob =>
    obtain rfl := Option.some.inj h
    exact .of_models (f := id) (fun _ => rfl) [] (by simp) (by rw [List.map_id, List.append_nil])
  | setPaused dagId isPaused =>
    obtain rfl := Option.some.inj h
    refine .of_models (f := fun m => if m.dagId = dagId then { m with isPaused := isPaused } else m)
      (fun m => ?_) [] (by simp) (by rw [List.append_nil]; rfl)
    split_ifs <;> rfl
  | trigger dagId runId executionDate interval =>
    simp only [schedulerStep] at h
    split at h
    · split_ifs at h
      obtain rfl := Option.some.inj h
      exact .of_new (by simp [manualRun])
    · cases h

/-- A step is a pass, or it is progress. -/
theorem loopStep_cases {l : LoopLabel} (hu : UniqueRuns s.db) (h : loopStep s l = some t) :
    (∃ maxTis jobId now tis, l = .pass (.pass maxTis jobId now) ∧
        executableTaskInstancesToQueued s.db maxTis jobId now = some (tis, t.db)) ∨
      Progress (Settles s l) (Decides s l) s.db t.db := by
  cases l with
  | scheduler l =>
    obtain ⟨u, hstep, h⟩ := Option.bind_eq_some_iff.mp h
    obtain ⟨db, hdb, rfl⟩ := Option.map_eq_some_iff.mp h
    obtain ⟨-, rfl⟩ := commit_eq_some.mp hdb
    exact .inr (schedulerStep_progress hu hstep)
  | pass l =>
    obtain ⟨db, hdb, rfl⟩ := Option.map_eq_some_iff.mp h
    cases l with
    | pass maxTis jobId now =>
      obtain ⟨⟨tis, db₁⟩, hpass, rfl⟩ := Option.map_eq_some_iff.mp hdb
      exact .inl ⟨maxTis, jobId, now, tis, rfl, hpass⟩
    | write key state =>
      obtain ⟨hstays, rfl⟩ := write_cases hdb
      exact .inr (write_progress hstays)
  | queue run =>
    simp only [loopStep] at h
    split_ifs at h with hqueued
    obtain ⟨db, hdb, rfl⟩ := Option.map_eq_some_iff.mp h
    obtain ⟨-, rfl⟩ := commit_eq_some.mp hdb
    exact .inr (.of_new (by simpa using hqueued))

end Steps

end Beeflow.Scheduler
