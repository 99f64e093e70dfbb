import Beeflow.Scheduler.Rearm
import Beeflow.Scheduler.Starting

/-!
# Creating each run once

`_create_dag_runs` creates the run of a DAG's next interval unless a run has
its date already, and then moves the DAG on to the interval behind it or, at
`max_active_runs`, takes it off the DAGs that are due. So no date gets a second
run, and a DAG comes back for the same interval only after one of its runs
ended, which puts `next_dagrun` behind that run's interval.
-/

namespace Beeflow.Scheduler

open Airflow

-- ---------------------------------------------------------------------------
-- The dates of the runs
-- ---------------------------------------------------------------------------

def runDates (db : Database) : List (String × Time) :=
  db.dagRuns.map fun run => (run.dagId, run.executionDate)

/-- What is added differs from what was there, and from each other. -/
def AddsFresh (before after : List (String × Time)) : Prop :=
  ∃ added, after = before ++ added ∧ added.Nodup ∧ ∀ date ∈ added, date ∉ before

theorem AddsFresh.refl (dates : List (String × Time)) : AddsFresh dates dates :=
  ⟨[], (List.append_nil _).symm, List.nodup_nil, by simp⟩

theorem AddsFresh.trans {a b c : List (String × Time)} (hab : AddsFresh a b)
    (hbc : AddsFresh b c) : AddsFresh a c := by
  obtain ⟨added, rfl, hnodup, hfresh⟩ := hab
  obtain ⟨added', rfl, hnodup', hfresh'⟩ := hbc
  refine ⟨added ++ added', List.append_assoc .., ?_, ?_⟩
  · refine List.nodup_append.mpr ⟨hnodup, hnodup', ?_⟩
    rintro date hdate _ hdate' rfl
    exact hfresh' date hdate' (List.mem_append_right _ hdate)
  · intro date hdate
    rcases List.mem_append.mp hdate with hdate | hdate
    · exact hfresh date hdate
    · exact fun hin => hfresh' date hdate (List.mem_append_left _ hin)

theorem AddsFresh.nodup {a b : List (String × Time)} (h : AddsFresh a b) (ha : a.Nodup) :
    b.Nodup := by
  obtain ⟨added, rfl, hnodup, hfresh⟩ := h
  refine List.nodup_append.mpr ⟨ha, hnodup, ?_⟩
  rintro date hdate _ hdate' rfl
  exact hfresh date hdate' hdate

theorem runDates_map (db : Database) {f : DagRun → DagRun}
    (hf : ∀ run, (f run).dagId = run.dagId ∧ (f run).executionDate = run.executionDate) :
    runDates { db with dagRuns := db.dagRuns.map f } = runDates db := by
  rw [runDates, List.map_map]
  refine List.map_congr_left fun run _ => ?_
  rw [Function.comp_apply, (hf run).1, (hf run).2]

theorem runDates_updateDagRun (db : Database) (key : String × String) {f : DagRun → DagRun}
    (hf : ∀ run, (f run).dagId = run.dagId ∧ (f run).executionDate = run.executionDate) :
    runDates (db.updateDagRun key f) = runDates db := by
  refine runDates_map db fun run => ?_
  split_ifs
  · exact hf run
  · exact ⟨rfl, rfl⟩

section Create

variable {existing : List (String × Time)} {ms : List DagModel} {db db' : Database}
  {active : String → Nat}

/-- A pass adds dates that it did not find before the loop, one at most for each DAG. -/
theorem createDagRunsLoop_dates (h : createDagRunsLoop existing ms db active = some db')
    (hnodup : (ms.map (·.dagId)).Nodup) :
    ∃ added, runDates db' = runDates db ++ added ∧ added.Nodup ∧
      ∀ date ∈ added, date ∉ existing ∧ date.1 ∈ ms.map (·.dagId) := by
  induction ms generalizing db active with
  | nil =>
    obtain rfl := Option.some.inj h
    exact ⟨[], (List.append_nil _).symm, List.nodup_nil, by simp⟩
  | cons m ms ih =>
    obtain ⟨hm, hnodup⟩ := List.nodup_cons.mp hnodup
    have hlater {db₁ : Database} {active₁ : String → Nat}
        (h : createDagRunsLoop existing ms db₁ active₁ = some db')
        (hdates : runDates db₁ = runDates db) :
        ∃ added, runDates db' = runDates db ++ added ∧ added.Nodup ∧
          ∀ date ∈ added, date ∉ existing ∧ date.1 ∈ (m :: ms).map (·.dagId) := by
      obtain ⟨added, hadded, hnodup, hfresh⟩ := ih h hnodup
      exact ⟨added, hdates ▸ hadded, hnodup, fun date hdate =>
        ⟨(hfresh date hdate).1, List.mem_cons_of_mem _ (hfresh date hdate).2⟩⟩
    unfold createDagRunsLoop at h
    split at h
    · exact hlater h rfl
    rename_i dag hdag
    have hid : dag.dagId = m.dagId := getDag_dagId hdag
    split at h
    · cases h
    rename_i interval hnext
    split_ifs at h with hmem
    · exact hlater h rfl
    · obtain ⟨added, hadded, hnodup, hfresh⟩ := ih h hnodup
      refine ⟨(dag.dagId, dag.timetable.boundary interval) :: added, ?_, ?_, ?_⟩
      · rw [hadded]
        simp [runDates, Database.updateDagModel, scheduledRun]
      · refine List.nodup_cons.mpr ⟨fun hin => hm ?_, hnodup⟩
        have hin := (hfresh _ hin).2
        rwa [hid] at hin
      · intro date hdate
        rcases List.mem_cons.mp hdate with rfl | hdate
        · exact ⟨hmem, List.mem_cons.mpr (.inl hid)⟩
        · exact ⟨(hfresh date hdate).1, List.mem_cons_of_mem _ (hfresh date hdate).2⟩

/-- A pass that ends met no DAG without a next interval. -/
theorem createDagRunsLoop_next (h : createDagRunsLoop existing ms db active = some db')
    {m : DagModel} (hm : m ∈ ms) {dag : Dag} (hdag : db.getDag m.dagId = some dag) :
    m.nextDagrun.isSome := by
  induction ms generalizing db active with
  | nil => exact nomatch hm
  | cons m' ms ih =>
    obtain ⟨db₁, active₁, h₁, hdags, -, -⟩ := createDagRunsLoop_cons h
    rcases List.mem_cons.mp hm with rfl | hm
    · unfold createDagRunsLoop at h
      simp only [hdag] at h
      cases hnext : m.nextDagrun with
      | none => simp [hnext] at h
      | some interval => rfl
    · refine ih h₁ hm ?_
      rw [Database.getDag, hdags]
      exact hdag

end Create

section Dates

variable {db : Database} {s t : SchedulerState} {l : SchedulerLabel}

theorem createDagRuns_dates {dagIds : List String} {now : Time} {db' : Database}
    (hnodup : dagIds.Nodup)
    (hneeds : ∀ dagId ∈ dagIds, (db.dagModel dagId).any (needsDagrun · now))
    (h : createDagRuns db (dagIds.filterMap db.dagModel) = some db') :
    AddsFresh (runDates db) (runDates db') := by
  have hids := filterMap_dagModel_dagId fun dagId hd => dagModel_isSome (hneeds dagId hd)
  obtain ⟨added, hadded, hnodup, hfresh⟩ := createDagRunsLoop_dates h (by rwa [hids])
  exact ⟨added, hadded, hnodup, fun date hdate => (hfresh date hdate).1⟩

theorem scheduleDagRun_dates (run : DagRun) (now : Time) (decision : Decision) :
    runDates (scheduleDagRun db run now decision) = runDates db := by
  have hstate : ∀ state, runDates (setRunState db run state) = runDates db := fun _ =>
    runDates_updateDagRun db run.key fun _ => ⟨rfl, rfl⟩
  unfold scheduleDagRun
  split
  · rfl
  split_ifs
  · exact hstate .failed
  · rfl
  · exact hstate decision.state
  · exact hstate decision.state

theorem unused_dates {run : DagRun} (h : unused db run = true) :
    (run.dagId, run.executionDate) ∉ runDates db := by
  intro hin
  obtain ⟨other, hother, he⟩ := List.mem_map.mp hin
  have hunused := List.all_eq_true.mp h other hother
  simp_all

theorem schedulerStep_dates (h : schedulerStep s l = some t) :
    AddsFresh (runDates s.db) (runDates t.db) := by
  have hkeeps {db : Database} (he : runDates db = runDates s.db) :
      AddsFresh (runDates s.db) (runDates db) := he ▸ .refl _
  cases l with
  | createDagRuns dagIds now =>
    simp only [schedulerStep] at h
    split_ifs at h with hguard
    obtain ⟨db, hdb, rfl⟩ := Option.map_eq_some_iff.mp h
    exact createDagRuns_dates hguard.1 hguard.2 hdb
  | startQueuedDagruns keys now =>
    simp only [schedulerStep] at h
    split_ifs at h
    obtain rfl := Option.some.inj h
    refine hkeeps ?_
    rw [startQueuedDagruns, startQueuedDagrunsLoop_eq]
    refine runDates_map s.db fun run => ?_
    split_ifs <;> exact ⟨rfl, rfl⟩
  | scheduleDagRun key now decision =>
    simp only [schedulerStep] at h
    split at h
    · split_ifs at h
      obtain rfl := Option.some.inj h
      exact hkeeps (scheduleDagRun_dates _ now decision)
    · cases h
  | updatePausedDags updateState =>
    obtain rfl := Option.some.inj h
    refine hkeeps (runDates_map s.db fun run => ?_)
    split_ifs <;> exact ⟨rfl, rfl⟩
  | newJob | setPaused =>
    obtain rfl := Option.some.inj h
    exact hkeeps rfl
  | trigger dagId runId executionDate interval =>
    simp only [schedulerStep] at h
    split at h
    · split_ifs at h with hguard
      obtain rfl := Option.some.inj h
      refine ⟨[(dagId, executionDate)], by simp [runDates, manualRun], List.nodup_singleton _, ?_⟩
      intro date hdate
      obtain rfl := List.mem_singleton.mp hdate
      exact unused_dates hguard.2
    · cases h

end Dates

-- ---------------------------------------------------------------------------
-- The interval that is due
-- ---------------------------------------------------------------------------

namespace DagView

/-- A pass would create the run of the interval. -/
def Due (v : DagView) (interval : Int) : Prop :=
  ∃ dagModel now, v.dagModel = some dagModel ∧ dagModel.nextDagrun = some interval ∧
    needsDagrun dagModel now = true

/-- `next_dagrun` is behind the interval, or no pass takes the DAG up. -/
def MovedOn (v : DagView) (interval : Int) : Prop :=
  v.nextDagrunCreateAfter = none ∨ ∃ next, v.nextDagrun = some next ∧ interval < next

variable {v : DagView} {dag : Dag} {interval : Int}

theorem MovedOn.not_due (h : v.MovedOn interval) : ¬ v.Due interval := by
  rintro ⟨m, now, hm, hnext, hneeds⟩
  rcases h with hnone | ⟨next, hlater, hlt⟩
  · have hnone : m.nextDagrunCreateAfter = none := by simpa [nextDagrunCreateAfter, hm] using hnone
    simp [needsDagrun, hnone] at hneeds
  · have he : some interval = some next := by simpa [nextDagrun, hm, hnext] using hlater
    exact absurd (Option.some.inj he) (Int.ne_of_lt hlt)

theorem movedOn_update (dagModel : Option DagModel) (runs : List DagRun) (total : Nat)
    {ended : Int} (h : interval ≤ ended) :
    (DagView.mk (dagModel.map (updateNextDagrun dag total ended)) runs).MovedOn interval := by
  cases dagModel with
  | none => exact .inl rfl
  | some m =>
    rcases Nat.lt_or_ge total dag.maxActiveRuns with hfree | hfull
    · simp only [Option.map_some, updateNextDagrun_free hfree, calculateDagrunDateFields]
      split_ifs
      · exact .inl rfl
      · exact .inr ⟨ended + 1, rfl, by omega⟩
    · simp only [Option.map_some, updateNextDagrun_full hfull]
      exact .inl rfl

theorem MovedOn.mono {v' : DagView} (h : v.MovedOn interval)
    (hnext : v'.nextDagrun = v.nextDagrun)
    (hcreate : v'.nextDagrunCreateAfter = v.nextDagrunCreateAfter) : v'.MovedOn interval := by
  rwa [MovedOn, hnext, hcreate]

theorem movedOn_created {next : Int} (hnext : v.nextDagrun = some next) (hle : interval ≤ next) :
    (v.created dag).MovedOn interval := by
  obtain ⟨m, hm, hmnext⟩ := Option.bind_eq_some_iff.mp hnext
  simp only [DagView.created, hm, hmnext]
  exact movedOn_update (some m) _ _ hle

end DagView

/-- No run of the DAG ends whose interval lies before `interval`. -/
def NoEarlierEnd (dag : Dag) (interval : Int) (s : SchedulerState) : SchedulerLabel → Prop
  | .scheduleDagRun key now decision =>
    ∀ run, s.db.dagRun key = some run → run.dagId = dag.dagId →
      (arrives dag run now decision).any (·.finished) → interval ≤ run.dataInterval
  | _ => True

section Due

variable {s t : SchedulerState} {l : SchedulerLabel} {dag : Dag} {interval : Int}

theorem createDagRuns_guard {dagIds : List String} {now : Time}
    (h : schedulerStep s (.createDagRuns dagIds now) = some t) :
    dagIds.Nodup ∧ (∀ dagId ∈ dagIds, (s.db.dagModel dagId).any (needsDagrun · now)) ∧
      createDagRuns s.db (dagIds.filterMap s.db.dagModel) = some t.db := by
  simp only [schedulerStep] at h
  split_ifs at h with hguard
  obtain ⟨db, hdb, rfl⟩ := Option.map_eq_some_iff.mp h
  exact ⟨hguard.1, hguard.2, hdb⟩

theorem needsDagrun_createAfter {dagModel : Option DagModel} {now : Time}
    (runs : List DagRun) (h : dagModel.any (needsDagrun · now)) :
    (DagView.mk dagModel runs).nextDagrunCreateAfter.isSome := by
  obtain ⟨m, rfl, hneeds⟩ := (Option.any_eq_true _ _).mp h
  simp only [needsDagrun, Bool.and_eq_true] at hneeds
  obtain ⟨time, htime, -⟩ := (Option.any_eq_true _ _).mp hneeds.2
  simp [DagView.nextDagrunCreateAfter, htime]

/-- A pass moves on each DAG it processes. -/
theorem createDagRuns_movedOn {dagIds : List String} {now : Time}
    (h : schedulerStep s (.createDagRuns dagIds now) = some t)
    (hdag : s.db.getDag dag.dagId = some dag) (hmem : dag.dagId ∈ dagIds) :
    ∃ next, (view s.db dag.dagId).nextDagrun = some next ∧ (view t.db dag.dagId).MovedOn next := by
  obtain ⟨hnodup, hneeds, hdb⟩ := createDagRuns_guard h
  obtain ⟨m, hm⟩ := Option.isSome_iff_exists.mp (dagModel_isSome (hneeds dag.dagId hmem))
  have hnext : m.nextDagrun.isSome :=
    createDagRunsLoop_next hdb (List.mem_filterMap.mpr ⟨_, hmem, hm⟩)
      ((dagModel_dagId hm).symm ▸ hdag)
  obtain ⟨next, hnext⟩ := Option.isSome_iff_exists.mp hnext
  have hview : (view s.db dag.dagId).nextDagrun = some next := by
    simp [DagView.nextDagrun, view, hm, hnext]
  refine ⟨next, hview, ?_⟩
  rw [createDagRuns_self hnodup hneeds hdag hmem hdb]
  exact DagView.movedOn_created hview (Int.le_refl next)

theorem DagView.MovedOn.step (h : (view s.db dag.dagId).MovedOn interval)
    (hc : NoEarlierEnd dag interval s l) (hs : schedulerStep s l = some t)
    (hdag : s.db.getDag dag.dagId = some dag) : (view t.db dag.dagId).MovedOn interval := by
  have hstep := schedulerStep_dag hs hdag
  generalize view t.db dag.dagId = v' at hstep ⊢
  cases hstep with
  | other => exact h
  | created hid =>
    obtain ⟨next, hnext, -⟩ := createDagRuns_movedOn hs hdag hid
    have hcreate := needsDagrun_createAfter (view s.db dag.dagId).runs
      ((createDagRuns_guard hs).2.1 dag.dagId hid)
    rcases h with hnone | ⟨next', hnext', hlt⟩
    · exact absurd hcreate (by simp only [view] at hnone; simp [hnone, view])
    · obtain rfl := Option.some.inj (hnext.symm.trans hnext')
      exact movedOn_created hnext (Int.le_of_lt hlt)
  | started hf => exact h.mono rfl rfl
  | @arrived key now decision run hkey hid =>
    have hends := hc run hkey hid
    cases hstate : arrives dag run now decision with
    | none => exact h
    | some state =>
      unfold DagView.arrived
      dsimp only
      split_ifs with hfin
      · exact movedOn_update _ _ _ (hends (by simp [hstate, hfin]))
      · exact h.mono rfl rfl
  | paused => exact h.mono rfl rfl
  | setPaused isPaused =>
    refine h.mono ?_ ?_
    · rw [DagView.nextDagrun, Option.bind_map]
      rfl
    · rw [DagView.nextDagrunCreateAfter, Option.bind_map]
      rfl
  | triggered => exact h.mono rfl rfl

end Due

-- ---------------------------------------------------------------------------
-- Whole runs
-- ---------------------------------------------------------------------------

/-- The pass moved the DAG on from its interval, which is not due again before
a run of an earlier interval ends. -/
def MovesOn (dag : Dag) (s t : SchedulerState) : Prop :=
  ∃ interval, (view s.db dag.dagId).nextDagrun = some interval ∧
    (view t.db dag.dagId).MovedOn interval ∧
    ∀ ls u, Machine.run schedulerStep t ls = some u →
      Machine.Along schedulerStep (NoEarlierEnd dag interval) t ls →
      ¬ (view u.db dag.dagId).Due interval

section Runs

variable {s t u : SchedulerState} {ls : List SchedulerLabel} {dag : Dag} {interval : Int}

theorem movedOn_run (h : (view s.db dag.dagId).MovedOn interval)
    (hdag : s.db.getDag dag.dagId = some dag)
    (hc : Machine.Along schedulerStep (NoEarlierEnd dag interval) s ls)
    (hr : Machine.run schedulerStep s ls = some t) : (view t.db dag.dagId).MovedOn interval := by
  have hinv : t.db.getDag dag.dagId = some dag ∧ (view t.db dag.dagId).MovedOn interval :=
    Machine.run_invariant
      (I := fun s => s.db.getDag dag.dagId = some dag ∧ (view s.db dag.dagId).MovedOn interval)
      (fun _ _ _ hi hc hstep => ⟨schedulerStep_getDag hstep hi.1, hi.2.step hc hstep hi.1⟩)
      ⟨hdag, h⟩ hc hr
  exact hinv.2

theorem createDagRuns_movesOn {dagIds : List String} {now : Time}
    (h : schedulerStep s (.createDagRuns dagIds now) = some t)
    (hdag : s.db.getDag dag.dagId = some dag) (hmem : dag.dagId ∈ dagIds) : MovesOn dag s t := by
  obtain ⟨interval, hnext, hmoved⟩ := createDagRuns_movedOn h hdag hmem
  refine ⟨interval, hnext, hmoved, fun ls u hr hc => ?_⟩
  exact (movedOn_run hmoved (schedulerStep_getDag h hdag) hc hr).not_due

theorem runDates_run (hr : Machine.run schedulerStep s ls = some t) :
    AddsFresh (runDates s.db) (runDates t.db) :=
  Machine.run_invariant_all (I := fun u => AddsFresh (runDates s.db) (runDates u.db))
    (fun _ _ _ hi hstep => hi.trans (schedulerStep_dates hstep)) (.refl _) hr

/-- From any runs on no date gets a second run, and every pass moves on each DAG it processes. -/
theorem createDagRuns_once (hr : Machine.run schedulerStep s ls = some t) :
    AddsFresh (runDates s.db) (runDates t.db) ∧
      ∀ dagIds now u, schedulerStep t (.createDagRuns dagIds now) = some u →
        AddsFresh (runDates t.db) (runDates u.db) ∧
          ∀ dag, t.db.getDag dag.dagId = some dag → dag.dagId ∈ dagIds → MovesOn dag t u :=
  ⟨runDates_run hr, fun _ _ _ h =>
    ⟨schedulerStep_dates h, fun _ hdag hmem => createDagRuns_movesOn h hdag hmem⟩⟩

end Runs

/-- The run of the first interval is there already, as after a pass that died. -/
def diedBefore : SchedulerState :=
  { dailyStart with db := { dailyStart.db with dagRuns := [scheduledRun dailyDag 0] } }

theorem createDagRuns_once_daily :
    ∃ t u, Machine.run schedulerStep diedBefore [.newJob] = some t ∧
      schedulerStep t (.createDagRuns ["daily"] day) = some u ∧
      AddsFresh (runDates t.db) (runDates u.db) ∧ MovesOn dailyDag t u ∧
      runDates u.db = [("daily", 0)] ∧ (view u.db "daily").nextDagrun = some 1 := by
  have hpass := (@createDagRuns_once diedBefore _ [.newJob] rfl).2
    ["daily"] day _ rfl
  exact ⟨_, _, rfl, rfl, hpass.1, hpass.2 dailyDag rfl (List.mem_singleton_self _), rfl, rfl⟩

/-- A DAG with two runs at most: one is running, and the next is due. -/
def twoRuns : SchedulerState where
  db := {
    pools := []
    dagModels := [{
      dagId := "daily", isPaused := false, isActive := true, hasImportErrors := false
      fileloc := some "daily.py", processorSubdir := none
      maxActiveTasks := 16, hasTaskConcurrencyLimits := false
      nextDagrun := some 1, nextDagrunCreateAfter := some (2 * day) }]
    dagRuns := [{ scheduledRun dailyDag 0 with runId := "first", state := .running }]
    serializedDags := [{ dailyDag with maxActiveRuns := 2 }]
    taskInstances := ⟨[], List.nodup_nil⟩ }
  withoutRunningDagruns := []

/-- The pass creates the second run and disarms the DAG; when the first run ends, the
interval of the second is due again. -/
theorem createDagRuns_due_again :
    ∃ t u, schedulerStep twoRuns (.createDagRuns ["daily"] (2 * day)) = some t ∧
      schedulerStep t (.scheduleDagRun ("daily", "first") (2 * day) ⟨.success, []⟩) = some u ∧
      (view twoRuns.db "daily").nextDagrun = some 1 ∧ (view u.db "daily").Due 1 :=
  ⟨_, _, rfl, rfl, rfl, _, 3 * day, rfl, rfl, by decide⟩

end Beeflow.Scheduler
