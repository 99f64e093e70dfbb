import Beeflow.Scheduler.DagSteps

/-!
# Data intervals

`next_dagrun` is written when a run is created and when one ends. Creating and
ending scheduled runs leaves no interval behind it without a run. Two things
can: a manual run that ends while intervals are pending, and a manual run whose
execution date is the start of the interval that is next.
-/

namespace Beeflow.Scheduler

open Airflow

namespace DagView

def nextDagrun (v : DagView) : Option Int := v.dagModel.bind (·.nextDagrun)

def HasRun (v : DagView) (interval : Int) : Prop := ∃ run ∈ v.runs, run.dataInterval = interval

instance (v : DagView) (interval : Int) : Decidable (v.HasRun interval) :=
  inferInstanceAs (Decidable (∃ run ∈ v.runs, _))

def othersActive (v : DagView) (key : String × String) : Nat :=
  v.runs.countP fun run => run.state.active && run.key ≠ key

/-- From the DAG's first interval up to `next_dagrun`, each has a run. -/
def NoIntervalSkipped (v : DagView) (first : Int) : Prop :=
  ∀ next, v.nextDagrun = some next → ∀ k, first ≤ k → k < next → v.HasRun k

/-- Manual runs apart, nothing lies before a run either. -/
structure Contiguous (v : DagView) (first : Int) : Prop where
  hasNext : v.nextDagrun.isSome
  upToNext : v.NoIntervalSkipped first
  upToRun : ∀ run ∈ v.runs, run.runType ≠ .manual →
    ∀ k, first ≤ k → k ≤ run.dataInterval → v.HasRun k

end DagView

/-- If `next_dagrun` moves on: no run took the date of the interval it moves on from,
unless as that interval's run; and no manual run moves it over an interval without a run. -/
def KeepsIntervals (dag : Dag) (first : Int) (s : SchedulerState) : SchedulerLabel → Prop
  | .createDagRuns dagIds _ =>
    let v := view s.db dag.dagId
    ∀ next, dag.dagId ∈ dagIds → v.nextDagrun = some next → first ≤ next →
      v.activeRuns < dag.maxActiveRuns →
      dag.timetable.boundary next ∈ v.runs.map (·.executionDate) → v.HasRun next
  | .scheduleDagRun key now decision =>
    let v := view s.db dag.dagId
    ∀ run next, s.db.dagRun key = some run → run.dagId = dag.dagId → run.runType = .manual →
      (arrives dag run now decision).any (·.finished) →
      v.othersActive run.key < dag.maxActiveRuns → v.nextDagrun = some next →
      ∀ k, first ≤ k → next ≤ k → k < run.dataInterval → v.HasRun k
  | _ => True

-- ---------------------------------------------------------------------------
-- Where next_dagrun goes
-- ---------------------------------------------------------------------------

section NextDagrun

variable {dag : Dag} {v : DagView} {m : DagModel} {total : Nat} {interval : Int}

theorem updateNextDagrun_full (h : dag.maxActiveRuns ≤ total) :
    updateNextDagrun dag total interval m = { m with nextDagrunCreateAfter := none } := by
  simp [updateNextDagrun, shouldUpdateDagNextDagruns, h]

theorem updateNextDagrun_free (h : total < dag.maxActiveRuns) :
    updateNextDagrun dag total interval m = calculateDagrunDateFields dag m interval := by
  simp [updateNextDagrun, shouldUpdateDagNextDagruns, Nat.not_le.mpr h]

theorem updateNextDagrun_unbounded (hlast : dag.timetable.last = none) :
    (updateNextDagrun dag total interval m).nextDagrun =
      if dag.maxActiveRuns ≤ total then m.nextDagrun else some (interval + 1) := by
  split_ifs with h
  · rw [updateNextDagrun_full h]
  · rw [updateNextDagrun_free (Nat.not_le.mp h)]
    simp [calculateDagrunDateFields, hlast]

theorem othersActive_updateRun (key : String × String) {state : DagRunState}
    (h : state.finished = true) :
    (v.updateRun key fun run => { run with state := state }).activeRuns = v.othersActive key := by
  have hactive : state.active = false := by cases state <;> first | rfl | exact nomatch h
  unfold DagView.activeRuns DagView.updateRun DagView.othersActive
  rw [List.countP_map]
  refine List.countP_congr fun run _ => ?_
  by_cases hkey : run.key = key <;> simp [hkey, hactive]

end NextDagrun

-- ---------------------------------------------------------------------------
-- One step
-- ---------------------------------------------------------------------------

namespace DagView

variable {dag : Dag} {s : SchedulerState} {v v' : DagView} {l : SchedulerLabel} {first k : Int}

theorem HasRun.of_runs (h : v.HasRun k)
    (hruns : ∀ run ∈ v.runs, ∃ run' ∈ v'.runs, run'.dataInterval = run.dataInterval) :
    v'.HasRun k := by
  obtain ⟨run, hrun, rfl⟩ := h
  exact hruns run hrun

/-- A step that adds no interval behind `next_dagrun` or behind a run. -/
theorem Contiguous.of_runs (h : v.Contiguous first)
    (hruns : ∀ run ∈ v.runs, ∃ run' ∈ v'.runs, run'.dataInterval = run.dataInterval)
    (hnext : ∃ next, v'.nextDagrun = some next ∧ ∀ k, first ≤ k → k < next → v'.HasRun k)
    (hnew : ∀ run' ∈ v'.runs, run'.runType ≠ .manual →
      (∃ run ∈ v.runs, run.runType ≠ .manual ∧ run'.dataInterval = run.dataInterval) ∨
        ∀ k, first ≤ k → k ≤ run'.dataInterval → v'.HasRun k) : v'.Contiguous first := by
  obtain ⟨next, hnext, hupTo⟩ := hnext
  refine ⟨by simp [hnext], fun next' hnext' => ?_, fun run' hrun' htype => ?_⟩
  · obtain rfl := Option.some.inj (hnext.symm.trans hnext')
    exact hupTo
  · rcases hnew run' hrun' htype with ⟨run, hrun, htype, he⟩ | hupTo
    · exact fun k hk hle => (h.upToRun run hrun htype k hk (he ▸ hle)).of_runs hruns
    · exact hupTo

theorem Contiguous.map (h : v.Contiguous first) {f : DagRun → DagRun}
    (hf : ∀ run, runIdentity (f run) = runIdentity run) {dagModel : Option DagModel}
    (hnext : dagModel.bind (·.nextDagrun) = v.nextDagrun) :
    (DagView.mk dagModel (v.runs.map f)).Contiguous first := by
  have hinterval : ∀ run, (f run).dataInterval = run.dataInterval := fun run => by
    simpa [runIdentity] using congrArg (·.2.2.2.2) (hf run)
  have htype : ∀ run, (f run).runType = run.runType := fun run => by
    simpa [runIdentity] using congrArg (·.2.2.1) (hf run)
  have hruns : ∀ run ∈ v.runs, ∃ run' ∈ v.runs.map f, run'.dataInterval = run.dataInterval :=
    fun run hrun => ⟨f run, List.mem_map_of_mem hrun, hinterval run⟩
  obtain ⟨next, hnext'⟩ := Option.isSome_iff_exists.mp h.hasNext
  refine h.of_runs hruns ⟨next, hnext.trans hnext', fun k hk hlt =>
    (h.upToNext next hnext' k hk hlt).of_runs hruns⟩ fun run' hrun' htype' => .inl ?_
  obtain ⟨run, hrun, rfl⟩ := List.mem_map.mp hrun'
  exact ⟨run, hrun, htype run ▸ htype', hinterval run⟩

/-- `next_dagrun` follows an interval behind which nothing is missing, or stays. -/
theorem Contiguous.update (hlast : dag.timetable.last = none) (h : v.Contiguous first)
    (total : Nat) {interval : Int}
    (hupTo : total < dag.maxActiveRuns → ∀ k, first ≤ k → k ≤ interval → v.HasRun k) :
    (DagView.mk (v.dagModel.map (updateNextDagrun dag total interval)) v.runs).Contiguous
      first := by
  obtain ⟨next, hnext⟩ := Option.isSome_iff_exists.mp h.hasNext
  obtain ⟨m, hm, hmnext⟩ := Option.bind_eq_some_iff.mp hnext
  refine h.of_runs (fun run hrun => ⟨run, hrun, rfl⟩) ?_
    fun run hrun htype => .inl ⟨run, hrun, htype, rfl⟩
  simp only [nextDagrun, hm, Option.map_some, Option.bind_some, updateNextDagrun_unbounded hlast]
  split_ifs with hfull
  · exact ⟨next, hmnext, h.upToNext next hnext⟩
  · exact ⟨interval + 1, rfl, fun k hk hlt => hupTo (Nat.not_le.mp hfull) k hk (by omega)⟩

theorem Contiguous.append (h : v.Contiguous first) (run : DagRun)
    (hupTo : run.runType ≠ .manual → ∀ k, first ≤ k → k < run.dataInterval → v.HasRun k) :
    (DagView.mk v.dagModel (v.runs ++ [run])).Contiguous first := by
  have hruns : ∀ r ∈ v.runs, ∃ r' ∈ v.runs ++ [run], r'.dataInterval = r.dataInterval :=
    fun r hr => ⟨r, List.mem_append_left _ hr, rfl⟩
  obtain ⟨next, hnext⟩ := Option.isSome_iff_exists.mp h.hasNext
  refine h.of_runs hruns ⟨next, hnext, fun k hk hlt =>
    (h.upToNext next hnext k hk hlt).of_runs hruns⟩ fun run' hrun' htype => ?_
  rcases List.mem_append.mp hrun' with hrun' | hrun'
  · exact .inl ⟨run', hrun', htype, rfl⟩
  obtain rfl := List.mem_singleton.mp hrun'
  refine .inr fun k hk hle => ?_
  rcases Int.lt_or_eq_of_le hle with hlt | rfl
  · exact (hupTo htype k hk hlt).of_runs hruns
  · exact ⟨run', List.mem_append_right _ hrun', rfl⟩

theorem Contiguous.created (hlast : dag.timetable.last = none) (h : v.Contiguous first)
    (hc : ∀ next, v.nextDagrun = some next → first ≤ next → v.activeRuns < dag.maxActiveRuns →
      dag.timetable.boundary next ∈ v.runs.map (·.executionDate) → v.HasRun next) :
    (v.created dag).Contiguous first := by
  obtain ⟨next, hnext⟩ := Option.isSome_iff_exists.mp h.hasNext
  obtain ⟨m, hm, hmnext⟩ := Option.bind_eq_some_iff.mp hnext
  have hupTo := h.upToNext next hnext
  simp only [DagView.created, hm, hmnext]
  split_ifs with hmem
  · have hbehind : v.activeRuns < dag.maxActiveRuns →
        ∀ k, first ≤ k → k ≤ next → v.HasRun k := fun hfree k hk hle => by
      rcases Int.lt_or_eq_of_le hle with hlt | rfl
      · exact hupTo k hk hlt
      · exact hc k hnext hk hfree hmem
    have hv := h.update hlast v.activeRuns hbehind
    rwa [hm] at hv
  · have happ := h.append (scheduledRun dag next) fun _ => hupTo
    have hbehind : ∀ k, first ≤ k → k ≤ next → _ := happ.upToRun (scheduledRun dag next)
      (List.mem_append_right _ (List.mem_singleton_self _)) (by simp [scheduledRun])
    have hv := happ.update hlast ((v.runs ++ [scheduledRun dag next]).countP (·.state.active))
      fun _ => hbehind
    simpa only [hm, Option.map_some] using hv

theorem Contiguous.arrived (hlast : dag.timetable.last = none) (h : v.Contiguous first)
    {run : DagRun} (hrun : run ∈ v.runs) {state : Option DagRunState}
    (hc : ∀ next, run.runType = .manual → state.any (·.finished) →
      v.othersActive run.key < dag.maxActiveRuns → v.nextDagrun = some next →
      ∀ k, first ≤ k → next ≤ k → k < run.dataInterval → v.HasRun k) :
    (v.arrived dag run state).Contiguous first := by
  cases state with
  | none => exact h
  | some state =>
    have hid : ∀ r : DagRun, runIdentity
        (if r.key = run.key then { r with state := state } else r) = runIdentity r := by
      intro r
      split_ifs <;> rfl
    have hv : (v.updateRun run.key fun r => { r with state := state }).Contiguous first :=
      h.map hid rfl
    have hruns : ∀ k, v.HasRun k →
        (v.updateRun run.key fun r => { r with state := state }).HasRun k :=
      fun k hk => hk.of_runs fun r hr =>
        ⟨_, List.mem_map_of_mem hr, by simpa [runIdentity] using congrArg (·.2.2.2.2) (hid r)⟩
    unfold DagView.arrived
    dsimp only
    split_ifs with hfin
    · refine hv.update hlast _ fun hfree k hk hle => hruns k ?_
      rw [othersActive_updateRun run.key hfin] at hfree
      by_cases htype : run.runType = .manual
      · obtain ⟨next, hnext⟩ := Option.isSome_iff_exists.mp h.hasNext
        rcases Int.lt_or_le k next with hlt | hge
        · exact h.upToNext next hnext k hk hlt
        rcases Int.lt_or_eq_of_le hle with hlt | rfl
        · exact hc next htype hfin hfree hnext k hk hge hlt
        · exact ⟨run, hrun, rfl⟩
      · exact h.upToRun run hrun htype k hk hle
    · exact hv

theorem Contiguous.step (hlast : dag.timetable.last = none)
    (h : (view s.db dag.dagId).Contiguous first) (hc : KeepsIntervals dag first s l)
    (hstep : DagStep dag s (view s.db dag.dagId) l v') : v'.Contiguous first := by
  cases hstep with
  | other => exact h
  | created hid => exact h.created hlast fun next => hc next hid
  | started hf =>
    refine h.map (fun run => ?_) rfl
    rcases hf run with he | he <;> rw [he]
    rfl
  | arrived hkey hid hrun _ => exact h.arrived hlast hrun fun next => hc _ next hkey hid
  | paused =>
    refine h.map (fun run => ?_) rfl
    split_ifs <;> rfl
  | setPaused isPaused =>
    have hnext : ((view s.db dag.dagId).dagModel.map fun m =>
        { m with isPaused := isPaused }).bind (·.nextDagrun) =
          (view s.db dag.dagId).nextDagrun := by
      rw [DagView.nextDagrun, Option.bind_map]
      rfl
    have hv := h.map (f := id) (fun _ => rfl) hnext
    rwa [List.map_id] at hv
  | triggered => exact h.append _ fun htype => (htype rfl).elim

/-- A date that is taken moves `next_dagrun` over the interval. -/
theorem NoIntervalSkipped.of_created (hlast : dag.timetable.last = none) {next : Int}
    (hnext : v.nextDagrun = some next) (hfirst : first ≤ next)
    (hfree : v.activeRuns < dag.maxActiveRuns)
    (hdate : dag.timetable.boundary next ∈ v.runs.map (·.executionDate))
    (h : (v.created dag).NoIntervalSkipped first) : v.HasRun next := by
  obtain ⟨m, hm, hmnext⟩ := Option.bind_eq_some_iff.mp hnext
  have hcreated : v.created dag = ⟨some (updateNextDagrun dag v.activeRuns next m), v.runs⟩ := by
    simp only [DagView.created, hm, hmnext, if_pos hdate]
    rfl
  have hmoved : (v.created dag).nextDagrun = some (next + 1) := by
    simp [hcreated, nextDagrun, updateNextDagrun_unbounded hlast, Nat.not_le.mpr hfree]
  exact (h (next + 1) hmoved next hfirst (by omega)).of_runs fun run hrun =>
    ⟨run, by simpa [hcreated] using hrun, rfl⟩

/-- A run that ends below the limit moves `next_dagrun` behind its interval. -/
theorem NoIntervalSkipped.of_arrived (hlast : dag.timetable.last = none) {run : DagRun}
    {state : DagRunState} (hfin : state.finished = true)
    (hfree : v.othersActive run.key < dag.maxActiveRuns) (hnext : v.nextDagrun.isSome)
    (h : (v.arrived dag run (some state)).NoIntervalSkipped first) (hfirst : first ≤ k)
    (hlt : k < run.dataInterval) : v.HasRun k := by
  obtain ⟨next, hnext⟩ := Option.isSome_iff_exists.mp hnext
  obtain ⟨m, hm, -⟩ := Option.bind_eq_some_iff.mp hnext
  have harrived : v.arrived dag run (some state) =
      ⟨some (updateNextDagrun dag (v.othersActive run.key) run.dataInterval m),
        (v.updateRun run.key fun r => { r with state := state }).runs⟩ := by
    simp only [DagView.arrived, hfin, if_true, othersActive_updateRun run.key hfin, hm,
      Option.map_some]
  have hmoved : (v.arrived dag run (some state)).nextDagrun = some (run.dataInterval + 1) := by
    simp [harrived, nextDagrun, updateNextDagrun_unbounded hlast, Nat.not_le.mpr hfree]
  obtain ⟨r', hr', hk⟩ := h (run.dataInterval + 1) hmoved k hfirst (by omega)
  rw [harrived] at hr'
  obtain ⟨r, hr, rfl⟩ := List.mem_map.mp hr'
  refine ⟨r, hr, ?_⟩
  rw [← hk]
  split_ifs <;> rfl

end DagView

/-- A step that does not meet the condition skips an interval. -/
theorem keepsIntervals_of_noIntervalSkipped {t : SchedulerState} {dag : Dag} {s : SchedulerState}
    {l : SchedulerLabel} {first : Int} (hlast : dag.timetable.last = none)
    (hdag : s.db.getDag dag.dagId = some dag) (hstep : schedulerStep s l = some t)
    (hkept : (view t.db dag.dagId).NoIntervalSkipped first) : KeepsIntervals dag first s l := by
  cases l with
  | createDagRuns dagIds now =>
    intro next hmem hnext hfirst hfree hdate
    simp only [schedulerStep] at hstep
    split_ifs at hstep with hguard
    obtain ⟨db, hdb, rfl⟩ := Option.map_eq_some_iff.mp hstep
    rw [createDagRuns_self hguard.1 hguard.2 hdag hmem hdb] at hkept
    exact hkept.of_created hlast hnext hfirst hfree hdate
  | scheduleDagRun key now decision =>
    intro run next hkey hid htype hends hfree hnext k hfirst hge hlt
    obtain ⟨state, hstate, hfin⟩ := (Option.any_eq_true _ _).mp hends
    simp only [schedulerStep, hkey] at hstep
    split_ifs at hstep
    obtain rfl := Option.some.inj hstep
    rw [← hid, scheduleDagRun_self (hid ▸ hdag), hid, hstate] at hkept
    exact hkept.of_arrived hlast hfin hfree (by simp [hnext]) hfirst hlt
  | startQueuedDagruns | updatePausedDags | newJob | setPaused | trigger => trivial

-- ---------------------------------------------------------------------------
-- Whole runs
-- ---------------------------------------------------------------------------

/-- The DAG was parsed and has no run yet. -/
def Fresh (db : Database) (dag : Dag) (first : Int) : Prop :=
  db.getDag dag.dagId = some dag ∧ (view db dag.dagId).nextDagrun = some first ∧
    (view db dag.dagId).runs = []

section Runs

variable {s t : SchedulerState} {ls : List SchedulerLabel} {dag : Dag} {first : Int}

theorem Fresh.contiguous {db : Database} (h : Fresh db dag first) :
    (view db dag.dagId).Contiguous first := by
  obtain ⟨-, hnext, hruns⟩ := h
  refine ⟨by simp [hnext], fun next hnext' k hk hlt => ?_, fun run hrun => ?_⟩
  · obtain rfl := Option.some.inj (hnext.symm.trans hnext')
    omega
  · rw [hruns] at hrun
    exact nomatch hrun

theorem noIntervalSkipped (hlast : dag.timetable.last = none) (hfresh : Fresh s.db dag first)
    (hc : Machine.Along schedulerStep (KeepsIntervals dag first) s ls)
    (hr : Machine.run schedulerStep s ls = some t) :
    (view t.db dag.dagId).NoIntervalSkipped first := by
  have hinv : t.db.getDag dag.dagId = some dag ∧ (view t.db dag.dagId).Contiguous first :=
    Machine.run_invariant
      (I := fun s => s.db.getDag dag.dagId = some dag ∧ (view s.db dag.dagId).Contiguous first)
      (fun _ _ _ hi hc hstep => ⟨schedulerStep_getDag hstep hi.1,
        hi.2.step hlast hc (schedulerStep_dag hstep hi.1)⟩)
      ⟨hfresh.1, hfresh.contiguous⟩ hc hr
  exact hinv.2.upToNext

end Runs

-- ---------------------------------------------------------------------------
-- A manual run over a backlog
-- ---------------------------------------------------------------------------

def day : Time := 86400000000

def daily : Timetable where
  boundary k := k * day
  mono i j h := Int.mul_lt_mul_of_pos_right h (by decide)
  last := none
  generateRunId runType _ := if runType = .scheduled then "scheduled" else "manual"

def dailyDag : Dag where
  dagId := "daily"
  maxActiveRuns := 16
  dagrunTimeout := none
  allowFutureExecDates := false
  timetable := daily
  tasks := []

def dailyStart : SchedulerState where
  db := {
    pools := []
    dagModels := [{
      dagId := "daily", isPaused := false, isActive := true, hasImportErrors := false
      fileloc := some "daily.py", processorSubdir := none
      maxActiveTasks := 16, hasTaskConcurrencyLimits := false
      nextDagrun := some 0, nextDagrunCreateAfter := some day }]
    dagRuns := []
    serializedDags := [dailyDag]
    taskInstances := ⟨[], List.nodup_nil⟩ }
  withoutRunningDagruns := []

/-- On the fifth day a manual run, of the fourth interval, succeeds before the
first three have their runs. -/
def backlogRun : List SchedulerLabel :=
  [.trigger "daily" "manual" (4 * day) 3, .startQueuedDagruns [("daily", "manual")] (4 * day),
    .scheduleDagRun ("daily", "manual") (4 * day) ⟨.success, []⟩]

theorem manualRun_skips_backlog :
    Fresh dailyStart.db dailyDag 0 ∧ dailyDag.timetable.last = none ∧
      ∃ t, Machine.run schedulerStep dailyStart backlogRun = some t ∧
        ¬ (view t.db dailyDag.dagId).NoIntervalSkipped 0 := by
  refine ⟨⟨by rfl, by rfl, by rfl⟩, rfl, _, rfl, fun h => ?_⟩
  exact absurd (h 4 rfl 0 (by decide) (by decide)) (by decide)

def scheduledRuns : List SchedulerLabel :=
  [.createDagRuns ["daily"] (4 * day), .startQueuedDagruns [("daily", "scheduled")] (4 * day),
    .scheduleDagRun ("daily", "scheduled") (4 * day) ⟨.success, []⟩]

theorem noIntervalSkipped_daily :
    ∃ t, Machine.run schedulerStep dailyStart scheduledRuns = some t ∧
      (view t.db dailyDag.dagId).nextDagrun = some 1 ∧
      (view t.db dailyDag.dagId).NoIntervalSkipped 0 := by
  have hfresh : Fresh dailyStart.db dailyDag 0 := ⟨by rfl, by rfl, by rfl⟩
  have hc : Machine.Along schedulerStep (KeepsIntervals dailyDag 0) dailyStart scheduledRuns := by
    refine ⟨fun next _ _ _ _ hdate => ?_, trivial, fun run next hkey _ htype => ?_, trivial⟩
    · exact nomatch hfresh.2.2 ▸ hdate
    · obtain rfl := Option.some.inj hkey
      exact nomatch htype
  exact ⟨_, rfl, rfl, noIntervalSkipped rfl hfresh hc rfl⟩

end Beeflow.Scheduler
