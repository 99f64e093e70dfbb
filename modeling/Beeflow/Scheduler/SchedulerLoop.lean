import Beeflow.Scheduler.Scheduling

/-!
# A turn is a run of steps

The queries of a turn are answered before its loops, and a loop writes rows the
answers came from. What it writes leaves the other answers as they were, so
that each turn of the loop is a run of `loopStep`, whatever the other parties
do between the turns.
-/

namespace Beeflow.Scheduler

open Airflow Machine

-- ---------------------------------------------------------------------------
-- The phases of a turn
-- ---------------------------------------------------------------------------

theorem executable_runs {db db' : Database} {maxTis jobId : Nat} {now : Time}
    {tis : List TaskInstance}
    (h : executableTaskInstancesToQueued db maxTis jobId now = some (tis, db')) :
    db'.dagRuns = db.dagRuns ∧
      ∀ ti ∈ tis, ∃ run, db.dagRun ti.key.run = some run ∧ run.state = .running := by
  unfold executableTaskInstancesToQueued at h
  split_ifs at h
  · obtain ⟨rfl, rfl⟩ := Prod.mk.inj (Option.some.inj h)
    exact ⟨rfl, fun _ hti => nomatch hti⟩
  · simp only [bind, Option.bind_eq_some_iff, Option.some.injEq, Prod.mk.injEq] at h
    obtain ⟨s, hloop, rfl, rfl⟩ := h
    obtain ⟨-, -, -, u, -, hquery⟩ := Pass.loop_spec (Pass.start_kept db) rfl hloop
    refine ⟨rfl, fun ti hti => ?_⟩
    obtain ⟨c, hc, rfl⟩ := List.mem_map.mp hti
    obtain ⟨hjoined, heligible, -⟩ := mem_query (hquery c hc)
    simp only [Candidate.eligible, Bool.and_eq_true, decide_eq_true_eq] at heligible
    exact ⟨c.dagRun, dagRunOf_eq db c.ti.key ▸ (mem_joined.mp hjoined).2.1, heligible.1.1.2⟩

section Phases

variable {q : SchedulerQueries} {e : SchedulerTurn} {s t : SchedulerState} {db db' : Database}
  {l : LoopLabel} {run : DagRun} {now : Time} {decision : Decision}

theorem passStep_dagRuns {l : PassLabel} (h : passStep db l = some db') :
    db'.dagRuns = db.dagRuns := by
  cases l with
  | pass maxTis jobId now =>
    obtain ⟨⟨tis, db₁⟩, he, rfl⟩ := Option.map_eq_some_iff.mp h
    exact (executable_runs he).1
  | write key state =>
    obtain ⟨-, rfl⟩ := write_cases h
    rfl

theorem loopStep_unique (hu : UniqueRuns s.db) (h : loopStep s l = some t) : UniqueRuns t.db := by
  cases l with
  | scheduler l =>
    obtain ⟨u, -, h⟩ := Option.bind_eq_some_iff.mp h
    obtain ⟨db, hdb, rfl⟩ := Option.map_eq_some_iff.mp h
    obtain ⟨hu, rfl⟩ := commit_eq_some.mp hdb
    exact hu
  | pass l =>
    obtain ⟨db, hdb, rfl⟩ := Option.map_eq_some_iff.mp h
    rw [UniqueRuns, passStep_dagRuns hdb]
    exact hu
  | queue run =>
    simp only [loopStep] at h
    split_ifs at h
    obtain ⟨db, hdb, rfl⟩ := Option.map_eq_some_iff.mp h
    obtain ⟨hu, rfl⟩ := commit_eq_some.mp hdb
    exact hu

theorem scheduler_reaches {l : SchedulerLabel} (h : schedulerStep s l = some t)
    (hu : UniqueRuns t.db) (hc : Settles s (.scheduler l)) : Reaches loopStep Settles s t := by
  have hstep : loopStep s (.scheduler l) = some t := by simp [loopStep, h, commit, hu]
  exact .single hc hstep

/-- Runs that are added one after the other. -/
theorem queue_reaches (runs : List { run : DagRun // run.state = .queued })
    (hu : UniqueRuns { s.db with dagRuns := s.db.dagRuns ++ runs.map (·.val) }) :
    Reaches loopStep Settles s
      { s with db := { s.db with dagRuns := s.db.dagRuns ++ runs.map (·.val) } } := by
  induction runs generalizing s with
  | nil =>
    rw [List.map_nil, List.append_nil]
    exact .refl s
  | cons run runs ih =>
    have hrows : s.db.dagRuns ++ (run :: runs).map (·.val) =
        (s.db.dagRuns ++ [run.val]) ++ runs.map (·.val) := by simp
    rw [hrows] at hu ⊢
    let db : Database := { s.db with dagRuns := s.db.dagRuns ++ [run.val] }
    have hfirst : UniqueRuns db := by
      rw [UniqueRuns, List.map_append] at hu
      exact (List.nodup_append.mp hu).1
    have hstep : loopStep s (.queue run.val) = some { s with db := db } := by
      simp [loopStep, run.property, commit, db, hfirst]
    have hsettles : Settles s (.queue run.val) := trivial
    exact (Reaches.single hsettles hstep).trans (ih (s := { s with db := db }) hu)

theorem createDagrunsForDags_reaches (hu : UniqueRuns s.db)
    (h : createDagrunsForDags q e s.db = some db) :
    UniqueRuns db ∧ Reaches loopStep Settles s { s with db := db } := by
  unfold createDagrunsForDags at h
  split_ifs at h
  · obtain ⟨db₁, hcreate, hcommit⟩ := Option.bind_eq_some_iff.mp h
    obtain ⟨hu₁, rfl⟩ := commit_eq_some.mp hcommit
    have hunique : UniqueRuns db₁ := by
      rw [UniqueRuns, List.map_append] at hu₁
      exact (List.nodup_append.mp hu₁).1
    have hstep : schedulerStep s (.createDagRuns (q.dagsNeedingDagruns s.db e.created) e.created) =
        some { s with db := db₁ } := by
      simp only [schedulerStep, if_pos (q.needing s.db e.created), hcreate, Option.map_some]
    exact ⟨hu₁, (scheduler_reaches hstep hunique trivial).trans
      (queue_reaches (s := { s with db := db₁ }) _ hu₁)⟩
  · obtain rfl := Option.some.inj h
    exact ⟨hu, .refl s⟩

theorem startQueuedDagruns_unique (hu : UniqueRuns db) (dagRuns : List DagRun) (now : Time) :
    UniqueRuns (startQueuedDagruns db dagRuns now) := by
  rw [startQueuedDagruns, startQueuedDagrunsLoop_eq, UniqueRuns, startRows_keys]
  exact hu

theorem startQueuedDagruns_reaches (hu : UniqueRuns s.db) {keys : List (String × String)}
    (hkeys : keys.Nodup ∧ ∀ key ∈ keys, (s.db.dagRun key).any (toExamine s.db .queued now)) :
    Reaches loopStep Settles s
      { s with db := startQueuedDagruns s.db (keys.filterMap s.db.dagRun) now } := by
  have hstep : schedulerStep s (.startQueuedDagruns keys now) =
      some { s with db := startQueuedDagruns s.db (keys.filterMap s.db.dagRun) now } := by
    simp only [schedulerStep, if_pos hkeys]
  exact scheduler_reaches hstep (startQueuedDagruns_unique hu _ now) trivial

-- Scheduling a run leaves the rows of the others, and who is examined.

theorem dagRun_updateDagRun_of_ne {key key' : String × String} (hne : key ≠ key')
    {f : DagRun → DagRun} (hf : ∀ run, (f run).key = run.key) :
    (db.updateDagRun key' f).dagRun key = db.dagRun key := by
  unfold Database.updateDagRun Database.dagRun
  dsimp only
  rw [find?_map_update (fun run => by split_ifs <;> simp [hf])]
  cases hrun : db.dagRuns.find? (·.key = key) with
  | none => rfl
  | some run =>
    have hkey : run.key = key := by simpa using List.find?_some hrun
    simp [hkey, hne]

theorem scheduleDagRun_dagRun {key : String × String} (hne : key ≠ run.key) :
    (scheduleDagRun db run now decision).dagRun key = db.dagRun key := by
  have hset : ∀ state, (setRunState db run state).dagRun key = db.dagRun key :=
    fun state => dagRun_updateDagRun_of_ne hne fun _ => rfl
  rcases scheduleDagRun_cases db run now decision with h | ⟨f, -, h | h⟩
  · rw [h]
  · rw [h]
    exact hset .failed
  · rw [h]
    exact hset decision.state

theorem scheduleDagRun_unique (hu : UniqueRuns db) :
    UniqueRuns (scheduleDagRun db run now decision) := by
  have hset : ∀ state, UniqueRuns (setRunState db run state) := by
    intro state
    rw [UniqueRuns, setRunState, updateDagRun_keys db run.key]
    · exact hu
    · exact fun _ => rfl
  rcases scheduleDagRun_cases db run now decision with h | ⟨f, -, h | h⟩
  · rwa [h]
  · rw [h]
    exact hset .failed
  · rw [h]
    exact hset decision.state

theorem scheduleDagRun_toExamine (state : DagRunState) (now' : Time) (run' : DagRun) :
    toExamine (scheduleDagRun db run now decision) state now' run' =
      toExamine db state now' run' := by
  rcases scheduleDagRun_cases db run now decision with h | ⟨f, hf, h⟩
  · rw [h]
  · have hmodels : (scheduleDagRun db run now decision).dagModels = db.dagModels.map f := by
      rcases h with h | h <;> rw [h]
    have hany : ∀ m : Option DagModel, (m.any fun m => !m.isPaused && m.isActive) =
        ((m.map DagModel.settings).any fun c => !c.2.1 && c.2.2.1) := by
      rintro (- | m) <;> rfl
    simp only [toExamine, hany, dagModel_settings hf hmodels]

theorem scheduleAllDagRuns_reaches {updateState : Database → DagRun → Decision} {runs : List DagRun}
    (hsettles : ∀ db run, (updateState db run).state ≠ .running → Idle db run.key)
    (hu : UniqueRuns s.db) (hnodup : (runs.map (·.key)).Nodup)
    (hruns : ∀ run ∈ runs, s.db.dagRun run.key = some run ∧ toExamine s.db .running now run) :
    UniqueRuns (scheduleAllDagRuns updateState now runs s.db) ∧
      Reaches loopStep Settles s
        { s with db := scheduleAllDagRuns updateState now runs s.db } := by
  induction runs generalizing s with
  | nil => exact ⟨hu, .refl s⟩
  | cons run runs ih =>
    obtain ⟨hfirst, hruns⟩ := List.forall_mem_cons.mp hruns
    rw [List.map_cons, List.nodup_cons] at hnodup
    let decision := updateState s.db run
    let t : SchedulerState := { s with db := scheduleDagRun s.db run now decision }
    have hu' : UniqueRuns t.db := scheduleDagRun_unique hu
    have hstep : schedulerStep s (.scheduleDagRun run.key now decision) = some t := by
      simp only [schedulerStep, hfirst.1, hfirst.2, if_true, t]
    have hsingle := scheduler_reaches hstep hu' (hsettles s.db run)
    have hrest : ∀ r ∈ runs, t.db.dagRun r.key = some r ∧ toExamine t.db .running now r := by
      intro r hr
      have hne : r.key ≠ run.key := fun hkey => hnodup.1 (hkey ▸ List.mem_map_of_mem hr)
      exact ⟨(scheduleDagRun_dagRun hne).trans (hruns r hr).1,
        (scheduleDagRun_toExamine ..).trans (hruns r hr).2⟩
    obtain ⟨hunique, hreaches⟩ := ih hu' hnodup.2 hrest
    exact ⟨hunique, hsingle.trans hreaches⟩

-- The runs of the task instances that were queued are running, so none of these is reset.

theorem enqueueTaskInstancesWithQueuedState_eq {tis : List TaskInstance}
    (hruns : ∀ ti ∈ tis, ∃ run, db.dagRun ti.key.run = some run ∧ run.state = .running) :
    enqueueTaskInstancesWithQueuedState tis db = db := by
  induction tis with
  | nil => rfl
  | cons ti tis ih =>
    obtain ⟨⟨run, hrun, hrunning⟩, hruns⟩ := List.forall_mem_cons.mp hruns
    have hfinished : (db.dagRunOf ti.key).any (·.state.finished) = false := by
      rw [dagRunOf_eq, hrun, Option.any_some, hrunning]
      rfl
    rw [enqueueTaskInstancesWithQueuedState, hfinished]
    exact ih hruns

theorem criticalSection_reaches {maxTisPerQuery slotsAvailable jobId n : Nat}
    (h : criticalSectionEnqueueTaskInstances s.db maxTisPerQuery slotsAvailable jobId now =
      some (db, n)) :
    n ≤ slotsAvailable ∧ Reaches loopStep Settles s { s with db := db } := by
  simp only [criticalSectionEnqueueTaskInstances, bind, Option.bind_eq_some_iff] at h
  obtain ⟨⟨tis, db₁⟩, hpass, h⟩ := h
  obtain ⟨rfl, rfl⟩ := Prod.mk.inj (Option.some.inj h)
  obtain ⟨hsame, hruns⟩ := executable_runs hpass
  have hreset : enqueueTaskInstancesWithQueuedState tis db₁ = db₁ := by
    refine enqueueTaskInstancesWithQueuedState_eq fun ti hti => ?_
    rw [Database.dagRun, hsame]
    exact hruns ti hti
  have hle : (if maxTisPerQuery = 0 then slotsAvailable else min maxTisPerQuery slotsAvailable) ≤
      slotsAvailable := by
    split_ifs
    · exact Nat.le_refl _
    · exact Nat.min_le_right _ _
  generalize (if maxTisPerQuery = 0 then slotsAvailable else _) = maxTis at hpass hle
  have hstep : loopStep s (.pass (.pass maxTis jobId now)) = some { s with db := db₁ } := by
    simp only [loopStep, passStep, hpass, Option.map_some]
  dsimp only
  rw [hreset]
  have hsettles : Settles s (.pass (.pass maxTis jobId now)) := trivial
  exact ⟨(executable_spec hpass).1.length.trans hle, .single hsettles hstep⟩

theorem examined_runs {keys : List (String × String)} {p : DagRun → Bool}
    (h : keys.Nodup ∧ ∀ key ∈ keys, (db.dagRun key).any p) :
    ((keys.filterMap db.dagRun).map (·.key)).Nodup ∧
      ∀ run ∈ keys.filterMap db.dagRun, db.dagRun run.key = some run ∧ p run := by
  have hrow : ∀ key run, db.dagRun key = some run → run.key = key :=
    fun key run hrun => by simpa using List.find?_some hrun
  have hnodup : ((keys.filterMap db.dagRun).map (·.key)).Nodup := by
    rw [List.map_filterMap]
    refine h.1.filterMap fun a a' b ha ha' => ?_
    obtain ⟨run, hrun, rfl⟩ := Option.map_eq_some_iff.mp ha
    obtain ⟨run', hrun', hkey⟩ := Option.map_eq_some_iff.mp ha'
    exact (hrow a run hrun).symm.trans (hkey.symm.trans (hrow a' run' hrun'))
  refine ⟨hnodup, fun run hrun => ?_⟩
  obtain ⟨key, hkey, hrun⟩ := List.mem_filterMap.mp hrun
  have hp := h.2 key hkey
  rw [hrun] at hp
  exact ⟨(hrow key run hrun).symm ▸ hrun, hp⟩

theorem doScheduling_reaches (hsettles : e.Settles) (hu : UniqueRuns s.db) {n : Nat}
    (h : doScheduling q e s.db = some (db, n)) :
    n ≤ e.slotsAvailable.toNat ∧ Reaches loopStep Settles s { s with db := db } := by
  simp only [doScheduling, bind, Option.bind_eq_some_iff] at h
  obtain ⟨db₁, hcreate, h⟩ := h
  obtain ⟨hu₁, hcreate⟩ := createDagrunsForDags_reaches hu hcreate
  have hstart := startQueuedDagruns_reaches (s := { s with db := db₁ }) hu₁
    (q.examined .queued db₁ e.started)
  have hu₂ := startQueuedDagruns_unique hu₁
    ((q.nextDagrunsToExamine .queued db₁ e.started).filterMap db₁.dagRun) e.started
  generalize startQueuedDagruns db₁ _ e.started = db₂ at h hstart hu₂
  obtain ⟨hnodup, hruns⟩ := examined_runs (q.examined .running db₂ e.scheduled)
  obtain ⟨-, hschedule⟩ := scheduleAllDagRuns_reaches (s := { s with db := db₂ }) hsettles hu₂
    hnodup hruns
  have hphases := (hcreate.trans hstart).trans hschedule
  split_ifs at h
  · obtain ⟨rfl, rfl⟩ := Prod.mk.inj (Option.some.inj h)
    exact ⟨Nat.zero_le _, hphases⟩
  · obtain ⟨rfl, rfl⟩ := Prod.mk.inj (Option.some.inj h)
    exact ⟨Nat.zero_le _, hphases⟩
  · obtain ⟨hle, hpass⟩ := criticalSection_reaches (s := { s with db := _ }) h
    exact ⟨hle, hphases.trans hpass⟩

end Phases

-- ---------------------------------------------------------------------------
-- The loop
-- ---------------------------------------------------------------------------

section Loop

variable {q : SchedulerQueries} {e : Nat → SchedulerTurn}
  {others : Nat → SchedulerState → List LoopLabel} {records fuel : Nat} {s t : SchedulerState}

/-- The loop makes the turns that are left, one after the other. -/
theorem runSchedulerLoop_eq {σ : Type} (turn : Nat → σ → Option σ) {loopCount left : Nat}
    (hleft : loopCount + left = records) (hfuel : left < fuel) (hrecords : 0 < records) (s : σ) :
    runSchedulerLoop records turn fuel loopCount s =
      (List.range' loopCount (left + 1)).foldlM (fun s n => turn n s) s := by
  induction left generalizing loopCount fuel s with
  | zero =>
    obtain ⟨fuel, rfl⟩ := Nat.exists_eq_succ_of_ne_zero (Nat.ne_zero_of_lt hfuel)
    have hlast : (records : Int) ≤ loopCount ∧ (0 : Int) < records := by omega
    simp only [runSchedulerLoop, if_pos hlast]
    simp
  | succ left ih =>
    obtain ⟨fuel, rfl⟩ := Nat.exists_eq_succ_of_ne_zero (Nat.ne_zero_of_lt hfuel)
    have hmore : ¬((records : Int) ≤ loopCount ∧ (0 : Int) < records) := by omega
    simp only [runSchedulerLoop, if_neg hmore, List.range'_succ, List.foldlM_cons]
    exact congrArg _ (funext fun t => ih (by omega) (by omega) t)

theorem turnOf_reaches {n : Nat} (he : (e n).Settles)
    (hothers : ∀ n s, Along loopStep Settles s (others n s)) (hu : UniqueRuns s.db)
    (h : turnOf q e others n s = some t) : Reaches loopStep Settles s t := by
  simp only [turnOf, bind, Option.bind_eq_some_iff] at h
  obtain ⟨⟨db, queued⟩, hturn, hrun⟩ := h
  exact (doScheduling_reaches he hu hturn).2.trans ⟨_, hrun, hothers n _⟩

theorem Reaches.unique (h : Reaches loopStep Settles s t) (hu : UniqueRuns s.db) :
    UniqueRuns t.db := by
  obtain ⟨ls, hrun, -⟩ := h
  exact run_invariant_all (I := fun s => UniqueRuns s.db) (fun _ _ _ => loopStep_unique) hu hrun

theorem foldlM_reaches {turn : Nat → SchedulerState → Option SchedulerState}
    (hturn : ∀ n s t, UniqueRuns s.db → turn n s = some t → Reaches loopStep Settles s t)
    {turns : List Nat} (hu : UniqueRuns s.db)
    (h : turns.foldlM (fun s n => turn n s) s = some t) : Reaches loopStep Settles s t := by
  induction turns generalizing s with
  | nil => exact Option.some.inj h ▸ .refl s
  | cons n turns ih =>
    obtain ⟨u, hfirst, h⟩ := Option.bind_eq_some_iff.mp h
    have hreaches := hturn n s u hu hfirst
    exact hreaches.trans (ih (Reaches.unique hreaches hu) h)

end Loop

/-- An invocation of the scheduler makes one turn for each record of its event, and whatever it
and the others do to the database in the meantime is a run of their steps. -/
theorem schedulerHandler_refines (q : SchedulerQueries) (e : Nat → SchedulerTurn)
    (he : ∀ n, (e n).Settles) (others : Nat → SchedulerState → List LoopLabel)
    (hothers : ∀ n s, Along loopStep Settles s (others n s)) {records fuel : Nat}
    (hrecords : 0 < records) (hfuel : records ≤ fuel) {s : SchedulerState}
    (hu : UniqueRuns s.db) :
    schedulerHandler q e others records fuel s =
        (List.range' 1 records).foldlM (fun s n => turnOf q e others n s)
          { s with withoutRunningDagruns := [] } ∧
      ∀ t, schedulerHandler q e others records fuel s = some t →
        Reaches loopStep Settles s t := by
  have hleft : 1 + (records - 1) = records := by omega
  have hturns := runSchedulerLoop_eq (turnOf q e others) hleft (by omega : records - 1 < fuel)
    hrecords { s with withoutRunningDagruns := [] }
  rw [Nat.sub_add_cancel hrecords] at hturns
  refine ⟨hturns, fun t ht => ?_⟩
  have hjob : schedulerStep s .newJob = some { s with withoutRunningDagruns := [] } := rfl
  exact (scheduler_reaches hjob hu trivial).trans
    (foldlM_reaches (fun n _ _ => turnOf_reaches (he n) hothers) hu (hturns.symm.trans ht))

def hourlyModel : DagModel where
  dagId := "etl"
  isPaused := false
  isActive := true
  hasImportErrors := false
  fileloc := none
  processorSubdir := none
  maxActiveTasks := 1
  hasTaskConcurrencyLimits := false
  nextDagrun := some 1
  nextDagrunCreateAfter := some 2

def hourlyTi (taskId : String) (state : TaskInstanceState) : TaskInstance where
  key := ⟨"etl", taskId, "0", -1⟩
  state := some state
  pool := "default_pool"
  poolSlots := 1
  priorityWeight := 1
  queuedDttm := none
  queuedByJobId := none
  jobId := none
  hostname := none
  externalExecutorId := none

/-- A task instance of the run is in execution, and one waits. -/
def hourlyLoad (state : DagRunState) (extract : TaskInstanceState) : SchedulerState where
  db :=
    { pools := [("default_pool", 8)]
      dagModels := [hourlyModel]
      dagRuns := [hourlyRun "etl" "0" state]
      serializedDags := [hourlyDag "etl" 1]
      taskInstances :=
        ⟨[hourlyTi "extract" extract, hourlyTi "load" .scheduled], by simp [hourlyTi]⟩ }
  withoutRunningDagruns := []

/-- A run ends as soon as it is idle. -/
def endsIdle : SchedulerTurn where
  useJobSchedule := true
  datasetTriggered _ := []
  updateState db run := if Idle db run.key then ⟨.success, []⟩ else ⟨.running, []⟩
  maxTisPerQuery := 0
  slotsAvailable := 8
  lockHeld := false
  jobId := 7
  created := 2
  started := 2
  scheduled := 2
  queued := 2

theorem endsIdle_settles : endsIdle.Settles := by
  intro db run hne
  by_contra hbusy
  simp [endsIdle, hbusy] at hne

theorem schedulerHandler_refines_twoRecords : ∃ t,
    schedulerHandler .unlimited (fun _ => endsIdle) (fun _ _ => []) 2 2
        (hourlyLoad .running .running) = some t ∧
      Reaches loopStep Settles (hourlyLoad .running .running) t := by
  have hsome : (schedulerHandler .unlimited (fun _ => endsIdle) (fun _ _ => []) 2 2
      (hourlyLoad .running .running)).isSome := by decide +kernel
  obtain ⟨t, ht⟩ := Option.isSome_iff_exists.mp hsome
  exact ⟨t, ht, (schedulerHandler_refines .unlimited (fun _ => endsIdle)
    (fun _ => endsIdle_settles) (fun _ _ => []) (fun _ _ => trivial) (by decide : 0 < 2)
    (by decide : 2 ≤ 2) (by decide)).2 t ht⟩

end Beeflow.Scheduler
