import Beeflow.Lib.Machine
import Beeflow.Lib.Quota
import Beeflow.Scheduler.DagViews
import Mathlib.Data.List.Perm.Subperm

/-!
# Starting queued runs

`_start_queued_dagruns` goes over queued runs of any DAGs in one pass, with a
count of the running ones for each DAG. Each DAG gets the first of its runs
started, as many as `max_active_runs` has room for, whatever stands between
them.
-/

namespace Beeflow.Scheduler

open Airflow

-- ---------------------------------------------------------------------------
-- One pass
-- ---------------------------------------------------------------------------

/-- The DAG is known, and has no limit or is below it. -/
def hasRoom (db : Database) (dagId : String) (activeRuns : Nat) : Bool :=
  match db.getDag dagId with
  | none => false
  | some dag => dag.maxActiveRuns = 0 || activeRuns < dag.maxActiveRuns

def startedRuns (db : Database) (dagRuns : List DagRun) : List DagRun :=
  Quota.admitted (·.dagId) (hasRoom db) dagRuns (runningRuns db.dagRuns)

/-- The rows with these keys are running from `now` on. -/
def startRows (now : Time) (keys : List (String × String)) (db : Database) : Database :=
  { db with dagRuns := db.dagRuns.map fun run => if run.key ∈ keys then startRun now run else run }

theorem startRows_updateDagRun (now : Time) (db : Database) (key : String × String)
    (keys : List (String × String)) :
    startRows now keys (db.updateDagRun key (startRun now)) = startRows now (key :: keys) db := by
  unfold startRows Database.updateDagRun
  congr 1
  rw [List.map_map]
  refine List.map_congr_left fun run _ => ?_
  by_cases h : run.key = key
  · have hmem : run.key ∈ key :: keys := h ▸ List.mem_cons_self
    rw [Function.comp_apply, if_pos h, if_pos hmem]
    split_ifs <;> rfl
  · rw [Function.comp_apply, if_neg h]
    simp [h]

theorem startQueuedDagrunsLoop_eq (now : Time) (runs : List DagRun) (db : Database)
    (active : String → Nat) :
    startQueuedDagrunsLoop now runs db active =
      startRows now ((Quota.admitted (·.dagId) (hasRoom db) runs active).map (·.key)) db := by
  induction runs generalizing db active with
  | nil => simp [startQueuedDagrunsLoop, Quota.admitted, startRows]
  | cons run runs ih =>
    unfold startQueuedDagrunsLoop
    cases hdag : db.getDag run.dagId with
    | none =>
      have hfull : hasRoom db run.dagId (active run.dagId) = false := by simp [hasRoom, hdag]
      rw [Quota.admitted_full hfull]
      exact ih db active
    | some dag =>
      dsimp only
      split_ifs with hlimit
      · have hfull : hasRoom db run.dagId (active run.dagId) = false := by
          simp [hasRoom, hdag, hlimit.1, hlimit.2]
        rw [Quota.admitted_full hfull]
        exact ih db active
      · have hopen : hasRoom db run.dagId (active run.dagId) = true := by
          simp only [hasRoom, hdag, Bool.or_eq_true, decide_eq_true_eq]
          omega
        rw [Quota.admitted_open hopen, List.map_cons, ← startRows_updateDagRun]
        exact ih _ _

/-- The queued runs of the DAG that its limit has room for. -/
def startable (db : Database) (dagRuns : List DagRun) (dagId : String) : List DagRun :=
  let queued := dagRuns.filter (·.dagId = dagId)
  match db.getDag dagId with
  | none => []
  | some dag =>
    if dag.maxActiveRuns = 0 then queued
    else queued.take (min queued.length (dag.maxActiveRuns - runningRuns db.dagRuns dagId))

theorem startedRuns_filter (db : Database) (dagRuns : List DagRun) (dagId : String) :
    (startedRuns db dagRuns).filter (·.dagId = dagId) = startable db dagRuns dagId := by
  unfold startedRuns startable
  cases hdag : db.getDag dagId with
  | none => exact Quota.admitted_filter_of_closed (fun n => by simp [hasRoom, hdag]) _ _
  | some dag =>
    dsimp only
    split_ifs with hlimit
    · exact Quota.admitted_filter_of_open (fun n => by simp [hasRoom, hdag, hlimit]) _ _
    · rw [Nat.min_comm, ← List.take_eq_take_min]
      exact Quota.admitted_filter_of_limit (fun n => by simp [hasRoom, hdag, hlimit]) _ _

/-- Of each DAG the first runs there is room for are running, in the order of the list;
nothing else changes. -/
def StartsFirst (db : Database) (dagRuns : List DagRun) (now : Time) (db' : Database) : Prop :=
  ∃ started : List DagRun, started.Sublist dagRuns ∧
    db' = startRows now (started.map (·.key)) db ∧
    ∀ dagId, started.filter (·.dagId = dagId) = startable db dagRuns dagId

theorem startQueuedDagruns_startsFirst (db : Database) (dagRuns : List DagRun) (now : Time) :
    StartsFirst db dagRuns now (startQueuedDagruns db dagRuns now) :=
  ⟨startedRuns db dagRuns, Quota.admitted_sublist _ _, startQueuedDagrunsLoop_eq now dagRuns db _,
    startedRuns_filter db dagRuns⟩

-- ---------------------------------------------------------------------------
-- Passes and runs that finish
-- ---------------------------------------------------------------------------

inductive StartLabel
  | pass (dagRuns : List DagRun) (now : Time)
  | finish (key : String × String) (state : DagRunState)
  /-- a new run, which waits for a pass -/
  | queue (run : DagRun)

def startStep (db : Database) : StartLabel → Option Database
  | .pass dagRuns now =>
    if (dagRuns.map (·.key)).Nodup ∧ ∀ run ∈ dagRuns, run ∈ db.dagRuns ∧ run.state = .queued then
      some (startQueuedDagruns db dagRuns now)
    else none
  | .finish key state =>
    if (db.dagRun key).any (·.state = .running) ∧ state.finished then
      some (db.updateDagRun key fun run => { run with state := state })
    else none
  | .queue run =>
    if run.state = .queued ∧ run.key ∉ db.dagRuns.map (·.key) then
      some { db with dagRuns := db.dagRuns ++ [run] }
    else none

/-- The primary key of `dag_run`. -/
def UniqueRuns (db : Database) : Prop := (db.dagRuns.map (·.key)).Nodup

instance (db : Database) : Decidable (UniqueRuns db) := inferInstanceAs (Decidable (List.Nodup _))

section Runs

variable {db db' : Database} {l : StartLabel} {dagId : String}

theorem startRows_keys (now : Time) (keys : List (String × String)) (db : Database) :
    (startRows now keys db).dagRuns.map (·.key) = db.dagRuns.map (·.key) := by
  rw [startRows, List.map_map]
  refine List.map_congr_left fun run _ => ?_
  rw [Function.comp_apply]
  split_ifs <;> rfl

theorem updateDagRun_keys (db : Database) (key : String × String) {f : DagRun → DagRun}
    (hf : ∀ run, (f run).key = run.key) :
    (db.updateDagRun key f).dagRuns.map (·.key) = db.dagRuns.map (·.key) := by
  rw [Database.updateDagRun, List.map_map]
  refine List.map_congr_left fun run _ => ?_
  rw [Function.comp_apply]
  split_ifs
  · exact hf run
  · rfl

/-- What a step is, and what it requires. -/
theorem startStep_cases (hs : startStep db l = some db') :
    (∃ dagRuns now, l = .pass dagRuns now ∧ (dagRuns.map (·.key)).Nodup ∧
        (∀ run ∈ dagRuns, run ∈ db.dagRuns ∧ run.state = .queued) ∧
        db' = startQueuedDagruns db dagRuns now) ∨
      (∃ key state, l = .finish key state ∧ (db.dagRun key).any (·.state = .running) = true ∧
        state.finished = true ∧
        db' = db.updateDagRun key fun run => { run with state := state }) ∨
      ∃ run, l = .queue run ∧ run.state = .queued ∧ run.key ∉ db.dagRuns.map (·.key) ∧
        db' = { db with dagRuns := db.dagRuns ++ [run] } := by
  cases l with
  | pass dagRuns now =>
    simp only [startStep] at hs
    split_ifs at hs with hqueued
    exact .inl ⟨dagRuns, now, rfl, hqueued.1, hqueued.2, (Option.some.inj hs).symm⟩
  | finish key state =>
    simp only [startStep] at hs
    split_ifs at hs with hfinish
    exact .inr (.inl ⟨key, state, rfl, hfinish.1, hfinish.2, (Option.some.inj hs).symm⟩)
  | queue run =>
    simp only [startStep] at hs
    split_ifs at hs with hnew
    exact .inr (.inr ⟨run, rfl, hnew.1, hnew.2, (Option.some.inj hs).symm⟩)

theorem startStep_unique (h : UniqueRuns db) (hs : startStep db l = some db') : UniqueRuns db' := by
  obtain ⟨dagRuns, now, -, -, -, rfl⟩ | ⟨key, state, -, -, -, rfl⟩ | ⟨run, -, -, hnew, rfl⟩ :=
    startStep_cases hs
  · obtain ⟨started, -, hrows, -⟩ := startQueuedDagruns_startsFirst db dagRuns now
    rwa [UniqueRuns, hrows, startRows_keys]
  · rw [UniqueRuns, updateDagRun_keys db key]
    · exact h
    · exact fun _ => rfl
  · rw [UniqueRuns, List.map_append]
    refine List.nodup_append.mpr ⟨h, List.nodup_singleton _, ?_⟩
    rintro a ha b hb rfl
    exact hnew ((List.mem_singleton.mp hb).subst ha)

theorem runningRuns_eq (runs : List DagRun) (dagId : String) :
    runningRuns runs dagId = runs.countP fun run => run.state = .running && run.dagId = dagId := by
  simp only [runningRuns, Tally.count, List.countP_filter]
  exact List.countP_congr fun run _ => by simp [and_comm]

theorem rows_of_keys (hu : UniqueRuns db) (started : List DagRun) (dagId : String) :
    (db.dagRuns.countP fun run => run.key ∈ started.map (·.key) && run.dagId = dagId) ≤
      (started.filter (·.dagId = dagId)).length := by
  let rows := db.dagRuns.filter fun run => run.key ∈ started.map (·.key) && run.dagId = dagId
  have hnodup : (rows.map (·.key)).Nodup := (List.filter_sublist.map _).nodup hu
  have hsub : rows.map (·.key) ⊆ (started.filter (·.dagId = dagId)).map (·.key) := by
    intro key hkey
    obtain ⟨run, hrun, rfl⟩ := List.mem_map.mp hkey
    obtain ⟨hmem, hid⟩ := Bool.and_eq_true_iff.mp (List.mem_filter.mp hrun).2
    obtain ⟨other, hother, hkey⟩ := List.mem_map.mp (of_decide_eq_true hmem)
    have hid' : other.dagId = dagId := (congrArg Prod.fst hkey).trans (of_decide_eq_true hid)
    exact List.mem_map.mpr ⟨other, List.mem_filter.mpr ⟨hother, decide_eq_true hid'⟩, hkey⟩
  calc _ = (rows.map (·.key)).length := by rw [List.countP_eq_length_filter, List.length_map]
    _ ≤ ((started.filter (·.dagId = dagId)).map (·.key)).length := (hnodup.subperm hsub).length_le
    _ = _ := List.length_map _

/-- Rows that become running are the rows of the keys. -/
theorem startRows_running (hu : UniqueRuns db) (now : Time) (started : List DagRun)
    (dagId : String) :
    runningRuns (startRows now (started.map (·.key)) db).dagRuns dagId ≤
      runningRuns db.dagRuns dagId + (started.filter (·.dagId = dagId)).length := by
  rw [runningRuns_eq, runningRuns_eq, startRows, List.countP_map]
  have hrows : (db.dagRuns.countP _) ≤ _ := rows_of_keys hu started dagId
  refine Nat.le_trans ?_ (Nat.add_le_add_left hrows _)
  refine Nat.le_trans (List.countP_mono_left fun run _ hrun => ?_) (Tally.countP_or_le _ _ _)
  rw [Function.comp_apply] at hrun
  rw [Bool.or_eq_true]
  split_ifs at hrun with hkey
  · right
    simp only [startRun, decide_true, Bool.true_and] at hrun
    simp only [hkey, decide_true, Bool.true_and]
    exact hrun
  · exact .inl hrun

theorem startable_length {dag : Dag} (hdag : db.getDag dagId = some dag)
    (hlimit : 0 < dag.maxActiveRuns) (dagRuns : List DagRun) :
    (startable db dagRuns dagId).length ≤ dag.maxActiveRuns - runningRuns db.dagRuns dagId := by
  simp only [startable, hdag, if_neg hlimit.ne', List.length_take]
  omega

theorem finish_running (key : String × String) {state : DagRunState} (h : state.finished = true)
    (db : Database) (dagId : String) :
    runningRuns (db.updateDagRun key fun run => { run with state := state }).dagRuns dagId ≤
      runningRuns db.dagRuns dagId := by
  rw [runningRuns_eq, runningRuns_eq, Database.updateDagRun, List.countP_map]
  refine List.countP_mono_left fun run _ hrun => ?_
  rw [Function.comp_apply] at hrun
  split_ifs at hrun
  · have hne : state ≠ .running := by
      rintro rfl
      exact nomatch h
    simp [hne] at hrun
  · exact hrun

theorem startStep_running (hu : UniqueRuns db) (hs : startStep db l = some db') {dag : Dag}
    (hdag : db.getDag dagId = some dag) (hlimit : 0 < dag.maxActiveRuns) :
    runningRuns db'.dagRuns dagId ≤ max (runningRuns db.dagRuns dagId) dag.maxActiveRuns := by
  obtain ⟨dagRuns, now, -, -, -, rfl⟩ | ⟨key, state, -, -, hfinished, rfl⟩ |
    ⟨run, -, hqueued, -, rfl⟩ := startStep_cases hs
  · obtain ⟨started, -, hrows, hfirst⟩ := startQueuedDagruns_startsFirst db dagRuns now
    have hrunning := startRows_running hu now started dagId
    have hroom := startable_length hdag hlimit dagRuns
    rw [hfirst] at hrunning
    rw [hrows]
    omega
  · exact (finish_running key hfinished db dagId).trans (le_max_left _ _)
  · refine le_trans (Nat.le_of_eq ?_) (le_max_left _ _)
    simp [runningRuns_eq, List.countP_append, hqueued]

theorem startStep_getDag (hs : startStep db l = some db') (dagId : String) :
    db'.getDag dagId = db.getDag dagId := by
  obtain ⟨dagRuns, now, -, -, -, rfl⟩ | ⟨key, state, -, -, -, rfl⟩ | ⟨run, -, -, -, rfl⟩ :=
    startStep_cases hs
  · rw [startQueuedDagruns, startQueuedDagrunsLoop_eq]
    rfl
  · rfl
  · rfl

/-- At the end of a run, as at the end of each part of it. -/
theorem running_run {dag : Dag} {ls : List StartLabel} (hu : UniqueRuns db)
    (hdag : db.getDag dagId = some dag) (hlimit : 0 < dag.maxActiveRuns)
    (hr : Machine.run startStep db ls = some db') :
    runningRuns db'.dagRuns dagId ≤ max (runningRuns db.dagRuns dagId) dag.maxActiveRuns := by
  have hinvariant := Machine.run_invariant_all (I := fun t : Database =>
      UniqueRuns t ∧ t.getDag dagId = some dag ∧
        runningRuns t.dagRuns dagId ≤ max (runningRuns db.dagRuns dagId) dag.maxActiveRuns)
    (fun t l t' h hs => ?_) ⟨hu, hdag, le_max_left _ _⟩ hr
  · exact hinvariant.2.2
  · obtain ⟨hu, hdag, hbound⟩ := h
    have hstep := startStep_running hu hs hdag hlimit
    exact ⟨startStep_unique hu hs, (startStep_getDag hs dagId).trans hdag, by omega⟩

end Runs

/-- Every pass starts of each DAG the first runs it has room for and no others, and along
every run of passes no DAG has more runs running than it had at the start or may have. -/
theorem startQueuedDagruns_fills :
    (∀ db dagRuns now, StartsFirst db dagRuns now (startQueuedDagruns db dagRuns now)) ∧
      ∀ (db db' : Database) (ls : List StartLabel), UniqueRuns db →
        Machine.run startStep db ls = some db' → ∀ dagId dag, db.getDag dagId = some dag →
          0 < dag.maxActiveRuns →
          runningRuns db'.dagRuns dagId ≤ max (runningRuns db.dagRuns dagId) dag.maxActiveRuns :=
  ⟨startQueuedDagruns_startsFirst,
    fun _ _ _ hu hr _ _ hdag hlimit => running_run hu hdag hlimit hr⟩

theorem hours_mono : ∀ i j : Int, i < j → id i < id j := fun _ _ => id

def hourlyDag (dagId : String) (maxActiveRuns : Nat) : Dag where
  dagId := dagId
  maxActiveRuns := maxActiveRuns
  dagrunTimeout := none
  allowFutureExecDates := false
  timetable := ⟨id, hours_mono, none, fun _ _ => "scheduled"⟩
  tasks := []

def hourlyRun (dagId runId : String) (state : DagRunState) : DagRun where
  dagId := dagId
  runId := runId
  runType := .scheduled
  state := state
  executionDate := 0
  dataInterval := 0
  startDate := none

/-- One run of `etl` is running, and runs of it wait among those of other DAGs. -/
def mixedRuns : Database where
  pools := []
  dagModels := []
  dagRuns := [hourlyRun "etl" "0" .running, hourlyRun "etl" "1" .queued,
    hourlyRun "report" "1" .queued, hourlyRun "gone" "1" .queued, hourlyRun "etl" "2" .queued]
  serializedDags := [hourlyDag "etl" 2, hourlyDag "report" 0]
  taskInstances := ⟨[], List.nodup_nil⟩

example : (startedRuns mixedRuns (mixedRuns.dagRuns.drop 1)).map (·.key) =
    [("etl", "1"), ("report", "1")] := by decide

theorem startQueuedDagruns_fills_mixed :
    runningRuns (startQueuedDagruns mixedRuns (mixedRuns.dagRuns.drop 1) 0).dagRuns "etl" ≤
      max (runningRuns mixedRuns.dagRuns "etl") 2 :=
  startQueuedDagruns_fills.2 mixedRuns _ [.pass (mixedRuns.dagRuns.drop 1) 0] (by decide) rfl
    "etl" (hourlyDag "etl" 2) rfl (by decide)

end Beeflow.Scheduler
