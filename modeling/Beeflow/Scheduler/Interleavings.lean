import Beeflow.Scheduler.Progress

/-!
# Whatever the order of the steps

The invariants of every run of the scheduler's steps and the other parties': the
limits hold, a task instance is in execution for a running dag run only, and a
dag run that ended stays as it is.
-/

namespace Beeflow.Scheduler

open Airflow Machine

-- ---------------------------------------------------------------------------
-- The limits
-- ---------------------------------------------------------------------------

/-- Nothing is above a limit at `t` that was not so at `s`: no pool, no DAG and no task has more
task instances in execution than it may, and no DAG has more runs running. -/
structure StaysWithin (db db' : Database) : Prop where
  execution : KeepsLimits db db'
  running : ∀ dagId dag, db.getDag dagId = some dag → 0 < dag.maxActiveRuns →
    runningRuns db'.dagRuns dagId ≤ max (runningRuns db.dagRuns dagId) dag.maxActiveRuns

/-- The limits themselves, and the slots that task instances take. -/
structure SameLimits (db db' : Database) : Prop where
  pools : db'.pools = db.pools
  dags : db'.serializedDags = db.serializedDags
  models : ∀ dagId, (db'.dagModel dagId).map DagModel.limits =
    (db.dagModel dagId).map DagModel.limits
  slots : ∀ c ∈ db'.taskInstances.rows.map charge, 0 ≤ c.2.2

section Limits

variable {db db' db'' : Database} {s t : SchedulerState}

theorem Progress.sameLimits {settled decided : Prop} (h : Progress settled decided db db')
    (hslots : ∀ c ∈ db.taskInstances.rows.map charge, 0 ≤ c.2.2) : SameLimits db db' := by
  refine ⟨h.pools, h.dags, fun dagId => ?_, h.rows ▸ hslots⟩
  obtain ⟨f, hf, hmodels⟩ := h.models
  have hid : ∀ m, (f m).dagId = m.dagId := fun m => congrArg Prod.fst (hf m)
  unfold Database.dagModel
  rw [hmodels, find?_map_update (fun m => by rw [hid]), Option.map_map]
  exact congrArg (Option.map · _) (funext hf)

theorem active_charges (rows : List TaskInstance) {κ : Type} [DecidableEq κ]
    (f : TaskInstanceKey → κ) (k : κ) :
    Tally.count (fun ti => f ti.key) rows k = Tally.count (fun c => f c.1) (rows.map charge) k := by
  rw [Tally.count_comp]
  rfl

theorem Progress.keepsLimits {settled decided : Prop} (h : Progress settled decided db db')
    (hslots : ∀ c ∈ db.taskInstances.rows.map charge, 0 ≤ c.2.2) : KeepsLimits db db' where
  pool pool := by
    left
    rw [occupied_charges, occupied_charges]
    exact Tally.weight_sublist h.charges fun c hc =>
      hslots c ((List.filter_sublist.map charge).subset hc)
  dag dagId := by
    left
    have hcount := active_charges (f := TaskInstanceKey.dagId) (k := dagId)
    exact (hcount _).le.trans ((Tally.count_sublist h.charges dagId).trans (hcount _).ge)
  task task := by
    left
    have hcount := active_charges (f := fun key => (key.dagId, key.taskId)) (k := task)
    exact (hcount _).le.trans ((Tally.count_sublist h.charges task).trans (hcount _).ge)

theorem SameLimits.model (h : SameLimits db db') {dagId : String} {m : DagModel}
    (hm : db.dagModel dagId = some m) :
    ∃ m', db'.dagModel dagId = some m' ∧ m'.limits = m.limits := by
  have hmodels := h.models dagId
  rw [hm] at hmodels
  exact Option.map_eq_some_iff.mp hmodels

theorem SameLimits.model' (h : SameLimits db db') {dagId : String} {m' : DagModel}
    (hm' : db'.dagModel dagId = some m') :
    ∃ m, db.dagModel dagId = some m ∧ m.limits = m'.limits := by
  have hmodels := h.models dagId
  rw [hm'] at hmodels
  exact Option.map_eq_some_iff.mp hmodels.symm

theorem SameLimits.trans (h : SameLimits db db') (h' : SameLimits db' db'') :
    SameLimits db db'' :=
  ⟨h'.pools.trans h.pools, h'.dags.trans h.dags,
    fun dagId => (h'.models dagId).trans (h.models dagId), h'.slots⟩

theorem KeepsLimits.trans (hsame : SameLimits db db') (h : KeepsLimits db db')
    (h' : KeepsLimits db' db'') : KeepsLimits db db'' where
  pool pool := by
    rcases h'.pool pool with hle | ⟨total, htotal, hle⟩
    · rcases h.pool pool with hle' | ⟨total, htotal, hle'⟩
      · exact .inl (hle.trans hle')
      · exact .inr ⟨total, htotal, Slots.coe_le_trans hle hle'⟩
    · rw [poolTotal, hsame.pools, ← poolTotal] at htotal
      exact .inr ⟨total, htotal, hle⟩
  dag dagId := by
    rcases h'.dag dagId with hle | ⟨m', hm', hle⟩
    · rcases h.dag dagId with hle' | ⟨m, hm, hle'⟩
      · exact .inl (hle.trans hle')
      · exact .inr ⟨m, hm, by omega⟩
    · obtain ⟨m, hm, hlimits⟩ := hsame.model' hm'
      have hmax : m.maxActiveTasks = m'.maxActiveTasks := congrArg (·.2.1) hlimits
      exact .inr ⟨m, hm, hmax ▸ hle⟩
  task task := by
    rcases h'.task task with hle | hlimit
    · rcases h.task task with hle' | hlimit
      · exact .inl (hle.trans hle')
      · refine .inr fun m hm hlimits dag hdag limit htask => ?_
        have hle' := hlimit m hm hlimits dag hdag limit htask
        omega
    · refine .inr fun m hm hlimits dag hdag limit htask => ?_
      obtain ⟨m', hm', hsame'⟩ := hsame.model hm
      have hflag : m'.hasTaskConcurrencyLimits = m.hasTaskConcurrencyLimits :=
        congrArg (·.2.2) hsame'
      have hdag' : db'.getDag task.1 = some dag := by
        rw [Database.getDag, hsame.dags]
        exact hdag
      exact hlimit m' hm' (hflag ▸ hlimits) dag hdag' limit htask

theorem StaysWithin.trans (hsame : SameLimits db db') (h : StaysWithin db db')
    (h' : StaysWithin db' db'') : StaysWithin db db'' := by
  refine ⟨h.execution.trans hsame h'.execution, fun dagId dag hdag hlimit => ?_⟩
  have hdag' : db'.getDag dagId = some dag := by
    rw [Database.getDag, hsame.dags]
    exact hdag
  have hle := h.running dagId dag hdag hlimit
  have hle' := h'.running dagId dag hdag' hlimit
  omega

theorem StaysWithin.refl (db : Database) : StaysWithin db db :=
  ⟨⟨fun _ => .inl (le_refl _), fun _ => .inl (le_refl _), fun _ => .inl (le_refl _)⟩,
    fun _ _ _ _ => le_max_left _ _⟩

theorem loopStep_limits {l : LoopLabel} (hu : UniqueRuns s.db)
    (hslots : ∀ c ∈ s.db.taskInstances.rows.map charge, 0 ≤ c.2.2) (h : loopStep s l = some t) :
    SameLimits s.db t.db ∧ StaysWithin s.db t.db := by
  rcases loopStep_cases hu h with ⟨maxTis, jobId, now, tis, -, hpass⟩ | hprogress
  · obtain ⟨hrespects, hqueues⟩ := executable_spec hpass
    refine ⟨⟨hqueues.pools, hqueues.dags, fun dagId => ?_, hqueues.rows ▸ hslots⟩,
      hrespects.keepsLimits hqueues, fun dagId dag _ _ => ?_⟩
    · rw [Database.dagModel, hqueues.models]
      rfl
    · rw [(executable_runs hpass).1]
      exact le_max_left _ _
  · exact ⟨hprogress.sameLimits hslots, hprogress.keepsLimits hslots, hprogress.running⟩

theorem limits_run {ls : List LoopLabel} (hu : UniqueRuns s.db)
    (hslots : ∀ c ∈ s.db.taskInstances.rows.map charge, 0 ≤ c.2.2)
    (hr : run loopStep s ls = some t) : StaysWithin s.db t.db := by
  have hinvariant := run_invariant_all (I := fun t : SchedulerState =>
      UniqueRuns t.db ∧ SameLimits s.db t.db ∧ StaysWithin s.db t.db)
    (fun u l t h hs => ?_) ⟨hu, ⟨rfl, rfl, fun _ => rfl, hslots⟩, .refl s.db⟩ hr
  · exact hinvariant.2.2
  · obtain ⟨hu, hsame, hwithin⟩ := h
    obtain ⟨hsame', hwithin'⟩ := loopStep_limits hu hsame.slots hs
    exact ⟨loopStep_unique hu hs, hsame.trans hsame', hwithin.trans hsame hwithin'⟩

end Limits

/-- Whatever schedulers, workers and users do and in whatever order, nothing is taken above a
limit: no pool, no DAG and no task by what is in execution, and no DAG by its running runs. -/
theorem schedulers_stayWithin {s t : SchedulerState} {ls : List LoopLabel}
    (hu : UniqueRuns s.db) (hslots : ∀ ti ∈ s.db.taskInstances.rows, 0 ≤ ti.poolSlots)
    (hr : run loopStep s ls = some t) : StaysWithin s.db t.db := by
  refine limits_run hu (fun c hc => ?_) hr
  obtain ⟨ti, hti, rfl⟩ := List.mem_map.mp hc
  exact hslots ti hti

def extract : TaskInstanceKey := ⟨"etl", "extract", "0", -1⟩

def load : TaskInstanceKey := ⟨"etl", "load", "0", -1⟩

/-- The task instances of the run are executed one after the other, and the run ends. -/
def loadRun : List LoopLabel :=
  [.pass (.pass 8 7 0), .pass (.write extract (some .success)), .pass (.pass 8 7 0),
    .pass (.write load (some .success)),
    .scheduler (.scheduleDagRun ("etl", "0") 0 ⟨.success, []⟩)]

theorem schedulers_stayWithin_loadRun : ∃ t,
    run loopStep (hourlyLoad .running .running) loadRun = some t ∧
      StaysWithin (hourlyLoad .running .running).db t.db :=
  ⟨_, rfl, schedulers_stayWithin (by decide) (by decide)
    (rfl : run loopStep (hourlyLoad .running .running) loadRun = some _)⟩

-- ---------------------------------------------------------------------------
-- Who is in execution
-- ---------------------------------------------------------------------------

/-- Only the task instances of running dag runs are in execution. -/
def ExecutesRunning (db : Database) : Prop :=
  ∀ ti ∈ db.taskInstances.rows, ti.inExecution →
    ∃ run, db.dagRun ti.key.run = some run ∧ run.state = .running

instance (db : Database) : Decidable (ExecutesRunning db) :=
  decidable_of_iff (∀ ti ∈ db.taskInstances.rows, ti.inExecution →
    (db.dagRun ti.key.run).any (·.state = .running)) (by
      simp only [ExecutesRunning, Option.any_eq_true, decide_eq_true_eq])

theorem RunMoves.key {settled decided : Prop} {db' : Database} {run run' : DagRun}
    (h : RunMoves settled decided db' run run') : run'.key = run.key := by
  cases h <;> rfl

theorem RunMoves.of_running {settled decided : Prop} {db' : Database} {run run' : DagRun}
    (h : RunMoves settled decided db' run run') (hs : settled) (hrunning : run.state = .running) :
    run'.state = .running ∨ Idle db' run.key := by
  cases h with
  | stays => exact .inl hrunning
  | starts hqueued => exact .inl rfl
  | moves _ state hidle => exact (em (state = .running)).imp_right (hidle hs)

theorem RunMoves.of_finished {settled decided : Prop} {db' : Database} {run run' : DagRun}
    (h : RunMoves settled decided db' run run') (hfinished : run.state.finished) : run' = run := by
  cases h with
  | stays => rfl
  | starts hqueued => simp [hqueued, DagRunState.finished] at hfinished
  | moves hrunning => simp [hrunning, DagRunState.finished] at hfinished

section Execution

variable {db : Database} {s t : SchedulerState} {l : LoopLabel}

theorem mem_charges {rows : List TaskInstance} {ti : TaskInstance} (hti : ti ∈ rows)
    (hin : ti.inExecution) : charge ti ∈ (rows.filter (·.inExecution)).map charge :=
  List.mem_map_of_mem (List.mem_filter.mpr ⟨hti, hin⟩)

theorem ExecutesRunning.of_charge (h : ExecutesRunning db) {ti : TaskInstance}
    (hti : charge ti ∈ (db.taskInstances.rows.filter (·.inExecution)).map charge) :
    ∃ run, db.dagRun ti.key.run = some run ∧ run.state = .running := by
  obtain ⟨ti', hti', hcharge⟩ := List.mem_map.mp hti
  obtain ⟨hmem, hin⟩ := List.mem_filter.mp hti'
  have hkey : ti'.key = ti.key := congrArg Prod.fst hcharge
  exact hkey ▸ h ti' hmem hin

theorem ExecutesRunning.step (h : ExecutesRunning s.db) (hu : UniqueRuns s.db)
    (hc : Settles s l) (hs : loopStep s l = some t) : ExecutesRunning t.db := by
  intro ti hti hin
  have hcharge := mem_charges hti hin
  rcases loopStep_cases hu hs with ⟨maxTis, jobId, now, tis, -, hpass⟩ | hprogress
  · obtain ⟨hsame, hruns⟩ := executable_runs hpass
    rw [Database.dagRun, hsame]
    have hmem := (executable_spec hpass).2.charges.subset hcharge
    rw [List.map_append, List.mem_append] at hmem
    rcases hmem with hmem | hmem
    · exact h.of_charge hmem
    · obtain ⟨ti', hti', heq⟩ := List.mem_map.mp hmem
      have hkey : ti'.key = ti.key := congrArg Prod.fst heq
      exact hkey ▸ hruns ti' hti'
  · obtain ⟨run, hrow, hrunning⟩ := h.of_charge (hprogress.charges.subset hcharge)
    obtain ⟨hmem, hkey⟩ := (dagRun_eq_some hu).mp hrow
    obtain ⟨g, new, hmoves, -, hrows⟩ := hprogress.runs
    have hmem' : g run ∈ t.db.dagRuns :=
      hrows ▸ List.mem_append_left _ (List.mem_map_of_mem hmem)
    have hfound : (g run).key = ti.key.run → t.db.dagRun ti.key.run = some (g run) :=
      fun hk => (dagRun_eq_some (loopStep_unique hu hs)).mpr ⟨hmem', hk⟩
    refine ⟨g run, hfound ((hmoves run hmem).key.trans hkey), ?_⟩
    rcases (hmoves run hmem).of_running hc hrunning with hstill | hidle
    · exact hstill
    · exact absurd hin (by simp [hidle ti hti hkey.symm])

theorem finished_step (hu : UniqueRuns s.db) {key : String × String} {run : DagRun}
    (hrow : s.db.dagRun key = some run) (hfinished : run.state.finished)
    (hs : loopStep s l = some t) : t.db.dagRun key = some run := by
  rcases loopStep_cases hu hs with ⟨maxTis, jobId, now, tis, -, hpass⟩ | hprogress
  · rw [Database.dagRun, (executable_runs hpass).1]
    exact hrow
  · obtain ⟨hmem, hkey⟩ := (dagRun_eq_some hu).mp hrow
    obtain ⟨g, new, hmoves, -, hrows⟩ := hprogress.runs
    have hmem' : g run ∈ t.db.dagRuns :=
      hrows ▸ List.mem_append_left _ (List.mem_map_of_mem hmem)
    rw [(hmoves run hmem).of_finished hfinished] at hmem'
    exact (dagRun_eq_some (loopStep_unique hu hs)).mpr ⟨hmem', hkey⟩

end Execution

/-- Where `update_state` never ends a run with a task instance in execution, no run of the steps
leaves one in execution for a dag run that is not running. -/
theorem schedulers_executeRunning {s t : SchedulerState} {ls : List LoopLabel}
    (hu : UniqueRuns s.db) (hexecutes : ExecutesRunning s.db)
    (hc : Along loopStep Settles s ls) (hr : run loopStep s ls = some t) :
    ExecutesRunning t.db := by
  have hinvariant := run_invariant
    (I := fun t : SchedulerState => UniqueRuns t.db ∧ ExecutesRunning t.db)
    (fun u l t h hc hs => ⟨loopStep_unique h.1 hs, h.2.step h.1 hc hs⟩) ⟨hu, hexecutes⟩ hc hr
  exact hinvariant.2

theorem schedulers_executeRunning_loadRun : ∃ t,
    run loopStep (hourlyLoad .running .running) loadRun = some t ∧ ExecutesRunning t.db :=
  ⟨_, rfl, schedulers_executeRunning (s := hourlyLoad .running .running) (by decide) (by decide)
    (by decide : Along loopStep Settles _ loadRun) rfl⟩

/-- A dag run that ended is never written again, and no pass queues a task instance of it. -/
theorem schedulers_leaveFinished {s t : SchedulerState} {ls : List LoopLabel}
    (hu : UniqueRuns s.db) {key : String × String} {dagRun : DagRun}
    (hrow : s.db.dagRun key = some dagRun) (hfinished : dagRun.state.finished)
    (hr : run loopStep s ls = some t) :
    t.db.dagRun key = some dagRun ∧
      ∀ maxTis jobId now tis db,
        executableTaskInstancesToQueued t.db maxTis jobId now = some (tis, db) →
        ∀ ti ∈ tis, ti.key.run ≠ key := by
  have hinvariant := run_invariant_all
    (I := fun t : SchedulerState => UniqueRuns t.db ∧ t.db.dagRun key = some dagRun)
    (fun u l t h hs => ⟨loopStep_unique h.1 hs, finished_step h.1 h.2 hfinished hs⟩) ⟨hu, hrow⟩ hr
  refine ⟨hinvariant.2, fun maxTis jobId now tis db hpass ti hti hkey => ?_⟩
  obtain ⟨run, hrun, hrunning⟩ := (executable_runs hpass).2 ti hti
  rw [hkey, hinvariant.2] at hrun
  obtain rfl := Option.some.inj hrun
  rw [hrunning] at hfinished
  exact nomatch hfinished

/-- The run has ended, and the next one is created, started and looked at. -/
def nextRun : List LoopLabel :=
  [.scheduler (.createDagRuns ["etl"] 2), .scheduler (.startQueuedDagruns [("etl", "scheduled")] 2),
    .pass (.pass 8 7 2), .scheduler (.scheduleDagRun ("etl", "scheduled") 2 ⟨.running, [load]⟩)]

theorem schedulers_leaveFinished_nextRun : ∃ t,
    run loopStep (hourlyLoad .failed .skipped) nextRun = some t ∧
      t.db.dagRun ("etl", "0") = some (hourlyRun "etl" "0" .failed) :=
  ⟨_, rfl, (schedulers_leaveFinished (by decide) rfl rfl
    (rfl : run loopStep (hourlyLoad .failed .skipped) nextRun = some _)).1⟩

end Beeflow.Scheduler
