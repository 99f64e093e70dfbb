import Beeflow.Scheduler.Interleavings

/-!
# What becomes of a row

In whatever order the steps come, a dag run keeps its row and only moves
forward, and a task instance that a pass queued is queued again only after
somebody took it out of execution.
-/

namespace Beeflow.Airflow

/-- The states of a dag run in their order. -/
def DagRunState.rank : DagRunState → Nat
  | .queued => 0
  | .running => 1
  | .success | .failed => 2

/-- The columns that identify a dag run and say what it is about. -/
def DagRun.identity (run : DagRun) : String × String × DagRunType × Time × Int :=
  (run.dagId, run.runId, run.runType, run.executionDate, run.dataInterval)

end Beeflow.Airflow

namespace Beeflow.Scheduler

open Airflow Machine

-- ---------------------------------------------------------------------------
-- Dag runs
-- ---------------------------------------------------------------------------

/-- The run is where it was or further on; only its start writes its start date. -/
structure Advances (run run' : DagRun) : Prop where
  identity : run'.identity = run.identity
  rank : run.state.rank ≤ run'.state.rank
  ended : run.state.finished → run' = run
  started : run.state ≠ .queued → run'.startDate = run.startDate

section Runs

variable {run run' run'' : DagRun} {s t : SchedulerState} {l : LoopLabel} {key : String × String}

theorem Advances.refl (run : DagRun) : Advances run run :=
  ⟨rfl, Nat.le_refl _, fun _ => rfl, fun _ => rfl⟩

theorem Advances.trans (h : Advances run run') (h' : Advances run' run'') :
    Advances run run'' := by
  refine ⟨h'.identity.trans h.identity, h.rank.trans h'.rank, fun hended => ?_, fun hne => ?_⟩
  · have hsame := h.ended hended
    rw [h'.ended (hsame ▸ hended), hsame]
  · refine (h'.started fun hqueued => hne ?_).trans (h.started hne)
    have hrank := h.rank
    rw [hqueued] at hrank
    cases hstate : run.state with
    | queued => rfl
    | _ => rw [hstate] at hrank; contradiction

theorem RunMoves.advances {settled decided : Prop} {db' : Database}
    (h : RunMoves settled decided db' run run') (hd : decided) : Advances run run' := by
  cases h with
  | stays => exact .refl run
  | starts hqueued now =>
    refine ⟨rfl, ?_, fun hended => ?_, fun hne => absurd hqueued hne⟩
    · rw [hqueued]
      exact Nat.zero_le _
    · rw [hqueued] at hended
      exact nomatch hended
  | moves hrunning state _ hdecided =>
    refine ⟨rfl, ?_, fun hended => ?_, fun _ => rfl⟩
    · rw [hrunning]
      cases state with
      | queued => exact absurd rfl (hdecided hd)
      | running => exact Nat.le_refl _
      | success | failed => exact Nat.le_succ _
    · rw [hrunning] at hended
      exact nomatch hended

theorem advances_step (hu : UniqueRuns s.db) (hc : Decides s l) (hs : loopStep s l = some t)
    (hrow : s.db.dagRun key = some run) :
    ∃ run', t.db.dagRun key = some run' ∧ Advances run run' := by
  rcases loopStep_cases hu hs with ⟨maxTis, jobId, now, tis, -, hpass⟩ | hprogress
  · rw [Database.dagRun, (executable_runs hpass).1]
    exact ⟨run, hrow, .refl run⟩
  · obtain ⟨hmem, hkey⟩ := (dagRun_eq_some hu).mp hrow
    obtain ⟨g, new, hmoves, -, hrows⟩ := hprogress.runs
    have hmem' : g run ∈ t.db.dagRuns :=
      hrows ▸ List.mem_append_left _ (List.mem_map_of_mem hmem)
    have hmove := hmoves run hmem
    exact ⟨g run, (dagRun_eq_some (loopStep_unique hu hs)).mpr ⟨hmem', hmove.key.trans hkey⟩,
      hmove.advances hc⟩

end Runs

/-- Where `update_state` never queues a run, no run of the steps deletes a dag run, changes what
it is about, or moves it back. -/
theorem schedulers_moveForward {s t : SchedulerState} {ls : List LoopLabel}
    (hu : UniqueRuns s.db) (hc : Along loopStep Decides s ls) (hr : run loopStep s ls = some t)
    {key : String × String} {dagRun : DagRun} (hrow : s.db.dagRun key = some dagRun) :
    ∃ dagRun', t.db.dagRun key = some dagRun' ∧ Advances dagRun dagRun' := by
  have hinvariant := run_invariant (I := fun t : SchedulerState => UniqueRuns t.db ∧
      ∃ dagRun', t.db.dagRun key = some dagRun' ∧ Advances dagRun dagRun')
    (fun u l t h hc hs => ?_) ⟨hu, dagRun, hrow, .refl dagRun⟩ hc hr
  · exact hinvariant.2
  · obtain ⟨hu, run, hrow, hadvances⟩ := h
    obtain ⟨run', hrow', hadvances'⟩ := advances_step hu hc hs hrow
    exact ⟨loopStep_unique hu hs, run', hrow', hadvances.trans hadvances'⟩

theorem schedulers_moveForward_loadRun : ∃ t dagRun',
    run loopStep (hourlyLoad .running .running) loadRun = some t ∧
      t.db.dagRun ("etl", "0") = some dagRun' ∧
        Advances (hourlyRun "etl" "0" .running) dagRun' := by
  have hr : run loopStep (hourlyLoad .running .running) loadRun = some _ := rfl
  obtain ⟨dagRun', hrow, hadvances⟩ := schedulers_moveForward (by decide)
    (by decide : Along loopStep Decides (hourlyLoad .running .running) loadRun) hr
    (rfl : (hourlyLoad .running .running).db.dagRun ("etl", "0") = some _)
  exact ⟨_, dagRun', hr, hrow, hadvances⟩

-- ---------------------------------------------------------------------------
-- Task instances
-- ---------------------------------------------------------------------------

/-- Some row of the key is queued or running. -/
def InExecution (key : TaskInstanceKey) (db : Database) : Prop :=
  ∃ ti ∈ db.taskInstances.rows, ti.key = key ∧ ti.inExecution

/-- The steps that take a task instance out of execution: a write of its row, the timeout of its
run, and a decision that names it. -/
inductive TakesOut (key : TaskInstanceKey) (db : Database) : LoopLabel → Prop
  | write (state : Option TaskInstanceState) (hout : state.any (·.inExecution) = false) :
      TakesOut key db (.pass (.write key state))
  | timesOut (run : DagRun) (dag : Dag) (now : Time) (decision : Decision)
      (hrow : db.dagRun key.run = some run) (hdag : db.getDag run.dagId = some dag)
      (htimeout : timedOut dag run now) :
      TakesOut key db (.scheduler (.scheduleDagRun key.run now decision))
  | reschedules (run : String × String) (now : Time) (decision : Decision)
      (hnamed : key ∈ decision.schedulableTis) :
      TakesOut key db (.scheduler (.scheduleDagRun run now decision))

section Rows

variable {db db' : Database} {s t : SchedulerState} {key : TaskInstanceKey}

theorem InExecution.of_rows (h : InExecution key db)
    (hrows : db'.taskInstances = db.taskInstances) : InExecution key db' := by
  obtain ⟨ti, hti, hkey, hin⟩ := h
  exact ⟨ti, hrows ▸ hti, hkey, hin⟩

/-- A write that leaves the row alone, or in execution. -/
theorem InExecution.writeRows (h : InExecution key db) {p : TaskInstance → Bool}
    {state : Option TaskInstanceState}
    (hp : ∀ ti, ti.key = key → p ti → state.any (·.inExecution))
    (hdb : db'.taskInstances = writeRows db.taskInstances p state) : InExecution key db' := by
  obtain ⟨ti, hti, hkey, hin⟩ := h
  refine ⟨if p ti then { ti with state := state } else ti, ?_, ?_, ?_⟩
  · rw [hdb]
    exact List.mem_map_of_mem (f := fun ti => if p ti then { ti with state := state } else ti) hti
  · split_ifs
    · exact hkey
    · exact hkey
  · split_ifs with hpti
    · exact hp ti hkey hpti
    · exact hin

theorem inExecution_charge : InExecution key db ↔
    ∃ c ∈ (db.taskInstances.rows.filter (·.inExecution)).map charge, c.1 = key := by
  constructor
  · rintro ⟨ti, hti, rfl, hin⟩
    exact ⟨charge ti, mem_charges hti hin, rfl⟩
  · rintro ⟨c, hc, rfl⟩
    obtain ⟨ti, hti, rfl⟩ := List.mem_map.mp hc
    obtain ⟨hmem, hin⟩ := List.mem_filter.mp hti
    exact ⟨ti, hmem, rfl, hin⟩

/-- What a pass queues was not in execution, and is so afterwards. -/
theorem pass_takesUp {maxTis jobId : Nat} {now : Time} {tis : List TaskInstance}
    (hpass : executableTaskInstancesToQueued db maxTis jobId now = some (tis, db'))
    {ti : TaskInstance} (hti : ti ∈ tis) : ¬InExecution ti.key db ∧ InExecution ti.key db' := by
  have hperm := (executable_spec hpass).2.charges
  have hmem : charge ti ∈ tis.map charge := List.mem_map_of_mem hti
  rw [List.map_append] at hperm
  refine ⟨fun hin => ?_, inExecution_charge.mpr
    ⟨charge ti, hperm.mem_iff.mpr (List.mem_append_right _ hmem), rfl⟩⟩
  obtain ⟨c, hc, hkey⟩ := inExecution_charge.mp hin
  have hnodup :
      ((db'.taskInstances.rows.filter (·.inExecution)).map charge).map Prod.fst |>.Nodup := by
    rw [List.map_map]
    exact (List.filter_sublist.map _).nodup db'.taskInstances.nodup
  have hboth := (hperm.map Prod.fst).nodup_iff.mp hnodup
  rw [List.map_append, List.nodup_append] at hboth
  exact hboth.2.2 c.1 (List.mem_map_of_mem hc) (charge ti).1 (List.mem_map_of_mem hmem) hkey

/-- What `_schedule_dag_run` writes to the task instances. -/
theorem scheduleDagRun_taskInstances (db : Database) (run : DagRun) (now : Time)
    (decision : Decision) :
    (scheduleDagRun db run now decision).taskInstances = db.taskInstances ∨
      (∃ dag, db.getDag run.dagId = some dag ∧ timedOut dag run now ∧
        (scheduleDagRun db run now decision).taskInstances =
          writeRows db.taskInstances (fun ti => ti.dagId = run.dagId &&
            ti.key.runId = run.runId && ti.state.any (·.unfinished)) (some .skipped)) ∨
      (scheduleDagRun db run now decision).taskInstances =
        writeRows db.taskInstances (·.key ∈ decision.schedulableTis) (some .scheduled) := by
  unfold scheduleDagRun
  cases hdag : db.getDag run.dagId with
  | none => exact .inl rfl
  | some dag =>
    dsimp only
    split_ifs with htimeout hfuture hfinished
    · exact .inr (.inl ⟨dag, rfl, htimeout, rfl⟩)
    · exact .inl rfl
    · exact .inr (.inr rfl)
    · exact .inr (.inr rfl)

theorem inExecution_scheduleDagRun {run : DagRun} {now : Time} {decision : Decision}
    (hrow : db.dagRun run.key = some run) (h : InExecution key db) :
    InExecution key (scheduleDagRun db run now decision) ∨
      TakesOut key db (.scheduler (.scheduleDagRun run.key now decision)) := by
  rcases scheduleDagRun_taskInstances db run now decision with
    hsame | ⟨dag, hdag, htimeout, hset⟩ | hset
  · exact .inl (h.of_rows hsame)
  · by_cases hrun : key.run = run.key
    · rw [← hrun] at hrow ⊢
      exact .inr (.timesOut run dag now decision hrow hdag htimeout)
    · refine .inl (h.writeRows (fun ti hkey hp => absurd ?_ hrun) hset)
      simp only [Bool.and_eq_true, decide_eq_true_eq] at hp
      exact hkey ▸ Prod.ext hp.1.1 hp.1.2
  · by_cases hnamed : key ∈ decision.schedulableTis
    · exact .inr (.reschedules run.key now decision hnamed)
    · refine .inl (h.writeRows (fun ti hkey hp => absurd ?_ hnamed) hset)
      exact hkey ▸ of_decide_eq_true hp

theorem inExecution_write {key' : TaskInstanceKey} {state : Option TaskInstanceState}
    (h : InExecution key db) :
    InExecution key { db with taskInstances := writeState db.taskInstances key' state } ∨
      TakesOut key db (.pass (.write key' state)) := by
  by_cases hout : key' = key ∧ state.any (·.inExecution) = false
  · obtain ⟨rfl, hout⟩ := hout
    exact .inr (.write state hout)
  · refine .inl (h.writeRows (fun ti hkey hp => ?_) rfl)
    by_contra hin
    exact hout ⟨(of_decide_eq_true hp).symm.trans hkey, by simpa using hin⟩

theorem inExecution_scheduler {l : SchedulerLabel} (hs : schedulerStep s l = some t)
    (h : InExecution key s.db) : InExecution key t.db ∨ TakesOut key s.db (.scheduler l) := by
  cases l with
  | createDagRuns dagIds now =>
    simp only [schedulerStep] at hs
    split_ifs at hs
    obtain ⟨db, hdb, rfl⟩ := Option.map_eq_some_iff.mp hs
    obtain ⟨f, new, -, -, rfl⟩ := createDagRunsLoop_rows hdb
    exact .inl (h.of_rows rfl)
  | startQueuedDagruns keys now =>
    simp only [schedulerStep] at hs
    split_ifs at hs
    obtain rfl := Option.some.inj hs
    obtain ⟨started, -, hrows, -⟩ := startQueuedDagruns_startsFirst s.db
      (keys.filterMap s.db.dagRun) now
    exact .inl (h.of_rows (by rw [hrows]; rfl))
  | scheduleDagRun key' now decision =>
    simp only [schedulerStep] at hs
    split at hs
    · rename_i run hrow
      split_ifs at hs
      obtain rfl := Option.some.inj hs
      have hkey : run.key = key' := by simpa using List.find?_some hrow
      subst hkey
      exact inExecution_scheduleDagRun hrow h
    · cases hs
  | trigger dagId runId executionDate interval =>
    simp only [schedulerStep] at hs
    split at hs
    · split_ifs at hs
      obtain rfl := Option.some.inj hs
      exact .inl (h.of_rows rfl)
    · cases hs
  | updatePausedDags | newJob | setPaused =>
    obtain rfl := Option.some.inj hs
    exact .inl (h.of_rows rfl)

theorem inExecution_step {l : LoopLabel} (hs : loopStep s l = some t) (h : InExecution key s.db) :
    InExecution key t.db ∨ TakesOut key s.db l := by
  cases l with
  | scheduler l =>
    obtain ⟨u, hstep, hs⟩ := Option.bind_eq_some_iff.mp hs
    obtain ⟨db, hdb, rfl⟩ := Option.map_eq_some_iff.mp hs
    obtain ⟨-, rfl⟩ := commit_eq_some.mp hdb
    exact inExecution_scheduler hstep h
  | pass l =>
    obtain ⟨db, hdb, rfl⟩ := Option.map_eq_some_iff.mp hs
    cases l with
    | pass maxTis jobId now =>
      obtain ⟨tis, -, hqueues⟩ := pass_queues hdb
      obtain ⟨c, hc, hkey⟩ := inExecution_charge.mp h
      refine .inl (inExecution_charge.mpr ⟨c, hqueues.charges.mem_iff.mpr ?_, hkey⟩)
      rw [List.map_append]
      exact List.mem_append_left _ hc
    | write key' state =>
      obtain ⟨-, rfl⟩ := write_cases hdb
      exact inExecution_write h
  | queue run =>
    simp only [loopStep] at hs
    split_ifs at hs
    obtain ⟨db, hdb, rfl⟩ := Option.map_eq_some_iff.mp hs
    obtain ⟨-, rfl⟩ := commit_eq_some.mp hdb
    exact .inl (h.of_rows rfl)

end Rows

/-- Where two passes queue the same task instance, a step between them took it out of execution. -/
theorem schedulers_queueOnce {s t : SchedulerState} {maxTis jobId maxTis' jobId' : Nat}
    {now now' : Time} {tis tis' : List TaskInstance} {db db' : Database} {ls : List LoopLabel}
    (hfirst : executableTaskInstancesToQueued s.db maxTis jobId now = some (tis, db))
    (hr : run loopStep { s with db := db } ls = some t)
    (hsecond : executableTaskInstancesToQueued t.db maxTis' jobId' now' = some (tis', db'))
    {ti ti' : TaskInstance} (hti : ti ∈ tis) (hti' : ti' ∈ tis') (hkey : ti'.key = ti.key) :
    ∃ ls₁ l ls₂ u, ls = ls₁ ++ l :: ls₂ ∧ run loopStep { s with db := db } ls₁ = some u ∧
      TakesOut ti.key u.db l := by
  have hstep : ∀ (u : SchedulerState) l v, True → True → loopStep u l = some v →
      True ∧ (InExecution ti.key u.db → InExecution ti.key v.db ∨ TakesOut ti.key u.db l) :=
    fun u l v _ _ hs => ⟨trivial, inExecution_step hs⟩
  rcases run_until hstep trivial (pass_takesUp hfirst hti).2 along_true hr with
    hin | ⟨ls₁, l, ls₂, u, v, hls, hrun, -, htakes⟩
  · exact absurd hin (hkey ▸ (pass_takesUp hsecond hti').1)
  · exact ⟨ls₁, l, ls₂, u, hls, hrun, htakes⟩

/-- The load is queued, given up and scheduled again. -/
def loadAgain : List LoopLabel :=
  [.pass (.write load (some .upForRetry)),
    .scheduler (.scheduleDagRun ("etl", "0") 1 ⟨.running, [load]⟩)]

theorem schedulers_queueOnce_loadAgain :
    ∃ t ls₁ l ls₂ u, run loopStep (hourlyLoad .running .failed)
        (.pass (.pass 8 7 0) :: loadAgain) = some t ∧
      (executableTaskInstancesToQueued t.db 8 9 2).isSome ∧ loadAgain = ls₁ ++ l :: ls₂ ∧
        TakesOut load u l := by
  obtain ⟨ls₁, l, ls₂, u, hls, -, htakes⟩ := @schedulers_queueOnce (hourlyLoad .running .failed) _
    8 7 8 9 0 2 _ _ _ _ loadAgain rfl rfl rfl _ _ (.head _) (.head _) rfl
  exact ⟨_, ls₁, l, ls₂, u.db, rfl, rfl, hls, htakes⟩

end Beeflow.Scheduler
