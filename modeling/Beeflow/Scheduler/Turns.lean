import Mathlib.Data.Finset.Card
import Beeflow.Lib.Loops
import Beeflow.Scheduler.Loop

/-!
# The turns of the admission loop

Each turn that goes on excludes another pool, DAG or task, and only such as
the snapshot names. So there is at most one turn more than there are of those,
whatever the turns write to the task instances.
-/

namespace Beeflow.Scheduler

open Airflow

-- ---------------------------------------------------------------------------
-- What a snapshot names
-- ---------------------------------------------------------------------------

/-- The pools that there are, and those that a task instance asks for. -/
def snapshotPools (db : Database) : Finset String :=
  (db.pools.map Prod.fst).toFinset ∪ (db.taskInstances.rows.map (·.pool)).toFinset

def snapshotDags (db : Database) : Finset String := (db.dagModels.map (·.dagId)).toFinset

/-- The pairs of `dag_id` and `task_id`. -/
def snapshotTasks (db : Database) : Finset (String × String) :=
  (db.taskInstances.rows.map (·.task)).toFinset

structure Pass.StaysWithin (db : Database) (s : Pass) : Prop where
  pools : s.starvedPools ⊆ snapshotPools db
  dags : s.starvedDags ⊆ snapshotDags db
  tasks : s.starvedTasks ⊆ snapshotTasks db

/-- The exclusion sets grow, one of them strictly. -/
structure Pass.Enlarges (s s' : Pass) : Prop where
  pools : s.starvedPools ⊆ s'.starvedPools
  dags : s.starvedDags ⊆ s'.starvedDags
  tasks : s.starvedTasks ⊆ s'.starvedTasks
  strict : s.starvedPools ⊂ s'.starvedPools ∨ s.starvedDags ⊂ s'.starvedDags ∨
    s.starvedTasks ⊂ s'.starvedTasks

/-- How many pools, DAGs and tasks are excluded. -/
def Pass.starvedCount (s : Pass) : Nat :=
  s.starvedPools.card + s.starvedDags.card + s.starvedTasks.card

-- ---------------------------------------------------------------------------
-- One turn
-- ---------------------------------------------------------------------------

section Turn

variable {db : Database} {maxTis : Nat} {s s' : Pass}

theorem Pass.start_staysWithin (db : Database) : (Pass.start db).StaysWithin db where
  pools := by
    intro pool hpool
    obtain ⟨p, hp, rfl⟩ := List.mem_map.mp (List.mem_toFinset.mp hpool)
    obtain ⟨q, hq, rfl⟩ := List.mem_map.mp (List.mem_filter.mp hp).1
    exact Finset.mem_union_left _ (List.mem_toFinset.mpr (List.mem_map_of_mem hq))
  dags := Finset.empty_subset _
  tasks := Finset.empty_subset _

theorem Pass.Grows.enlarges {rows : List TaskInstance} (h : s.Grows rows s')
    (hf : s.foundNewFilters s' = true) : s.Enlarges s' := by
  refine ⟨h.pools.1, h.dags.1, h.tasks.1, ?_⟩
  simp only [Pass.foundNewFilters, Bool.or_eq_true, decide_eq_true_eq] at hf
  have hstrict {α : Type} {a b : Finset α} (hsub : a ⊆ b) (hcard : a.card < b.card) : a ⊂ b :=
    ⟨hsub, fun hback => absurd (Finset.card_le_card hback) (Nat.not_le.mpr hcard)⟩
  rcases hf with (hp | hd) | ht
  · exact .inl (hstrict h.pools.1 hp)
  · exact .inr (.inl (hstrict h.dags.1 hd))
  · exact .inr (.inr (hstrict h.tasks.1 ht))

theorem Pass.Enlarges.starvedCount_lt (h : s.Enlarges s') : s.starvedCount < s'.starvedCount := by
  have hp := Finset.card_le_card h.pools
  have hd := Finset.card_le_card h.dags
  have ht := Finset.card_le_card h.tasks
  unfold Pass.starvedCount
  rcases h.strict with hlt | hlt | hlt
  · have := Finset.card_lt_card hlt
    omega
  · have := Finset.card_lt_card hlt
    omega
  · have := Finset.card_lt_card hlt
    omega

theorem Pass.StaysWithin.starvedCount_le (h : s.StaysWithin db) :
    s.starvedCount ≤
      (snapshotPools db).card + (snapshotDags db).card + (snapshotTasks db).card := by
  have hp := Finset.card_le_card h.pools
  have hd := Finset.card_le_card h.dags
  have ht := Finset.card_le_card h.tasks
  unfold Pass.starvedCount
  omega

theorem Pass.Kept.examineQuery_staysWithin (hk : s.Kept db) (h : s.StaysWithin db) :
    (s.examineAll db (s.query db maxTis)).StaysWithin db := by
  have hrows := hk.grows maxTis
  have hwindow : s.Grows ((s.query db maxTis).map (·.ti)) (s.examineAll db (s.query db maxTis)) :=
    Pass.examineAll_grows fun c hc => List.mem_map_of_mem hc
  refine ⟨hrows.pools.2.trans ?_, hwindow.dags.2.trans ?_, hrows.tasks.2.trans ?_⟩
  · exact Finset.union_subset h.pools Finset.subset_union_right
  · refine Finset.union_subset h.dags fun dagId hdag => ?_
    obtain ⟨ti, hti, rfl⟩ := List.mem_map.mp (List.mem_toFinset.mp hdag)
    obtain ⟨c, hc, rfl⟩ := List.mem_map.mp hti
    have hmodel := (mem_joined.mp (mem_query hc).1).2.2
    have hid : c.dagModel.dagId = c.ti.dagId := by simpa using List.find?_some hmodel
    rw [← hid]
    exact List.mem_toFinset.mpr (List.mem_map_of_mem (List.mem_of_find?_eq_some hmodel))
  · exact Finset.union_subset h.tasks subset_rfl

/-- What holds before each turn. -/
def Pass.Sound (db : Database) (s : Pass) : Prop := s.Kept db ∧ s.StaysWithin db

theorem Pass.Sound.iterate (h : s.Sound db) (maxTis : Nat) : (s.iterate db maxTis).1.Sound db := by
  rcases s.iterate_cases db maxTis with ⟨-, he⟩ | ⟨he, -⟩
  · rwa [he]
  · rw [he]
    exact ⟨Pass.examineQuery_kept h.1 maxTis, h.1.examineQuery_staysWithin h.2⟩

theorem Pass.Sound.enlarges (h : s.Sound db) (hmore : (s.iterate db maxTis).2 = true) :
    s.Enlarges (s.iterate db maxTis).1 := by
  rcases s.iterate_cases db maxTis with ⟨-, he⟩ | ⟨he, hnew⟩
  · rw [he] at hmore
    cases hmore
  · exact (he ▸ h.1.grows maxTis).enlarges (hnew hmore).2

end Turn

-- ---------------------------------------------------------------------------
-- The loop
-- ---------------------------------------------------------------------------

theorem Pass.loop_eq_run (db : Database) (maxTis fuel : Nat) (s : Pass) :
    Pass.loop db maxTis fuel s = Loops.run (Pass.iterate db maxTis) fuel s := by
  induction fuel generalizing s with
  | zero => rfl
  | succ fuel ih =>
    rw [Pass.loop, Loops.run]
    cases s.iterate db maxTis with
    | mk s' more =>
      cases more with
      | true => exact ih s'
      | false => rfl

/-- The state of the pass after `n` turns. -/
def Pass.afterTurns (db : Database) (maxTis n : Nat) : Pass :=
  Loops.after (Pass.iterate db maxTis) n (.start db)

theorem Pass.afterTurns_sound (db : Database) (maxTis n : Nat) :
    (Pass.afterTurns db maxTis n).Sound db :=
  Loops.after_keeps (I := Pass.Sound db) (fun _ h => h.iterate maxTis)
    ⟨Pass.start_kept db, Pass.start_staysWithin db⟩ n

/-- The loop comes to an end: turn number `n` breaks it, those before it each enlarge an exclusion
set, and no set ever names what the snapshot does not. -/
theorem Pass.loop_terminates (db : Database) (maxTis : Nat) :
    ∃ n, Loops.Breaks (Pass.iterate db maxTis) n (.start db) ∧
      (∀ m < n, (Pass.afterTurns db maxTis m).Enlarges (Pass.afterTurns db maxTis (m + 1))) ∧
      (∀ m, (Pass.afterTurns db maxTis m).StaysWithin db) ∧
      n + 1 ≤ 1 + ((snapshotPools db).card + (snapshotDags db).card + (snapshotTasks db).card) ∧
      n < turns db ∧ ∀ fuel, Pass.loop db maxTis fuel (.start db) =
        if n < fuel then some (Pass.afterTurns db maxTis (n + 1)) else none := by
  obtain ⟨n, hn, hbreaks⟩ := Loops.exists_breaks (I := Pass.Sound db)
    (fun _ h => h.iterate maxTis) (fun _ h hmore => (h.enlarges hmore).starvedCount_lt)
    (fun _ h => h.2.starvedCount_le) (Pass.afterTurns_sound db maxTis 0)
  have hloop : ∀ fuel, Pass.loop db maxTis fuel (.start db) =
      if n < fuel then some (Pass.afterTurns db maxTis (n + 1)) else none :=
    fun fuel => (Pass.loop_eq_run db maxTis fuel _).trans (hbreaks.run_eq fuel)
  refine ⟨n, hbreaks, fun m hm => ?_, fun m => (Pass.afterTurns_sound db maxTis m).2, by omega,
    ?_, hloop⟩
  · rw [Pass.afterTurns, Pass.afterTurns, Loops.after_succ']
    exact (Pass.afterTurns_sound db maxTis m).enlarges (hbreaks.goesOn m hm)
  · by_contra hfuel
    have hsome := Pass.loop_turns db maxTis
    rw [hloop, if_neg hfuel] at hsome
    cases hsome

end Beeflow.Scheduler
