import Beeflow.Scheduler.Admission

/-!
# The loop of the admission pass

The loop goes on only while nothing was chosen, so the list a pass returns is
chosen from one window; and only when an exclusion set grew, by a pool, a DAG
or a task of some row, so `turns` of it are enough.
-/

namespace Beeflow.Scheduler

open Airflow

-- ---------------------------------------------------------------------------
-- The query
-- ---------------------------------------------------------------------------

theorem mem_joined {db : Database} {rows : List TaskInstance} {c : Candidate} :
    c ∈ joined db rows ↔ c.ti ∈ rows ∧ db.dagRunOf c.ti.key = some c.dagRun ∧
      db.dagModel c.ti.dagId = some c.dagModel := by
  simp only [joined, List.mem_filterMap, bind, Option.bind_eq_some_iff, Option.some.injEq]
  constructor
  · rintro ⟨ti, hti, run, hrun, model, hmodel, rfl⟩
    exact ⟨hti, hrun, hmodel⟩
  · rintro ⟨hti, hrun, hmodel⟩
    exact ⟨c.ti, hti, c.dagRun, hrun, c.dagModel, hmodel, rfl⟩

theorem joined_sublist (db : Database) (rows : List TaskInstance) :
    ((joined db rows).map (·.ti)).Sublist rows := by
  induction rows with
  | nil => simp [joined]
  | cons ti rows ih =>
    simp only [joined, List.filterMap_cons] at ih ⊢
    split
    · exact ih.cons ti
    · rename_i c hc
      simp only [bind, Option.bind_eq_some_iff, Option.some.injEq] at hc
      obtain ⟨run, -, model, -, rfl⟩ := hc
      exact ih.cons_cons ti

theorem mem_candidates {db : Database} {rows : List TaskInstance} {c : Candidate} :
    c ∈ candidates db rows ↔ c ∈ joined db rows ∧ c.eligible = true := by
  rw [candidates, List.mem_insertionSort, List.mem_filter]

theorem mem_query {db : Database} {maxTis : Nat} {s : Pass} {c : Candidate}
    (h : c ∈ s.query db maxTis) :
    c ∈ joined db s.taskInstances.rows ∧ c.eligible = true ∧ s.starves c = false := by
  have h := List.mem_filter.mp (List.mem_of_mem_take h)
  obtain ⟨hj, he⟩ := mem_candidates.mp h.1
  exact ⟨hj, he, by simpa using h.2⟩

theorem candidates_nodup (db : Database) (t : TaskTable) :
    ((candidates db t.rows).map (·.ti.key)).Nodup := by
  have hrows : ((joined db t.rows).map (·.ti.key)).Nodup := by
    have h := (joined_sublist db t.rows).map (·.key)
    rw [List.map_map] at h
    exact h.nodup t.nodup
  refine ((List.perm_insertionSort _ _).map _).nodup_iff.mpr ?_
  exact (List.filter_sublist.map _).nodup hrows

theorem query_nodup (db : Database) (maxTis : Nat) (s : Pass) :
    ((s.query db maxTis).map (·.ti.key)).Nodup :=
  (((List.take_sublist _ _).trans List.filter_sublist).map _).nodup
    (candidates_nodup db s.taskInstances)

theorem query_length (db : Database) (maxTis : Nat) (s : Pass) :
    (s.query db maxTis).length ≤ maxTis := List.length_take_le _ _

-- ---------------------------------------------------------------------------
-- What the loop keeps
-- ---------------------------------------------------------------------------

/-- What a task instance is charged for: its key, and the slots of its pool. -/
def charge (ti : TaskInstance) : TaskInstanceKey × String × Int := (ti.key, ti.pool, ti.poolSlots)

/-- What the loop leaves as it was in every row. -/
def fixedColumns (ti : TaskInstance) : (TaskInstanceKey × String × Int) × Bool :=
  (charge ti, ti.inExecution)

/-- What every turn of the loop keeps. The rows of the session differ from the
database's only where a scheduled task instance failed. -/
structure Pass.Kept (db : Database) (s : Pass) : Prop where
  counted : (Pass.start db).Counted s
  within : (Pass.start db).Within db s
  rows : s.taskInstances.rows.map fixedColumns = db.taskInstances.rows.map fixedColumns

theorem Pass.start_kept (db : Database) : (Pass.start db).Kept db where
  counted := ⟨fun _ => by simp [Pass.start, chosenSlots], fun _ => by simp [Pass.start],
    fun _ => by simp [Pass.start]⟩
  within := ⟨fun _ h => by simp [Pass.start] at h, fun _ h => by simp [Pass.start] at h,
    fun _ h => by simp [Pass.start] at h⟩
  rows := rfl

/-- The columns are the same for a scheduled task instance that fails. -/
def FailKeeps {α : Type*} (f : TaskInstance → α) : Prop :=
  ∀ ti : TaskInstance, ti.state = some .scheduled → f { ti with state := some .failed } = f ti

theorem failKeeps_fixedColumns : FailKeeps fixedColumns := by
  intro ti h
  simp [fixedColumns, charge, TaskInstance.inExecution, h, TaskInstanceState.inExecution]

theorem failScheduled_rows {α : Type*} {f : TaskInstance → α} (hf : FailKeeps f) (t : TaskTable)
    (dagId : String) : (failScheduled t dagId).rows.map f = t.rows.map f := by
  simp only [failScheduled, TaskTable.update, List.map_map]
  refine List.map_congr_left fun ti _ => ?_
  simp only [Function.comp_apply]
  split
  · rename_i h
    simp only [Bool.and_eq_true, decide_eq_true_eq] at h
    exact hf ti h.2
  · rfl

/-- An examination writes the task table only to fail a DAG's scheduled task instances. -/
theorem Pass.examine_rows (db : Database) (s : Pass) (c : Candidate) :
    (s.examine db c).taskInstances = s.taskInstances ∨
      (s.examine db c).taskInstances = failScheduled s.taskInstances c.ti.dagId := by
  unfold Pass.examine
  split
  · exact .inl rfl
  · dsimp only
    split_ifs
    · exact .inl rfl
    · exact .inl rfl
    · exact .inl rfl
    · exact .inl rfl
    · split
      · exact .inr rfl
      · split
        · split_ifs <;> exact .inl rfl
        · exact .inl rfl
    · exact .inl rfl

theorem Pass.examineAll_rows {α : Type*} {f : TaskInstance → α} (hf : FailKeeps f)
    (db : Database) (s : Pass) (window : List Candidate) :
    (s.examineAll db window).taskInstances.rows.map f = s.taskInstances.rows.map f := by
  induction window generalizing s with
  | nil => rfl
  | cons c cs ih =>
    rw [Pass.examineAll_cons, ih]
    rcases s.examine_rows db c with h | h
    · rw [h]
    · rw [h, failScheduled_rows hf]

theorem Pass.examineAll_kept {db : Database} {s : Pass} (h : s.Kept db) {window : List Candidate}
    (hm : ∀ c ∈ window, db.dagModel c.ti.dagId = some c.dagModel) :
    (s.examineAll db window).Kept db := by
  obtain ⟨hc, hw⟩ := Pass.examineAll_within h.counted h.within hm
  exact ⟨hc, hw, (Pass.examineAll_rows failKeeps_fixedColumns db s window).trans h.rows⟩

theorem Pass.examineQuery_kept {db : Database} {s : Pass} (h : s.Kept db) (maxTis : Nat) :
    (s.examineAll db (s.query db maxTis)).Kept db :=
  Pass.examineAll_kept h fun _ hc => (mem_joined.mp (mem_query hc).1).2.2

-- ---------------------------------------------------------------------------
-- The exclusion sets grow by what the rows name
-- ---------------------------------------------------------------------------

def Pass.starved (s : Pass) : Finset String × Finset String × Finset (String × String) :=
  (s.starvedPools, s.starvedDags, s.starvedTasks)

theorem Pass.examine_starved (db : Database) (s : Pass) (c : Candidate) :
    (s.examine db c).starved = s.starved ∨
      (s.examine db c).starved = (s.starvePool c.ti.pool).starved ∨
      (s.examine db c).starved = (s.starveDag c.ti.dagId).starved ∨
      (s.examine db c).starved = (s.starveTask c.ti.task).starved := by
  unfold Pass.examine
  split
  · exact .inr (.inl rfl)
  · dsimp only
    split_ifs
    · exact .inr (.inl rfl)
    · exact .inr (.inr (.inr rfl))
    · exact .inr (.inr (.inr rfl))
    · exact .inr (.inr (.inl rfl))
    · split
      · exact .inl rfl
      · split
        · split_ifs
          · exact .inr (.inr (.inr rfl))
          · exact .inl rfl
        · exact .inl rfl
    · exact .inl rfl

/-- `s'` excludes what `s` does and otherwise only what some row names. -/
structure Pass.Grows (rows : List TaskInstance) (s s' : Pass) : Prop where
  pools : s.starvedPools ⊆ s'.starvedPools ∧
    s'.starvedPools ⊆ s.starvedPools ∪ (rows.map (·.pool)).toFinset
  dags : s.starvedDags ⊆ s'.starvedDags ∧
    s'.starvedDags ⊆ s.starvedDags ∪ (rows.map (·.dagId)).toFinset
  tasks : s.starvedTasks ⊆ s'.starvedTasks ∧
    s'.starvedTasks ⊆ s.starvedTasks ∪ (rows.map (·.task)).toFinset

theorem subset_grow_trans {α : Type*} [DecidableEq α] {a b c u : Finset α} (hab : a ⊆ b ∧ b ⊆ a ∪ u)
    (hbc : b ⊆ c ∧ c ⊆ b ∪ u) : a ⊆ c ∧ c ⊆ a ∪ u := by
  refine ⟨hab.1.trans hbc.1, hbc.2.trans ?_⟩
  exact Finset.union_subset hab.2 Finset.subset_union_right

theorem subset_grow_refl {α : Type*} [DecidableEq α] (a u : Finset α) : a ⊆ a ∧ a ⊆ a ∪ u :=
  ⟨subset_rfl, Finset.subset_union_left⟩

theorem subset_grow_insert {α : Type*} [DecidableEq α] {a u : Finset α} {x : α} (hx : x ∈ u) :
    a ⊆ insert x a ∧ insert x a ⊆ a ∪ u :=
  ⟨Finset.subset_insert _ _, Finset.insert_subset (Finset.mem_union_right _ hx)
    Finset.subset_union_left⟩

theorem Pass.Grows.refl (rows : List TaskInstance) (s : Pass) : s.Grows rows s :=
  ⟨subset_grow_refl _ _, subset_grow_refl _ _, subset_grow_refl _ _⟩

theorem Pass.Grows.trans {rows : List TaskInstance} {s t u : Pass} (h : s.Grows rows t)
    (h' : t.Grows rows u) : s.Grows rows u :=
  ⟨subset_grow_trans h.pools h'.pools, subset_grow_trans h.dags h'.dags,
    subset_grow_trans h.tasks h'.tasks⟩

theorem Pass.examine_grows {db : Database} {rows : List TaskInstance} {s : Pass} {c : Candidate}
    (hc : c.ti ∈ rows) : s.Grows rows (s.examine db c) := by
  have hpool : c.ti.pool ∈ (rows.map (·.pool)).toFinset :=
    List.mem_toFinset.mpr (List.mem_map_of_mem hc)
  have hdag : c.ti.dagId ∈ (rows.map (·.dagId)).toFinset :=
    List.mem_toFinset.mpr (List.mem_map_of_mem hc)
  have htask : c.ti.task ∈ (rows.map (·.task)).toFinset :=
    List.mem_toFinset.mpr (List.mem_map_of_mem hc)
  rcases s.examine_starved db c with h | h | h | h <;>
    simp only [Pass.starved, Pass.starvePool, Pass.starveDag, Pass.starveTask,
      Prod.mk.injEq] at h <;>
    obtain ⟨hp, hd, ht⟩ := h
  · exact ⟨hp ▸ subset_grow_refl _ _, hd ▸ subset_grow_refl _ _, ht ▸ subset_grow_refl _ _⟩
  · exact ⟨hp ▸ subset_grow_insert hpool, hd ▸ subset_grow_refl _ _, ht ▸ subset_grow_refl _ _⟩
  · exact ⟨hp ▸ subset_grow_refl _ _, hd ▸ subset_grow_insert hdag, ht ▸ subset_grow_refl _ _⟩
  · exact ⟨hp ▸ subset_grow_refl _ _, hd ▸ subset_grow_refl _ _, ht ▸ subset_grow_insert htask⟩

theorem Pass.examineAll_grows {db : Database} {rows : List TaskInstance} {s : Pass}
    {window : List Candidate} (hw : ∀ c ∈ window, c.ti ∈ rows) :
    s.Grows rows (s.examineAll db window) := by
  induction window generalizing s with
  | nil => exact .refl _ _
  | cons c cs ih =>
    rw [Pass.examineAll_cons]
    exact (Pass.examine_grows (hw c (by simp))).trans
      (ih fun d hd => hw d (List.mem_cons_of_mem _ hd))

def Pass.unstarved (rows : List TaskInstance) (s : Pass) : Nat :=
  ((rows.map (·.pool)).toFinset \ s.starvedPools).card +
    ((rows.map (·.dagId)).toFinset \ s.starvedDags).card +
    ((rows.map (·.task)).toFinset \ s.starvedTasks).card

theorem Pass.unstarved_le (rows : List TaskInstance) (s : Pass) :
    s.unstarved rows ≤ 3 * rows.length := by
  have h {α : Type} [DecidableEq α] (f : TaskInstance → α) (x : Finset α) :
      ((rows.map f).toFinset \ x).card ≤ rows.length :=
    (Finset.card_le_card Finset.sdiff_subset).trans
      ((List.toFinset_card_le _).trans (List.length_map f).le)
  have hp := h (·.pool) s.starvedPools
  have hd := h (·.dagId) s.starvedDags
  have ht := h (·.task) s.starvedTasks
  unfold Pass.unstarved
  omega

theorem card_sdiff_grow {α : Type*} [DecidableEq α] {a b u : Finset α} (h : a ⊆ b ∧ b ⊆ a ∪ u) :
    (u \ b).card + b.card ≤ (u \ a).card + a.card := by
  have hb : (u \ b).card + b.card = (u ∪ b).card := by
    rw [← Finset.card_sdiff_add_card]
  have ha : (u \ a).card + a.card = (u ∪ a).card := by
    rw [← Finset.card_sdiff_add_card]
  rw [hb, ha]
  refine Finset.card_le_card (Finset.union_subset Finset.subset_union_left ?_)
  exact h.2.trans (Finset.union_comm a u).subset

theorem Pass.Grows.unstarved_lt {rows : List TaskInstance} {s s' : Pass} (h : s.Grows rows s')
    (hf : s.foundNewFilters s' = true) : s'.unstarved rows < s.unstarved rows := by
  have hp := card_sdiff_grow h.pools
  have hd := card_sdiff_grow h.dags
  have ht := card_sdiff_grow h.tasks
  have hpc := Finset.card_le_card h.pools.1
  have hdc := Finset.card_le_card h.dags.1
  have htc := Finset.card_le_card h.tasks.1
  simp only [Pass.foundNewFilters, Bool.or_eq_true, decide_eq_true_eq] at hf
  unfold Pass.unstarved
  omega

-- ---------------------------------------------------------------------------
-- The loop
-- ---------------------------------------------------------------------------

/-- The loop ends with an empty window, or with the window that it chose from. -/
theorem Pass.iterate_cases (db : Database) (maxTis : Nat) (s : Pass) :
    (s.query db maxTis = [] ∧ s.iterate db maxTis = (s, false)) ∨
      (s.iterate db maxTis).1 = s.examineAll db (s.query db maxTis) ∧
        ((s.iterate db maxTis).2 = true →
          (s.iterate db maxTis).1.executableTis = [] ∧
            s.foundNewFilters (s.iterate db maxTis).1 = true) := by
  unfold Pass.iterate
  dsimp only
  split_ifs with h
  · exact .inl ⟨List.length_eq_zero_iff.mp h, rfl⟩
  · refine .inr ⟨rfl, fun hmore => ?_⟩
    simp only [Bool.not_eq_true', Bool.or_eq_false_iff, Bool.not_eq_false',
      List.isEmpty_iff] at hmore
    exact ⟨hmore.1.1, by simpa using hmore.2⟩

theorem Pass.Kept.grows {db : Database} {s : Pass} (h : s.Kept db) (maxTis : Nat) :
    s.Grows db.taskInstances.rows (s.examineAll db (s.query db maxTis)) := by
  have hnames {α : Type} [DecidableEq α] (f : (TaskInstanceKey × String × Int) × Bool → α) :
      s.taskInstances.rows.map (f ∘ fixedColumns) =
        db.taskInstances.rows.map (f ∘ fixedColumns) := by
    rw [← List.map_map, h.rows, List.map_map]
  have hg : s.Grows s.taskInstances.rows (s.examineAll db (s.query db maxTis)) :=
    Pass.examineAll_grows fun c hc => (mem_joined.mp (mem_query hc).1).1
  have hpool := hnames fun k => k.1.2.1
  have hdag := hnames fun k => k.1.1.dagId
  have htask := hnames fun k => (k.1.1.dagId, k.1.1.taskId)
  exact ⟨hpool ▸ hg.pools, hdag ▸ hg.dags, htask ▸ hg.tasks⟩

theorem Pass.loop_isSome {db : Database} {maxTis fuel : Nat} {s : Pass} (h : s.Kept db)
    (hf : s.unstarved db.taskInstances.rows < fuel) :
    (Pass.loop db maxTis fuel s).isSome := by
  induction fuel generalizing s with
  | zero => exact absurd hf (Nat.not_lt_zero _)
  | succ fuel ih =>
    unfold Pass.loop
    split
    · rename_i s' hi
      rcases s.iterate_cases db maxTis with ⟨-, he⟩ | ⟨he, hmore⟩
      · simp [he] at hi
      · rw [hi] at he hmore
        dsimp only at he hmore
        have hlt := (h.grows maxTis).unstarved_lt (he ▸ (hmore rfl).2)
        rw [he]
        exact ih (Pass.examineQuery_kept h maxTis) (by omega)
    · rfl

theorem Pass.loop_rows {α : Type*} {f : TaskInstance → α} (hf : FailKeeps f) {db : Database}
    {maxTis fuel : Nat} {s t : Pass} (hl : Pass.loop db maxTis fuel s = some t) :
    t.taskInstances.rows.map f = s.taskInstances.rows.map f := by
  induction fuel generalizing s with
  | zero => exact nomatch hl
  | succ fuel ih =>
    have hturn : (s.iterate db maxTis).1.taskInstances.rows.map f =
        s.taskInstances.rows.map f := by
      rcases s.iterate_cases db maxTis with ⟨-, he⟩ | ⟨he, -⟩
      · rw [he]
      · rw [he, Pass.examineAll_rows hf]
    unfold Pass.loop at hl
    split at hl
    · rename_i s' hi
      rw [hi] at hturn
      exact (ih hl).trans hturn
    · rename_i s' hi
      obtain rfl := Option.some.inj hl
      rw [hi] at hturn
      exact hturn

/-- The loop runs out of new names before it runs out of turns. -/
theorem Pass.loop_turns (db : Database) (maxTis : Nat) :
    (Pass.loop db maxTis (turns db) (.start db)).isSome :=
  Pass.loop_isSome (Pass.start_kept db) (by
    have := (Pass.start db).unstarved_le db.taskInstances.rows
    unfold turns
    omega)

/-- Where the loop ends, every limit holds and the list comes from one window. -/
theorem Pass.loop_spec {db : Database} {maxTis fuel : Nat} {s t : Pass} (h : s.Kept db)
    (he : s.executableTis = []) (hl : Pass.loop db maxTis fuel s = some t) :
    t.Kept db ∧ (t.executableTis.map (·.ti.key)).Nodup ∧ t.executableTis.length ≤ maxTis ∧
      ∃ u : Pass, u.taskInstances.rows.map fixedColumns = db.taskInstances.rows.map fixedColumns ∧
        ∀ c ∈ t.executableTis, c ∈ u.query db maxTis := by
  induction fuel generalizing s with
  | zero => exact nomatch hl
  | succ fuel ih =>
    unfold Pass.loop at hl
    split at hl
    · rename_i s' hi
      rcases s.iterate_cases db maxTis with ⟨-, hn⟩ | ⟨hs, hmore⟩
      · simp [hn] at hi
      · rw [hi] at hs hmore
        dsimp only at hs hmore
        exact ih (hs ▸ Pass.examineQuery_kept h maxTis) (hmore rfl).1 hl
    · rename_i s' hi
      obtain rfl := Option.some.inj hl
      rcases s.iterate_cases db maxTis with ⟨-, hn⟩ | ⟨hs, -⟩
      · have hs : s' = s := congrArg Prod.fst (hi.symm.trans hn)
        subst hs
        exact ⟨h, by simp [he], by simp [he], s', h.rows, by simp [he]⟩
      · rw [hi] at hs
        dsimp only at hs
        obtain ⟨added, ha, hsub⟩ := s.examineAll_sublist db (s.query db maxTis)
        rw [he, List.nil_append] at ha
        refine ⟨hs ▸ Pass.examineQuery_kept h maxTis, ?_, ?_, s, h.rows, ?_⟩
        · rw [hs, ha]
          exact (hsub.map _).nodup (query_nodup db maxTis s)
        · rw [hs, ha]
          exact hsub.length_le.trans (query_length db maxTis s)
        · rw [hs, ha]
          exact fun c hc => hsub.subset hc

end Beeflow.Scheduler
