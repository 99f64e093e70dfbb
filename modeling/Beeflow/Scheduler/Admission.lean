import Beeflow.Scheduler.Pass

/-!
# What one examination does

`examine_cases` says once what a turn of the inner loop can do: reject the
task instance and leave the counters alone, or admit it under every limit.
The counters then follow the list built so far (`Counted`) and every limit
holds of it (`Within`), window after window.
-/

namespace Beeflow.Scheduler

open Airflow

-- ---------------------------------------------------------------------------
-- Slots
-- ---------------------------------------------------------------------------

namespace Slots

theorem not_le {s t : Slots} : ¬s ≤ t ↔ t < s := .rfl

theorem not_lt {s t : Slots} : ¬s < t ↔ t ≤ s := not_not

@[simp] theorem sub_zero (s : Slots) : s.sub 0 = s := by
  cases s with
  | num m => exact congrArg num (Int.sub_zero m)
  | inf => rfl

theorem sub_sub (s : Slots) (m n : Int) : (s.sub m).sub n = s.sub (m + n) := by
  cases s with
  | num k => exact congrArg num (Int.sub_sub k m n)
  | inf => rfl

theorem zero_le_sub {s : Slots} {n : Int} : 0 ≤ s.sub n ↔ (n : Slots) ≤ s := by
  cases s with
  | num m => exact Int.sub_nonneg
  | inf => exact .rfl

theorem coe_le_trans {m n : Int} {s : Slots} (h : m ≤ n) (hn : (n : Slots) ≤ s) :
    (m : Slots) ≤ s := by
  cases s with
  | num k => exact le_trans h hn
  | inf => trivial

end Slots

-- ---------------------------------------------------------------------------
-- One examination
-- ---------------------------------------------------------------------------

/-- The limits an admitted task instance passed. -/
structure Pass.Admissible (db : Database) (s : Pass) (c : Candidate) : Prop where
  pool : ((slotsStats db).lookup c.ti.pool).isSome
  open_pos : 0 < s.openSlots c.ti.pool
  slots : (c.ti.poolSlots : Slots) ≤ s.openSlots c.ti.pool
  dag : (s.dagActiveTasks c.ti.dagId : Int) < c.dagModel.maxActiveTasks
  task : c.dagModel.hasTaskConcurrencyLimits → ∀ dag, db.getDag c.ti.dagId = some dag →
    ∀ limit, taskConcurrencyLimit dag c.ti.taskId = some limit → s.taskConcurrency c.ti.task < limit

def Pass.ledger (s : Pass) :
    (String → Slots) × (String → Nat) × (String × String → Nat) × List Candidate :=
  (s.openSlots, s.dagActiveTasks, s.taskConcurrency, s.executableTis)

theorem Pass.executableTis_congr {s t : Pass} (h : s.ledger = t.ledger) :
    s.executableTis = t.executableTis := congrArg (fun l => l.2.2.2) h

theorem Pass.examine_cases (db : Database) (s : Pass) (c : Candidate) :
    (s.examine db c).ledger = s.ledger ∨ s.examine db c = s.accept c ∧ s.Admissible db c := by
  unfold Pass.examine
  split
  · exact .inl rfl
  · rename_i stats hpool
    have hpool : ((slotsStats db).lookup c.ti.pool).isSome := by simp [hpool]
    dsimp only
    split_ifs with hopen htotal hslots hdag hlimits
    · exact .inl rfl
    · exact .inl rfl
    · exact .inl rfl
    · exact .inl rfl
    · have hopen := Slots.not_le.mp hopen
      have hslots := Slots.not_lt.mp hslots
      have hdag := not_le.mp hdag
      split
      · exact .inl rfl
      · rename_i dag hget
        split
        · rename_i limit htask
          split_ifs with hconc
          · exact .inl rfl
          · refine .inr ⟨rfl, hpool, hopen, hslots, hdag, ?_⟩
            intro _ dag' hget' limit' htask'
            obtain rfl := Option.some.inj (hget.symm.trans hget')
            obtain rfl := Option.some.inj (htask.symm.trans htask')
            exact not_le.mp hconc
        · rename_i htask
          refine .inr ⟨rfl, hpool, hopen, hslots, hdag, ?_⟩
          intro _ dag' hget' limit' htask'
          obtain rfl := Option.some.inj (hget.symm.trans hget')
          rw [htask] at htask'
          exact nomatch htask'
    · exact .inr ⟨rfl, hpool, Slots.not_le.mp hopen, Slots.not_lt.mp hslots, not_le.mp hdag,
        fun h => absurd h hlimits⟩

-- ---------------------------------------------------------------------------
-- The counters follow the list built so far
-- ---------------------------------------------------------------------------

def chosenSlots (cs : List Candidate) (pool : String) : Int :=
  Tally.weight (·.ti.pool) (·.ti.poolSlots) cs pool

structure Pass.Counted (start s : Pass) : Prop where
  openSlots : ∀ pool, s.openSlots pool =
    (start.openSlots pool).sub (chosenSlots s.executableTis pool)
  dagActiveTasks : ∀ dagId, s.dagActiveTasks dagId =
    start.dagActiveTasks dagId + Tally.count (·.ti.dagId) s.executableTis dagId
  taskConcurrency : ∀ task, s.taskConcurrency task =
    start.taskConcurrency task + Tally.count (·.ti.task) s.executableTis task

theorem Pass.Counted.of_ledger {start s s' : Pass} (h : start.Counted s)
    (hl : s'.ledger = s.ledger) : start.Counted s' := by
  simp only [Pass.ledger, Prod.mk.injEq] at hl
  obtain ⟨ho, hd, ht, he⟩ := hl
  exact ⟨ho ▸ he ▸ h.openSlots, hd ▸ he ▸ h.dagActiveTasks, ht ▸ he ▸ h.taskConcurrency⟩

theorem Pass.Counted.accept {start s : Pass} (h : start.Counted s) (c : Candidate) :
    start.Counted (s.accept c) := by
  refine ⟨fun pool => ?_, fun dagId => Tally.bump_count h.dagActiveTasks,
    fun task => Tally.bump_count h.taskConcurrency⟩
  have hs := h.openSlots pool
  simp only [Pass.accept, chosenSlots, Tally.weight_append_singleton] at hs ⊢
  by_cases hp : c.ti.pool = pool
  · subst hp
    rw [Function.update_self, if_pos rfl, hs, Slots.sub_sub]
  · rw [Function.update_of_ne (Ne.symm hp), if_neg hp, Int.add_zero, hs]

theorem Pass.Counted.examine {start s : Pass} (h : start.Counted s) (db : Database)
    (c : Candidate) : start.Counted (s.examine db c) := by
  rcases s.examine_cases db c with hl | ⟨ha, -⟩
  · exact h.of_ledger hl
  · exact ha ▸ h.accept c

-- ---------------------------------------------------------------------------
-- Every limit holds of the list built so far
-- ---------------------------------------------------------------------------

structure Pass.Within (db : Database) (start s : Pass) : Prop where
  pool : ∀ c ∈ s.executableTis, ((slotsStats db).lookup c.ti.pool).isSome ∧
    0 < start.openSlots c.ti.pool ∧ 0 ≤ s.openSlots c.ti.pool
  dag : ∀ c ∈ s.executableTis, ∀ model, db.dagModel c.ti.dagId = some model →
    (s.dagActiveTasks c.ti.dagId : Int) ≤ model.maxActiveTasks
  task : ∀ c ∈ s.executableTis, ∀ model, db.dagModel c.ti.dagId = some model →
    model.hasTaskConcurrencyLimits → ∀ dag, db.getDag c.ti.dagId = some dag →
      ∀ limit, taskConcurrencyLimit dag c.ti.taskId = some limit →
        (s.taskConcurrency c.ti.task : Int) ≤ limit

theorem Pass.Within.of_ledger {db : Database} {start s s' : Pass} (h : start.Within db s)
    (hl : s'.ledger = s.ledger) : start.Within db s' := by
  simp only [Pass.ledger, Prod.mk.injEq] at hl
  obtain ⟨ho, hd, ht, he⟩ := hl
  exact ⟨ho ▸ he ▸ h.pool, hd ▸ he ▸ h.dag, ht ▸ he ▸ h.task⟩

/-- A pool nothing was chosen from still has its open slots. -/
theorem Pass.Counted.open_start {start s : Pass} (h : start.Counted s) {pool : String}
    (hp : ∀ c ∈ s.executableTis, c.ti.pool ≠ pool) :
    s.openSlots pool = start.openSlots pool := by
  have hz : chosenSlots s.executableTis pool = 0 := Tally.weight_eq_zero hp
  rw [h.openSlots, hz, Slots.sub_zero]

theorem bump_le_of_lt {m : κ → Nat} [DecidableEq κ] {k j : κ} {n : Int} (hj : (m j : Int) ≤ n)
    (hk : j = k → (m k : Int) < n) : (Tally.bump m k 1 j : Int) ≤ n := by
  by_cases h : j = k
  · subst h
    have := hk rfl
    simp only [Tally.bump, if_true]
    omega
  · simpa [Tally.bump, h] using hj

section Accept

variable {db : Database} {start s : Pass} {c : Candidate}

theorem Pass.Within.start_open (h : start.Within db s) (hc : start.Counted s)
    (hopen : 0 < s.openSlots c.ti.pool) : 0 < start.openSlots c.ti.pool := by
  by_cases hex : ∃ e ∈ s.executableTis, e.ti.pool = c.ti.pool
  · obtain ⟨e, he, hp⟩ := hex
    exact hp ▸ (h.pool e he).2.1
  · exact hc.open_start (fun e he hp => hex ⟨e, he, hp⟩) ▸ hopen

theorem Pass.Within.accept_pool (h : start.Within db s) (hc : start.Counted s)
    (ha : s.Admissible db c) (d : Candidate) (hd : d ∈ (s.accept c).executableTis) :
    ((slotsStats db).lookup d.ti.pool).isSome ∧ 0 < start.openSlots d.ti.pool ∧
      0 ≤ (s.accept c).openSlots d.ti.pool := by
  have hleft := Slots.zero_le_sub.mpr ha.slots
  rcases List.mem_append.mp hd with hd | hd
  · obtain ⟨hl, ho, hn⟩ := h.pool d hd
    refine ⟨hl, ho, ?_⟩
    by_cases hp : d.ti.pool = c.ti.pool
    · simpa [Pass.accept, hp] using hleft
    · simpa [Pass.accept, Function.update_of_ne hp] using hn
  · obtain rfl := List.mem_singleton.mp hd
    exact ⟨ha.pool, h.start_open hc ha.open_pos, by simpa [Pass.accept] using hleft⟩

theorem Pass.Within.accept_dag (h : start.Within db s) (ha : s.Admissible db c)
    (hm : db.dagModel c.ti.dagId = some c.dagModel) (d : Candidate)
    (hd : d ∈ (s.accept c).executableTis) (model : DagModel)
    (hmodel : db.dagModel d.ti.dagId = some model) :
    ((s.accept c).dagActiveTasks d.ti.dagId : Int) ≤ model.maxActiveTasks := by
  have hlt : d.ti.dagId = c.ti.dagId → (s.dagActiveTasks c.ti.dagId : Int) <
      model.maxActiveTasks := by
    intro he
    obtain rfl := Option.some.inj (hm.symm.trans (he ▸ hmodel))
    exact ha.dag
  rcases List.mem_append.mp hd with hd | hd
  · exact bump_le_of_lt (h.dag d hd model hmodel) hlt
  · obtain rfl := List.mem_singleton.mp hd
    exact bump_le_of_lt (hlt rfl).le hlt

theorem Pass.Within.accept_task (h : start.Within db s) (ha : s.Admissible db c)
    (hm : db.dagModel c.ti.dagId = some c.dagModel) (d : Candidate)
    (hd : d ∈ (s.accept c).executableTis) (model : DagModel)
    (hmodel : db.dagModel d.ti.dagId = some model) (hlimits : model.hasTaskConcurrencyLimits)
    (dag : Dag) (hdag : db.getDag d.ti.dagId = some dag) (limit : Int)
    (hlimit : taskConcurrencyLimit dag d.ti.taskId = some limit) :
    ((s.accept c).taskConcurrency d.ti.task : Int) ≤ limit := by
  have hlt : d.ti.task = c.ti.task → (s.taskConcurrency c.ti.task : Int) < limit := by
    intro he
    obtain ⟨hdagId, htaskId⟩ := Prod.mk.inj he
    rw [hdagId] at hmodel hdag
    obtain rfl := Option.some.inj (hm.symm.trans hmodel)
    exact ha.task hlimits dag hdag limit (htaskId ▸ hlimit)
  rcases List.mem_append.mp hd with hd | hd
  · exact bump_le_of_lt (h.task d hd model hmodel hlimits dag hdag limit hlimit) hlt
  · obtain rfl := List.mem_singleton.mp hd
    exact bump_le_of_lt (hlt rfl).le hlt

theorem Pass.Within.accept (h : start.Within db s) (hc : start.Counted s)
    (ha : s.Admissible db c) (hm : db.dagModel c.ti.dagId = some c.dagModel) :
    start.Within db (s.accept c) :=
  ⟨h.accept_pool hc ha, h.accept_dag ha hm, h.accept_task ha hm⟩

end Accept

theorem Pass.Within.examine {db : Database} {start s : Pass} {c : Candidate}
    (h : start.Within db s) (hc : start.Counted s)
    (hm : db.dagModel c.ti.dagId = some c.dagModel) : start.Within db (s.examine db c) := by
  rcases s.examine_cases db c with hl | ⟨he, ha⟩
  · exact h.of_ledger hl
  · exact he ▸ h.accept hc ha hm

-- ---------------------------------------------------------------------------
-- A window
-- ---------------------------------------------------------------------------

theorem Pass.examineAll_cons (db : Database) (s : Pass) (c : Candidate) (cs : List Candidate) :
    s.examineAll db (c :: cs) = (s.examine db c).examineAll db cs := rfl

theorem Pass.Counted.examineAll {start s : Pass} (h : start.Counted s) (db : Database)
    (window : List Candidate) : start.Counted (s.examineAll db window) := by
  induction window generalizing s with
  | nil => exact h
  | cons c cs ih => exact ih (h.examine db c)

theorem Pass.examineAll_within {db : Database} {start s : Pass} {window : List Candidate}
    (hc : start.Counted s) (hw : start.Within db s)
    (hm : ∀ c ∈ window, db.dagModel c.ti.dagId = some c.dagModel) :
    start.Counted (s.examineAll db window) ∧ start.Within db (s.examineAll db window) := by
  induction window generalizing s with
  | nil => exact ⟨hc, hw⟩
  | cons c cs ih =>
    rw [Pass.examineAll_cons]
    exact ih (hc.examine db c) (hw.examine hc (hm c (by simp)))
      fun d hd => hm d (List.mem_cons_of_mem _ hd)

/-- What a window admits comes from the window, in its order. -/
theorem Pass.examineAll_sublist (db : Database) (s : Pass) (window : List Candidate) :
    ∃ added, (s.examineAll db window).executableTis = s.executableTis ++ added ∧
      added.Sublist window := by
  induction window generalizing s with
  | nil => exact ⟨[], by simp [Pass.examineAll], List.Sublist.refl _⟩
  | cons c cs ih =>
    rw [Pass.examineAll_cons]
    obtain ⟨added, he, hs⟩ := ih (s.examine db c)
    rcases s.examine_cases db c with hl | ⟨ha, -⟩
    · exact ⟨added, by rw [he, Pass.executableTis_congr hl], hs.cons c⟩
    · exact ⟨c :: added, by rw [he, ha]; simp [Pass.accept], hs.cons_cons c⟩

end Beeflow.Scheduler
