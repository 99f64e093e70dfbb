import Beeflow.Lib.StableSort
import Beeflow.Scheduler.Limits

/-!
# What an examination takes out of the next query

The verdict on a task instance names the branch of the loop body it ends in.
Each branch but two leaves a pool, a DAG or a task out of every later query;
the branch of a DAG that is not serialized fails the DAG's scheduled task
instances instead. As long as nothing is admitted the counters stay as they
were on entry, so every verdict is the one on entry.
-/

namespace Beeflow.Scheduler

open Airflow

inductive Verdict
  | noPool | poolFull | overTotal | overOpen | dagFull | unserialized | taskFull | accept
  deriving DecidableEq, Repr

def Pass.verdict (db : Database) (s : Pass) (c : Candidate) : Verdict :=
  match (slotsStats db).lookup c.ti.pool with
  | none => .noPool
  | some poolStats =>
    if s.openSlots c.ti.pool ≤ 0 then .poolFull
    else if poolStats.total < c.ti.poolSlots then .overTotal
    else if s.openSlots c.ti.pool < c.ti.poolSlots then .overOpen
    else if c.dagModel.maxActiveTasks ≤ s.dagActiveTasks c.ti.dagId then .dagFull
    else if c.dagModel.hasTaskConcurrencyLimits then
      match db.getDag c.ti.dagId with
      | none => .unserialized
      | some serializedDag =>
        match taskConcurrencyLimit serializedDag c.ti.taskId with
        | some limit => if limit ≤ s.taskConcurrency c.ti.task then .taskFull else .accept
        | none => .accept
    else .accept

def Pass.act (s : Pass) (c : Candidate) : Verdict → Pass
  | .noPool | .poolFull => s.starvePool c.ti.pool
  | .overTotal | .overOpen | .taskFull => s.starveTask c.ti.task
  | .dagFull => s.starveDag c.ti.dagId
  | .unserialized => { s with taskInstances := failScheduled s.taskInstances c.ti.dagId }
  | .accept => s.accept c

/-- After this verdict on `d`, no later query returns `c`. -/
def Verdict.strikes (d c : Candidate) : Verdict → Bool
  | .noPool | .poolFull => c.ti.pool = d.ti.pool
  | .overTotal | .overOpen | .taskFull => c.ti.task = d.ti.task
  | .dagFull | .unserialized => c.ti.dagId = d.ti.dagId
  | .accept => false

theorem Pass.examine_eq_act (db : Database) (s : Pass) (c : Candidate) :
    s.examine db c = s.act c (s.verdict db c) := by
  cases hpool : (slotsStats db).lookup c.ti.pool with
  | none => simp only [Pass.examine, Pass.verdict, hpool, Pass.act]
  | some poolStats =>
    simp only [Pass.examine, Pass.verdict, hpool]
    split_ifs
    · rfl
    · rfl
    · rfl
    · rfl
    · cases db.getDag c.ti.dagId with
      | none => rfl
      | some dag =>
        dsimp only
        cases taskConcurrencyLimit dag c.ti.taskId with
        | none => rfl
        | some limit =>
          dsimp only
          split_ifs <;> rfl
    · rfl

theorem Pass.verdict_congr {db : Database} {s t : Pass} (h : s.ledger = t.ledger) (c : Candidate) :
    s.verdict db c = t.verdict db c := by
  simp only [Pass.ledger, Prod.mk.injEq] at h
  obtain ⟨ho, hd, ht, -⟩ := h
  simp only [Pass.verdict, ho, hd, ht]

theorem Pass.act_ledger {s : Pass} {c : Candidate} {v : Verdict} (h : v ≠ .accept) :
    (s.act c v).ledger = s.ledger := by
  cases v with
  | accept => exact absurd rfl h
  | _ => rfl

-- ---------------------------------------------------------------------------
-- The grounds of a verdict
-- ---------------------------------------------------------------------------

/-- Every limit has room for the task instance. -/
structure Pass.Admits (db : Database) (s : Pass) (c : Candidate) : Prop where
  pool : ∃ stats, (slotsStats db).lookup c.ti.pool = some stats ∧
    0 < s.openSlots c.ti.pool ∧ (c.ti.poolSlots : Slots) ≤ stats.total ∧
    (c.ti.poolSlots : Slots) ≤ s.openSlots c.ti.pool
  dag : (s.dagActiveTasks c.ti.dagId : Int) < c.dagModel.maxActiveTasks
  task : c.dagModel.hasTaskConcurrencyLimits → ∃ dag, db.getDag c.ti.dagId = some dag ∧
    ∀ limit, taskConcurrencyLimit dag c.ti.taskId = some limit → s.taskConcurrency c.ti.task < limit

/-- What the loop body found out before it came to the verdict. -/
def Verdict.Grounds (db : Database) (s : Pass) (c : Candidate) : Verdict → Prop
  | .noPool => (slotsStats db).lookup c.ti.pool = none
  | .poolFull => s.openSlots c.ti.pool ≤ 0
  | .overTotal => ∃ stats, (slotsStats db).lookup c.ti.pool = some stats ∧
      stats.total < c.ti.poolSlots
  | .overOpen => s.openSlots c.ti.pool < c.ti.poolSlots
  | .dagFull => c.dagModel.maxActiveTasks ≤ s.dagActiveTasks c.ti.dagId
  | .unserialized => c.dagModel.hasTaskConcurrencyLimits ∧ db.getDag c.ti.dagId = none
  | .taskFull => c.dagModel.hasTaskConcurrencyLimits ∧ ∃ dag, db.getDag c.ti.dagId = some dag ∧
      ∃ limit, taskConcurrencyLimit dag c.ti.taskId = some limit ∧
        limit ≤ s.taskConcurrency c.ti.task
  | .accept => s.Admits db c

theorem Pass.verdict_grounds (db : Database) (s : Pass) (c : Candidate) :
    (s.verdict db c).Grounds db s c := by
  cases hpool : (slotsStats db).lookup c.ti.pool with
  | none =>
    simp only [Pass.verdict, hpool]
    exact hpool
  | some stats =>
    simp only [Pass.verdict, hpool]
    split_ifs with hopen htotal hslots hdag hlimits
    · exact hopen
    · exact ⟨stats, hpool, htotal⟩
    · exact hslots
    · exact hdag
    · have hp : ∃ stats, (slotsStats db).lookup c.ti.pool = some stats ∧
          0 < s.openSlots c.ti.pool ∧ (c.ti.poolSlots : Slots) ≤ stats.total ∧
          (c.ti.poolSlots : Slots) ≤ s.openSlots c.ti.pool :=
        ⟨stats, hpool, Slots.not_le.mp hopen, Slots.not_lt.mp htotal, Slots.not_lt.mp hslots⟩
      cases hget : db.getDag c.ti.dagId with
      | none => exact ⟨hlimits, hget⟩
      | some dag =>
        dsimp only
        cases htask : taskConcurrencyLimit dag c.ti.taskId with
        | none => exact ⟨hp, not_le.mp hdag, fun _ => ⟨dag, hget, by simp [htask]⟩⟩
        | some limit =>
          dsimp only
          split_ifs with hconc
          · exact ⟨hlimits, dag, hget, limit, htask, hconc⟩
          · refine ⟨hp, not_le.mp hdag, fun _ => ⟨dag, hget, fun limit' hlimit' => ?_⟩⟩
            obtain rfl := Option.some.inj (htask.symm.trans hlimit')
            exact not_le.mp hconc
    · exact ⟨⟨stats, hpool, Slots.not_le.mp hopen, Slots.not_lt.mp htotal,
        Slots.not_lt.mp hslots⟩, not_le.mp hdag, fun h => absurd h hlimits⟩

theorem start_dagActiveTasks (db : Database) (dagId : String) :
    (Pass.start db).dagActiveTasks dagId = activeOfDag db dagId := dagMap_eq _ _

theorem start_taskConcurrency (db : Database) (task : String × String) :
    (Pass.start db).taskConcurrency task = activeOfTask db task := taskMap_eq _ _

/-- Task instances of one task ask for the same slots of the same pool. -/
def UniformTasks (db : Database) : Prop :=
  ∀ a ∈ db.taskInstances.rows, ∀ b ∈ db.taskInstances.rows, a.task = b.task →
    a.pool = b.pool ∧ a.poolSlots = b.poolSlots

instance (db : Database) : Decidable (UniformTasks db) :=
  inferInstanceAs (Decidable (∀ a ∈ db.taskInstances.rows, ∀ b ∈ db.taskInstances.rows, _))

/-- The verdict that strikes `c` rests on something that keeps `c` out as well. -/
theorem Verdict.Grounds.not_admits {db : Database} {s : Pass} {c d : Candidate} {v : Verdict}
    (h : v.Grounds db s d) (hstrikes : v.strikes d c = true)
    (hmodel : c.ti.dagId = d.ti.dagId → c.dagModel = d.dagModel)
    (huniform : c.ti.task = d.ti.task → c.ti.pool = d.ti.pool ∧ c.ti.poolSlots = d.ti.poolSlots) :
    ¬s.Admits db c := by
  rintro ⟨⟨stats, hpool, hopen, htotal, hslots⟩, hdag, htask⟩
  cases v with
  | noPool =>
    have hp : c.ti.pool = d.ti.pool := by simpa [strikes] using hstrikes
    rw [hp, show (slotsStats db).lookup d.ti.pool = none from h] at hpool
    exact nomatch hpool
  | poolFull =>
    have hp : c.ti.pool = d.ti.pool := by simpa [strikes] using hstrikes
    exact hopen (hp ▸ h)
  | overTotal =>
    obtain ⟨hp, hn⟩ := huniform (by simpa [strikes] using hstrikes)
    obtain ⟨stats', hpool', hover⟩ := h
    rw [hp] at hpool
    obtain rfl := Option.some.inj (hpool.symm.trans hpool')
    exact hover (hn ▸ htotal)
  | overOpen =>
    obtain ⟨hp, hn⟩ := huniform (by simpa [strikes] using hstrikes)
    have h : s.openSlots d.ti.pool < d.ti.poolSlots := h
    rw [hp, hn] at hslots
    exact h hslots
  | dagFull =>
    have hd : c.ti.dagId = d.ti.dagId := by simpa [strikes] using hstrikes
    have h : d.dagModel.maxActiveTasks ≤ s.dagActiveTasks d.ti.dagId := h
    rw [hd, hmodel hd] at hdag
    exact absurd h (not_le.mpr hdag)
  | unserialized =>
    have hd : c.ti.dagId = d.ti.dagId := by simpa [strikes] using hstrikes
    obtain ⟨hlimits, hnone⟩ := h
    obtain ⟨dag, hget, -⟩ := htask (by rwa [hmodel hd])
    rw [hd, hnone] at hget
    exact nomatch hget
  | taskFull =>
    have ht : c.ti.task = d.ti.task := by simpa [strikes] using hstrikes
    obtain ⟨hd, hid⟩ := Prod.mk.inj ht
    obtain ⟨hlimits, dag, hget, limit, hlimit, hfull⟩ := h
    obtain ⟨dag', hget', hlt⟩ := htask (by rwa [hmodel hd])
    rw [hd] at hget'
    obtain rfl := Option.some.inj (hget.symm.trans hget')
    have hlt := hlt limit (hid ▸ hlimit)
    rw [ht] at hlt
    omega
  | accept => exact nomatch hstrikes

-- ---------------------------------------------------------------------------
-- What is left for the query
-- ---------------------------------------------------------------------------

instance : IsTrans Candidate Candidate.before := by
  constructor
  rintro a b c (hab | ⟨hab, hab'⟩) (hbc | ⟨hbc, hbc'⟩)
  · exact .inl (hbc.trans hab)
  · exact .inl (hbc ▸ hab)
  · exact .inl (hab ▸ hbc)
  · exact .inr ⟨hab.trans hbc, hab'.trans hbc'⟩

instance : Std.Total Candidate.before := by
  constructor
  intro a b
  rcases lt_trichotomy a.ti.priorityWeight b.ti.priorityWeight with h | h | h
  · exact .inr (.inl h)
  · rcases le_total a.dagRun.executionDate b.dagRun.executionDate with hd | hd
    · exact .inl (.inr ⟨h, hd⟩)
    · exact .inr (.inr ⟨h.symm, hd⟩)
  · exact .inl (.inl h)

/-- The scheduled task instances that no exclusion set leaves out, in the order of the query. -/
def Pass.remaining (db : Database) (s : Pass) : List Candidate :=
  (candidates db s.taskInstances.rows).filter (!s.starves ·)

theorem joined_failScheduled (db : Database) (t : TaskTable) (dagId : String) :
    (joined db (failScheduled t dagId).rows).filter (·.eligible) =
      ((joined db t.rows).filter (·.eligible)).filter (·.ti.dagId ≠ dagId) := by
  simp only [joined, failScheduled, TaskTable.update, List.filterMap_map, List.filter_filterMap]
  refine List.filterMap_congr fun ti _ => ?_
  simp only [Function.comp_apply, bind]
  split_ifs with hp
  · simp only [Bool.and_eq_true, decide_eq_true_eq] at hp
    cases db.dagRunOf ti.key with
    | none => rfl
    | some run =>
      rw [Option.bind_some, Option.bind_some]
      change Option.filter _ ((db.dagModel ti.dagId).bind _) = _
      cases db.dagModel ti.dagId with
      | none => rfl
      | some model =>
        have hfailed : Candidate.eligible ⟨{ ti with state := some .failed }, run, model⟩ =
            false := by simp [Candidate.eligible]
        simp only [Option.bind_some, Option.filter_some, hfailed, Bool.false_eq_true, if_false]
        split_ifs <;> simp [Option.filter_some, hp.1]
  · cases db.dagRunOf ti.key with
    | none => rfl
    | some run =>
      cases db.dagModel ti.dagId with
      | none => rfl
      | some model =>
        by_cases he : ti.state = some .scheduled
        · have hid : ti.dagId ≠ dagId := by simpa [he] using hp
          simp only [Option.bind_some, Option.filter_some]
          split_ifs <;> simp [Option.filter_some, hid]
        · simp [Option.filter_some, Candidate.eligible, he]

theorem candidates_failScheduled (db : Database) (t : TaskTable) (dagId : String) :
    candidates db (failScheduled t dagId).rows =
      (candidates db t.rows).filter (·.ti.dagId ≠ dagId) := by
  rw [candidates, candidates, joined_failScheduled, StableSort.filter_insertionSort]

theorem Pass.starves_iff {s : Pass} {c : Candidate} : s.starves c = true ↔
    c.ti.pool ∈ s.starvedPools ∨ c.ti.dagId ∈ s.starvedDags ∨ c.ti.task ∈ s.starvedTasks := by
  simp [Pass.starves, or_assoc]

/-- A verdict excludes what it strikes; failing a DAG's task instances takes them from the rows. -/
theorem Pass.act_starves {s : Pass} {c d : Candidate} {v : Verdict} (hv : v ≠ .unserialized) :
    (s.act d v).starves c = (s.starves c || v.strikes d c) := by
  rw [Bool.eq_iff_iff, Bool.or_eq_true, Pass.starves_iff, Pass.starves_iff]
  cases v with
  | noPool | poolFull =>
    simp only [Pass.act, Pass.starvePool, Verdict.strikes, Finset.mem_insert, decide_eq_true_eq]
    tauto
  | overTotal | overOpen | taskFull =>
    simp only [Pass.act, Pass.starveTask, Verdict.strikes, Finset.mem_insert, decide_eq_true_eq]
    tauto
  | dagFull =>
    simp only [Pass.act, Pass.starveDag, Verdict.strikes, Finset.mem_insert, decide_eq_true_eq]
    tauto
  | unserialized => exact absurd rfl hv
  | accept => simp [Pass.act, Pass.accept, Verdict.strikes]

theorem Verdict.strikes_self {v : Verdict} (hv : v ≠ .accept) (c : Candidate) :
    v.strikes c c = true := by
  cases v with
  | accept => exact absurd rfl hv
  | _ => exact decide_eq_true rfl

/-- An examination leaves the task instances that its verdict does not strike. -/
theorem Pass.examine_remaining (db : Database) (s : Pass) (d : Candidate) :
    (s.examine db d).remaining db =
      (s.remaining db).filter fun c => !(s.verdict db d).strikes d c := by
  rw [Pass.examine_eq_act]
  by_cases hv : s.verdict db d = .unserialized
  · simp only [hv, Pass.remaining, Pass.act, candidates_failScheduled, List.filter_filter]
    refine List.filter_congr fun c _ => ?_
    rw [Bool.and_comm]
    congr 1
    simp [Verdict.strikes]
  · have hrows : (s.act d (s.verdict db d)).taskInstances = s.taskInstances := by
      cases h : s.verdict db d with
      | unserialized => exact absurd h hv
      | _ => rfl
    simp only [Pass.remaining, hrows, List.filter_filter]
    refine List.filter_congr fun c _ => ?_
    rw [Pass.act_starves hv, Bool.not_or, Bool.and_comm]

-- ---------------------------------------------------------------------------
-- A window that admits nothing
-- ---------------------------------------------------------------------------

/-- No element of the window strikes `c`. -/
def Pass.spares (db : Database) (s : Pass) (window : List Candidate) (c : Candidate) : Bool :=
  window.all fun d => !(s.verdict db d).strikes d c

theorem Pass.spares_congr {db : Database} {s t : Pass} (h : s.ledger = t.ledger)
    (window : List Candidate) (c : Candidate) : s.spares db window c = t.spares db window c := by
  simp only [Pass.spares, Pass.verdict_congr h]

theorem Pass.examine_ledger {db : Database} {s : Pass} {c : Candidate}
    (h : s.verdict db c ≠ .accept) : (s.examine db c).ledger = s.ledger := by
  rw [Pass.examine_eq_act, Pass.act_ledger h]

theorem Pass.examineAll_ledger {db : Database} {s : Pass} {window : List Candidate}
    (h : ∀ c ∈ window, s.verdict db c ≠ .accept) : (s.examineAll db window).ledger = s.ledger := by
  induction window generalizing s with
  | nil => rfl
  | cons c cs ih =>
    obtain ⟨hc, hcs⟩ := List.forall_mem_cons.mp h
    have hl := Pass.examine_ledger hc
    rw [Pass.examineAll_cons, ih fun d hd => Pass.verdict_congr hl d ▸ hcs d hd, hl]

theorem Pass.examineAll_remaining {db : Database} {s : Pass} {window : List Candidate}
    (h : ∀ c ∈ window, s.verdict db c ≠ .accept) :
    (s.examineAll db window).remaining db = (s.remaining db).filter (s.spares db window) := by
  induction window generalizing s with
  | nil => exact (List.filter_eq_self.mpr fun c _ => rfl).symm
  | cons c cs ih =>
    obtain ⟨hc, hcs⟩ := List.forall_mem_cons.mp h
    have hl : ∀ d, (s.examine db c).verdict db d = s.verdict db d :=
      Pass.verdict_congr (Pass.examine_ledger hc)
    rw [Pass.examineAll_cons, ih fun d hd => hl d ▸ hcs d hd, Pass.examine_remaining,
      List.filter_filter]
    refine List.filter_congr fun d _ => ?_
    simp only [Pass.spares, hl, List.all_cons, Bool.and_comm]

/-- The first task instance of a window that finds room is admitted. -/
theorem Pass.examineAll_admits {db : Database} {s : Pass} {window : List Candidate}
    (h : ∃ c ∈ window, s.verdict db c = .accept) : (s.examineAll db window).executableTis ≠ [] := by
  induction window generalizing s with
  | nil => simp at h
  | cons c cs ih =>
    rw [Pass.examineAll_cons]
    by_cases hc : s.verdict db c = .accept
    · obtain ⟨added, ha, -⟩ := (s.examine db c).examineAll_sublist db cs
      rw [ha, Pass.examine_eq_act, hc]
      simp [Pass.act, Pass.accept]
    · obtain ⟨d, hd, haccept⟩ := h
      rcases List.mem_cons.mp hd with rfl | hd
      · exact absurd haccept hc
      · exact ih ⟨d, hd, (Pass.verdict_congr (Pass.examine_ledger hc) d).trans haccept⟩

theorem Pass.query_eq (db : Database) (maxTis : Nat) (s : Pass) :
    s.query db maxTis = (s.remaining db).take maxTis := rfl

end Beeflow.Scheduler
