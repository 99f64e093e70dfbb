import Beeflow.Scheduler.Limits

/-!
# Runs of passes

A pass queues exactly the task instances it returns. Between passes, task
instances leave QUEUED and RUNNING, move from one of them to the other, or move
among the other states. Along every such run a pass takes no pool, DAG or task
above its limit.
-/

namespace Beeflow.Scheduler

open Airflow

-- ---------------------------------------------------------------------------
-- The database a pass leaves
-- ---------------------------------------------------------------------------

/-- `db'` has `tis` in `EXECUTION_STATES` on top of what `db` has there. -/
structure Queues (db : Database) (tis : List TaskInstance) (db' : Database) : Prop where
  pools : db'.pools = db.pools
  models : db'.dagModels = db.dagModels
  dags : db'.serializedDags = db.serializedDags
  rows : db'.taskInstances.rows.map charge = db.taskInstances.rows.map charge
  charges : ((db'.taskInstances.rows.filter (·.inExecution)).map charge).Perm
    ((db.taskInstances.rows.filter (·.inExecution) ++ tis).map charge)

theorem setQueued_charge (keys : List TaskInstanceKey) (jobId : Nat) (now : Time) :
    (charge ∘ fun ti => if decide (ti.key ∈ keys) = true then
      { ti with state := some .queued, queuedDttm := some now, queuedByJobId := some jobId }
        else ti) = charge := by
  funext ti
  simp only [Function.comp_apply]
  split <;> rfl

theorem setQueued_filter (t : TaskTable) (keys : List TaskInstanceKey) (jobId : Nat) (now : Time) :
    ((setQueued t keys jobId now).rows.filter (·.inExecution)).map charge =
      (t.rows.filter fun ti => ti.key ∈ keys || ti.inExecution).map charge := by
  simp only [setQueued, TaskTable.update, List.filter_map, List.map_map]
  rw [setQueued_charge]
  refine congrArg _ (List.filter_congr fun ti _ => ?_)
  simp only [Function.comp_apply]
  split
  · rename_i h
    simp [h, TaskInstance.inExecution, TaskInstanceState.inExecution]
  · rename_i h
    simp [h]

theorem charge_key {rows rows' : List TaskInstance}
    (h : rows.map fixedColumns = rows'.map fixedColumns) :
    rows.map (·.key) = rows'.map (·.key) := by
  have h := congrArg (List.map fun k => k.1.1) h
  rwa [List.map_map, List.map_map] at h

theorem eq_of_key {rows : List TaskInstance} (hn : (rows.map (·.key)).Nodup) {a b : TaskInstance}
    (ha : a ∈ rows) (hb : b ∈ rows) (h : a.key = b.key) : a = b :=
  List.inj_on_of_nodup_map hn ha hb h

theorem fixedColumns_of_key {t : TaskTable} {rows : List TaskInstance}
    (hrows : rows.map fixedColumns = t.rows.map fixedColumns) {ti r : TaskInstance}
    (hti : ti ∈ t.rows) (hr : r ∈ rows) (hk : ti.key = r.key) :
    fixedColumns ti = fixedColumns r := by
  have hmem : fixedColumns r ∈ t.rows.map fixedColumns := hrows ▸ List.mem_map_of_mem hr
  obtain ⟨r', hr', he⟩ := List.mem_map.mp hmem
  have hkey : r'.key = r.key := congrArg (fun k => k.1.1) he
  rw [eq_of_key t.nodup hti hr' (hk.trans hkey.symm), he]

theorem chosen_perm {t : TaskTable} {tis rows : List TaskInstance} (hn : (tis.map (·.key)).Nodup)
    (hrows : rows.map fixedColumns = t.rows.map fixedColumns) (hsub : ∀ ti ∈ tis, ti ∈ rows) :
    ((t.rows.filter fun ti => ti.key ∈ tis.map (·.key)).map charge).Perm (tis.map charge) := by
  have hkeys := charge_key hrows
  have hnodup : ((t.rows.filter fun ti => ti.key ∈ tis.map (·.key)).map charge).Nodup := by
    have h := (List.filter_sublist (p := fun ti : TaskInstance => ti.key ∈ tis.map (·.key))
      (l := t.rows)).map (·.key) |>.nodup t.nodup
    exact List.Nodup.of_map (fun c => c.1) (by rwa [List.map_map])
  have hnodup' : (tis.map charge).Nodup :=
    List.Nodup.of_map (fun c => c.1) (by rwa [List.map_map])
  -- A row and a chosen task instance of one key are charged alike.
  have hsame {ti r : TaskInstance} (hti : ti ∈ t.rows) (hr : r ∈ rows) (hk : ti.key = r.key) :
      charge ti = charge r := congrArg Prod.fst (fixedColumns_of_key hrows hti hr hk)
  refine (List.perm_ext_iff_of_nodup hnodup hnodup').mpr fun c => ?_
  simp only [List.mem_map, List.mem_filter, decide_eq_true_eq]
  constructor
  · rintro ⟨ti, ⟨hti, r, hr, hk⟩, rfl⟩
    exact ⟨r, hr, (hsame hti (hsub r hr) hk.symm).symm⟩
  · rintro ⟨r, hr, rfl⟩
    have hmem : r.key ∈ t.rows.map (·.key) := hkeys ▸ List.mem_map_of_mem (hsub r hr)
    obtain ⟨ti, hti, hk⟩ := List.mem_map.mp hmem
    exact ⟨ti, ⟨hti, r, hr, hk.symm⟩, hsame hti (hsub r hr) hk⟩

/-- The chosen rows were scheduled, so they are charged for the first time. -/
theorem chosen_fresh {t : TaskTable} {tis rows : List TaskInstance}
    (hrows : rows.map fixedColumns = t.rows.map fixedColumns) (hsub : ∀ ti ∈ tis, ti ∈ rows)
    (hscheduled : ∀ ti ∈ tis, ti.state = some .scheduled) :
    ∀ ti ∈ t.rows, decide (ti.key ∈ tis.map (·.key)) = true → ti.inExecution = false := by
  intro ti hti hk
  obtain ⟨r, hr, hk⟩ := List.mem_map.mp (of_decide_eq_true hk)
  have hin : ti.inExecution = r.inExecution :=
    congrArg Prod.snd (fixedColumns_of_key hrows hti (hsub r hr) hk.symm)
  rw [hin, TaskInstance.inExecution, hscheduled r hr]
  rfl

theorem fixedColumns_filter {rows rows' : List TaskInstance}
    (h : rows.map fixedColumns = rows'.map fixedColumns) :
    (rows.filter (·.inExecution)).map charge = (rows'.filter (·.inExecution)).map charge := by
  have h := congrArg (fun l => (l.filter (·.2)).map (·.1)) h
  simpa only [List.filter_map, List.map_map] using! h

theorem executable_spec {db db' : Database} {maxTis jobId : Nat} {now : Time}
    {tis : List TaskInstance}
    (h : executableTaskInstancesToQueued db maxTis jobId now = some (tis, db')) :
    Respects db maxTis tis ∧ Queues db tis db' := by
  unfold executableTaskInstancesToQueued at h
  split_ifs at h with hfree
  · obtain ⟨rfl, rfl⟩ := Prod.mk.inj (Option.some.inj h)
    exact ⟨⟨by simp, by simp, by simp, by simp, by simp⟩, rfl, rfl, rfl, rfl, by simp⟩
  · simp only [bind, Option.bind_eq_some_iff, Option.some.injEq, Prod.mk.injEq] at h
    obtain ⟨s, hloop, rfl, rfl⟩ := h
    obtain ⟨hkept, hn, hlen, u, hu, hq⟩ := Pass.loop_spec (Pass.start_kept db) rfl hloop
    have hrow : ∀ c ∈ s.executableTis, c ∈ joined db u.taskInstances.rows ∧ c.eligible = true :=
      fun c hc => ⟨(mem_query (hq c hc)).1, (mem_query (hq c hc)).2.1⟩
    refine ⟨hkept.respects hn (hlen.trans (capTis_le _ _))
      fun c hc => (mem_joined.mp (hrow c hc).1).2.2, rfl, rfl, rfl, ?_, ?_⟩
    · rw [setQueued, TaskTable.update, List.map_map, setQueued_charge]
      simpa only [List.map_map] using! congrArg (List.map Prod.fst) hkept.rows
    have hcols := hu.trans hkept.rows.symm
    have hsub : ∀ ti ∈ s.executableTis.map (·.ti), ti ∈ u.taskInstances.rows := by
      intro ti hti
      obtain ⟨c, hc, rfl⟩ := List.mem_map.mp hti
      exact (mem_joined.mp (hrow c hc).1).1
    have hnodup : ((s.executableTis.map (·.ti)).map (·.key)).Nodup := by rwa [List.map_map]
    have hscheduled : ∀ ti ∈ s.executableTis.map (·.ti), ti.state = some .scheduled := by
      intro ti hti
      obtain ⟨c, hc, rfl⟩ := List.mem_map.mp hti
      have h := (hrow c hc).2
      simp only [Candidate.eligible, Bool.and_eq_true, decide_eq_true_eq] at h
      exact h.2
    have hfresh := chosen_fresh hcols hsub hscheduled
    rw [setQueued_filter]
    refine ((Tally.filter_or_perm hfresh).map charge).trans ?_
    rw [List.map_append, List.map_append, fixedColumns_filter hkept.rows]
    exact (chosen_perm hnodup hcols hsub).append_left _

theorem executable_isSome (db : Database) (maxTis jobId : Nat) (now : Time) :
    (executableTaskInstancesToQueued db maxTis jobId now).isSome := by
  unfold executableTaskInstancesToQueued
  split_ifs
  · rfl
  · obtain ⟨s, hs⟩ := Option.isSome_iff_exists.mp
      (Pass.loop_turns db (capTis maxTis (poolSlotsFree db)))
    simp [hs, bind]

-- ---------------------------------------------------------------------------
-- One pass
-- ---------------------------------------------------------------------------

theorem occupied_charges (db : Database) (pool : String) :
    occupiedSlots db pool = Tally.weight (fun c => c.2.1) (fun c => c.2.2)
      ((db.taskInstances.rows.filter (·.inExecution)).map charge) pool := by
  rw [Tally.weight_comp]
  rfl

theorem Queues.occupied {db db' : Database} {tis : List TaskInstance} (h : Queues db tis db')
    (pool : String) :
    occupiedSlots db' pool =
      occupiedSlots db pool + Tally.weight (·.pool) (·.poolSlots) tis pool := by
  rw [occupied_charges, Tally.weight_perm h.charges, Tally.weight_comp]
  exact Tally.weight_append

theorem Queues.active {db db' : Database} {tis : List TaskInstance} (h : Queues db tis db')
    {κ : Type} [DecidableEq κ] (f : TaskInstanceKey → κ) (k : κ) :
    Tally.count (fun ti => f ti.key) (db'.taskInstances.rows.filter (·.inExecution)) k =
      Tally.count (fun ti => f ti.key) (db.taskInstances.rows.filter (·.inExecution)) k +
        Tally.count (fun ti => f ti.key) tis k := by
  have hc (rows : List TaskInstance) : Tally.count (fun ti => f ti.key) rows k =
      Tally.count (fun c => f c.1) (rows.map charge) k := by
    rw [Tally.count_comp]
    rfl
  rw [← Tally.count_append, hc, hc, Tally.count_perm h.charges]

theorem Queues.active_of_none {db db' : Database} {tis : List TaskInstance}
    (h : Queues db tis db') {κ : Type} [DecidableEq κ] (f : TaskInstanceKey → κ) {k : κ}
    (hnone : ∀ ti ∈ tis, f ti.key ≠ k) :
    Tally.count (fun ti => f ti.key) (db'.taskInstances.rows.filter (·.inExecution)) k =
      Tally.count (fun ti => f ti.key) (db.taskInstances.rows.filter (·.inExecution)) k := by
  rw [h.active f k, Tally.count_eq_zero hnone, Nat.add_zero]

/-- Nothing is above its limit in `db'` that is not so in `db` already. -/
structure KeepsLimits (db db' : Database) : Prop where
  pool : ∀ pool, occupiedSlots db' pool ≤ occupiedSlots db pool ∨
    ∃ total, poolTotal db pool = some total ∧ (occupiedSlots db' pool : Slots) ≤ total
  dag : ∀ dagId, activeOfDag db' dagId ≤ activeOfDag db dagId ∨
    ∃ model, db.dagModel dagId = some model ∧ (activeOfDag db' dagId : Int) ≤ model.maxActiveTasks
  task : ∀ task, activeOfTask db' task ≤ activeOfTask db task ∨
    ∀ model, db.dagModel task.1 = some model → model.hasTaskConcurrencyLimits →
      ∀ dag, db.getDag task.1 = some dag → ∀ limit, taskConcurrencyLimit dag task.2 = some limit →
        (activeOfTask db' task : Int) ≤ limit

theorem Respects.keepsLimits {db db' : Database} {maxTis : Nat} {tis : List TaskInstance}
    (h : Respects db maxTis tis) (hq : Queues db tis db') : KeepsLimits db db' where
  pool pool := by
    rw [hq.occupied pool]
    by_cases hex : ∃ ti ∈ tis, ti.pool = pool
    · obtain ⟨ti, hti, rfl⟩ := hex
      obtain ⟨stats, hstats, -, hle⟩ := h.pool ti hti
      obtain ⟨htotal, hopen⟩ := openSlots_eq hstats
      refine .inr ⟨stats.total, htotal, ?_⟩
      rwa [hopen, ← Slots.zero_le_sub, Slots.sub_sub, Slots.zero_le_sub] at hle
    · left
      rw [Tally.weight_eq_zero fun ti hti hp => hex ⟨ti, hti, hp⟩]
      omega
  dag dagId := by
    have ha : activeOfDag db' dagId = _ := hq.active TaskInstanceKey.dagId dagId
    by_cases hex : ∃ ti ∈ tis, ti.dagId = dagId
    · obtain ⟨ti, hti, rfl⟩ := hex
      obtain ⟨model, hmodel, hle⟩ := h.dag ti hti
      refine .inr ⟨model, hmodel, ?_⟩
      rw [ha]
      exact_mod_cast hle
    · exact .inl (hq.active_of_none TaskInstanceKey.dagId fun ti hti hp => hex ⟨ti, hti, hp⟩).le
  task task := by
    have ha : activeOfTask db' task = _ :=
      hq.active (fun key => (key.dagId, key.taskId)) task
    by_cases hex : ∃ ti ∈ tis, ti.task = task
    · obtain ⟨ti, hti, rfl⟩ := hex
      refine .inr fun model hmodel hlimits dag hdag limit hlimit => ?_
      have hle := h.task ti hti model hmodel hlimits dag hdag limit hlimit
      rw [ha]
      exact_mod_cast hle
    · exact .inl (hq.active_of_none (fun key => (key.dagId, key.taskId))
        fun ti hti hp => hex ⟨ti, hti, hp⟩).le

-- ---------------------------------------------------------------------------
-- Runs
-- ---------------------------------------------------------------------------

inductive PassLabel
  | pass (maxTis jobId : Nat) (now : Time)
  | write (key : TaskInstanceKey) (state : Option TaskInstanceState)

/-- `UPDATE task_instance SET state = ... WHERE p` -/
def writeRows (t : TaskTable) (p : TaskInstance → Bool) (state : Option TaskInstanceState) :
    TaskTable :=
  t.update p (fun ti => { ti with state := state }) fun _ => rfl

def writeState (t : TaskTable) (key : TaskInstanceKey) (state : Option TaskInstanceState) :
    TaskTable :=
  writeRows t (·.key = key) state

/-- The write would bring a row into `EXECUTION_STATES` from outside. -/
def EntersExecution (t : TaskTable) (key : TaskInstanceKey) (state : Option TaskInstanceState) :
    Prop :=
  state.any (·.inExecution) = true ∧ ∃ ti ∈ t.rows, ti.key = key ∧ ti.inExecution = false

instance (t : TaskTable) (key : TaskInstanceKey) (state : Option TaskInstanceState) :
    Decidable (EntersExecution t key state) := inferInstanceAs (Decidable (_ ∧ _))

/-- A write is one by anyone else. No step stands for the take-up of a row that is not queued or
running: a late worker's, whose row was cleared or is to be retried. -/
def passStep (db : Database) : PassLabel → Option Database
  | .pass maxTis jobId now => (executableTaskInstancesToQueued db maxTis jobId now).map (·.2)
  | .write key state =>
    if EntersExecution db.taskInstances key state then none
    else some { db with taskInstances := writeState db.taskInstances key state }

def PassKeepsLimits (db : Database) : PassLabel → Prop
  | .pass maxTis jobId now => ∀ db', passStep db (.pass maxTis jobId now) = some db' →
      KeepsLimits db db'
  | .write .. => True

theorem pass_queues {db db' : Database} {maxTis jobId : Nat} {now : Time}
    (h : passStep db (.pass maxTis jobId now) = some db') :
    ∃ tis, Respects db maxTis tis ∧ Queues db tis db' := by
  obtain ⟨⟨tis, db₁⟩, he, rfl⟩ := Option.map_eq_some_iff.mp h
  exact ⟨tis, executable_spec he⟩

theorem pass_keepsLimits (db : Database) (l : PassLabel) : PassKeepsLimits db l := by
  cases l with
  | write => trivial
  | pass maxTis jobId now =>
    intro db' h
    obtain ⟨tis, hr, hq⟩ := pass_queues h
    exact hr.keepsLimits hq

theorem write_cases {db db' : Database} {key : TaskInstanceKey} {state : Option TaskInstanceState}
    (h : passStep db (.write key state) = some db') :
    ¬EntersExecution db.taskInstances key state ∧
      db' = { db with taskInstances := writeState db.taskInstances key state } := by
  simp only [passStep] at h
  split_ifs at h with henters
  exact ⟨henters, (Option.some.inj h).symm⟩

theorem writeRows_charge (t : TaskTable) (p : TaskInstance → Bool)
    (state : Option TaskInstanceState) :
    (writeRows t p state).rows.map charge = t.rows.map charge := by
  rw [writeRows, TaskTable.update, List.map_map]
  refine List.map_congr_left fun ti _ => ?_
  rw [Function.comp_apply]
  split_ifs <;> rfl

theorem writeRows_charges {t : TaskTable} {p : TaskInstance → Bool}
    {state : Option TaskInstanceState}
    (hleaves : ∀ ti ∈ t.rows, p ti → state.any (·.inExecution) → ti.inExecution) :
    (((writeRows t p state).rows.filter (·.inExecution)).map charge).Sublist
      ((t.rows.filter (·.inExecution)).map charge) := by
  simp only [writeRows, TaskTable.update]
  revert hleaves
  induction t.rows with
  | nil => exact fun _ => List.Sublist.refl _
  | cons ti rows ih =>
    intro hleaves
    obtain ⟨hti, hrows⟩ := List.forall_mem_cons.mp hleaves
    have ih := ih hrows
    simp only [List.map_cons, List.filter_cons]
    split_ifs with hp hin hin' hin'
    · exact ih.cons_cons _
    · exact absurd (hti hp hin) hin'
    · exact ih.cons _
    · exact ih
    · exact ih.cons_cons _
    · exact ih

theorem writeState_charges {t : TaskTable} {key : TaskInstanceKey}
    {state : Option TaskInstanceState} (h : ¬EntersExecution t key state) :
    (((writeState t key state).rows.filter (·.inExecution)).map charge).Sublist
      ((t.rows.filter (·.inExecution)).map charge) := by
  refine writeRows_charges fun ti hti hkey hstate => ?_
  by_contra hout
  exact h ⟨hstate, ti, hti, of_decide_eq_true hkey, by simpa using hout⟩

/-- No task instance takes a negative number of slots, and no pool is above its total. -/
structure WithinTotals (db : Database) : Prop where
  slots : ∀ c ∈ db.taskInstances.rows.map charge, 0 ≤ c.2.2
  pool : ∀ pool total, poolTotal db pool = some total → (occupiedSlots db pool : Slots) ≤ total

theorem WithinTotals.pass {db db' : Database} {tis : List TaskInstance} {maxTis : Nat}
    (h : WithinTotals db) (hr : Respects db maxTis tis) (hq : Queues db tis db') :
    WithinTotals db' := by
  refine ⟨hq.rows ▸ h.slots, fun pool total ht => ?_⟩
  rw [poolTotal, hq.pools, ← poolTotal] at ht
  rcases (hr.keepsLimits hq).pool pool with hle | ⟨total', ht', hle⟩
  · exact Slots.coe_le_trans hle (h.pool pool total ht)
  · obtain rfl := Option.some.inj (ht.symm.trans ht')
    exact hle

theorem WithinTotals.write {db : Database} (h : WithinTotals db) {key : TaskInstanceKey}
    {state : Option TaskInstanceState} (hstays : ¬EntersExecution db.taskInstances key state) :
    WithinTotals { db with taskInstances := writeState db.taskInstances key state } := by
  have hcharge : (writeState db.taskInstances key state).rows.map charge =
      db.taskInstances.rows.map charge := writeRows_charge _ _ _
  refine ⟨fun c hc => h.slots c (hcharge ▸ hc), fun pool total ht => ?_⟩
  refine Slots.coe_le_trans ?_ (h.pool pool total ht)
  rw [occupied_charges, occupied_charges]
  exact Tally.weight_sublist (writeState_charges hstays) fun c hc =>
    h.slots c ((List.filter_sublist.map charge).subset hc)

theorem WithinTotals.run {db db' : Database} {labels : List PassLabel} (h : WithinTotals db)
    (hr : Machine.run passStep db labels = some db') : WithinTotals db' := by
  refine Machine.run_invariant_all (fun db l db' h hs => ?_) h hr
  cases l with
  | pass maxTis jobId now =>
    obtain ⟨tis, hr, hq⟩ := pass_queues hs
    exact h.pass hr hq
  | write key state =>
    obtain ⟨hstays, rfl⟩ := write_cases hs
    exact h.write hstays

theorem executableTaskInstancesToQueued_limits (db : Database) (maxTis jobId : Nat) (now : Time) :
    (∃ tis db', executableTaskInstancesToQueued db maxTis jobId now = some (tis, db') ∧
      Respects db maxTis tis) ∧
    ∀ labels, Machine.Along passStep PassKeepsLimits db labels := by
  constructor
  · obtain ⟨⟨tis, db'⟩, h⟩ :=
      Option.isSome_iff_exists.mp (executable_isSome db maxTis jobId now)
    exact ⟨tis, db', h, (executable_spec h).1⟩
  · intro labels
    exact Machine.Along.imp (I := fun _ => True) (fun _ _ _ _ _ _ => trivial)
      (fun db l _ _ => pass_keepsLimits db l) trivial Machine.along_true

end Beeflow.Scheduler
