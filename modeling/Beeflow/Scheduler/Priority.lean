import Beeflow.Lib.Comprehension
import Beeflow.Scheduler.Starvation

/-!
# The pass is greedy by priority

The list a pass returns is chosen from one window, and what the earlier
windows left out had no room on entry. So a candidate that a returned task
instance overtook was blocked by the task instances returned before it.
-/

namespace Beeflow.Scheduler

open Airflow

/-- With `before` chosen, some limit has no room for the candidate. -/
def BlockedBehind (db : Database) (before : List Candidate) (c : Candidate) : Prop :=
  (slotsStats db).lookup c.ti.pool = none ∨
  (∃ stats, (slotsStats db).lookup c.ti.pool = some stats ∧
    stats.openSlots.sub (chosenSlots before c.ti.pool) < c.ti.poolSlots) ∨
  c.dagModel.maxActiveTasks ≤
    activeOfDag db c.ti.dagId + Tally.count (·.ti.dagId) before c.ti.dagId ∨
  c.dagModel.hasTaskConcurrencyLimits ∧ ∃ dag, db.getDag c.ti.dagId = some dag ∧
    ∃ limit, taskConcurrencyLimit dag c.ti.taskId = some limit ∧
      limit ≤ activeOfTask db c.ti.task + Tally.count (·.ti.task) before c.ti.task

/-- An operator asks for at least one slot. -/
def PositiveSlots (db : Database) : Prop := ∀ ti ∈ db.taskInstances.rows, 0 < ti.poolSlots

instance (db : Database) : Decidable (PositiveSlots db) :=
  inferInstanceAs (Decidable (∀ ti ∈ db.taskInstances.rows, _))

/-- The loop is about to issue its query, and nothing was chosen yet. -/
structure Pass.Unopened (db : Database) (s : Pass) : Prop where
  ledger : s.ledger = (Pass.start db).ledger
  remaining : ∃ keep : Candidate → Bool,
    s.remaining db = (candidates db db.taskInstances.rows).filter keep ∧
      ∀ c ∈ candidates db db.taskInstances.rows, keep c = false → ¬(Pass.start db).Admits db c

section Turns

variable {db : Database}

theorem Pass.start_unopened (hp : DistinctPools db) : (Pass.start db).Unopened db where
  ledger := rfl
  remaining := by
    refine ⟨(!(Pass.start db).starves ·), rfl, fun c _ hkeep hadmits => ?_⟩
    obtain ⟨stats, hpool, hopen, -⟩ := hadmits.pool
    rw [start_openSlots hpool] at hopen
    simp [start_starves hp hpool hopen] at hkeep

theorem Pass.Unopened.next (hu : UniformTasks db) {s : Pass} (h : s.Unopened db) (maxTis : Nat)
    (hexec : (s.examineAll db (s.query db maxTis)).executableTis = []) :
    (s.examineAll db (s.query db maxTis)).Unopened db := by
  have hrejected : ∀ c ∈ s.query db maxTis, s.verdict db c ≠ .accept :=
    fun c hc haccept => Pass.examineAll_admits ⟨c, hc, haccept⟩ hexec
  obtain ⟨keep, hkeep, hout⟩ := h.remaining
  refine ⟨(Pass.examineAll_ledger hrejected).trans h.ledger,
    fun c => keep c && s.spares db (s.query db maxTis) c, ?_, fun c hc hfalse => ?_⟩
  · rw [Pass.examineAll_remaining hrejected, hkeep, List.filter_filter]
    exact List.filter_congr fun c _ => Bool.and_comm _ _
  · rcases Bool.and_eq_false_iff.mp hfalse with hfalse | hfalse
    · exact hout c hc hfalse
    · rw [Pass.spares_congr h.ledger, Pass.spares, List.all_eq_false] at hfalse
      obtain ⟨d, hd, hstrikes⟩ := hfalse
      have hd : d ∈ s.remaining db := List.mem_of_mem_take hd
      rw [hkeep] at hd
      exact not_admits_of_strikes hu hc (List.mem_filter.mp hd).1
        (by simpa [entryVerdict] using hstrikes)

/-- What a pass returns it chose in its last turn. -/
theorem Pass.loop_last (hu : UniformTasks db) {maxTis fuel : Nat} {s t : Pass}
    (h : s.Unopened db) (hloop : Pass.loop db maxTis fuel s = some t) (hne : t.executableTis ≠ []) :
    ∃ u : Pass, u.Unopened db ∧ t = u.examineAll db (u.query db maxTis) := by
  induction fuel generalizing s with
  | zero => exact nomatch hloop
  | succ fuel ih =>
    rcases s.iterate_cases db maxTis with ⟨-, hempty⟩ | ⟨hs, hmore⟩
    · obtain rfl := Pass.loop_stop hempty hloop
      exact absurd (Pass.executableTis_congr h.ledger) hne
    · cases hi : s.iterate db maxTis with
      | mk u more =>
        rw [hi] at hs hmore
        cases more with
        | true =>
          obtain rfl : u = _ := hs
          exact ih (h.next hu maxTis (hmore rfl).1) (Pass.loop_more hi hloop)
        | false =>
          obtain rfl := Pass.loop_stop hi hloop
          exact ⟨s, h, hs⟩

end Turns

-- ---------------------------------------------------------------------------
-- Blocked when its turn came
-- ---------------------------------------------------------------------------

section Blocked

variable {db : Database} {c : Candidate}

theorem occupiedSlots_nonneg (hs : PositiveSlots db) (pool : String) : 0 ≤ occupiedSlots db pool :=
  List.sum_nonneg fun n hn => by
    obtain ⟨ti, hti, rfl⟩ := List.mem_map.mp hn
    exact (hs ti (List.mem_filter.mp (List.mem_filter.mp hti).1).1).le

theorem chosenSlots_nonneg {before : List Candidate} (h : ∀ d ∈ before, 0 < d.ti.poolSlots)
    (pool : String) : 0 ≤ chosenSlots before pool :=
  List.sum_nonneg fun n hn => by
    obtain ⟨d, hd, rfl⟩ := List.mem_map.mp hn
    exact (h d (List.mem_filter.mp hd).1).le

theorem Slots.le_of_le_sub {m n : Int} {s : Slots} (hn : 0 ≤ n) (h : (m : Slots) ≤ s.sub n) :
    (m : Slots) ≤ s := by
  cases s with
  | inf => trivial
  | num k =>
    have h : m ≤ k - n := h
    exact (show m ≤ k by omega)

theorem Slots.pos_of_le {m : Int} {s : Slots} (hm : 0 < m) (h : (m : Slots) ≤ s) : 0 < s := by
  cases s with
  | inf => exact fun hle : Slots.inf ≤ 0 => hle
  | num k =>
    have h : m ≤ k := h
    exact (show ¬k ≤ 0 by omega)

theorem Slots.sub_lt_of_le {m n k : Int} {s : Slots} (hn : n ≤ k) (h : s.sub n < (m : Slots)) :
    s.sub k < (m : Slots) := by
  cases s with
  | inf => exact absurd trivial h
  | num j =>
    have h : ¬m ≤ j - n := h
    exact (show ¬m ≤ j - k by omega)

/-- A candidate that is not blocked behind `before` finds room where the
counters say that `before` was chosen. -/
theorem admits_of_not_blocked (hs : PositiveSlots db) {s : Pass}
    (hcounted : (Pass.start db).Counted s) (hc : c.ti ∈ db.taskInstances.rows)
    (hbefore : ∀ d ∈ s.executableTis, 0 < d.ti.poolSlots) (hserial : (db.getDag c.ti.dagId).isSome)
    (h : ¬BlockedBehind db s.executableTis c) : s.Admits db c := by
  simp only [BlockedBehind, not_or, not_and, not_exists, not_le] at h
  obtain ⟨hpool, hslots, hdag, htask⟩ := h
  obtain ⟨stats, hstats⟩ := Option.ne_none_iff_exists'.mp hpool
  have hopen := hcounted.openSlots c.ti.pool
  rw [start_openSlots hstats] at hopen
  have hroom := Slots.not_lt.mp (hslots stats hstats)
  rw [← hopen] at hroom
  obtain ⟨-, htotal⟩ := openSlots_eq hstats
  refine ⟨⟨stats, hstats, ?_, ?_, hroom⟩, ?_, fun hlimits => ?_⟩
  · exact Slots.pos_of_le (hs _ hc) hroom
  · rw [hopen, htotal] at hroom
    exact Slots.le_of_le_sub (occupiedSlots_nonneg hs _)
      (Slots.le_of_le_sub (chosenSlots_nonneg hbefore _) hroom)
  · rw [hcounted.dagActiveTasks, start_dagActiveTasks]
    exact_mod_cast hdag
  · obtain ⟨dag, hget⟩ := Option.isSome_iff_exists.mp hserial
    refine ⟨dag, hget, fun limit hlimit => ?_⟩
    rw [hcounted.taskConcurrency, start_taskConcurrency]
    exact_mod_cast htask hlimits dag hget limit hlimit

theorem BlockedBehind.mono {before before' : List Candidate} (h : BlockedBehind db before c)
    (hsub : before.Sublist before') (hbefore : ∀ d ∈ before', 0 < d.ti.poolSlots) :
    BlockedBehind db before' c := by
  rcases h with hpool | ⟨stats, hstats, hslots⟩ | hdag | ⟨hlimits, dag, hget, limit, hlimit, hfull⟩
  · exact .inl hpool
  · have hle : chosenSlots before c.ti.pool ≤ chosenSlots before' c.ti.pool :=
      Tally.weight_sublist hsub fun d hd => (hbefore d hd).le
    exact .inr (.inl ⟨stats, hstats, Slots.sub_lt_of_le hle hslots⟩)
  · have hle : Tally.count (·.ti.dagId) before c.ti.dagId ≤
        Tally.count (·.ti.dagId) before' c.ti.dagId := Tally.count_sublist hsub _
    exact .inr (.inr (.inl (by omega)))
  · have hle : Tally.count (·.ti.task) before c.ti.task ≤
        Tally.count (·.ti.task) before' c.ti.task := Tally.count_sublist hsub _
    exact .inr (.inr (.inr ⟨hlimits, dag, hget, limit, hlimit, by omega⟩))

end Blocked

-- ---------------------------------------------------------------------------
-- The whole pass
-- ---------------------------------------------------------------------------

theorem Pass.examineAll_append (db : Database) (s : Pass) (l m : List Candidate) :
    s.examineAll db (l ++ m) = (s.examineAll db l).examineAll db m := List.foldl_append

theorem Pass.Unopened.examineAll_sublist {db : Database} {u : Pass} (h : u.Unopened db)
    (window : List Candidate) : (u.examineAll db window).executableTis.Sublist window := by
  have hempty : u.executableTis = [] := Pass.executableTis_congr h.ledger
  obtain ⟨chosen, hchosen, hsub⟩ := Pass.examineAll_sublist db u window
  rwa [hchosen, hempty, List.nil_append]

/-- A candidate of the last window that was not chosen is blocked behind those chosen before it. -/
theorem Pass.Unopened.blocked_of_window {db : Database} (hs : PositiveSlots db) {u : Pass}
    (h : u.Unopened db) {l m : List Candidate} {c : Candidate}
    (hrows : ∀ d ∈ l ++ [c], d.ti ∈ db.taskInstances.rows)
    (hserial : (db.getDag c.ti.dagId).isSome)
    (hc : c ∉ (u.examineAll db (l ++ c :: m)).executableTis) :
    ∃ before added, before.Sublist l ∧ added.Sublist m ∧
      (u.examineAll db (l ++ c :: m)).executableTis = before ++ added ∧
      BlockedBehind db before c := by
  obtain ⟨added, ha, hasub⟩ :=
    Pass.examineAll_sublist db ((u.examineAll db l).examine db c) m
  rw [Pass.examineAll_append, Pass.examineAll_cons, ha] at hc ⊢
  have hrejected : (u.examineAll db l).verdict db c ≠ .accept := by
    intro haccept
    refine hc (List.mem_append_left _ ?_)
    rw [Pass.examine_eq_act, haccept]
    simp [Pass.act, Pass.accept]
  have hexec := Pass.executableTis_congr (Pass.examine_ledger hrejected)
  refine ⟨_, added, h.examineAll_sublist l, hasub, congrArg (· ++ added) hexec, ?_⟩
  by_contra hblocked
  have hcounted : (Pass.start db).Counted (u.examineAll db l) :=
    ((Pass.start_kept db).counted.of_ledger h.ledger).examineAll db l
  refine hrejected (Pass.verdict_accept_iff.mpr (admits_of_not_blocked hs hcounted
    (hrows c (by simp)) (fun d hd => ?_) hserial hblocked))
  exact hs _ (hrows d (List.mem_append_left _ ((h.examineAll_sublist l).subset hd)))

/-- A candidate is among the chosen ones as soon as its task instance is. -/
theorem Pass.Unopened.mem_tis {db : Database} {u : Pass} (h : u.Unopened db) (maxTis : Nat)
    (d : Candidate) (hd : d ∈ candidates db db.taskInstances.rows) :
    d.ti ∈ (u.examineAll db (u.query db maxTis)).executableTis.map (·.ti) ↔
      d ∈ (u.examineAll db (u.query db maxTis)).executableTis := by
  refine ⟨fun hti => ?_, List.mem_map_of_mem⟩
  obtain ⟨e, he, hti⟩ := List.mem_map.mp hti
  obtain ⟨keep, hkeep, -⟩ := h.remaining
  have hleft : e ∈ u.remaining db :=
    List.mem_of_mem_take ((h.examineAll_sublist _).subset he)
  rw [hkeep] at hleft
  have hkey := List.inj_on_of_nodup_map (candidates_nodup db db.taskInstances)
    (List.mem_filter.mp hleft).1 hd (congrArg (·.key) hti)
  exact hkey ▸ he

/-- A window that reaches behind a kept candidate holds it and all kept ones before it. -/
theorem Pass.query_split {db : Database} {u : Pass} {keep : Candidate → Bool} {maxTis : Nat}
    {above below : List Candidate} {c r : Candidate} (hnodup : (above ++ c :: below).Nodup)
    (hremaining : u.remaining db = (above ++ c :: below).filter keep) (hc : keep c = true)
    (hr : r ∈ u.query db maxTis) (hbelow : r ∈ below) :
    ∃ j, u.query db maxTis = above.filter keep ++ c :: (below.filter keep).take j := by
  have hkeep : keep r = true := by
    have hleft : r ∈ u.remaining db := List.mem_of_mem_take hr
    rw [hremaining] at hleft
    exact (List.mem_filter.mp hleft).2
  rw [List.filter_append, List.filter_cons_of_pos hc] at hremaining
  have hleft : (above.filter keep ++ c :: below.filter keep).Sublist (above ++ c :: below) :=
    List.filter_sublist.append (List.filter_sublist.cons_cons c)
  rw [Pass.query_eq, hremaining] at hr ⊢
  exact Comprehension.take_of_mem_behind (hleft.nodup hnodup) hr
    (List.mem_filter.mpr ⟨hbelow, hkeep⟩)

theorem Pass.Unopened.blocked {db : Database} (hs : PositiveSlots db)
    (hserial : ∀ c ∈ candidates db db.taskInstances.rows, (db.getDag c.ti.dagId).isSome)
    {u : Pass} (h : u.Unopened db) {maxTis : Nat} {above below : List Candidate} {c r : Candidate}
    (horder : candidates db db.taskInstances.rows = above ++ c :: below)
    (hc : c ∉ (u.examineAll db (u.query db maxTis)).executableTis)
    (hr : r ∈ (u.examineAll db (u.query db maxTis)).executableTis) (hbelow : r ∈ below) :
    BlockedBehind db
      (above.filter (· ∈ (u.examineAll db (u.query db maxTis)).executableTis)) c := by
  have hnodup : (above ++ c :: below).Nodup :=
    horder ▸ (candidates_nodup db db.taskInstances).of_map
  have hcandidate : ∀ d ∈ above ++ c :: below, d ∈ candidates db db.taskInstances.rows :=
    fun d hd => horder ▸ hd
  have hrows : ∀ d ∈ above ++ c :: below, d.ti ∈ db.taskInstances.rows :=
    fun d hd => (mem_joined.mp (mem_candidates.mp (hcandidate d hd)).1).1
  have hserial := hserial c (hcandidate c (by simp))
  obtain ⟨keep, hkeep, hout⟩ := h.remaining
  rw [horder] at hkeep
  cases hkc : keep c with
  | false =>
    -- an earlier window left the candidate out
    have hentry : BlockedBehind db [] c := by
      by_contra hblocked
      exact hout c (hcandidate c (by simp)) hkc (admits_of_not_blocked hs
        (Pass.start_kept db).counted (hrows c (by simp)) (fun d hd => nomatch hd) hserial hblocked)
    exact hentry.mono (List.nil_sublist _) fun d hd =>
      hs _ (hrows d (List.mem_append_left _ (List.mem_filter.mp hd).1))
  | true =>
    -- the last window reaches behind the candidate, since it reaches `r`
    obtain ⟨j, hj⟩ := Pass.query_split hnodup hkeep hkc
      ((h.examineAll_sublist _).subset hr) hbelow
    rw [hj] at hc ⊢
    have hwindow : ∀ d ∈ above.filter keep ++ [c], d.ti ∈ db.taskInstances.rows := by
      intro d hd
      rcases List.mem_append.mp hd with hd | hd
      · exact hrows d (List.mem_append_left _ (List.mem_filter.mp hd).1)
      · obtain rfl := List.mem_singleton.mp hd
        exact hrows d (by simp)
    obtain ⟨before, added, hb, ha, hexec, hblocked⟩ := h.blocked_of_window hs hwindow hserial hc
    have hbefore : above.filter (· ∈ before ++ added) = before := by
      refine Comprehension.filter_mem_append (List.nodup_append.mp hnodup).1
        (hb.trans List.filter_sublist) fun d hd hin => ?_
      exact (List.nodup_append.mp hnodup).2.2 d hd d (List.mem_cons_of_mem _
        (List.mem_filter.mp (List.mem_of_mem_take (ha.subset hin))).1) rfl
    rwa [hexec, hbefore]

/-- A candidate that a returned task instance overtook was blocked when its turn came. -/
def OvertakesOnlyBlocked (db : Database) (maxTis jobId : Nat) (now : Time) : Prop :=
  ∀ tis db', executableTaskInstancesToQueued db maxTis jobId now = some (tis, db') →
    ∀ above c below, candidates db db.taskInstances.rows = above ++ c :: below → c.ti ∉ tis →
      (∃ r ∈ below, r.ti ∈ tis) → BlockedBehind db (above.filter (·.ti ∈ tis)) c

/-- Every candidate's DAG has a row in `serialized_dag`. -/
def AllSerialized (db : Database) : Prop :=
  ∀ c ∈ candidates db db.taskInstances.rows, (db.getDag c.ti.dagId).isSome

instance (db : Database) : Decidable (AllSerialized db) :=
  inferInstanceAs (Decidable (∀ c ∈ candidates db db.taskInstances.rows, _))

theorem overtakesOnlyBlocked {db : Database} (hp : DistinctPools db) (hu : UniformTasks db)
    (hs : PositiveSlots db) (hserial : AllSerialized db) (maxTis jobId : Nat) (now : Time) :
    OvertakesOnlyBlocked db maxTis jobId now := by
  rintro tis db' hpass above c below horder hc ⟨r, hrbelow, hr⟩
  unfold executableTaskInstancesToQueued at hpass
  split_ifs at hpass with hfree
  · cases hpass
    exact nomatch hr
  obtain ⟨t, hloop, hpass⟩ := Option.bind_eq_some_iff.mp hpass
  obtain ⟨rfl, -⟩ := Prod.mk.inj (Option.some.inj hpass)
  have hne : t.executableTis ≠ [] := by
    rintro hnil
    simp [hnil] at hr
  obtain ⟨u, hunopened, rfl⟩ := Pass.loop_last hu (Pass.start_unopened hp) hloop hne
  have hmem := hunopened.mem_tis (capTis maxTis (poolSlotsFree db))
  have habove : ∀ d ∈ above, d ∈ candidates db db.taskInstances.rows :=
    fun d hd => horder ▸ List.mem_append_left _ hd
  rw [List.filter_congr fun d hd => decide_eq_decide.mpr (hmem d (habove d hd))]
  refine hunopened.blocked hs hserial horder (fun h => hc (List.mem_map_of_mem h)) ?_ hrbelow
  exact (hmem r (horder ▸ by simp [hrbelow])).mp hr

def serializedDag (dagId : String) : Dag where
  dagId := dagId
  maxActiveRuns := 16
  dagrunTimeout := none
  allowFutureExecDates := false
  timetable := ⟨id, fun _ _ => id, none, fun _ _ => "scheduled"⟩
  tasks := [("load", none)]

/-- The first task instance asks for `slots` slots of a pool that has none. -/
def closedPool (slots : Int) : Database where
  pools := [("closed_pool", 0), ("default_pool", 128)]
  dagModels := [activeDagModel "report" true, activeDagModel "etl" false]
  dagRuns := [runningRun "report", runningRun "etl"]
  serializedDags := [serializedDag "report", serializedDag "etl"]
  taskInstances := ⟨[{ scheduledTi "report" "load" 10 with
      pool := "closed_pool", poolSlots := slots }, scheduledTi "etl" "load" 1],
    by simp [scheduledTi]⟩

def reportCandidate (slots : Int) : Candidate :=
  ⟨{ scheduledTi "report" "load" 10 with pool := "closed_pool", poolSlots := slots },
    runningRun "report", activeDagModel "report" true⟩

/-- Asking for no slot is blocked by a full pool as well. -/
theorem closedPool_overtakes : DistinctPools (closedPool 0) ∧ UniformTasks (closedPool 0) ∧
    AllSerialized (closedPool 0) ∧ ¬OvertakesOnlyBlocked (closedPool 0) 2 7 0 := by
  refine ⟨by decide, by decide, by decide, fun h => ?_⟩
  have hblocked := h _ _ rfl [] (reportCandidate 0) [etlCandidate] rfl (by decide)
    ⟨etlCandidate, by decide, by decide⟩
  rcases hblocked with hpool | ⟨stats, hstats, hslots⟩ | hdag | ⟨-, dag, hget, limit, hlimit, -⟩
  · exact absurd hpool (by decide)
  · obtain rfl := Option.some.inj hstats
    exact absurd hslots (by decide)
  · exact absurd hdag (by decide)
  · obtain rfl := Option.some.inj hget
    exact nomatch hlimit

theorem overtakesOnlyBlocked_closedPool : OvertakesOnlyBlocked (closedPool 1) 2 7 0 :=
  overtakesOnlyBlocked (by decide) (by decide) (by decide) (by decide) 2 7 0

end Beeflow.Scheduler
