import Beeflow.Scheduler.Verdicts

/-!
# No admissible task instance is starved out

A pass that returns nothing found nothing admissible, unless its loop stalls:
a task instance whose DAG is not serialized is failed but leaves no exclusion
behind, and a full window of such task instances ends the loop although there
are task instances behind it.
-/

namespace Beeflow.Scheduler

open Airflow

-- ---------------------------------------------------------------------------
-- New filters
-- ---------------------------------------------------------------------------

theorem Pass.examineAll_grows_window (db : Database) (s : Pass) (window : List Candidate) :
    s.Grows (window.map (·.ti)) (s.examineAll db window) :=
  Pass.examineAll_grows fun _ hc => List.mem_map_of_mem hc

theorem Pass.Grows.starves {rows : List TaskInstance} {s t : Pass} (h : s.Grows rows t)
    {c : Candidate} (hc : s.starves c = true) : t.starves c = true := by
  rw [Pass.starves_iff] at hc ⊢
  rcases hc with hp | hd | ht
  · exact .inl (h.pools.1 hp)
  · exact .inr (.inl (h.dags.1 hd))
  · exact .inr (.inr (h.tasks.1 ht))

theorem Pass.Grows.foundNewFilters {rows : List TaskInstance} {s t : Pass} (h : s.Grows rows t)
    {c : Candidate} (hs : s.starves c = false) (ht : t.starves c = true) :
    s.foundNewFilters t = true := by
  by_contra hf
  simp only [Pass.foundNewFilters, Bool.or_eq_true, decide_eq_true_eq, not_or, not_lt] at hf
  obtain ⟨⟨hp, hd⟩, htask⟩ := hf
  have hp := Finset.eq_of_subset_of_card_le h.pools.1 hp
  have hd := Finset.eq_of_subset_of_card_le h.dags.1 hd
  have htask := Finset.eq_of_subset_of_card_le h.tasks.1 htask
  rw [Pass.starves, hp, hd, htask] at hs
  exact Bool.false_ne_true (hs.symm.trans ht)

theorem Pass.examine_starves {db : Database} {s : Pass} {c : Candidate}
    (haccept : s.verdict db c ≠ .accept) (hserial : s.verdict db c ≠ .unserialized) :
    (s.examine db c).starves c = true := by
  rw [Pass.examine_eq_act, Pass.act_starves hserial, Verdict.strikes_self haccept, Bool.or_true]

theorem Pass.examineAll_starves {db : Database} {s : Pass} {window : List Candidate}
    (h : ∀ c ∈ window, s.verdict db c ≠ .accept) {d : Candidate} (hd : d ∈ window)
    (hserial : s.verdict db d ≠ .unserialized) : (s.examineAll db window).starves d = true := by
  induction window generalizing s with
  | nil => exact nomatch hd
  | cons c cs ih =>
    obtain ⟨hc, hcs⟩ := List.forall_mem_cons.mp h
    have hl : ∀ d, (s.examine db c).verdict db d = s.verdict db d :=
      Pass.verdict_congr (Pass.examine_ledger hc)
    rw [Pass.examineAll_cons]
    rcases List.mem_cons.mp hd with rfl | hd
    · exact (Pass.examineAll_grows_window db _ cs).starves (Pass.examine_starves hc hserial)
    · exact ih (fun e he => hl e ▸ hcs e he) hd (hl d ▸ hserial)

/-- Failing the task instances of a DAG adds no filter. -/
theorem Pass.examineAll_starved {db : Database} {s : Pass} {window : List Candidate}
    (h : ∀ c ∈ window, s.verdict db c = .unserialized) :
    (s.examineAll db window).starved = s.starved := by
  induction window generalizing s with
  | nil => rfl
  | cons c cs ih =>
    obtain ⟨hc, hcs⟩ := List.forall_mem_cons.mp h
    have hl : ∀ d, (s.examine db c).verdict db d = s.verdict db d :=
      Pass.verdict_congr (Pass.examine_ledger (by simp [hc]))
    have hstarved : (s.examine db c).starved = s.starved := by
      rw [Pass.examine_eq_act, hc]
      rfl
    rw [Pass.examineAll_cons, ih fun d hd => (hl d).trans (hcs d hd), hstarved]

theorem Pass.foundNewFilters_iff {db : Database} {s : Pass} {window : List Candidate}
    (h : ∀ c ∈ window, s.verdict db c ≠ .accept) (hs : ∀ c ∈ window, s.starves c = false) :
    s.foundNewFilters (s.examineAll db window) = true ↔
      ∃ c ∈ window, s.verdict db c ≠ .unserialized := by
  constructor
  · intro hf
    by_contra hall
    push Not at hall
    have hstarved := Pass.examineAll_starved hall
    simp only [Pass.starved, Prod.mk.injEq] at hstarved
    obtain ⟨hp, hd, ht⟩ := hstarved
    simp [Pass.foundNewFilters, hp, hd, ht] at hf
  · rintro ⟨c, hc, hserial⟩
    exact (Pass.examineAll_grows_window db s window).foundNewFilters (hs c hc)
      (Pass.examineAll_starves h hc hserial)

-- ---------------------------------------------------------------------------
-- Stalling
-- ---------------------------------------------------------------------------

def entryVerdict (db : Database) : Candidate → Verdict := (Pass.start db).verdict db

/-- Windows of `maxTis` are taken off the list, each with all that its verdicts
strike, until one is full of task instances whose DAGs are not serialized while
an admissible task instance is left. -/
inductive Stalls (db : Database) (maxTis : Nat) : List Candidate → Prop
  | here {left : List Candidate} (full : (left.take maxTis).length = maxTis)
      (unserialized : ∀ c ∈ left.take maxTis, entryVerdict db c = .unserialized)
      (admissible : ∃ c ∈ left, entryVerdict db c = .accept) : Stalls db maxTis left
  | later {left : List Candidate} (rejected : ∀ c ∈ left.take maxTis, entryVerdict db c ≠ .accept)
      (filtered : ∃ c ∈ left.take maxTis, entryVerdict db c ≠ .unserialized)
      (next : Stalls db maxTis
        (left.filter ((Pass.start db).spares db (left.take maxTis)))) : Stalls db maxTis left

theorem Stalls.admissible {db : Database} {maxTis : Nat} {left : List Candidate}
    (h : Stalls db maxTis left) : ∃ c ∈ left, entryVerdict db c = .accept := by
  induction h with
  | here _ _ admissible => exact admissible
  | later _ _ _ ih =>
    obtain ⟨c, hc, haccept⟩ := ih
    exact ⟨c, (List.mem_filter.mp hc).1, haccept⟩

section Loop

variable {db : Database} {maxTis : Nat} {s : Pass} {c : Candidate}

theorem Pass.remaining_unstarved (hc : c ∈ s.remaining db) :
    s.starves c = false := by simpa using (List.mem_filter.mp hc).2

theorem Pass.verdict_accept_iff : s.verdict db c = .accept ↔ s.Admits db c := by
  have hg := s.verdict_grounds db c
  constructor
  · intro h
    rwa [h] at hg
  · intro h
    by_contra hne
    exact hg.not_admits (Verdict.strikes_self hne c) (fun _ => rfl) (fun _ => ⟨rfl, rfl⟩) h

/-- A struck task instance has no room either. -/
theorem not_admits_of_strikes (hu : UniformTasks db) {d : Candidate}
    (hc : c ∈ candidates db db.taskInstances.rows) (hd : d ∈ candidates db db.taskInstances.rows)
    (h : (entryVerdict db d).strikes d c = true) : ¬(Pass.start db).Admits db c := by
  have hc := mem_joined.mp (mem_candidates.mp hc).1
  have hd := mem_joined.mp (mem_candidates.mp hd).1
  refine ((Pass.start db).verdict_grounds db d).not_admits h ?_ (hu _ hc.1 _ hd.1)
  exact fun hid => Option.some.inj (hc.2.2.symm.trans (hid ▸ hd.2.2))

/-- So what a window strikes is not missed. -/
theorem admissible_left (hu : UniformTasks db) {left : List Candidate}
    (hleft : left ⊆ candidates db db.taskInstances.rows) {window : List Candidate}
    (hw : window ⊆ left) :
    (∃ c ∈ left, entryVerdict db c = .accept) ↔
      ∃ c ∈ left.filter ((Pass.start db).spares db window), entryVerdict db c = .accept := by
  constructor
  · rintro ⟨c, hc, haccept⟩
    refine ⟨c, List.mem_filter.mpr ⟨hc, ?_⟩, haccept⟩
    rw [Pass.spares, List.all_eq_true]
    intro d hd
    rw [Bool.not_eq_true']
    by_contra hstrikes
    exact not_admits_of_strikes hu (hleft hc) (hleft (hw hd))
      (by simpa [entryVerdict] using hstrikes) (Pass.verdict_accept_iff.mp haccept)
  · rintro ⟨c, hc, haccept⟩
    exact ⟨c, (List.mem_filter.mp hc).1, haccept⟩

theorem Pass.iterate_window (h : s.query db maxTis ≠ []) :
    s.iterate db maxTis = (s.examineAll db (s.query db maxTis),
      (s.examineAll db (s.query db maxTis)).executableTis.isEmpty &&
        decide (maxTis ≤ (s.query db maxTis).length) &&
        s.foundNewFilters (s.examineAll db (s.query db maxTis))) := by
  have hne : (s.query db maxTis).length ≠ 0 := fun he => h (List.length_eq_zero_iff.mp he)
  simp only [Pass.iterate, if_neg hne, Prod.mk.injEq, true_and]
  rw [Bool.eq_iff_iff]
  simp [and_assoc]

theorem Pass.loop_stop {fuel : Nat} {t u : Pass} (h : s.iterate db maxTis = (u, false))
    (hloop : Pass.loop db maxTis (fuel + 1) s = some t) : t = u := by
  rw [Pass.loop, h] at hloop
  exact (Option.some.inj hloop).symm

theorem Pass.loop_more {fuel : Nat} {t u : Pass} (h : s.iterate db maxTis = (u, true))
    (hloop : Pass.loop db maxTis (fuel + 1) s = some t) : Pass.loop db maxTis fuel u = some t := by
  rwa [Pass.loop, h] at hloop

theorem Pass.iterate_admits (hc : c ∈ s.query db maxTis)
    (hv : s.verdict db c = .accept) :
    ∃ u, s.iterate db maxTis = (u, false) ∧ u.executableTis ≠ [] := by
  have hexec := Pass.examineAll_admits ⟨c, hc, hv⟩
  refine ⟨_, ?_, hexec⟩
  rw [Pass.iterate_window (List.ne_nil_of_mem hc), List.isEmpty_eq_false_iff.mpr hexec,
    Bool.false_and, Bool.false_and]

/-- After a full window that admits nothing the loop goes on if a filter is new. -/
theorem Pass.iterate_rejected (hmax : 0 < maxTis) (hexec : s.executableTis = [])
    (hfull : maxTis ≤ (s.query db maxTis).length)
    (hrejected : ∀ c ∈ s.query db maxTis, s.verdict db c ≠ .accept) :
    s.iterate db maxTis = (s.examineAll db (s.query db maxTis),
      decide (∃ c ∈ s.query db maxTis, s.verdict db c ≠ .unserialized)) := by
  have hne : s.query db maxTis ≠ [] := by
    intro hnil
    rw [hnil] at hfull
    exact absurd hmax (Nat.not_lt.mpr hfull)
  have hexec' : (s.examineAll db (s.query db maxTis)).executableTis = [] :=
    (Pass.executableTis_congr (Pass.examineAll_ledger hrejected)).trans hexec
  have hfound := Pass.foundNewFilters_iff hrejected fun c hc =>
    Pass.remaining_unstarved (List.mem_of_mem_take hc)
  rw [Pass.iterate_window hne, hexec', decide_eq_true hfull, List.isEmpty_nil, Bool.true_and,
    Bool.true_and, Prod.mk.injEq, Bool.eq_iff_iff, decide_eq_true_eq]
  exact ⟨rfl, hfound⟩

theorem not_stalls_of_accept {left : List Candidate} (hc : c ∈ left.take maxTis)
    (haccept : entryVerdict db c = .accept) : ¬Stalls db maxTis left := by
  rintro (⟨-, unserialized, -⟩ | ⟨rejected, -, -⟩)
  · rw [unserialized c hc] at haccept
    cases haccept
  · exact rejected c hc haccept

theorem stalls_later_iff {left : List Candidate}
    (rejected : ∀ c ∈ left.take maxTis, entryVerdict db c ≠ .accept)
    (filters : ∃ c ∈ left.take maxTis, entryVerdict db c ≠ .unserialized) :
    Stalls db maxTis left ↔
      Stalls db maxTis (left.filter ((Pass.start db).spares db (left.take maxTis))) := by
  refine ⟨?_, .later rejected filters⟩
  rintro (⟨-, unserialized, -⟩ | ⟨-, -, next⟩)
  · obtain ⟨c, hc, hfilter⟩ := filters
    exact absurd (unserialized c hc) hfilter
  · exact next

/-- A loop that ends with nothing chosen misses an admissible task instance
just when it stalls. -/
theorem Pass.loop_misses_iff (hu : UniformTasks db) (hmax : 0 < maxTis) {fuel : Nat} {t : Pass}
    (hl : s.ledger = (Pass.start db).ledger)
    (hleft : s.remaining db ⊆ candidates db db.taskInstances.rows)
    (hloop : Pass.loop db maxTis fuel s = some t) :
    (t.executableTis = [] ∧ ∃ c ∈ s.remaining db, entryVerdict db c = .accept) ↔
      Stalls db maxTis (s.remaining db) := by
  induction fuel generalizing s with
  | zero => cases hloop
  | succ fuel ih =>
    have hv : ∀ c, s.verdict db c = entryVerdict db c := Pass.verdict_congr hl
    have hexec : s.executableTis = [] := Pass.executableTis_congr hl
    by_cases haccept : ∃ c ∈ (s.remaining db).take maxTis, entryVerdict db c = .accept
    · -- the window admits something, and the loop ends with it
      obtain ⟨c, hc, hcv⟩ := haccept
      obtain ⟨u, hiterate, hchosen⟩ := Pass.iterate_admits hc ((hv c).trans hcv)
      obtain rfl := Pass.loop_stop hiterate hloop
      exact ⟨fun h => absurd h.1 hchosen, fun h => absurd h (not_stalls_of_accept hc hcv)⟩
    push Not at haccept
    have hrejected : ∀ c ∈ s.query db maxTis, s.verdict db c ≠ .accept :=
      fun c hc => hv c ▸ haccept c hc
    by_cases hfull : maxTis ≤ ((s.remaining db).take maxTis).length
    · have hiterate := Pass.iterate_rejected hmax hexec hfull hrejected
      have hledger := (Pass.examineAll_ledger hrejected).trans hl
      by_cases hfilter : ∃ c ∈ s.query db maxTis, s.verdict db c ≠ .unserialized
      · -- some verdict excludes something, and the loop goes on with what is left
        rw [decide_eq_true hfilter] at hiterate
        have hrest : (s.examineAll db (s.query db maxTis)).remaining db = (s.remaining db).filter
            ((Pass.start db).spares db ((s.remaining db).take maxTis)) := by
          rw [Pass.examineAll_remaining hrejected]
          exact List.filter_congr fun c _ => Pass.spares_congr hl _ c
        have hnext := ih hledger (fun c hc => hleft (List.mem_filter.mp (hrest ▸ hc)).1)
          (Pass.loop_more hiterate hloop)
        rw [hrest, ← admissible_left hu hleft (List.take_subset _ _)] at hnext
        simp only [hv] at hfilter
        rw [hnext, stalls_later_iff haccept hfilter]
      · -- the window only failed task instances, and the loop ends
        rw [decide_eq_false hfilter] at hiterate
        obtain rfl := Pass.loop_stop hiterate hloop
        push Not at hfilter
        have hlen := (List.length_take_le _ _).antisymm hfull
        refine ⟨fun h => .here hlen (fun c hc => hv c ▸ hfilter c hc) h.2, fun h => ?_⟩
        exact ⟨Pass.executableTis_congr hledger, h.admissible⟩
    · -- the window holds all that is left, and nothing of it is admissible
      have hall : (s.remaining db).take maxTis = s.remaining db := by
        rw [List.take_eq_self_iff]
        rw [List.length_take] at hfull
        omega
      rw [hall] at haccept
      have hnone : ¬∃ c ∈ s.remaining db, entryVerdict db c = .accept := by
        rintro ⟨c, hc, h⟩
        exact haccept c hc h
      exact ⟨fun h => absurd h.2 hnone, fun h => absurd h.admissible hnone⟩

end Loop

-- ---------------------------------------------------------------------------
-- The whole pass
-- ---------------------------------------------------------------------------

/-- A candidate with room under every limit of the snapshot. -/
structure AdmissibleOnEntry (db : Database) (c : Candidate) : Prop where
  candidate : c ∈ candidates db db.taskInstances.rows
  serialized : c.dagModel.hasTaskConcurrencyLimits → (db.getDag c.ti.dagId).isSome
  pool : ∃ stats, (slotsStats db).lookup c.ti.pool = some stats ∧ 0 < stats.openSlots ∧
    (c.ti.poolSlots : Slots) ≤ stats.total ∧ (c.ti.poolSlots : Slots) ≤ stats.openSlots
  dag : (activeOfDag db c.ti.dagId : Int) < c.dagModel.maxActiveTasks
  task : c.dagModel.hasTaskConcurrencyLimits → ∀ dag, db.getDag c.ti.dagId = some dag →
    ∀ limit, taskConcurrencyLimit dag c.ti.taskId = some limit → activeOfTask db c.ti.task < limit

/-- A pass that returns nothing missed nothing. -/
def MissesNothing (db : Database) (maxTis jobId : Nat) (now : Time) : Prop :=
  ∀ db', executableTaskInstancesToQueued db maxTis jobId now = some ([], db') →
    ∀ c, ¬AdmissibleOnEntry db c

/-- `slot_pool.pool` is unique. -/
def DistinctPools (db : Database) : Prop := (db.pools.map Prod.fst).Nodup

instance (db : Database) : Decidable (DistinctPools db) :=
  inferInstanceAs (Decidable (List.Nodup _))

section Whole

variable {db : Database} {c : Candidate}

theorem start_starves (hp : DistinctPools db) {stats : PoolStats}
    (hpool : (slotsStats db).lookup c.ti.pool = some stats) (hopen : 0 < stats.openSlots) :
    (Pass.start db).starves c = false := by
  have hn : ((slotsStats db).map Prod.fst).Nodup := by
    simpa [slotsStats, List.map_map, Function.comp_def] using! hp
  rw [Bool.eq_false_iff, ne_eq, Pass.starves_iff]
  rintro (hmem | hmem | hmem)
  · simp only [Pass.start, List.mem_toFinset, List.mem_map, List.mem_filter,
      decide_eq_true_eq] at hmem
    obtain ⟨⟨pool, stats'⟩, ⟨hin, hfull⟩, rfl⟩ := hmem
    rw [Comprehension.lookup_of_mem hn hin] at hpool
    exact hopen (Option.some.inj hpool ▸ hfull)
  · simp [Pass.start] at hmem
  · simp [Pass.start] at hmem

theorem admissibleOnEntry_iff (hp : DistinctPools db) : AdmissibleOnEntry db c ↔
    c ∈ (Pass.start db).remaining db ∧ entryVerdict db c = .accept := by
  rw [entryVerdict, Pass.verdict_accept_iff]
  constructor
  · rintro ⟨hc, hserial, ⟨stats, hpool, hopen, htotal, hslots⟩, hdag, htask⟩
    refine ⟨List.mem_filter.mpr ⟨hc, by simpa using start_starves hp hpool hopen⟩, ?_, ?_, ?_⟩
    · exact ⟨stats, hpool, by rwa [start_openSlots hpool], htotal, by rwa [start_openSlots hpool]⟩
    · rwa [start_dagActiveTasks]
    · intro hlimits
      obtain ⟨dag, hdag⟩ := Option.isSome_iff_exists.mp (hserial hlimits)
      refine ⟨dag, hdag, fun limit hlimit => ?_⟩
      rw [start_taskConcurrency]
      exact htask hlimits dag hdag limit hlimit
  · rintro ⟨hc, ⟨stats, hpool, hopen, htotal, hslots⟩, hdag, htask⟩
    rw [start_openSlots hpool] at hopen hslots
    refine ⟨(List.mem_filter.mp hc).1, ?_, ⟨stats, hpool, hopen, htotal, hslots⟩, ?_, ?_⟩
    · intro hlimits
      obtain ⟨dag, hdag, -⟩ := htask hlimits
      simp [hdag]
    · rwa [start_dagActiveTasks] at hdag
    · intro hlimits dag hdag limit hlimit
      obtain ⟨dag', hdag', hlt⟩ := htask hlimits
      obtain rfl := Option.some.inj (hdag.symm.trans hdag')
      have hlt := hlt limit hlimit
      rwa [start_taskConcurrency] at hlt

theorem add_nonneg_slots {x y : Slots} (hx : 0 ≤ x) (hy : 0 ≤ y) :
    0 ≤ x.add y ∧ (x.add y = 0 → x = 0 ∧ y = 0) := by
  cases x with
  | inf => exact ⟨by cases y <;> trivial, fun h => by cases y <;> exact nomatch h⟩
  | num m =>
    cases y with
    | inf => exact ⟨trivial, fun h => nomatch h⟩
    | num n =>
      have hm : (0 : Int) ≤ m := hx
      have hn : (0 : Int) ≤ n := hy
      refine ⟨Int.add_nonneg hm hn, fun h => ?_⟩
      have h : m + n = 0 := Slots.num.inj h
      obtain rfl : m = 0 := by omega
      obtain rfl : n = 0 := by omega
      exact ⟨rfl, rfl⟩

theorem foldl_add_slots {xs : List Slots} {acc : Slots} (hacc : 0 ≤ acc) (h : ∀ x ∈ xs, 0 ≤ x) :
    0 ≤ xs.foldl .add acc ∧ (xs.foldl .add acc = 0 → acc = 0 ∧ ∀ x ∈ xs, x = 0) := by
  induction xs generalizing acc with
  | nil => exact ⟨hacc, fun h => ⟨h, by simp⟩⟩
  | cons x xs ih =>
    obtain ⟨hx, hxs⟩ := List.forall_mem_cons.mp h
    obtain ⟨hadd, hzero⟩ := add_nonneg_slots hacc hx
    obtain ⟨hle, hall⟩ := ih hadd hxs
    refine ⟨hle, fun h => ?_⟩
    obtain ⟨hsum, hrest⟩ := hall h
    exact ⟨(hzero hsum).1, List.forall_mem_cons.mpr ⟨(hzero hsum).2, hrest⟩⟩

theorem poolSlotsFree_spec (db : Database) : 0 ≤ poolSlotsFree db ∧
    (poolSlotsFree db = 0 → ∀ p ∈ slotsStats db, p.2.openSlots ≤ 0) := by
  have hz : (0 : Slots) ≤ 0 := Int.le_refl 0
  have hterms : ∀ x ∈ (slotsStats db).map fun p =>
      if p.2.openSlots ≤ 0 then 0 else p.2.openSlots, 0 ≤ x := by
    intro x hx
    obtain ⟨p, -, rfl⟩ := List.mem_map.mp hx
    split_ifs with h
    · exact hz
    · cases hs : p.2.openSlots with
      | inf => trivial
      | num n =>
        have h : ¬n ≤ 0 := by rwa [hs] at h
        exact (not_le.mp h).le
  obtain ⟨hle, hzero⟩ := foldl_add_slots hz hterms
  refine ⟨hle, fun h p hp => ?_⟩
  have hp := (hzero h).2 _ (List.mem_map_of_mem hp)
  split_ifs at hp with hopen
  · exact hopen
  · exact hp ▸ hz

theorem capTis_pos {maxTis : Nat} (hmax : 1 ≤ maxTis) {free : Slots} (hle : 0 ≤ free)
    (hne : free ≠ 0) : 0 < capTis maxTis free := by
  cases free with
  | inf => exact hmax
  | num n =>
    have hle : (0 : Int) ≤ n := hle
    have hne : n ≠ 0 := fun h => hne (congrArg Slots.num h)
    unfold capTis
    dsimp only
    split_ifs
    · omega
    · exact hmax

/-- A pass with no slot free has nothing admissible left to miss. -/
theorem not_admissible_of_full (h : poolSlotsFree db = 0) : ¬AdmissibleOnEntry db c := by
  rintro ⟨-, -, ⟨stats, hpool, hopen, -⟩, -⟩
  obtain ⟨l₁, l₂, hl, -⟩ := List.lookup_eq_some_iff.mp hpool
  have hmem : (c.ti.pool, stats) ∈ slotsStats db := by simp [hl]
  exact hopen ((poolSlotsFree_spec db).2 h _ hmem)

/-- A pass that returns nothing while something is admissible is one whose loop stalls. -/
theorem missesNothing_iff (hp : DistinctPools db) (hu : UniformTasks db) {maxTis : Nat}
    (hmax : 1 ≤ maxTis) (jobId : Nat) (now : Time) : MissesNothing db maxTis jobId now ↔
      ¬Stalls db (capTis maxTis (poolSlotsFree db)) ((Pass.start db).remaining db) := by
  by_cases hfree : poolSlotsFree db = 0
  · refine ⟨fun _ hstalls => ?_, fun _ _ _ c hc => not_admissible_of_full hfree hc⟩
    obtain ⟨c, hc, haccept⟩ := hstalls.admissible
    exact not_admissible_of_full hfree ((admissibleOnEntry_iff hp).mpr ⟨hc, haccept⟩)
  obtain ⟨t, ht⟩ := Option.isSome_iff_exists.mp
    (Pass.loop_turns db (capTis maxTis (poolSlotsFree db)))
  have hmisses := Pass.loop_misses_iff hu (capTis_pos hmax (poolSlotsFree_spec db).1 hfree) rfl
    List.filter_sublist.subset ht
  rw [← hmisses]
  simp only [MissesNothing, executableTaskInstancesToQueued, if_neg hfree, ht]
  constructor
  · rintro hnone ⟨hexec, c, hc, haccept⟩
    exact hnone _ (by simp [hexec]; rfl) c ((admissibleOnEntry_iff hp).mpr ⟨hc, haccept⟩)
  · intro h db' hpass c hc
    obtain ⟨hleft, haccept⟩ := (admissibleOnEntry_iff hp).mp hc
    refine h ⟨?_, c, hleft, haccept⟩
    simpa using congrArg (fun r => r.map Prod.fst) hpass

end Whole

/-- Where every candidate's DAG with concurrency limits is serialized no loop stalls. -/
theorem not_stalls_of_serialized {db : Database} {maxTis : Nat} (hmax : 0 < maxTis)
    {left : List Candidate} (h : ∀ c ∈ left, c.dagModel.hasTaskConcurrencyLimits →
      (db.getDag c.ti.dagId).isSome) : ¬Stalls db maxTis left := by
  intro hstalls
  induction hstalls with
  | @here left full unserialized _ =>
    obtain ⟨c, hc⟩ := List.exists_mem_of_length_pos (full.symm ▸ hmax)
    have hg := (Pass.start db).verdict_grounds db c
    rw [show (Pass.start db).verdict db c = .unserialized from unserialized c hc] at hg
    obtain ⟨hlimits, hnone⟩ := hg
    have hsome := h c (List.mem_of_mem_take hc) hlimits
    rw [hnone] at hsome
    exact nomatch hsome
  | later _ _ _ ih => exact ih fun c hc => h c (List.mem_filter.mp hc).1

-- ---------------------------------------------------------------------------
-- A DAG that is not serialized
-- ---------------------------------------------------------------------------

def scheduledTi (dagId taskId : String) (priorityWeight : Int) : TaskInstance where
  key := ⟨dagId, taskId, "scheduled", -1⟩
  state := some .scheduled
  pool := "default_pool"
  poolSlots := 1
  priorityWeight := priorityWeight
  queuedDttm := none
  queuedByJobId := none
  jobId := none
  hostname := none
  externalExecutorId := none

def activeDagModel (dagId : String) (hasTaskConcurrencyLimits : Bool) : DagModel where
  dagId := dagId
  isPaused := false
  isActive := true
  hasImportErrors := false
  fileloc := none
  processorSubdir := none
  maxActiveTasks := 16
  hasTaskConcurrencyLimits := hasTaskConcurrencyLimits
  nextDagrun := none
  nextDagrunCreateAfter := none

def runningRun (dagId : String) : DagRun where
  dagId := dagId
  runId := "scheduled"
  runType := .scheduled
  state := .running
  executionDate := 0
  dataInterval := 0
  startDate := some 0

/-- The DAG of the first task instance has concurrency limits and is not serialized. -/
def orphaned : Database where
  pools := [("default_pool", 128)]
  dagModels := [activeDagModel "orphan" true, activeDagModel "etl" false]
  dagRuns := [runningRun "orphan", runningRun "etl"]
  serializedDags := []
  taskInstances := ⟨[scheduledTi "orphan" "load" 10, scheduledTi "etl" "load" 1], by decide⟩

def etlCandidate : Candidate :=
  ⟨scheduledTi "etl" "load" 1, runningRun "etl", activeDagModel "etl" false⟩

theorem orphaned_misses : ¬MissesNothing orphaned 1 7 0 := by
  intro h
  refine h _ rfl etlCandidate ?_
  exact (admissibleOnEntry_iff (by decide)).mpr (by decide)

/-- With room for two in its window the pass gets to the second one. -/
theorem missesNothing_iff_orphaned : MissesNothing orphaned 2 7 0 := by
  refine (missesNothing_iff (by decide) (by decide) (by decide) 7 0).mpr fun h => ?_
  cases h with
  | here _ unserialized _ => exact absurd (unserialized etlCandidate (by decide)) (by decide)
  | later rejected _ _ => exact rejected etlCandidate (by decide) (by decide)

end Beeflow.Scheduler
