import Beeflow.Lib.Machine
import Beeflow.Scheduler.DagRuns

/-!
# One DAG's share of a step

A step may work on many DAGs. What it does to one of them depends on that
DAG's row and runs only, and touches nothing else: each operation's effect on
the view of a DAG is a function of that view.
-/

namespace Beeflow.Scheduler

open Airflow

structure DagView where
  dagModel : Option DagModel
  runs : List DagRun

def view (db : Database) (dagId : String) : DagView :=
  ⟨db.dagModel dagId, db.dagRuns.filter (·.dagId = dagId)⟩

def DagView.activeRuns (v : DagView) : Nat := v.runs.countP (·.state.active)

theorem activeRuns_view (db : Database) (dagId : String) :
    activeRuns db.dagRuns dagId = (view db dagId).activeRuns := by
  simp only [activeRuns, DagView.activeRuns, view, Tally.count, List.countP_filter]
  exact List.countP_congr fun run _ => by simp [and_comm]

-- ---------------------------------------------------------------------------
-- Updates of one row
-- ---------------------------------------------------------------------------

theorem getDag_dagId {db : Database} {dagId : String} {dag : Dag}
    (h : db.getDag dagId = some dag) : dag.dagId = dagId := by
  simpa using List.find?_some h

theorem dagModel_dagId {db : Database} {dagId : String} {dagModel : DagModel}
    (h : db.dagModel dagId = some dagModel) : dagModel.dagId = dagId := by
  simpa using List.find?_some h

theorem find?_map_update {α : Type*} {p : α → Bool} {f : α → α} (hf : ∀ a, p (f a) = p a)
    (l : List α) : (l.map f).find? p = (l.find? p).map f := by
  rw [List.find?_map]
  congr 2
  funext a
  exact hf a

theorem dagModel_update (db : Database) {dagId dagId' : String} {f : DagModel → DagModel}
    (hf : ∀ m, (f m).dagId = m.dagId) : (db.updateDagModel dagId f).dagModel dagId' =
      if dagId' = dagId then (db.dagModel dagId').map f else db.dagModel dagId' := by
  unfold Database.updateDagModel Database.dagModel
  dsimp only
  rw [find?_map_update (fun m => by split_ifs <;> simp [hf])]
  split_ifs with h
  · subst h
    cases hm : db.dagModels.find? (·.dagId = dagId') with
    | none => rfl
    | some m =>
      have hid : m.dagId = dagId' := by simpa using List.find?_some hm
      simp [hid]
  · cases hm : db.dagModels.find? (·.dagId = dagId') with
    | none => rfl
    | some m =>
      have hid : m.dagId = dagId' := by simpa using List.find?_some hm
      simp [hid, h]

theorem view_updateDagModel_self (db : Database) (dagId : String) {f : DagModel → DagModel}
    (hf : ∀ m, (f m).dagId = m.dagId) :
    view (db.updateDagModel dagId f) dagId =
      ⟨(view db dagId).dagModel.map f, (view db dagId).runs⟩ := by
  rw [view, dagModel_update db hf, if_pos rfl]
  rfl

theorem view_updateDagModel_other (db : Database) {dagId dagId' : String} (h : dagId' ≠ dagId)
    {f : DagModel → DagModel} (hf : ∀ m, (f m).dagId = m.dagId) :
    view (db.updateDagModel dagId f) dagId' = view db dagId' := by
  rw [view, dagModel_update db hf, if_neg h]
  rfl

theorem updateNextDagrun_dagId (dag : Dag) (total : Nat) (interval : Int) (m : DagModel) :
    (updateNextDagrun dag total interval m).dagId = m.dagId := by
  simp only [updateNextDagrun, shouldUpdateDagNextDagruns, calculateDagrunDateFields]
  split_ifs <;> rfl

def runIdentity (run : DagRun) : String × String × DagRunType × Time × Int :=
  (run.dagId, run.runId, run.runType, run.executionDate, run.dataInterval)

theorem filter_map_runs {f : DagRun → DagRun} (hf : ∀ run, (f run).dagId = run.dagId)
    (runs : List DagRun) (dagId : String) :
    (runs.map f).filter (·.dagId = dagId) = (runs.filter (·.dagId = dagId)).map f := by
  rw [List.filter_map]
  congr 2
  funext run
  simp [hf]

theorem view_addRun (db : Database) (run : DagRun) (dagId : String) :
    view { db with dagRuns := db.dagRuns ++ [run] } dagId =
      ⟨(view db dagId).dagModel,
        (view db dagId).runs ++ if run.dagId = dagId then [run] else []⟩ := by
  by_cases h : run.dagId = dagId <;>
    simp [view, Database.dagModel, List.filter_append, h]

-- ---------------------------------------------------------------------------
-- Creating runs
-- ---------------------------------------------------------------------------

/-- What `_create_dag_runs` does to a DAG it processes. -/
def DagView.created (dag : Dag) (v : DagView) : DagView :=
  match v.dagModel with
  | none => v
  | some dagModel =>
    match dagModel.nextDagrun with
    | none => v
    | some interval =>
      let runs :=
        if dag.timetable.boundary interval ∈ v.runs.map (·.executionDate) then v.runs
        else v.runs ++ [scheduledRun dag interval]
      ⟨some (updateNextDagrun dag (runs.countP (·.state.active)) interval dagModel), runs⟩

section Create

variable {existing : List (String × Time)} {m : DagModel} {ms : List DagModel}
  {db db' : Database} {active : String → Nat} {dag : Dag} {dagId : String}

/-- The interval has its run already, and only the row changes. -/
theorem view_created_existing {interval : Int} (hnext : m.nextDagrun = some interval)
    (hrow : (view db m.dagId).dagModel = some m)
    (hmem : dag.timetable.boundary interval ∈ (view db m.dagId).runs.map (·.executionDate)) :
    view (db.updateDagModel m.dagId
        (updateNextDagrun dag (view db m.dagId).activeRuns interval)) m.dagId =
      (view db m.dagId).created dag := by
  rw [view_updateDagModel_self db _ (updateNextDagrun_dagId dag _ _), hrow]
  simp only [DagView.created, hrow, hnext, if_pos hmem, Option.map_some]
  rfl

/-- The run of the interval is added, and counted. -/
theorem view_created_added {interval : Int} (hid : dag.dagId = m.dagId)
    (hnext : m.nextDagrun = some interval) (hrow : (view db m.dagId).dagModel = some m)
    (hnot : dag.timetable.boundary interval ∉ (view db m.dagId).runs.map (·.executionDate)) :
    view (Database.updateDagModel { db with dagRuns := db.dagRuns ++ [scheduledRun dag interval] }
        m.dagId (updateNextDagrun dag ((view db m.dagId).activeRuns + 1) interval)) m.dagId =
      (view db m.dagId).created dag := by
  have hid : (scheduledRun dag interval).dagId = m.dagId := hid
  have hcount : (view db m.dagId).activeRuns + 1 =
      ((view db m.dagId).runs ++ [scheduledRun dag interval]).countP (·.state.active) := by
    simp [DagView.activeRuns, List.countP_append, scheduledRun, DagRunState.active]
  rw [view_updateDagModel_self _ _ (updateNextDagrun_dagId dag _ _), view_addRun, if_pos hid, hrow,
    hcount]
  simp only [DagView.created, hrow, hnext, if_neg hnot, Option.map_some]

/-- One turn of the loop: what it does to its own DAG, and that it leaves the others alone. -/
theorem createDagRunsLoop_cons (h : createDagRunsLoop existing (m :: ms) db active = some db') :
    ∃ db₁ active₁, createDagRunsLoop existing ms db₁ active₁ = some db' ∧
      db₁.serializedDags = db.serializedDags ∧
      (∀ dagId, dagId ≠ m.dagId → view db₁ dagId = view db dagId ∧ active₁ dagId = active dagId) ∧
      (∀ dag, db.getDag m.dagId = some dag → db.dagModel m.dagId = some m →
        (∀ t, (m.dagId, t) ∈ existing ↔ t ∈ (view db m.dagId).runs.map (·.executionDate)) →
        active m.dagId = (view db m.dagId).activeRuns →
        view db₁ m.dagId = (view db m.dagId).created dag) := by
  unfold createDagRunsLoop at h
  split at h
  · rename_i hnone
    exact ⟨db, active, h, rfl, fun _ _ => ⟨rfl, rfl⟩, fun dag hdag => by simp [hnone] at hdag⟩
  rename_i dag hdag
  have hid : dag.dagId = m.dagId := getDag_dagId hdag
  have hf := fun total interval => updateNextDagrun_dagId dag total interval
  split at h
  · exact nomatch h
  rename_i interval hnext
  rw [hid] at h
  split_ifs at h with hmem
  · refine ⟨_, _, h, rfl, fun d hd => ⟨view_updateDagModel_other db hd (hf _ _), rfl⟩, ?_⟩
    intro dag' hdag' hrow hex hact
    obtain rfl : dag = dag' := Option.some.inj (hdag.symm.trans hdag')
    rw [hact]
    exact view_created_existing hnext hrow ((hex _).mp hmem)
  · refine ⟨_, _, h, rfl, fun d hd => ⟨?_, if_neg hd⟩, ?_⟩
    · have hne : (scheduledRun dag interval).dagId ≠ d := fun he => hd (he.symm.trans hid)
      rw [view_updateDagModel_other _ hd (hf _ _), view_addRun, if_neg hne, List.append_nil]
    · intro dag' hdag' hrow hex hact
      obtain rfl : dag = dag' := Option.some.inj (hdag.symm.trans hdag')
      have hcount : Tally.bump active m.dagId 1 m.dagId = (view db m.dagId).activeRuns + 1 := by
        simp [Tally.bump, hact]
      rw [hcount]
      exact view_created_added hid hnext hrow fun hin => hmem ((hex _).mpr hin)

theorem createDagRunsLoop_serializedDags (h : createDagRunsLoop existing ms db active = some db') :
    db'.serializedDags = db.serializedDags := by
  induction ms generalizing db active with
  | nil => exact congrArg Database.serializedDags (Option.some.inj h).symm
  | cons m ms ih =>
    obtain ⟨db₁, active₁, h₁, hdags, -, -⟩ := createDagRunsLoop_cons h
    exact (ih h₁).trans hdags

theorem createDagRunsLoop_other (h : createDagRunsLoop existing ms db active = some db')
    (hid : dagId ∉ ms.map (·.dagId)) : view db' dagId = view db dagId := by
  induction ms generalizing db active with
  | nil => exact congrArg (view · dagId) (Option.some.inj h).symm
  | cons m ms ih =>
    rw [List.map_cons, List.mem_cons, not_or] at hid
    obtain ⟨db₁, active₁, h₁, -, hother, -⟩ := createDagRunsLoop_cons h
    exact (ih h₁ hid.2).trans (hother dagId hid.1).1

theorem createDagRunsLoop_self (h : createDagRunsLoop existing ms db active = some db')
    (hm : m ∈ ms) (hnodup : (ms.map (·.dagId)).Nodup) (hdag : db.getDag m.dagId = some dag)
    (hrow : db.dagModel m.dagId = some m)
    (hex : ∀ t, (m.dagId, t) ∈ existing ↔ t ∈ (view db m.dagId).runs.map (·.executionDate))
    (hact : active m.dagId = (view db m.dagId).activeRuns) :
    view db' m.dagId = (view db m.dagId).created dag := by
  induction ms generalizing db active with
  | nil => exact nomatch hm
  | cons m' ms ih =>
    rw [List.map_cons, List.nodup_cons] at hnodup
    obtain ⟨db₁, active₁, h₁, hdags, hother, hself⟩ := createDagRunsLoop_cons h
    rcases List.mem_cons.mp hm with rfl | hm
    · exact (createDagRunsLoop_other h₁ hnodup.1).trans (hself dag hdag hrow hex hact)
    · have hne : m.dagId ≠ m'.dagId := fun he => hnodup.1 (he ▸ List.mem_map_of_mem hm)
      obtain ⟨hview, hact₁⟩ := hother m.dagId hne
      have hrow₁ : db₁.dagModel m.dagId = some m := (congrArg DagView.dagModel hview).trans hrow
      rw [← hview] at hex hact ⊢
      refine ih h₁ hm hnodup.2 ?_ hrow₁ hex (hact₁.trans hact)
      rw [Database.getDag, hdags]
      exact hdag

end Create

-- ---------------------------------------------------------------------------
-- Starting and scheduling runs
-- ---------------------------------------------------------------------------

def DagView.updateRun (v : DagView) (key : String × String) (f : DagRun → DagRun) : DagView :=
  ⟨v.dagModel, v.runs.map fun run => if run.key = key then f run else run⟩

theorem view_updateDagRun (db : Database) (key : String × String) {f : DagRun → DagRun}
    (hf : ∀ run, (f run).dagId = run.dagId) (dagId : String) :
    view (db.updateDagRun key f) dagId = (view db dagId).updateRun key f := by
  have hid : ∀ run, (if run.key = key then f run else run).dagId = run.dagId := by
    intro run
    split_ifs
    · exact hf run
    · rfl
  exact congrArg (DagView.mk _) (filter_map_runs hid db.dagRuns dagId)

theorem view_updateDagRun_other (db : Database) {key : String × String} {dagId : String}
    (h : dagId ≠ key.1) {f : DagRun → DagRun} (hf : ∀ run, (f run).dagId = run.dagId) :
    view (db.updateDagRun key f) dagId = view db dagId := by
  rw [view_updateDagRun db key hf, DagView.updateRun]
  refine congrArg (DagView.mk _) ((List.map_congr_left fun run hrun => ?_).trans (List.map_id _))
  have hid : run.dagId = dagId := by simpa using (List.mem_filter.mp hrun).2
  exact if_neg fun hkey => h (hid.symm.trans (congrArg Prod.fst hkey))

theorem startQueuedDagrunsLoop_view (now : Time) (runs : List DagRun) (db : Database)
    (active : String → Nat) (dagId : String) :
    ∃ f : DagRun → DagRun, (∀ run, f run = run ∨ f run = startRun now run) ∧
      view (startQueuedDagrunsLoop now runs db active) dagId =
        ⟨(view db dagId).dagModel, (view db dagId).runs.map f⟩ := by
  induction runs generalizing db active with
  | nil => exact ⟨id, fun _ => .inl rfl, by simp [startQueuedDagrunsLoop]⟩
  | cons run runs ih =>
    unfold startQueuedDagrunsLoop
    split
    · exact ih db active
    split_ifs
    · exact ih db active
    obtain ⟨f, hf, hview⟩ := ih (db.updateDagRun run.key (startRun now))
      (Tally.bump active run.dagId 1)
    refine ⟨fun r => f (if r.key = run.key then startRun now r else r), fun r => ?_, ?_⟩
    · dsimp only
      split_ifs
      · exact .inr ((hf (startRun now r)).elim id id)
      · exact hf r
    · rw [hview, view_updateDagRun db run.key (f := startRun now) fun _ => rfl]
      simp [DagView.updateRun, Function.comp_def]

theorem startQueuedDagrunsLoop_serializedDags (now : Time) (runs : List DagRun) (db : Database)
    (active : String → Nat) :
    (startQueuedDagrunsLoop now runs db active).serializedDags = db.serializedDags := by
  induction runs generalizing db active with
  | nil => rfl
  | cons run runs ih =>
    unfold startQueuedDagrunsLoop
    split
    · exact ih db active
    split_ifs
    · exact ih db active
    · exact ih _ _

/-- The state `_schedule_dag_run` leaves the run in, if it gets that far. -/
def arrives (dag : Dag) (run : DagRun) (now : Time) (decision : Decision) : Option DagRunState :=
  if timedOut dag run now then some .failed
  else if now < run.executionDate ∧ dag.allowFutureExecDates = false then none
  else some decision.state

/-- What `_schedule_dag_run` does to the DAG of the run. -/
def DagView.arrived (v : DagView) (dag : Dag) (run : DagRun) : Option DagRunState → DagView
  | none => v
  | some state =>
    let v' := v.updateRun run.key fun r => { r with state := state }
    if state.finished then
      ⟨v.dagModel.map (updateNextDagrun dag v'.activeRuns run.dataInterval), v'.runs⟩
    else v'

section Schedule

variable {db : Database} {dag : Dag} {run : DagRun} {now : Time} {decision : Decision}

theorem scheduleDagRun_self (hdag : db.getDag run.dagId = some dag) :
    view (scheduleDagRun db run now decision) run.dagId =
      (view db run.dagId).arrived dag run (arrives dag run now decision) := by
  have hid := getDag_dagId hdag
  have hstate := fun state => view_updateDagRun db run.key
    (f := fun r => { r with state := state }) (fun _ => rfl) run.dagId
  have hadvance : ∀ db' : Database, view (advance db' dag run) run.dagId =
      ⟨(view db' run.dagId).dagModel.map
        (updateNextDagrun dag (view db' run.dagId).activeRuns run.dataInterval),
        (view db' run.dagId).runs⟩ := by
    intro db'
    rw [advance, hid, view_updateDagModel_self _ _ (updateNextDagrun_dagId dag _ _),
      activeRuns_view]
  have hviews : ∀ db' : Database, ∀ p state, view (setTaskState db' p state) run.dagId =
      view db' run.dagId := fun _ _ _ => rfl
  have htimeout : DagRunState.failed.finished = true := rfl
  unfold scheduleDagRun arrives
  simp only [hdag]
  split_ifs with htimed hfuture hfin
  · simp only [hadvance, hviews, setRunState, hstate, DagView.arrived, htimeout, if_true]
    rfl
  · rfl
  · simp only [hadvance, hviews, setRunState, hstate, DagView.arrived, hfin, if_true]
    rfl
  · simp only [hviews, setRunState, hstate, DagView.arrived, hfin, Bool.false_eq_true, if_false]

theorem scheduleDagRun_other {dagId : String} (h : dagId ≠ run.dagId) :
    view (scheduleDagRun db run now decision) dagId = view db dagId := by
  unfold scheduleDagRun
  split
  · rfl
  rename_i dag hdag
  have hid : dagId ≠ dag.dagId := getDag_dagId hdag ▸ h
  have hstate : ∀ state, view (db.updateDagRun run.key fun r => { r with state := state }) dagId =
      view db dagId := fun _ => view_updateDagRun_other db h fun _ => rfl
  have hadvance : ∀ db', view (advance db' dag run) dagId = view db' dagId := fun db' =>
    view_updateDagModel_other db' hid (updateNextDagrun_dagId dag _ _)
  have hviews : ∀ db' : Database, ∀ p state, view (setTaskState db' p state) dagId =
      view db' dagId := fun _ _ _ => rfl
  split_ifs <;> simp only [hadvance, hviews, setRunState, hstate]

theorem scheduleDagRun_serializedDags :
    (scheduleDagRun db run now decision).serializedDags = db.serializedDags := by
  unfold scheduleDagRun
  split
  · rfl
  · split_ifs <;> rfl

end Schedule

end Beeflow.Scheduler
