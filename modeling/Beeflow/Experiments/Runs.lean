import Beeflow.Experiments.DagsManagers

/-!
# Experiments against an environment

`run_experiment` sends its requests to the environment of its manager. Whatever
is lost or repeated on the way, its run is one of the scripts of the
controller's model; where it ends without an exception, every DAG it has started
is deleted or paused, and no other DAG has changed.
-/

namespace Beeflow.Experiments

open Airflow Calls Cli Python Remote

/-- `run_experiment`, with the requests it sends. -/
def ExperimentController.run (c : ExperimentController) (manager : DagsManager)
    (e : ExperimentConfiguration) : Method Unit :=
  runAll Statement.tried (fun st => manager.method st.call) (c.runExperiment e)

theorem DagsManager.does_method {manager : DagsManager} (hlawful : manager.Lawful) (call : Call)
    (hword : ∀ dagId ∈ call.dagId?, IsWord dagId) :
    DoesRemotely unpaused (call.effect manager.type) (fun _ => True) (manager.method call) := by
  cases manager with
  | beeflow api parseFloat => exact BeeflowDagsManager.does_method hlawful parseFloat call hword
  | mwaa env => exact MWAADagsManager.does_method hlawful call hword

-- ---------------------------------------------------------------------------
-- One experiment
-- ---------------------------------------------------------------------------

section Runs

variable {c : ExperimentController} {e : ExperimentConfiguration} {manager : DagsManager}
  {w w' : World Database} {st : Statement} {dagId : String}

/-- The calls are about the DAGs that the experiment starts. -/
theorem runExperiment_dagId (hst : st ∈ c.runExperiment e) (h : dagId ∈ st.call.dagId?) :
    dagId ∈ c.started e := by
  have hdag : ∀ {phase : Phase} {tried : Bool} {call : String → Call},
      (∀ d, (call d).dagId? = some d) →
      st ∈ e.dagIds.map (fun d => (⟨phase, call d, tried⟩ : Statement)) → dagId ∈ c.started e := by
    intro phase tried call hcall hmem
    obtain ⟨d, hd, rfl⟩ := List.mem_map.mp hmem
    obtain rfl : d = dagId := Option.some.inj ((hcall d).symm.trans h)
    exact List.mem_append_left _ hd
  have hexport : c.configuration.exportDagId ∈ c.started e :=
    List.mem_append_right _ (List.mem_singleton_self _)
  simp only [ExperimentController.runExperiment, ExperimentController.createDags,
    List.append_assoc, List.mem_append] at hst
  rcases hst with hst | hst | hst | hst | hst | hst | hst | hst | hst
  · obtain rfl := List.mem_singleton.mp hst
    cases h
  · exact hdag (fun _ => rfl) hst
  · rcases List.mem_pair.mp hst with rfl | rfl
    · cases h
    · cases h
  · exact @hdag _ _ (fun d => .waitUntilDagExists d _) (fun _ => rfl) hst
  · exact hdag (fun _ => rfl) hst
  · exact hdag (fun _ => rfl) hst
  · have hnames : st.call.dagId? = none ∨ st.call.dagId? = some c.configuration.exportDagId := by
      simp only [ExperimentController.exportMetrics, List.mem_cons, List.not_mem_nil,
        or_false] at hst
      rcases hst with rfl | rfl | rfl | rfl | rfl | rfl <;> simp [Call.dagId?]
    rcases hnames with hname | hname
    · cases hname.symm.trans h
    · exact Option.some.inj (hname.symm.trans h) ▸ hexport
  · exact hdag (fun _ => rfl) hst
  · obtain rfl := List.mem_singleton.mp hst
    cases h

/-- Each call of an experiment has its effect. -/
theorem runExperiment_does (htype : manager.type = c.dagsManager) (hlawful : manager.Lawful)
    (hwords : ∀ dagId ∈ c.started e, IsWord dagId) (hst : st ∈ c.runExperiment e) :
    DoesRemotely unpaused (st.call.effect c.dagsManager) (fun _ => True)
      (manager.method st.call) := by
  rw [← htype]
  exact DagsManager.does_method hlawful st.call fun dagId h =>
    hwords dagId (runExperiment_dagId hst h)

/-- A run of an experiment, whatever is lost on the way, is the script of calls that the
controller's model runs. -/
theorem runExperiment_refines (htype : manager.type = c.dagsManager) (hlawful : manager.Lawful)
    (hwords : ∀ dagId ∈ c.started e, IsWord dagId) (hquiet : Quiet unpaused w) :
    ∃ script : List (Statement × Outcome), script.map Prod.fst = c.runExperiment e ∧
      Follows Statement.tried (fun st => st.call.effect c.dagsManager) (fun w => unpaused w.state)
        (Quiet unpaused) script (unpaused w.state) (c.run manager e w) :=
  runAll_follows (fun _ hst => runExperiment_does htype hlawful hwords hst) hquiet

def deployedModel (dagId : String) : DagModel where
  dagId := dagId
  isPaused := true
  isActive := true
  hasImportErrors := false
  fileloc := none
  processorSubdir := none
  maxActiveTasks := 16
  hasTaskConcurrencyLimits := false
  nextDagrun := none
  nextDagrunCreateAfter := none

/-- The DAGs are there; each request is carried out twice, and the answers to the first six come
back. -/
def lossyWorld : World Database where
  clock := 0
  rounds := (List.range 40).map fun n => ⟨n, n + 1, id, 1, n < 6⟩
  state := ⟨[("default_pool", 128)], ["first", "second", "export_dag"].map deployedModel, [], [],
    ⟨[], List.nodup_nil⟩⟩

theorem lossyWorld_quiet : Quiet unpaused lossyWorld := by
  intro r hr db
  obtain ⟨n, -, rfl⟩ := List.mem_map.mp hr
  rfl

theorem twoDags_words : ∀ dagId ∈ beeflowController.started twoDags, IsWord dagId := by
  have hstarted : beeflowController.started twoDags = ["first", "second", "export_dag"] := rfl
  rw [hstarted]
  intro dagId h
  simp only [List.mem_cons, List.not_mem_nil, or_false] at h
  rcases h with rfl | rfl | rfl <;> exact ⟨by decide, isSpace_of_all rfl, by decide⟩

theorem runExperiment_refines_lossy : ∃ script : List (Statement × Outcome),
    script.map Prod.fst = beeflowController.runExperiment twoDags ∧
      Follows Statement.tried (fun st => st.call.effect .beeflow) (fun w => unpaused w.state)
        (Quiet unpaused) script (unpaused lossyWorld.state)
        (beeflowController.run (.beeflow localClient fun _ => .null) twoDags lossyWorld) :=
  runExperiment_refines rfl localClient_lawful twoDags_words lossyWorld_quiet

/-- A deletion behind which the DAG is not started again leaves it paused. -/
theorem after_deleted {m : ControllerType} {script : List (Statement × Outcome)}
    {before behind : List Statement} {phase : Phase} {unpaused : String → Bool}
    (hcalls : script.map Prod.fst = before ++ ⟨phase, .deleteDag dagId, false⟩ :: behind)
    (hraise : raise Statement.tried script = none)
    (hbehind : ∀ st ∈ behind, st.call ≠ .startDag dagId) :
    after m script unpaused dagId = false := by
  obtain ⟨script₁, script', rfl, -, hcalls⟩ := List.map_eq_append_iff.mp hcalls
  obtain ⟨p, script₂, rfl, hp, rfl⟩ := List.map_eq_cons_iff.mp hcalls
  have hreturned : p.2 = .returned := returned_of_raise_eq_none hraise (by simp) (by rw [hp])
  have hraise₁ : raise Statement.tried script₁ = none := by
    rw [raise_append] at hraise
    exact (Option.or_eq_none_iff.mp hraise).1
  obtain ⟨st, outcome⟩ := p
  obtain rfl : st = _ := hp
  obtain rfl : outcome = .returned := hreturned
  rw [after_append_of_none hraise₁]
  generalize after m script₁ unpaused = unpaused'
  show after m script₂ (Function.update unpaused' dagId false) dagId = false
  exact after_paused (fun p hp => hbehind p.1 (List.mem_map_of_mem hp))
    (Function.update_self dagId false unpaused')

theorem effect_other {m : ControllerType} {call : Call} (h : dagId ∉ call.dagId?)
    (unpaused : String → Bool) : call.effect m unpaused dagId = unpaused dagId := by
  have hother : ∀ {d : String} (b : Bool), dagId ∉ some d →
      Function.update unpaused d b dagId = unpaused dagId := by
    intro d b hd
    refine Function.update_of_ne (fun heq => hd ?_) _ _
    rw [heq]
    rfl
  cases call with
  | waitUntilDagExists d timeoutSeconds =>
    unfold Call.effect
    split_ifs
    · exact hother false h
    · rfl
  | startDag d => exact hother true h
  | stopDag d => exact hother false h
  | deleteDag d => exact hother false h
  | _ => rfl

/-- A DAG that no call is about. -/
theorem after_other {m : ControllerType} {script : List (Statement × Outcome)}
    (h : ∀ p ∈ script, dagId ∉ p.1.call.dagId?) (unpaused : String → Bool) :
    after m script unpaused dagId = unpaused dagId :=
  exec_keeps (I := fun v : String → Bool => v dagId = unpaused dagId)
    (fun p hp v hv => (effect_other (h p hp) v).trans hv) rfl

/-- Each DAG of an experiment is deleted behind its last start. -/
theorem runExperiment_deletes (h : dagId ∈ c.started e) : ∃ before phase behind,
    c.runExperiment e = before ++ ⟨phase, .deleteDag dagId, false⟩ :: behind ∧
      ∀ st ∈ behind, st.call ≠ .startDag dagId := by
  have hquiet : ∀ st ∈ ExperimentController.deleteDags e ++ ExperimentController.cleanUp,
      st.call ≠ .startDag dagId := fun st hst => ((quiet_deleteDags st hst).2 dagId).1
  rcases List.mem_append.mp h with hd | hd
  · obtain ⟨ids, ids', hids⟩ := List.append_of_mem hd
    have hdeletes : ExperimentController.deleteDags e =
        ids.map (fun d => ⟨.deleteDags, .deleteDag d, false⟩) ++
          ⟨.deleteDags, .deleteDag dagId, false⟩ ::
            ids'.map (fun d => ⟨.deleteDags, .deleteDag d, false⟩) := by
      rw [ExperimentController.deleteDags, hids, List.map_append, List.map_cons]
    rw [hdeletes] at hquiet
    refine ⟨c.prepareEnvironment ++ c.createDags e ++ ExperimentController.startDags e ++
      ExperimentController.stopDags e ++ c.exportMetrics ++
        ids.map (fun d => ⟨.deleteDags, .deleteDag d, false⟩), .deleteDags,
      ids'.map (fun d => ⟨.deleteDags, .deleteDag d, false⟩) ++ ExperimentController.cleanUp,
      ?_, fun st hst => hquiet st ?_⟩
    · rw [ExperimentController.runExperiment, hdeletes]
      simp only [List.append_assoc, List.cons_append]
    · rw [List.append_assoc, List.cons_append]
      exact List.mem_append_right _ (List.mem_cons_of_mem _ hst)
  · obtain rfl := List.mem_singleton.mp hd
    have hexport : c.exportMetrics = c.exportMetrics.take 5 ++
      [⟨.exportMetrics, .deleteDag c.configuration.exportDagId, false⟩] := rfl
    refine ⟨c.prepareEnvironment ++ c.createDags e ++ ExperimentController.startDags e ++
      ExperimentController.stopDags e ++ c.exportMetrics.take 5, .exportMetrics, _, ?_, hquiet⟩
    rw [ExperimentController.runExperiment, hexport]
    simp only [List.append_assoc, List.cons_append, List.nil_append]
    rfl

/-- Where the run ends without an exception it leaves all its DAGs paused or deleted, and it never
touches another one. -/
theorem runExperiment_leaves (htype : manager.type = c.dagsManager) (hlawful : manager.Lawful)
    (hwords : ∀ dagId ∈ c.started e, IsWord dagId) (hquiet : Quiet unpaused w) :
    (∀ w', c.run manager e w = .ok () w' → ∀ dagId, unpaused w'.state dagId =
      if dagId ∈ c.started e then false else unpaused w.state dagId) ∧
    ∀ error w', c.run manager e w = .error error w' → ∀ dagId ∉ c.started e,
      unpaused w'.state dagId = unpaused w.state dagId := by
  obtain ⟨script, hcalls, hfollows⟩ : ∃ script : List (Statement × Outcome),
      script.map Prod.fst = c.runExperiment e ∧
        Follows Statement.tried (fun st => st.call.effect c.dagsManager)
          (fun w => unpaused w.state) (Quiet unpaused) script (unpaused w.state)
          (c.run manager e w) :=
    runAll_follows (fun _ hst => runExperiment_does htype hlawful hwords hst) hquiet
  have hother : ∀ dagId ∉ c.started e,
      after c.dagsManager script (unpaused w.state) dagId = unpaused w.state dagId := by
    intro dagId hd
    refine after_other (fun p hp hmem => hd ?_) _
    exact runExperiment_dagId (hcalls ▸ List.mem_map_of_mem hp) hmem
  constructor
  · intro w' hrun dagId
    rw [hrun] at hfollows
    obtain ⟨-, hview, hraise⟩ := hfollows
    split_ifs with hd
    · obtain ⟨before, phase, behind, hdeletes, hbehind⟩ := runExperiment_deletes hd
      exact (congrFun hview dagId).trans (after_deleted (hcalls.trans hdeletes) hraise hbehind)
    · exact (congrFun hview dagId).trans (hother dagId hd)
  · intro error w' hrun dagId hd
    rw [hrun] at hfollows
    exact (congrFun hfollows.2.1 dagId).trans (hother dagId hd)

end Runs

/-- It prints what the commands print, and the messages they end with as errors. -/
def printingEnvironment : MwaaEnvironment where
  api := localClient
  respond
    | .ok printed => ⟨200, some printed, some ""⟩
    | .error message => ⟨200, some "", some message⟩

theorem printingEnvironment_lawful : printingEnvironment.Lawful where
  api := localClient_lawful
  respond message _ := ⟨message, rfl, decide_eq_true List.infix_rfl⟩
  deleteDag {dagId db message} h := by
    unfold printingEnvironment localClient at h
    dsimp only at h
    split at h
    · exact .inl ‹_›
    · cases h

def mwaaController : ExperimentController := ⟨.mwaa, beeflowController.configuration⟩

theorem runExperiment_leaves_lossy :
    (∀ w', mwaaController.run (.mwaa printingEnvironment) twoDags lossyWorld = .ok () w' →
      ∀ dagId, unpaused w'.state dagId =
        if dagId ∈ mwaaController.started twoDags then false
        else unpaused lossyWorld.state dagId) ∧
    ∀ error w',
      mwaaController.run (.mwaa printingEnvironment) twoDags lossyWorld = .error error w' →
      ∀ dagId ∉ mwaaController.started twoDags,
        unpaused w'.state dagId = unpaused lossyWorld.state dagId :=
  runExperiment_leaves rfl printingEnvironment_lawful twoDags_words lossyWorld_quiet

end Beeflow.Experiments
