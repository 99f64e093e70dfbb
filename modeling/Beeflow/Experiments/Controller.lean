import Mathlib.Logic.Function.Basic
import Beeflow.Lib.Calls
import Beeflow.Lib.Machine

/-!
# The experiment controller

`run_experiment` makes its calls one after another and leaves at the first one
that raises; only the deletion of what an earlier experiment may have left is
tried. Nothing stops the DAGs that have been started by then. The runner does
not see the exception and goes on with the next experiment.
-/

namespace Beeflow.Experiments

open Calls

structure ExperimentConfiguration where
  dagsLocalPath : String
  dagIds : List String

structure ExperimentControllerConfiguration where
  dagsDeploymentWaitSeconds : Int
  exportDagId : String
  exportDagFolderPath : String
  defaultPoolSize : Int

/-- Which of the two `IDagsManager`s a controller has. -/
inductive ControllerType
  | beeflow | mwaa
  deriving DecidableEq, Repr

structure ExperimentController where
  dagsManager : ControllerType
  configuration : ExperimentControllerConfiguration

/-- The methods of the DAGs manager and the bucket manager. -/
inductive Call
  | scaleDefaultPool (poolSize : Int)
  | clearDags
  | publishDags (dagsPath : String)
  | waitUntilDagExists (dagId : String) (timeoutSeconds : Int)
  | startDag (dagId : String)
  | stopDag (dagId : String)
  | deleteDag (dagId : String)
  | triggerDag (dagId : String)
  deriving DecidableEq, Repr

/-- The methods of the controller that call them. -/
inductive Phase
  | prepareEnvironment | createDags | startDags | stopDags | exportMetrics | deleteDags | cleanUp
  deriving DecidableEq, Repr

structure Statement where
  phase : Phase
  call : Call
  /-- inside `try` with `except Exception` -/
  tried : Bool
  deriving DecidableEq, Repr

-- ---------------------------------------------------------------------------
-- `run_experiment`
-- ---------------------------------------------------------------------------

namespace ExperimentController

variable (c : ExperimentController) (e : ExperimentConfiguration)

def prepareEnvironment : List Statement :=
  [⟨.prepareEnvironment, .scaleDefaultPool c.configuration.defaultPoolSize, false⟩]

def tryDeleteDags : List Statement :=
  e.dagIds.map fun dagId => ⟨.createDags, .deleteDag dagId, true⟩

def createDags : List Statement :=
  tryDeleteDags e ++
  [⟨.createDags, .clearDags, false⟩, ⟨.createDags, .publishDags e.dagsLocalPath, false⟩] ++
  e.dagIds.map fun dagId =>
    ⟨.createDags, .waitUntilDagExists dagId c.configuration.dagsDeploymentWaitSeconds, false⟩

def startDags : List Statement :=
  e.dagIds.map fun dagId => ⟨.startDags, .startDag dagId, false⟩

def stopDags : List Statement :=
  e.dagIds.map fun dagId => ⟨.stopDags, .stopDag dagId, false⟩

def exportMetrics : List Statement := [
  ⟨.exportMetrics, .publishDags c.configuration.exportDagFolderPath, false⟩,
  ⟨.exportMetrics, .waitUntilDagExists c.configuration.exportDagId
    c.configuration.dagsDeploymentWaitSeconds, false⟩,
  ⟨.exportMetrics, .startDag c.configuration.exportDagId, false⟩,
  ⟨.exportMetrics, .triggerDag c.configuration.exportDagId, false⟩,
  ⟨.exportMetrics, .stopDag c.configuration.exportDagId, false⟩,
  ⟨.exportMetrics, .deleteDag c.configuration.exportDagId, false⟩]

def deleteDags : List Statement :=
  e.dagIds.map fun dagId => ⟨.deleteDags, .deleteDag dagId, false⟩

def cleanUp : List Statement := [⟨.cleanUp, .clearDags, false⟩]

/-- The calls in their order; collecting the metrics only waits. -/
def runExperiment : List Statement :=
  c.prepareEnvironment ++ c.createDags e ++ startDags e ++ stopDags e ++ c.exportMetrics ++
    deleteDags e ++ cleanUp

/-- The DAGs that the experiment starts. -/
def started : List String := e.dagIds ++ [c.configuration.exportDagId]

end ExperimentController

/-- Which DAGs of an environment are not paused, after the call. The MWAA manager waits for a DAG
by pausing it. -/
def Call.effect (m : ControllerType) : Call → (String → Bool) → String → Bool
  | .startDag dagId, unpaused => Function.update unpaused dagId true
  | .stopDag dagId, unpaused => Function.update unpaused dagId false
  | .deleteDag dagId, unpaused => Function.update unpaused dagId false
  | .waitUntilDagExists dagId _, unpaused =>
    if m = .mwaa then Function.update unpaused dagId false else unpaused
  | .scaleDefaultPool _, unpaused | .clearDags, unpaused | .publishDags _, unpaused
  | .triggerDag _, unpaused => unpaused

/-- A call that stops a DAG and that must not fail. -/
def Statement.Stops (st : Statement) : Prop :=
  st.tried = false ∧ ∃ dagId, st.call = .stopDag dagId ∨ st.call = .deleteDag dagId

/-- A run of `run_experiment`: how each call ends, if it is reached. -/
structure Attempt (c : ExperimentController) (e : ExperimentConfiguration) where
  script : List (Statement × Outcome)
  calls : script.map Prod.fst = c.runExperiment e
  succeeds : ∀ p ∈ script, p.1.Stops → p.2 = .returned

namespace Attempt

variable {c : ExperimentController} {e : ExperimentConfiguration}

/-- The DAGs that are not paused when the run has ended. -/
def unpausedAfter (a : Attempt c e) (unpaused : String → Bool) : String → Bool :=
  exec Statement.tried (fun st => st.call.effect c.dagsManager) a.script unpaused

end Attempt

/-- The exception comes neither from triggering the export, nor from a start that has happened all
the same, nor from starting a DAG of the experiment behind another one. -/
def HarmlessRaise (r : Raise Statement) : Prop :=
  match r.call.phase, r.call.call with
  | .startDags, _ => r.effective = false ∧ ∀ p ∈ r.before, p.1.phase ≠ .startDags
  | .exportMetrics, .startDag _ => r.effective = false
  | .exportMetrics, .triggerDag _ => False
  | _, _ => True

def Attempt.Harmless {c : ExperimentController} {e : ExperimentConfiguration} (a : Attempt c e) :
    Prop := RaisesOnly Statement.tried HarmlessRaise a.script

-- ---------------------------------------------------------------------------
-- One experiment
-- ---------------------------------------------------------------------------

section Scripts

variable {m : ControllerType} {c : ExperimentController} {e : ExperimentConfiguration}
  {script : List (Statement × Outcome)} {unpaused : String → Bool} {dagId : String}
  {r : Raise Statement} {call : Call}

/-- The state a script leaves, with the calls of the controller. -/
abbrev after (m : ControllerType) (script : List (Statement × Outcome))
    (unpaused : String → Bool) : String → Bool :=
  exec Statement.tried (fun st => st.call.effect m) script unpaused

theorem after_append_of_raise {script' : List (Statement × Outcome)}
    (h : raise Statement.tried script = some r) :
    after m (script ++ script') unpaused = after m script unpaused := exec_append_of_raise h

theorem after_append_of_none {script' : List (Statement × Outcome)}
    (h : raise Statement.tried script = none) :
    after m (script ++ script') unpaused = after m script' (after m script unpaused) :=
  exec_append_of_none h

/-- Only a start unpauses a DAG. -/
theorem effect_paused (hcall : call ≠ .startDag dagId) (h : unpaused dagId = false) :
    call.effect m unpaused dagId = false := by
  have hpause : ∀ dagId', Function.update unpaused dagId' false dagId = false := by
    intro dagId'
    rw [Function.update_apply]
    split_ifs
    · rfl
    · exact h
  cases call with
  | startDag dagId' =>
    refine (Function.update_of_ne ?_ _ _).trans h
    rintro rfl
    exact hcall rfl
  | stopDag dagId' => exact hpause dagId'
  | deleteDag dagId' => exact hpause dagId'
  | waitUntilDagExists dagId' _ =>
    unfold Call.effect
    split_ifs
    · exact hpause dagId'
    · exact h
  | _ => exact h

theorem after_paused (hstarts : ∀ p ∈ script, p.1.call ≠ .startDag dagId)
    (h : unpaused dagId = false) : after m script unpaused dagId = false :=
  exec_keeps (I := fun unpaused : String → Bool => unpaused dagId = false)
    (fun p hp _ => effect_paused (hstarts p hp)) h

/-- A script of starts never pauses. -/
theorem after_starts {dagIds : List String}
    (hcalls : script.map Prod.fst = dagIds.map fun d => ⟨.startDags, .startDag d, false⟩)
    (h : unpaused dagId = true) : after m script unpaused dagId = true := by
  refine exec_keeps (I := fun unpaused : String → Bool => unpaused dagId = true)
    (fun p hp unpaused h => ?_) h
  obtain ⟨d, -, hd⟩ := List.mem_map.mp (hcalls ▸ List.mem_map_of_mem hp)
  rw [← hd]
  show Function.update unpaused d true dagId = true
  rw [Function.update_apply, h, ite_self]

abbrev Paused (dagIds : List String) (unpaused : String → Bool) : Prop :=
  ∀ d ∈ dagIds, unpaused d = false

/-- An exception among the starts leaves all DAGs paused where nothing has been started. -/
theorem starts_paused_iff {dagIds all : List String} (hsub : ∀ d ∈ dagIds, d ∈ all)
    (hcalls : script.map Prod.fst = dagIds.map fun d => ⟨.startDags, .startDag d, false⟩)
    (hr : raise Statement.tried script = some r) (h : Paused all unpaused) :
    Paused all (after m script unpaused) ↔ r.effective = false ∧ r.before = [] := by
  cases script with
  | nil => cases hr
  | cons p script =>
    cases dagIds with
    | nil => cases hcalls
    | cons d dagIds =>
      obtain ⟨hp, hrest⟩ := List.cons_eq_cons.mp hcalls
      obtain ⟨st, outcome⟩ := p
      obtain rfl : st = ⟨.startDags, .startDag d, false⟩ := hp
      cases outcome with
      | returned =>
        obtain ⟨r', -, rfl⟩ := Option.map_eq_some_iff.mp hr
        constructor
        · intro hall
          have hd := hall d (hsub d List.mem_cons_self)
          change after m script (Function.update unpaused d true) d = false at hd
          rw [after_starts hrest (Function.update_self d true unpaused)] at hd
          cases hd
        · rintro ⟨-, hbefore⟩
          cases hbefore
      | raised effective =>
        obtain rfl := Option.some.inj hr
        cases effective with
        | false => exact ⟨fun _ => ⟨rfl, rfl⟩, fun _ => h⟩
        | true =>
          constructor
          · intro hall
            have hd := hall d (hsub d List.mem_cons_self)
            change Function.update unpaused d true d = false at hd
            rw [Function.update_self] at hd
            cases hd
          · rintro ⟨heffective, -⟩
            cases heffective

/-- Stopping each DAG pauses it. -/
theorem after_stops {dagIds : List String}
    (hcalls : script.map Prod.fst = dagIds.map fun d => ⟨.stopDags, .stopDag d, false⟩)
    (hreturned : ∀ p ∈ script, p.2 = .returned) (hd : dagId ∈ dagIds) :
    after m script unpaused dagId = false := by
  induction script generalizing dagIds unpaused with
  | nil =>
    obtain rfl := List.map_eq_nil_iff.mp hcalls.symm
    cases hd
  | cons p script ih =>
    cases dagIds with
    | nil => cases hcalls
    | cons d dagIds =>
      obtain ⟨hp, hrest⟩ := List.cons_eq_cons.mp hcalls
      obtain ⟨hout, houts⟩ := List.forall_mem_cons.mp hreturned
      obtain ⟨st, outcome⟩ := p
      obtain rfl : st = ⟨.stopDags, .stopDag d, false⟩ := hp
      obtain rfl : outcome = .returned := hout
      rcases List.mem_cons.mp hd with rfl | hd
      · show after m script (Function.update unpaused dagId false) dagId = false
        refine after_paused (fun q hq => ?_) (Function.update_self dagId false unpaused)
        obtain ⟨d', -, hq⟩ := List.mem_map.mp (hrest ▸ List.mem_map_of_mem hq)
        rw [← hq]
        exact Call.noConfusion
      · exact ih hrest houts hd

theorem harmlessRaise_start (hstart : r.call.phase = .startDags) :
    HarmlessRaise r ↔ r.effective = false ∧ ∀ p ∈ r.before, p.1.phase ≠ .startDags := by
  unfold HarmlessRaise
  rw [hstart]

theorem harmlessRaise_after (hstart : r.call.phase ≠ .startDags) :
    HarmlessRaise (r.after script) ↔ HarmlessRaise r := by
  obtain ⟨before, ⟨phase, call, tried⟩, effective⟩ := r
  cases phase with
  | startDags => exact absurd rfl hstart
  | exportMetrics => cases call <;> exact Iff.rfl
  | _ => exact Iff.rfl

/-- What comes before a raise is of importance to the starts only. -/
def Extends (P : Raise Statement → Prop) : Prop :=
  ∀ r : Raise Statement, r.call.phase ≠ .startDags → (P r ↔ HarmlessRaise r)

theorem Extends.after {P : Raise Statement → Prop} (hP : Extends P)
    (script : List (Statement × Outcome)) : Extends fun r => P (r.after script) :=
  fun r hr => (hP (r.after script) hr).trans (harmlessRaise_after hr)

/-- A statement that starts nothing and leaves nothing started when it raises. -/
def Statement.Quiet (st : Statement) : Prop :=
  st.phase ≠ .startDags ∧ ∀ d, st.call ≠ .startDag d ∧ st.call ≠ .triggerDag d

theorem Statement.Quiet.harmless (h : r.call.Quiet) : HarmlessRaise r := by
  unfold HarmlessRaise
  split
  · exact absurd ‹_› h.1
  · exact absurd ‹_› (h.2 _).1
  · exact absurd ‹_› (h.2 _).2
  · trivial

theorem quiet_prepareEnvironment : ∀ st ∈ c.prepareEnvironment, st.Quiet := by
  simp [ExperimentController.prepareEnvironment, Statement.Quiet]

theorem quiet_createDags : ∀ st ∈ c.createDags e, st.Quiet := by
  simp [ExperimentController.createDags, ExperimentController.tryDeleteDags, Statement.Quiet,
    or_imp, forall_and]

theorem quiet_exportMetrics : ∀ st ∈ c.exportMetrics.take 2, st.Quiet := by
  simp [ExperimentController.exportMetrics, Statement.Quiet]

theorem quiet_deleteDags : ∀ st ∈ ExperimentController.deleteDags e ++
    ExperimentController.cleanUp, st.Quiet := by
  simp [ExperimentController.deleteDags, ExperimentController.cleanUp, Statement.Quiet,
    or_imp, forall_and]

/-- An exception of a call that starts nothing leaves the DAGs paused. -/
theorem quiet_append {script' : List (Statement × Outcome)} {P : Raise Statement → Prop}
    (hP : Extends P) {all : List String} (hquiet : ∀ st ∈ script.map Prod.fst, st.Quiet)
    (hrest : ∀ unpaused, Paused all unpaused → (Paused all (after m script' unpaused) ↔
      RaisesOnly Statement.tried (fun r => P (r.after script)) script'))
    (h : Paused all unpaused) :
    Paused all (after m (script ++ script') unpaused) ↔
      RaisesOnly Statement.tried P (script ++ script') := by
  have hpaused : Paused all (after m script unpaused) := fun d hd =>
    after_paused (fun p hp => ((hquiet p.1 (List.mem_map_of_mem hp)).2 d).1) (h d hd)
  cases hr : raise Statement.tried script with
  | some r =>
    have hcall : r.call.Quiet := hquiet r.call (List.mem_map_of_mem (raise_mem hr).1)
    rw [after_append_of_raise hr, raisesOnly_append_of_raise hr]
    exact iff_of_true hpaused ((hP r hcall.1).mpr hcall.harmless)
  | none =>
    rw [after_append_of_none hr, raisesOnly_append_of_none hr]
    exact hrest _ hpaused

/-- The export starts and stops its DAG, or ends before it has started it, or in between. -/
theorem export_cases (hcalls : script.map Prod.fst = c.exportMetrics.drop 2)
    (hsucceeds : ∀ p ∈ script, p.1.Stops → p.2 = .returned) (unpaused : String → Bool) :
    let started := Function.update unpaused c.configuration.exportDagId true
    let stopped := Function.update started c.configuration.exportDagId false
    (raise Statement.tried script = none ∧ after m script unpaused =
        Function.update stopped c.configuration.exportDagId false) ∨
      ∃ r, raise Statement.tried script = some r ∧ r.call.phase = .exportMetrics ∧
        (HarmlessRaise r ∧ after m script unpaused = unpaused ∨
          ¬HarmlessRaise r ∧ after m script unpaused = started) := by
  obtain ⟨⟨_, started⟩, s₁, rfl, rfl, h₁⟩ := List.map_eq_cons_iff.mp hcalls
  obtain ⟨⟨_, triggered⟩, s₂, rfl, rfl, h₂⟩ := List.map_eq_cons_iff.mp h₁
  obtain ⟨⟨_, stopped⟩, s₃, rfl, rfl, h₃⟩ := List.map_eq_cons_iff.mp h₂
  obtain ⟨⟨_, deleted⟩, s₄, rfl, rfl, h₄⟩ := List.map_eq_cons_iff.mp h₃
  obtain rfl := List.map_eq_nil_iff.mp h₄
  simp only [List.forall_mem_cons] at hsucceeds
  obtain ⟨-, -, hstop, hdelete, -⟩ := hsucceeds
  obtain rfl : stopped = .returned := hstop ⟨rfl, _, .inl rfl⟩
  obtain rfl : deleted = .returned := hdelete ⟨rfl, _, .inr rfl⟩
  cases started with
  | raised effective =>
    cases effective with
    | true => exact .inr ⟨_, rfl, rfl, .inr ⟨Bool.noConfusion, rfl⟩⟩
    | false => exact .inr ⟨_, rfl, rfl, .inl ⟨rfl, rfl⟩⟩
  | returned =>
    cases triggered with
    | raised effective =>
      refine .inr ⟨_, rfl, rfl, .inr ⟨id, ?_⟩⟩
      cases effective with
      | true => rfl
      | false => rfl
    | returned => exact .inl ⟨rfl, rfl⟩

/-- The export DAG is left unpaused by an exception between its start and its stop. -/
theorem export_append {script' : List (Statement × Outcome)} {P : Raise Statement → Prop}
    (hP : Extends P) {all : List String} (hexport : c.configuration.exportDagId ∈ all)
    (hcalls : script.map Prod.fst = c.exportMetrics.drop 2)
    (hsucceeds : ∀ p ∈ script, p.1.Stops → p.2 = .returned)
    (hrest : ∀ unpaused, Paused all unpaused → (Paused all (after m script' unpaused) ↔
      RaisesOnly Statement.tried (fun r => P (r.after script)) script'))
    (h : Paused all unpaused) :
    Paused all (after m (script ++ script') unpaused) ↔
      RaisesOnly Statement.tried P (script ++ script') := by
  obtain ⟨hnone, hstopped⟩ | ⟨r, hr, hphase, hcases⟩ :=
    export_cases (m := m) hcalls hsucceeds unpaused
  · rw [after_append_of_none hnone, raisesOnly_append_of_none hnone]
    refine hrest _ fun d hd => ?_
    rw [hstopped]
    simp only [Function.update_apply]
    split_ifs
    · rfl
    · exact h d hd
  · rw [after_append_of_raise hr, raisesOnly_append_of_raise hr,
      hP r (by rw [hphase]; decide)]
    rcases hcases with ⟨hharmless, hsame⟩ | ⟨hharm, hstarted⟩
    · rw [hsame]
      exact iff_of_true h hharmless
    · refine iff_of_false (fun hpaused => ?_) hharm
      have hfalse := hpaused _ hexport
      rw [hstarted, Function.update_self] at hfalse
      cases hfalse

/-- Starting the DAGs and stopping them again. -/
theorem starts_append {stops rest : List (Statement × Outcome)} {P : Raise Statement → Prop}
    (hP : ∀ r : Raise Statement, r.call.phase = .startDags →
      (P r ↔ r.effective = false ∧ ∀ p ∈ r.before, p.1.phase ≠ .startDags))
    (hcalls : script.map Prod.fst = ExperimentController.startDags e)
    (hstops : stops.map Prod.fst = ExperimentController.stopDags e)
    (hreturned : ∀ p ∈ stops, p.2 = .returned)
    (hrest : ∀ unpaused, Paused (c.started e) unpaused →
      (Paused (c.started e) (after m rest unpaused) ↔
        RaisesOnly Statement.tried (fun r => P ((r.after stops).after script)) rest))
    (h : Paused (c.started e) unpaused) :
    Paused (c.started e) (after m (script ++ (stops ++ rest)) unpaused) ↔
      RaisesOnly Statement.tried P (script ++ (stops ++ rest)) := by
  have hstart : ∀ p ∈ script, p.1.phase = .startDags ∧
      ∀ d, p.1.call = .startDag d → d ∈ e.dagIds := by
    intro p hp
    obtain ⟨d, hd, hst⟩ := List.mem_map.mp (hcalls ▸ List.mem_map_of_mem hp)
    rw [← hst]
    exact ⟨rfl, fun d' hd' => Call.startDag.inj hd' ▸ hd⟩
  cases hr : raise Statement.tried script with
  | some r =>
    obtain ⟨hcall, hbefore⟩ := raise_mem hr
    rw [after_append_of_raise hr, raisesOnly_append_of_raise hr, hP r (hstart _ hcall).1]
    refine (starts_paused_iff (fun d hd => List.mem_append_left _ hd) hcalls hr h).trans ?_
    refine and_congr_right fun _ => ⟨fun hnil => by simp [hnil], fun hnone => ?_⟩
    refine List.eq_nil_iff_forall_not_mem.mpr fun p hp => ?_
    exact hnone p hp (hstart p (hbefore p hp)).1
  | none =>
    have hnone : raise Statement.tried stops = none := raise_eq_none hreturned
    rw [after_append_of_none hr, after_append_of_none hnone, raisesOnly_append_of_none hr,
      raisesOnly_append_of_none hnone]
    refine hrest _ fun d hd => ?_
    by_cases hmem : d ∈ e.dagIds
    · exact after_stops hstops hreturned hmem
    · refine after_paused (fun p hp hcall => ?_) (after_paused (fun p hp hcall => ?_) (h d hd))
      · obtain ⟨d', -, hst⟩ := List.mem_map.mp (hstops ▸ List.mem_map_of_mem hp)
        rw [← hst] at hcall
        cases hcall
      · exact hmem ((hstart p hp).2 d hcall)

end Scripts

namespace Attempt

variable {c : ExperimentController} {e : ExperimentConfiguration} {unpaused : String → Bool}

/-- The DAGs of an experiment are paused when it has ended exactly where it has not left between
starting and stopping one of them. -/
theorem paused_iff (a : Attempt c e) (h : Paused (c.started e) unpaused) :
    Paused (c.started e) (a.unpausedAfter unpaused) ↔ a.Harmless := by
  obtain ⟨script, hcalls, hsucceeds⟩ := a
  unfold unpausedAfter Harmless
  dsimp only
  simp only [ExperimentController.runExperiment, List.append_assoc] at hcalls
  obtain ⟨prepared, t₁, rfl, hprepared, hcalls⟩ := List.map_eq_append_iff.mp hcalls
  obtain ⟨created, t₂, rfl, hcreated, hcalls⟩ := List.map_eq_append_iff.mp hcalls
  obtain ⟨started, t₃, rfl, hstarted, hcalls⟩ := List.map_eq_append_iff.mp hcalls
  obtain ⟨stopped, t₄, rfl, hstopped, hcalls⟩ := List.map_eq_append_iff.mp hcalls
  rw [← List.take_append_drop 2 c.exportMetrics, List.append_assoc] at hcalls
  obtain ⟨announced, t₅, rfl, hannounced, hcalls⟩ := List.map_eq_append_iff.mp hcalls
  obtain ⟨exported, t₆, rfl, hexported, hcalls⟩ := List.map_eq_append_iff.mp hcalls
  simp only [List.forall_mem_append] at hsucceeds
  obtain ⟨-, -, -, hstops, -, hexports, -⟩ := hsucceeds
  have hreturned : ∀ p ∈ stopped, p.2 = .returned := by
    intro p hp
    obtain ⟨d, -, hst⟩ := List.mem_map.mp (hstopped ▸ List.mem_map_of_mem hp)
    exact hstops p hp (hst ▸ ⟨rfl, d, .inl rfl⟩)
  have hbegin : Extends HarmlessRaise := fun _ _ => Iff.rfl
  -- before the first start
  refine quiet_append hbegin (hprepared ▸ quiet_prepareEnvironment) (fun _ h => ?_) h
  refine quiet_append (hbegin.after _) (hcreated ▸ quiet_createDags) (fun _ h => ?_) h
  -- from the first start to the last stop
  refine starts_append (fun r hr => ?_) hstarted hstopped hreturned (fun _ h => ?_) h
  · refine (harmlessRaise_start (r := (r.after created).after prepared) hr).trans
      (and_congr_right fun _ => ?_)
    show (∀ p ∈ prepared ++ (created ++ r.before), p.1.phase ≠ .startDags) ↔ _
    rw [List.forall_mem_append, List.forall_mem_append]
    refine ⟨fun hall => hall.2.2, fun hall => ⟨fun p hp => ?_, fun p hp => ?_, hall⟩⟩
    · exact (quiet_prepareEnvironment p.1 (hprepared ▸ List.mem_map_of_mem hp)).1
    · exact (quiet_createDags p.1 (hcreated ▸ List.mem_map_of_mem hp)).1
  have hstopped := (((hbegin.after prepared).after created).after started).after stopped
  refine quiet_append hstopped (hannounced ▸ quiet_exportMetrics) (fun _ h => ?_) h
  refine export_append (hstopped.after _) (List.mem_append_right _ (List.mem_singleton_self _))
    hexported hexports (fun _ h => ?_) h
  -- behind the last stop
  rw [← List.append_nil t₆]
  refine quiet_append ((hstopped.after _).after _) (hcalls ▸ quiet_deleteDags)
    (fun _ h => iff_of_true h ?_) h
  rintro r hr
  cases hr

/-- A DAG that the experiment does not start stays paused. -/
theorem others_paused (a : Attempt c e) {dagId : String} (hother : dagId ∉ c.started e)
    (h : unpaused dagId = false) : a.unpausedAfter unpaused dagId = false := by
  refine after_paused (fun p hp hcall => hother ?_) h
  have hmem : p.1 ∈ c.runExperiment e := a.calls ▸ List.mem_map_of_mem hp
  simp only [ExperimentController.runExperiment, List.append_assoc, List.mem_append] at hmem
  rcases hmem with hst | hst | hst | hst | hst | hst
  · exact absurd hcall ((quiet_prepareEnvironment _ hst).2 dagId).1
  · exact absurd hcall ((quiet_createDags _ hst).2 dagId).1
  · obtain ⟨d, hd, hst⟩ := List.mem_map.mp hst
    rw [← hst] at hcall
    exact List.mem_append_left _ (Call.startDag.inj hcall ▸ hd)
  · obtain ⟨d, -, hst⟩ := List.mem_map.mp hst
    rw [← hst] at hcall
    cases hcall
  · simp only [ExperimentController.exportMetrics, List.mem_cons, List.not_mem_nil, or_false] at hst
    rcases hst with hst | hst | hst | hst | hst | hst <;> rw [hst] at hcall <;> cases hcall
    exact List.mem_append_right _ (List.mem_singleton_self _)
  · exact absurd hcall ((quiet_deleteDags _ (List.mem_append.mpr hst)).2 dagId).1

end Attempt

-- ---------------------------------------------------------------------------
-- The runner
-- ---------------------------------------------------------------------------

/-- Between two experiments: those that have ended, those that follow, and the DAGs that are not
paused in the environment of each controller. -/
structure ExperimentRunner (κ : Type*) where
  ended : List ExperimentConfiguration
  experiments : List ExperimentConfiguration
  unpaused : κ → String → Bool

namespace ExperimentRunner

variable {κ : Type*} (controllers : κ → ExperimentController)

/-- How the calls of each controller will end, whichever experiment is next. -/
abbrev Round := (k : κ) → (e : ExperimentConfiguration) → Attempt (controllers k) e

/-- `__run_experiment`: the threads are joined, and what they raise is lost. -/
def step (s : ExperimentRunner κ) (round : Round controllers) : Option (ExperimentRunner κ) :=
  match s.experiments with
  | [] => none
  | e :: experiments => some
    { ended := s.ended ++ [e]
      experiments := experiments
      unpaused := fun k => (round k e).unpausedAfter (s.unpaused k) }

/-- The DAGs of these experiments and the export DAG are paused everywhere. -/
def AllPaused (s : ExperimentRunner κ) (experiments : List ExperimentConfiguration) : Prop :=
  ∀ k, ∀ e ∈ experiments, Paused ((controllers k).started e) (s.unpaused k)

/-- When the next experiment has ended, no DAG of it or of an earlier one is left unpaused. -/
def LeavesPaused (s : ExperimentRunner κ) (round : Round controllers) : Prop :=
  ∀ s', s.step controllers round = some s' → s'.AllPaused controllers s'.ended

def HarmlessRound (s : ExperimentRunner κ) (round : Round controllers) : Prop :=
  ∀ e ∈ s.experiments.head?, ∀ k, (round k e).Harmless

variable {controllers} {s s' : ExperimentRunner κ} {round : Round controllers}

theorem step_cases (h : s.step controllers round = some s') :
    ∃ e experiments, s.experiments = e :: experiments ∧
      s' = ⟨s.ended ++ [e], experiments, fun k => (round k e).unpausedAfter (s.unpaused k)⟩ := by
  unfold step at h
  cases he : s.experiments with
  | nil =>
    rw [he] at h
    cases h
  | cons e experiments =>
    rw [he] at h
    exact ⟨e, experiments, rfl, (Option.some.inj h).symm⟩

/-- What a round leaves of the DAGs of any experiments, the current one among them. -/
theorem allPaused_after_iff {e : ExperimentConfiguration}
    {all ended experiments : List ExperimentConfiguration} (he : e ∈ all)
    (hs : s.AllPaused controllers all) :
    AllPaused controllers
        ⟨ended, experiments, fun k => (round k e).unpausedAfter (s.unpaused k)⟩ all ↔
      ∀ k, (round k e).Harmless := by
  constructor
  · intro hpaused k
    exact ((round k e).paused_iff (hs k e he)).mp (hpaused k e he)
  · intro hharmless k e' he' d hd
    by_cases hmem : d ∈ (controllers k).started e
    · exact ((round k e).paused_iff (hs k e he)).mpr (hharmless k) d hmem
    · exact (round k e).others_paused hmem (hs k e' he' d hd)

/-- After each experiment all DAGs of it and of the earlier ones are paused exactly where no
exception comes between starting and stopping a DAG. -/
theorem leavesPaused_along_iff (hs : s.AllPaused controllers (s.ended ++ s.experiments))
    (rounds : List (Round controllers)) :
    Machine.Along (step controllers) (LeavesPaused controllers) s rounds ↔
      Machine.Along (step controllers) (HarmlessRound controllers) s rounds := by
  refine (Machine.along_congr
    (I := fun s => s.AllPaused controllers (s.ended ++ s.experiments)) ?_ ?_ hs).symm
  · intro s round s' hs hharmless hstep
    obtain ⟨e, experiments, he, rfl⟩ := step_cases hstep
    rw [he] at hs
    have hmem : e ∈ s.ended ++ e :: experiments := by simp
    show AllPaused controllers _ (s.ended ++ [e] ++ experiments)
    rw [List.append_assoc]
    exact (allPaused_after_iff hmem hs).mpr (hharmless e (by simp [he]))
  · intro s round hs
    cases he : s.experiments with
    | nil =>
      refine iff_of_true (fun e hmem => ?_) (fun s' hstep => ?_)
      · rw [he] at hmem
        cases hmem
      · obtain ⟨e, experiments, he', -⟩ := step_cases hstep
        cases he.symm.trans he'
    | cons e experiments =>
      have hmem : e ∈ s.ended ++ [e] := by simp
      have hsub : s.ended ++ [e] ⊆ s.ended ++ s.experiments := by simp [he]
      have hpaused : s.AllPaused controllers (s.ended ++ [e]) := fun k e' he' => hs k e' (hsub he')
      have hstep : s.step controllers round = some
          ⟨s.ended ++ [e], experiments, fun k => (round k e).unpausedAfter (s.unpaused k)⟩ := by
        rw [step, he]
      have hround : s.HarmlessRound controllers round ↔ ∀ k, (round k e).Harmless := by
        simp [HarmlessRound, he]
      rw [hround, ← allPaused_after_iff hmem hpaused, LeavesPaused, hstep]
      exact ⟨fun h s' hs' => Option.some.inj hs' ▸ h, fun h => h _ rfl⟩

end ExperimentRunner

/-- A run in which how a call ends depends on what it is. -/
def Attempt.ofOutcome (outcome : Statement → Outcome)
    (h : ∀ st, st.Stops → outcome st = .returned) (c : ExperimentController)
    (e : ExperimentConfiguration) : Attempt c e where
  script := (c.runExperiment e).map fun st => (st, outcome st)
  calls := by
    rw [List.map_map]
    exact List.map_id _
  succeeds := by
    intro p hp
    obtain ⟨st, -, rfl⟩ := List.mem_map.mp hp
    exact h st

def beeflowController : ExperimentController := ⟨.beeflow, 300, "export_dag", "export", 256⟩

def twoDags : ExperimentConfiguration := ⟨"experiments/two_dags", ["first", "second"]⟩

/-- One DAG cannot be started. -/
def startFails (dagId : String) (st : Statement) : Outcome :=
  if st.call = .startDag dagId then .raised false else .returned

theorem startFails_of_stops {dagId : String} (st : Statement) (h : st.Stops) :
    startFails dagId st = .returned := by
  obtain ⟨-, d, hd | hd⟩ := h
  · simp [startFails, hd]
  · simp [startFails, hd]

def startFailsRound (dagId : String) : ExperimentRunner.Round fun _ : Unit => beeflowController :=
  fun _ e => Attempt.ofOutcome (startFails dagId) startFails_of_stops beeflowController e

def newRunner : ExperimentRunner Unit := ⟨[], [twoDags, twoDags], fun _ _ => false⟩

/-- No DAG was started before the first one fails to. -/
theorem firstFails_harmless :
    Attempt.Harmless (startFailsRound "first" () twoDags) := by
  intro r hr
  have hraise : raise Statement.tried (startFailsRound "first" () twoDags).script =
      some ⟨((beeflowController.runExperiment twoDags).take 7).map fun st => (st, .returned),
        ⟨.startDags, .startDag "first", false⟩, false⟩ := rfl
  obtain rfl := Option.some.inj (hraise.symm.trans hr)
  exact ⟨rfl, by decide⟩

theorem leavesPaused_along_iff_twoDags :
    (Machine.Along (ExperimentRunner.step fun _ : Unit => beeflowController)
        (ExperimentRunner.LeavesPaused _) newRunner [startFailsRound "second"] ↔
      Machine.Along (ExperimentRunner.step fun _ : Unit => beeflowController)
        (ExperimentRunner.HarmlessRound _) newRunner [startFailsRound "second"]) ∧
    Machine.Along (ExperimentRunner.step fun _ : Unit => beeflowController)
      (ExperimentRunner.LeavesPaused _) newRunner
      [startFailsRound "first", startFailsRound "first"] := by
  refine ⟨ExperimentRunner.leavesPaused_along_iff (fun _ _ _ _ _ => rfl) _, ?_⟩
  have hharmless : ∀ s : ExperimentRunner Unit, (∀ e ∈ s.experiments, e = twoDags) →
      s.HarmlessRound (fun _ => beeflowController) (startFailsRound "first") := by
    intro s hs e he k
    obtain rfl := hs e (List.mem_of_mem_head? he)
    exact firstFails_harmless
  exact (ExperimentRunner.leavesPaused_along_iff (fun _ _ _ _ _ => rfl) _).mpr
    ⟨hharmless _ (by simp [newRunner]), hharmless _ (by simp), trivial⟩

/-- The first DAG goes on running when the second one has not started. -/
theorem first_left_unpaused :
    ¬Machine.Along (ExperimentRunner.step fun _ : Unit => beeflowController)
      (ExperimentRunner.LeavesPaused _) newRunner [startFailsRound "second"] := by
  rintro ⟨hpaused, -⟩
  have hfirst := hpaused _ rfl () twoDags (by simp [newRunner]) "first" (by decide)
  exact absurd hfirst (by decide)

end Beeflow.Experiments
