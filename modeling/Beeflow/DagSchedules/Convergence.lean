import Beeflow.Lib.Refresh
import Beeflow.DagSchedules.Updater

/-!
# The rule follows the paused flag

Every commit of a DAG's row sends an event, and every event makes a handler
read the flag and put the rule. The queue delivers in any order, and handlers
run at the same time, so a handler may put the state of a flag that changed
since it was read.
-/

namespace Beeflow.DagSchedules

open Refresh

/-- What `upsert_new_cron_schedule` leaves as the rule, having read this flag, and whether it
returns. -/
def putRule (env : Environment) (dagId : String) (rule : Option PutRule)
    (isPaused : Option Bool) : Option PutRule × Bool :=
  let outcome := upsertNewCronSchedule { env with isPaused := fun _ => isPaused } dagId
  ((outcome.putRules.filter env.putRule).getLast?.or rule, outcome.result.toOption.isSome)

/-- A DAG whose row and rule do not exist yet. -/
def undeployed : State (Option Bool) (Option PutRule) := ⟨none, none, 0, []⟩

def paused (isPaused : Option Bool) : Bool := isPaused = some true

def disabled (rule : Option PutRule) : Bool := rule.map (·.state) = some "DISABLED"

theorem disabled_putRule (dag : Dag) (dagId expression : String) (isPaused : Option Bool) :
    disabled (some (dag.putRule dagId expression isPaused)) = paused isPaused := by
  rcases isPaused with - | - | - <;> rfl

/-- A call that returns leaves the rule in the state of the flag it read. -/
theorem putRule_shown (env : Environment) (dagId : String) (rule : Option PutRule)
    (isPaused : Option Bool) (h : (putRule env dagId rule isPaused).2 = true) :
    disabled (putRule env dagId rule isPaused).1 = paused isPaused := by
  unfold putRule upsertNewCronSchedule Environment.getDagById at h ⊢
  dsimp only at h ⊢
  cases hd : env.dagbag.find? (·.dagId = dagId) with
  | none => simp [hd, Except.toOption] at h
  | some dag =>
    cases he : fromAirflowScheduleToAwsCron dag.normalizedScheduleInterval with
    | error e => simp [hd, he, Except.toOption] at h
    | ok expression =>
      simp only [hd, he] at h ⊢
      split_ifs at h ⊢ with hrule htargets
      · rw [List.filter_cons_of_pos hrule]
        exact disabled_putRule dag dagId expression isPaused
      · simp [Except.toOption] at h
      · simp [Except.toOption] at h

/-- Where every outdated put leaves an event or a handler behind that will put the current
flag, the rule is disabled exactly if the DAG is paused once all is delivered and ended. -/
theorem rule_follows (env : Environment) (dagId : String) {ls : List (Label (Option Bool))}
    {s : State (Option Bool) (Option PutRule)}
    (hr : Machine.run (State.step (putRule env dagId)) undeployed ls = some s)
    (hc : Machine.Along (State.step (putRule env dagId)) (State.Covered paused) undeployed ls)
    (hq : s.Quiescent) : disabled s.view = true ↔ paused s.source = true := by
  rw [run_follows (putRule_shown env dagId) (.inl rfl) hc hr hq]

/-- An outdated put that leaves nobody behind may be the last one. -/
theorem rule_outdated {env : Environment} {dagId : String}
    (hreturns : ∀ rule isPaused, (putRule env dagId rule isPaused).2 = true)
    {s : State (Option Bool) (Option PutRule)} {l : Label (Option Bool)}
    (h : ¬s.Covered paused l) :
    ∃ ls t, Machine.run (State.step (putRule env dagId)) s (l :: ls) = some t ∧ t.Quiescent ∧
      disabled t.view ≠ paused t.source :=
  outdated_of_not_covered (fun rule isPaused => putRule_shown env dagId rule isPaused
    (hreturns rule isPaused)) hreturns h

/-- The DAG is paused, and unpaused while the first handler holds the old flag. The second
handler puts after it. -/
def inOrder : List (Label (Option Bool)) :=
  [.change (some true), .deliver, .read 0, .change (some false), .deliver, .read 1, .write 0,
    .write 0]

def eveningRule (isPaused : Bool) : PutRule :=
  Dag.putRule ⟨"etl", .cron "0 20 * * *"⟩ "etl" "cron(0 20 * * ? *)" (some isPaused)

theorem rule_follows_inOrder :
    disabled (some (eveningRule false)) = true ↔ paused (some false) = true :=
  @rule_follows evening "etl" inOrder ⟨some false, some (eveningRule false), 0, []⟩ rfl (by decide)
    ⟨rfl, rfl⟩

/-- The second handler puts before the first one: the DAG runs, and its rule is disabled. -/
theorem latePut_disables : ∃ s, Machine.run (State.step (putRule evening "etl")) undeployed
      [.change (some true), .deliver, .read 0, .change (some false), .deliver, .read 1, .write 1,
        .write 0] = some s ∧
    s.Quiescent ∧ ¬(disabled s.view = true ↔ paused s.source = true) := by
  refine ⟨⟨some false, some (eveningRule true), 0, []⟩, rfl, ⟨rfl, rfl⟩, ?_⟩
  decide

end Beeflow.DagSchedules
