import Beeflow.Events.Parsing

/-!
# The schedule updater

`upsert_new_cron_schedule` puts the EventBridge rule that triggers a DAG. The
handler calls it for each event that parses as one about a DAG.
-/

namespace Beeflow.DagSchedules

open Events Python

-- ---------------------------------------------------------------------------
-- Schedules
-- ---------------------------------------------------------------------------

inductive ScheduleInterval
  | cron (expression : String)
  /-- `None`, a `timedelta` or a `relativedelta`, as it prints -/
  | other (shown : String)

def removeChar (c : Char) (cs : List Char) : List Char := cs.filter (· ≠ c)

/-- `s.replace("*", "?")` -/
def starsToMarks (cs : List Char) : List Char := cs.map fun c => if c = '*' then '?' else c

def awsExpression (fields : List (List Char)) : String :=
  String.ofList (['c', 'r', 'o', 'n', '('] ++ [' '].intercalate fields ++ [')'])

def fromAirflowScheduleToAwsCron : ScheduleInterval → Except PyError String
  | .other shown => .error (.valueError
      "Currently supporting only schedule intervals for cron string type, got " (.str shown)
      " instead")
  | .cron schedule =>
    match (removeChar '\\' (removeChar '"' schedule.toList)).splitOn ' ' with
    | minutes :: hours :: dayMonth :: month :: dayWeek :: _ =>
      .ok (awsExpression [minutes, hours, dayMonth, month, starsToMarks dayWeek, ['*']])
    | _ => .error (.valueError "Invalid Airflow cron format, got " (.str schedule)
        ", expected sample: '0 0 * * *'")

example : fromAirflowScheduleToAwsCron (.cron "0 20 * * *") = .ok "cron(0 20 * * ? *)" := rfl

def getRuleState (isDagPaused : Option Bool) : String :=
  if isDagPaused = some true then "DISABLED" else "ENABLED"

-- ---------------------------------------------------------------------------
-- Upserting a rule
-- ---------------------------------------------------------------------------

structure PutRule where
  name : String
  scheduleExpression : String
  state : String
  description : String
  eventBusName : String
  deriving DecidableEq, Repr

structure PutTargets where
  rule : String
  eventBusName : String
  id : String
  arn : String
  inputPathsMap : List (String × String)
  inputTemplate : ParsedEvent
  messageGroupId : String

structure Dag where
  dagId : String
  normalizedScheduleInterval : ScheduleInterval

/-- The dagbag, the `dag` table, the environment variables, and which requests EventBridge takes. -/
structure Environment where
  dagbag : List Dag
  isPaused : String → Option Bool
  targetArn : String
  messageGroupId : String
  putRule : PutRule → Bool
  putTargets : PutTargets → Bool

inductive UpdaterError
  | python (e : PyError)
  | clientError (operation : String)

/-- The requests made, and what the call came to. -/
structure Outcome (α : Type) where
  putRules : List PutRule
  putTargets : List PutTargets
  result : Except UpdaterError α

def Environment.getDagById (env : Environment) (dagId : String) : Except PyError Dag :=
  match env.dagbag.find? (·.dagId = dagId) with
  | some dag => .ok dag
  | none => .error (.keyError dagId)

def Dag.putRule (dag : Dag) (dagId expression : String) (isPaused : Option Bool) : PutRule where
  name := dag.dagId
  scheduleExpression := expression
  state := getRuleState isPaused
  description := "Rule to trigger execution of tasks for " ++ dagId
  eventBusName := "default"

def Dag.putTargets (dag : Dag) (env : Environment) : PutTargets where
  rule := dag.dagId
  eventBusName := "default"
  id := "trigger-scheduler-by-sqs-forward"
  arn := env.targetArn
  inputPathsMap := [("eventTime", "$.time")]
  inputTemplate := ⟨.dagCronTriggered, dagCronTriggered,
    [("dag_id", .str dag.dagId), ("trigger_time", .str "<eventTime>")]⟩
  messageGroupId := env.messageGroupId

def upsertNewCronSchedule (env : Environment) (dagId : String) : Outcome BeeflowEvent :=
  match env.getDagById dagId with
  | .error e => ⟨[], [], .error (.python e)⟩
  | .ok dag =>
    match fromAirflowScheduleToAwsCron dag.normalizedScheduleInterval with
    | .error e => ⟨[], [], .error (.python e)⟩
    | .ok expression =>
      let rule := dag.putRule dagId expression (env.isPaused dag.dagId)
      if env.putRule rule then
        let targets := dag.putTargets env
        if env.putTargets targets then
          ⟨[rule], [targets], .ok ⟨newCronScheduleCreated,
            [("dag_id", .str dagId), ("rule_id", .str dag.dagId)]⟩⟩
        else ⟨[rule], [targets], .error (.clientError "PutTargets")⟩
      else ⟨[rule], [], .error (.clientError "PutRule")⟩

-- ---------------------------------------------------------------------------
-- Acting on an event
-- ---------------------------------------------------------------------------

/-- `None` where the detail does not parse as an event of the class. -/
def actOnDagEvent (cls : EventClass) (env : Environment) (detail : Dict) :
    Outcome (Option BeeflowEvent) :=
  match cls.parse detail with
  | .error (.validationError ..) => ⟨[], [], .ok none⟩
  | .error e => ⟨[], [], .error (.python e)⟩
  | .ok parsed =>
    match parsed.event.field "dag_id" with
    | some (.str dagId) =>
      let outcome := upsertNewCronSchedule env dagId
      { outcome with result := outcome.result.map some }
    | _ => ⟨[], [], .error (.python (.attributeError "dag_id"))⟩

def actOnDagCreatedEvent : Environment → Dict → Outcome (Option BeeflowEvent) :=
  actOnDagEvent dagCreatedEvent

def actOnDagUpdatedEvent : Environment → Dict → Outcome (Option BeeflowEvent) :=
  actOnDagEvent dagUpdatedEvent

/-- The first handler that returns an event. -/
def firstResult (env : Environment) (detail : Dict) :
    List (Environment → Dict → Outcome (Option BeeflowEvent)) → Outcome BeeflowEvent
  | [] => ⟨[], [], .ok ⟨dagScheduleUpdaterEmptyEvent, []⟩⟩
  | handler :: handlers =>
    let outcome := handler env detail
    match outcome.result with
    | .error e => { outcome with result := .error e }
    | .ok (some event) => { outcome with result := .ok event }
    | .ok none =>
      let rest := firstResult env detail handlers
      ⟨outcome.putRules ++ rest.putRules, outcome.putTargets ++ rest.putTargets, rest.result⟩

def actOnEvent (env : Environment) (detail : Dict) : Outcome BeeflowEvent :=
  firstResult env detail [actOnDagCreatedEvent, actOnDagUpdatedEvent]

/-- One DAG that runs every evening. -/
def evening : Environment where
  dagbag := [⟨"etl", .cron "0 20 * * *"⟩]
  isPaused := fun _ => some false
  targetArn := "arn:aws:sqs:us-east-2:123456789012:scheduler.fifo"
  messageGroupId := "scheduler"
  putRule := fun _ => true
  putTargets := fun _ => true

end Beeflow.DagSchedules
