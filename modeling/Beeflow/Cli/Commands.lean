import Mathlib.Data.List.TakeWhile
import Beeflow.Airflow.Tables
import Beeflow.Events.Parsing
import Beeflow.Lib.CommandLine
import Beeflow.Python.JsonText
import Beeflow.Scheduler.DagViews

/-!
# The command line behind the forwarder

The forwarder is a function that runs one command of Airflow's command line,
taken over into the repository. A command writes to the database and prints, or
it ends with a message and has written nothing.
-/

namespace Beeflow.Cli

open Airflow CommandLine Events Python

/-- `DagModel.is_paused`, of the DAGs that exist. -/
def unpaused (db : Database) (dagId : String) : Bool := (db.dagModel dagId).any (!·.isPaused)

/-- What the commands use of Airflow. A method that raises has written nothing. -/
structure ApiClient where
  triggerDag : (dagId : String) → (runId conf execDate : Option String) → Database →
    Except String (Database × String)
  deleteDag : (dagId : String) → Database → Except String (Database × String)
  createPool : (name : String) → (slots : Int) → (description : String) → Database →
    Except String Database
  /-- `airflow.utils.timezone.parse` -/
  parsedate : String → Bool
  /-- the tables that `AirflowConsole` prints -/
  listJobs : (dagId state limit : Option String) → Database → String
  listDags : (subdir output : Option String) → Database → String

/-- What Airflow's client does to the pausing of DAGs that have no sub-DAGs. -/
structure ApiClient.Lawful (api : ApiClient) : Prop where
  triggerDag : ∀ {dagId runId conf execDate db db' message},
    api.triggerDag dagId runId conf execDate db = .ok (db', message) →
      Cli.unpaused db' = Cli.unpaused db
  deleteDag : ∀ {dagId db db' message}, api.deleteDag dagId db = .ok (db', message) →
    Cli.unpaused db' = Function.update (Cli.unpaused db) dagId false
  createPool : ∀ {name slots description db db'},
    api.createPool name slots description db = .ok db' → Cli.unpaused db' = Cli.unpaused db

-- ---------------------------------------------------------------------------
-- The commands
-- ---------------------------------------------------------------------------

/-- What a command leaves in the database and prints, or the message it ends with. -/
abbrev Command := Namespace → Database → Except String (Database × String)

/-- `args.dest` -/
def word (args : Namespace) (dest : String) : Option String := (args.lookup dest).getD none

def notExists (dagId : String) : String := s!"DAG: {dagId} does not exist in 'dag' table"

variable (api : ApiClient)

def dagTrigger : Command := fun args =>
  api.triggerDag ((word args "dag_id").getD "") (word args "run_id") (word args "conf")
    (word args "exec_date")

/-- Without `--yes` it asks, and there is nobody to answer. -/
def dagDelete : Command := fun args db =>
  if (args.lookup "yes").isSome then api.deleteDag ((word args "dag_id").getD "") db
  else .error "EOF when reading a line"

def setIsPaused (isPaused : Bool) : Command := fun args db =>
  let dagId := (word args "dag_id").getD ""
  match db.dagModel dagId with
  | none => .error (notExists dagId)
  | some _ => .ok (db.updateDagModel dagId fun m => { m with isPaused := isPaused },
      "Dag: " ++ dagId ++ ", paused: " ++ if isPaused then "True" else "False")

def dagPause : Command := setIsPaused true

def dagUnpause : Command := setIsPaused false

def dagListDags : Command := fun args db =>
  .ok (db, api.listDags (word args "subdir") (word args "output") db)

/-- An empty id counts as none. -/
def dagListJobs : Command := fun args db =>
  let printed := api.listJobs (word args "dag_id") (word args "state") (word args "limit") db
  match word args "dag_id" with
  | none => .ok (db, printed)
  | some dagId =>
    if dagId != "" && (db.dagModel dagId).isNone then .error (notExists dagId)
    else .ok (db, printed)

def poolSet : Command := fun args db =>
  let pool := (word args "pool").getD ""
  match intOf ((word args "slots").getD "") with
  | none => .error "invalid int value"
  | some slots =>
    (api.createPool pool slots ((word args "description").getD "") db).map fun db =>
      (db, s!"Pool {pool} created")

-- ---------------------------------------------------------------------------
-- The parser
-- ---------------------------------------------------------------------------

def anyWord (_ : String) : Bool := true

def argDagId : Arg := .positional "dag_id" anyWord
def argDagIdOpt : Arg := .option ["-d", "--dag-id"] "dag_id" anyWord
def argSubdir : Arg := .option ["-S", "--subdir"] "subdir" anyWord
def argYes : Arg := .flag ["-y", "--yes"] "yes"
def argOutput : Arg :=
  .option ["-o", "--output"] "output" (["table", "json", "yaml", "plain"].contains ·)
def argVerbose : Arg := .flag ["-v", "--verbose"] "verbose"
def argState : Arg := .option ["--state"] "state" anyWord
def argLimit : Arg := .option ["--limit"] "limit" anyWord
def argRunId : Arg := .option ["-r", "--run-id"] "run_id" anyWord
def argConf : Arg := .option ["-c", "--conf"] "conf" anyWord
def argExecDate : Arg := .option ["-e", "--exec-date"] "exec_date" api.parsedate
def argPoolName : Arg := .positional "pool" anyWord
def argPoolSlots : Arg := .positional "slots" fun word => (intOf word).isSome
def argPoolDescription : Arg := .positional "description" anyWord

structure ActionCommand where
  name : String
  func : Command
  args : List Arg

/-- `DAGS_COMMANDS`, those that the experiments use. -/
def dagsCommands : List ActionCommand := [
  ⟨"list", dagListDags api, [argSubdir, argOutput, argVerbose]⟩,
  ⟨"list-jobs", dagListJobs api, [argDagIdOpt, argState, argLimit, argOutput, argVerbose]⟩,
  ⟨"pause", dagPause, [argDagId, argSubdir]⟩,
  ⟨"unpause", dagUnpause, [argDagId, argSubdir]⟩,
  ⟨"trigger", dagTrigger api, [argDagId, argSubdir, argRunId, argConf, argExecDate api]⟩,
  ⟨"delete", dagDelete api, [argDagId, argYes]⟩]

def poolsCommands : List ActionCommand := [
  ⟨"set", poolSet api, [argPoolName, argPoolSlots, argPoolDescription, argOutput, argVerbose]⟩]

def groups : List (String × List ActionCommand) :=
  [("dags", dagsCommands api), ("pools", poolsCommands api)]

def parseArgs : List String → Option (ActionCommand × Namespace)
  | group :: name :: words => do
    let commands ← (groups api).lookup group
    let command ← commands.find? (·.name = name)
    let args ← CommandLine.parse command.args words
    some (command, args)
  | _ => none

/-- `args.func(args)`; a parser that fails ends the program. -/
def run (words : List String) (db : Database) : Except String (Database × String) :=
  match parseArgs api words with
  | none => .error "command error, see help above."
  | some (command, args) => command.func args db

-- ---------------------------------------------------------------------------
-- The forwarder
-- ---------------------------------------------------------------------------

structure InvocationResponse where
  statusCode : Int
  functionError : Option String

/-- `handler` of the forwarder, on the event that the runtime has decoded. -/
def handler (event : Json) (db : Database) : Except String Database :=
  match event with
  | .obj members =>
    match apiToCliForwarderInput.parse members with
    | .ok e =>
      match e.event.field "args" with
      | some (.strs args) => (run api args db).map Prod.fst
      | _ => .error "args"
    | .error _ => .error "validation error for APIToCLIForwarderInput"
  | _ => .error "value is not a valid dict"

/-- A synchronous invocation: what the handler raises comes back as an error of the function. -/
def invoke (parseFloat : List Char → Json) (payload : String) (db : Database) :
    Database × InvocationResponse :=
  match loads parseFloat payload with
  | .ok event =>
    match handler api event db with
    | .ok db => (db, ⟨200, none⟩)
    | .error _ => (db, ⟨200, some "Unhandled"⟩)
  | .error _ => (db, ⟨400, none⟩)

-- ---------------------------------------------------------------------------
-- One command
-- ---------------------------------------------------------------------------

/-- An id that the command line takes for a word. -/
def IsWord (dagId : String) : Prop :=
  dagId.toList ≠ [] ∧ (∀ c ∈ dagId.toList, isSpace c = false) ∧ dagId.toList.head? ≠ some '-'

variable {api} {db db' : Database} {dagId : String}

theorem unpaused_updateDagModel {m : DagModel} (h : db.dagModel dagId = some m)
    (isPaused : Bool) :
    unpaused (db.updateDagModel dagId fun m => { m with isPaused := isPaused }) =
      Function.update (unpaused db) dagId !isPaused := by
  funext dagId'
  have hrow := @Scheduler.dagModel_update db dagId dagId'
    (fun m => { m with isPaused := isPaused }) fun _ => rfl
  rw [unpaused, hrow, Function.update_apply]
  split_ifs with heq
  · rw [heq, h]
    rfl
  · rfl

theorem handler_args (words : List String) :
    handler api (.obj [("args", .arr (words.map .str))]) db = (run api words db).map Prod.fst := by
  have hargs : (⟨"args", .strs⟩ : Field).validate [("args", .arr (words.map .str))] =
      .ok (.strs words) := by
    simp [Field.validate, FieldType.validate, strsValidator_map, Except.map]
  obtain ⟨e, he⟩ : ∃ e, apiToCliForwarderInput.parse [("args", .arr (words.map .str))] = .ok e := by
    refine EventClass.parse_ok_iff.mpr ⟨⟨.apiToCliForwarderInput, rfl⟩, fun f hf => ?_⟩
    rw [List.mem_singleton.mp hf]
    exact ⟨_, hargs⟩
  have hfield : e.event.field "args" = some (.strs words) :=
    EventClass.parse_field he (List.nodup_singleton _) (List.mem_singleton_self _) hargs
  rw [handler]
  simp only [he, hfield]

/-- The payload of the managers arrives as it was written. -/
theorem invoke_args (parseFloat : List Char → Json) (words : List String) :
    invoke api parseFloat (dumps (.obj [("args", .arr (words.map .str))])) db =
      match run api words db with
      | .ok (db, _) => (db, ⟨200, none⟩)
      | .error _ => (db, ⟨200, some "Unhandled"⟩) := by
  have hplain : (Json.obj [("args", .arr (words.map .str))]).Plain := by
    refine .obj (List.nodup_singleton _) fun m hm => ?_
    rw [List.mem_singleton.mp hm]
    refine .arr fun j hj => ?_
    obtain ⟨w, -, rfl⟩ := List.mem_map.mp hj
    exact .str w
  rw [invoke, loads_dumps hplain]
  dsimp only
  rw [handler_args]
  cases run api words db with
  | ok p => rfl
  | error message => rfl

theorem run_command (command : ActionCommand) {group : String} {commands : List ActionCommand}
    {args : Namespace} {words : List String} (hgroup : (groups api).lookup group = some commands)
    (hname : commands.find? (·.name = command.name) = some command)
    (hargs : CommandLine.parse command.args words = some args) :
    run api (group :: command.name :: words) db = command.func args db := by
  simp [run, parseArgs, hgroup, hname, hargs]

/-- The arguments of a command of one DAG. -/
theorem parse_dagId {args : List Arg} (hdashed : Dashed args)
    (hpositionals : args.filterMap Arg.positional? = [("dag_id", anyWord)]) (h : IsWord dagId) :
    CommandLine.parse args [dagId] = some [("dag_id", some dagId)] := by
  rw [CommandLine.parse, hpositionals, parseWords_positional (find?_named hdashed h.2.2)
    (isArgument_of_head h.2.2) rfl, parseWords]

theorem dashed_setIsPaused : Dashed [argDagId, argSubdir] := by
  intro word h
  simp only [argDagId, argSubdir, Arg.named, List.any_cons, List.any_nil, List.contains_cons,
    List.contains_nil, Bool.or_false, Bool.false_or, Bool.or_eq_true, beq_iff_eq] at h
  rcases h with rfl | rfl <;> rfl

theorem dashed_trigger :
    Dashed [argDagId, argSubdir, argRunId, argConf, argExecDate api] := by
  intro word h
  simp [argDagId, argSubdir, argRunId, argConf, argExecDate, Arg.named, or_assoc] at h
  rcases h with rfl | rfl | rfl | rfl | rfl | rfl | rfl | rfl <;> rfl

theorem run_pause (h : IsWord dagId) : run api ["dags", "pause", dagId] db =
    setIsPaused true [("dag_id", some dagId)] db :=
  run_command ⟨"pause", dagPause, [argDagId, argSubdir]⟩ rfl rfl
    (parse_dagId dashed_setIsPaused rfl h)

theorem run_unpause (h : IsWord dagId) : run api ["dags", "unpause", dagId] db =
    setIsPaused false [("dag_id", some dagId)] db :=
  run_command ⟨"unpause", dagUnpause, [argDagId, argSubdir]⟩ rfl rfl
    (parse_dagId dashed_setIsPaused rfl h)

theorem run_trigger (h : IsWord dagId) : run api ["dags", "trigger", dagId] db =
    api.triggerDag dagId none none none db :=
  run_command ⟨"trigger", dagTrigger api, [argDagId, argSubdir, argRunId, argConf, argExecDate api]⟩
    rfl rfl (parse_dagId dashed_trigger rfl h)

theorem run_delete (h : IsWord dagId) : run api ["dags", "delete", "-y", dagId] db =
    api.deleteDag dagId db := by
  have hdashed : Dashed [argDagId, argYes] := by
    intro word h
    simp [argDagId, argYes, Arg.named] at h
    rcases h with rfl | rfl <;> rfl
  have hargs : CommandLine.parse [argDagId, argYes] ["-y", dagId] =
      some [("dag_id", some dagId), ("yes", none)] := by
    rw [CommandLine.parse, parseWords_flag rfl]
    exact parseWords_positional (find?_named hdashed h.2.2) (isArgument_of_head h.2.2) rfl
  exact run_command ⟨"delete", dagDelete api, [argDagId, argYes]⟩ rfl rfl hargs

theorem run_listJobs (h : IsWord dagId) : run api ["dags", "list-jobs", "-d", dagId] db =
    dagListJobs api [("dag_id", some dagId)] db := by
  have hdashed : Dashed [argDagIdOpt, argState, argLimit, argOutput, argVerbose] := by
    intro word h
    simp [argDagIdOpt, argState, argLimit, argOutput, argVerbose, Arg.named, or_assoc] at h
    rcases h with rfl | rfl | rfl | rfl | rfl | rfl | rfl | rfl <;> rfl
  have hargs : CommandLine.parse [argDagIdOpt, argState, argLimit, argOutput, argVerbose]
      ["-d", dagId] = some [("dag_id", some dagId)] := by
    rw [CommandLine.parse, parseWords_option hdashed rfl h.2.2 rfl]
    rfl
  exact run_command ⟨"list-jobs", dagListJobs api, [argDagIdOpt, argState, argLimit, argOutput,
    argVerbose]⟩ rfl rfl hargs

/-- A number is an argument, with its sign. -/
theorem isArgument_toString (n : Int) : isArgument (toString n) = true := by
  cases n with
  | ofNat m =>
    have htext : (toString (Int.ofNat m)).toList = Nat.toDigits 10 m := Nat.toList_repr
    obtain ⟨c, cs, hcs, hc⟩ := toDigits_isDigit m
    refine isArgument_of_head fun hhead => ?_
    rw [htext, hcs] at hhead
    exact ne_of_isDigit hc rfl (Option.some.inj hhead)
  | negSucc m =>
    have htext : (toString (Int.negSucc m)).toList = '-' :: Nat.toDigits 10 (m + 1) := by
      simp [Int.repr]
    have hdigits : (Nat.toDigits 10 (m + 1)).dropWhile Char.isDigit = [] :=
      List.dropWhile_eq_nil_iff.mpr fun c hc =>
        Nat.isDigit_of_mem_toDigits (by decide) (by decide) hc
    rw [isArgument, htext]
    simp [isNegativeNumber, hdigits, Nat.toDigits_ne_nil]

theorem run_listDags : run api ["dags", "list", "-o", "plain"] db =
    .ok (db, api.listDags none (some "plain") db) := by
  have hargs : CommandLine.parse [argSubdir, argOutput, argVerbose] ["-o", "plain"] =
      some [("output", some "plain")] := by decide
  exact run_command ⟨"list", dagListDags api, [argSubdir, argOutput, argVerbose]⟩ rfl rfl hargs

/-- Listing the jobs only reads. -/
theorem dagListJobs_db {args : Namespace} {out : String}
    (h : dagListJobs api args db = .ok (db', out)) : db' = db := by
  unfold dagListJobs at h
  split at h
  · cases h
    rfl
  · split_ifs at h
    cases h
    rfl

theorem run_poolSet (slots : Int) :
    run api ["pools", "set", "default_pool", toString slots, "default"] db =
      (api.createPool "default_pool" slots "default" db).map fun db =>
        (db, "Pool default_pool created") := by
  have hslots := intOf_toString slots
  have hnamed : [argPoolName, argPoolSlots, argPoolDescription, argOutput, argVerbose].find?
      (·.named (toString slots)) = none := by
    refine List.find?_eq_none.mpr fun arg harg hnamed => ?_
    have hword : toString slots ∈ ["-o", "--output", "-v", "--verbose"] := by
      simp only [List.mem_cons, List.not_mem_nil, or_false] at harg
      rcases harg with rfl | rfl | rfl | rfl | rfl
      · cases hnamed
      · cases hnamed
      · cases hnamed
      · exact List.mem_append_left ["-v", "--verbose"] (List.contains_iff_mem.mp hnamed)
      · exact List.mem_append_right ["-o", "--output"] (List.contains_iff_mem.mp hnamed)
    have hnumbers : ∀ word ∈ ["-o", "--output", "-v", "--verbose"], intOf word = none := by decide
    cases hslots.symm.trans (hnumbers _ hword)
  have hargs : CommandLine.parse [argPoolName, argPoolSlots, argPoolDescription, argOutput,
      argVerbose] ["default_pool", toString slots, "default"] =
      some [("description", some "default"), ("slots", some (toString slots)),
        ("pool", some "default_pool")] := by
    have hvalid : (intOf (toString slots)).isSome = true := by rw [hslots]; rfl
    refine (parseWords_positional rfl rfl rfl).trans ?_
    refine (parseWords_positional hnamed (isArgument_toString slots) hvalid).trans ?_
    exact parseWords_positional rfl rfl rfl
  refine (run_command ⟨"set", poolSet api, [argPoolName, argPoolSlots, argPoolDescription,
    argOutput, argVerbose]⟩ rfl rfl hargs).trans ?_
  have hword : word [("description", some "default"), ("slots", some (toString slots)),
      ("pool", some "default_pool")] "slots" = some (toString slots) := rfl
  dsimp only
  rw [poolSet, hword, Option.getD_some, hslots]
  rfl

-- ---------------------------------------------------------------------------
-- A client
-- ---------------------------------------------------------------------------

/-- Airflow's client for DAGs without sub-DAGs, with one date and the tables left empty. -/
def localClient : ApiClient where
  triggerDag dagId runId _ _ db :=
    match db.getDag dagId with
    | none => .error s!"Dag id {dagId} not found in DagModel"
    | some _ =>
      let run := Scheduler.manualRun dagId (runId.getD "manual__1970-01-01T00:00:00+00:00") 0 0
      .ok ({ db with dagRuns := db.dagRuns ++ [run] }, s!"Created <DagRun {dagId}>")
  deleteDag dagId db :=
    match db.dagModel dagId with
    | none => .error s!"Dag id {dagId} not found in DagModel"
    | some _ => .ok ({ db with
        dagModels := db.dagModels.filter (·.dagId ≠ dagId)
        dagRuns := db.dagRuns.filter (·.dagId ≠ dagId) }, "Removed 1 record(s)")
  createPool name slots _ db :=
    .ok { db with pools := (name, slots) :: db.pools.filter (·.1 ≠ name) }
  parsedate _ := true
  listJobs _ _ _ _ := ""
  listDags _ _ _ := ""

theorem localClient_lawful : localClient.Lawful where
  triggerDag {dagId runId conf execDate db db' message} h := by
    unfold localClient at h
    dsimp only at h
    split at h
    · cases h
    · cases h
      rfl
  deleteDag {dagId db db' message} h := by
    unfold localClient at h
    dsimp only at h
    split at h
    · cases h
    · cases h
      funext dagId'
      rw [Function.update_apply, unpaused, Database.dagModel, List.find?_filter]
      split_ifs with heq
      · rw [List.find?_eq_none.mpr fun m _ => by simp [heq]]
        rfl
      · have hpred : (fun m : DagModel => decide (decide (m.dagId ≠ dagId) = true ∧
            decide (m.dagId = dagId') = true)) = fun m => decide (m.dagId = dagId') := by
          funext m
          by_cases hm : m.dagId = dagId' <;> simp [hm, heq]
        rw [hpred]
        rfl
  createPool {name slots description db db'} h := by
    cases h
    rfl

end Beeflow.Cli
