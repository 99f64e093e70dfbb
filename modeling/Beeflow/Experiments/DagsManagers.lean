import Beeflow.Cli.Commands
import Beeflow.Experiments.Controller
import Beeflow.Lib.Fields
import Beeflow.Lib.Remote

/-!
# The managers of the DAGs

A manager runs commands of Airflow: through the forwarder, which answers whether
the command has failed, or through the command line of a managed environment,
where a failure is recognised in what was printed. Between the requests others
write to the database; they create and delete DAGs that are paused.
-/

namespace Beeflow.Experiments

open Airflow Calls Cli Python Remote

inductive ManagerError
  /-- the text, and the response that is printed behind it -/
  | exception (message : String) (response : Option InvocationResponse)
  | valueError (message : String)
  /-- of the client of the service -/
  | client

abbrev Method := EStateM ManagerError (World Database)

/-- The loop of both managers; whether the DAG exists is asked once more behind it. -/
def waitUntil (dagExists : Method Bool) (timeoutSeconds : Int) (error : ManagerError) :
    Method Unit := do
  let tEnd := (← time) + timeoutSeconds
  pollUntil tEnd dagExists (← get).rounds.length
  if !(← dagExists) then throw error

def notDeployed (dagId : String) (timeoutSeconds : Int) : ManagerError :=
  .exception s!"DAG {dagId} does not exist and {timeoutSeconds} elapsed" none

-- ---------------------------------------------------------------------------
-- Through the forwarder
-- ---------------------------------------------------------------------------

namespace BeeflowDagsManager

variable (api : ApiClient) (parseFloat : List Char → Json)

def invokeCli (args : List String) : Method InvocationResponse :=
  request .client (Cli.invoke api parseFloat (dumps (.obj [("args", .arr (args.map .str))])))

def invocationOk (response : InvocationResponse) : Bool :=
  response.functionError.isNone && response.statusCode == 200

/-- The methods of one command. -/
def command (args : List String) (error : InvocationResponse → ManagerError) : Method Unit := do
  let response ← invokeCli api parseFloat args
  if !invocationOk response then throw (error response)

def scaleDefaultPool (poolSize : Int) : Method Unit :=
  command api parseFloat ["pools", "set", "default_pool", toString poolSize, "default"] fun _ =>
    .exception s!"Cannot scale default_pool to {poolSize}" none

def dagExists (dagId : String) : Method Bool := do
  let response ← invokeCli api parseFloat ["dags", "list-jobs", "-d", dagId]
  return invocationOk response

def waitUntilDagExists (dagId : String) (timeoutSeconds : Int) : Method Unit :=
  waitUntil (dagExists api parseFloat dagId) timeoutSeconds (notDeployed dagId timeoutSeconds)

def startDag (dagId : String) : Method Unit :=
  command api parseFloat ["dags", "unpause", dagId] fun _ =>
    .exception s!"Cannot mark {dagId} as active" none

def deleteDag (dagId : String) : Method Unit :=
  command api parseFloat ["dags", "delete", "-y", dagId] fun response =>
    .exception s!"Cannot delete {dagId}: " response

/-- It raises the text of `startDag`. -/
def stopDag (dagId : String) : Method Unit :=
  command api parseFloat ["dags", "pause", dagId] fun _ =>
    .exception s!"Cannot mark {dagId} as active" none

def triggerDag (dagId : String) : Method Unit :=
  command api parseFloat ["dags", "trigger", dagId] fun response =>
    .exception "Cannot export experiment results: " response

end BeeflowDagsManager

-- ---------------------------------------------------------------------------
-- Through the command line of a managed environment
-- ---------------------------------------------------------------------------

structure MWAACLIResponse where
  stdout : String
  stderr : String
  statusCode : Int

/-- What the web server answers, decoded. -/
structure HttpResponse where
  statusCode : Int
  stdout : Option String
  stderr : Option String

/-- An environment runs the commands of Airflow and answers with what they have printed, or with
the message they have ended with. -/
structure MwaaEnvironment where
  api : ApiClient
  respond : Except String String → HttpResponse

/-- `sub in text` -/
def contains (text sub : String) : Bool := decide (sub.toList <:+: text.toList)

/-- An answer that does not say so by its status has the message a command ends with in its
`stderr`. A DAG that exists is not deleted only with an exception. -/
structure MwaaEnvironment.Lawful (env : MwaaEnvironment) : Prop where
  api : env.api.Lawful
  respond : ∀ message, (env.respond (.error message)).statusCode = 200 →
    ∃ stderr, (env.respond (.error message)).stderr = some stderr ∧ contains stderr message
  deleteDag : ∀ {dagId db message}, env.api.deleteDag dagId db = .error message →
    db.dagModel dagId = none ∨ contains message "Exception"

/-- The words of a command line without quotes. -/
def splitWords (action : String) : List String :=
  (Fields.fields isSpace action.toList).map String.ofList

namespace MWAADagsManager

variable (env : MwaaEnvironment)

def answer (action : String) (db : Database) : Database × HttpResponse :=
  match run env.api (splitWords action) db with
  | .ok (db, printed) => (db, env.respond (.ok printed))
  | .error message => (db, env.respond (.error message))

def readAnswer (response : HttpResponse) : MWAACLIResponse :=
  if response.statusCode != 200 then ⟨"", "", response.statusCode⟩
  else ⟨response.stdout.getD "", response.stderr.getD "", response.statusCode⟩

/-- `__execute_cli`; the token and the answer are one round. -/
def executeCli (action : String) : Method MWAACLIResponse := do
  return readAnswer (← request .client (answer env action))

def dagExistsIn (dagId : String) (response : MWAACLIResponse) : Bool :=
  !contains response.stderr (notExists dagId) && !contains response.stdout (notExists dagId)

def isResponseOk (response : MWAACLIResponse) : Bool :=
  response.statusCode == 200 && !contains response.stderr "Exception" &&
    !contains response.stderr "airflow.exceptions.AirflowException"

def outputs (response : MWAACLIResponse) : String :=
  s!"stdout: {response.stdout}, stderr: {response.stderr}"

/-- The methods of one command about a DAG. -/
def command (action dagId : String) (error : String) : Method Unit := do
  let response ← executeCli env action
  if !isResponseOk response || !dagExistsIn dagId response then
    throw (.valueError s!"{error} {dagId}, {outputs response}")

def dagExists (dagId : String) : Method Bool := do
  let response ← executeCli env ("dags pause " ++ dagId)
  return isResponseOk response && dagExistsIn dagId response

def waitUntilDagExists (dagId : String) (timeoutSeconds : Int) : Method Unit :=
  waitUntil (dagExists env dagId) timeoutSeconds (notDeployed dagId timeoutSeconds)

def scaleDefaultPool (poolSize : Int) : Method Unit := do
  let response ← executeCli env ("pools set default_pool " ++ toString poolSize ++ " default")
  if !isResponseOk response then
    throw (.valueError s!"Can't set default_pool size to {poolSize}, {outputs response}")

def assertDagExists (dagId : String) : Method Unit := do
  let response ← executeCli env "dags list -o plain"
  if !isResponseOk response || !contains response.stdout dagId then
    throw (.valueError s!"Dag {dagId} does not exist")

def isValueError : ManagerError → Bool
  | .valueError _ => true
  | .exception _ _ | .client => false

/-- Tried again for five minutes. -/
def startDag (dagId : String) : Method Unit := do
  let start ← time
  let attempt := do
    assertDagExists env dagId
    command env ("dags unpause " ++ dagId) dagId "Can't start dag"
  onException isValueError start 300 attempt (← get).rounds.length

def stopDag (dagId : String) : Method Unit :=
  command env ("dags pause " ++ dagId) dagId "Can't stop dag"

def deleteDag (dagId : String) : Method Unit :=
  command env ("dags delete -y " ++ dagId) dagId "Can't delete dag"

def triggerDag (dagId : String) : Method Unit :=
  command env ("dags trigger " ++ dagId) dagId "Can't trigger dag"

end MWAADagsManager

-- ---------------------------------------------------------------------------
-- A controller's manager
-- ---------------------------------------------------------------------------

inductive DagsManager
  | beeflow (api : ApiClient) (parseFloat : List Char → Json)
  | mwaa (env : MwaaEnvironment)

namespace DagsManager

def type : DagsManager → ControllerType
  | beeflow _ _ => .beeflow
  | mwaa _ => .mwaa

def Lawful : DagsManager → Prop
  | beeflow api _ => api.Lawful
  | mwaa env => env.Lawful

/-- The bucket manager sends its requests elsewhere. -/
def method : DagsManager → Call → Method Unit
  | beeflow api parseFloat, .scaleDefaultPool poolSize =>
    BeeflowDagsManager.scaleDefaultPool api parseFloat poolSize
  | beeflow api parseFloat, .waitUntilDagExists dagId timeoutSeconds =>
    BeeflowDagsManager.waitUntilDagExists api parseFloat dagId timeoutSeconds
  | beeflow api parseFloat, .startDag dagId => BeeflowDagsManager.startDag api parseFloat dagId
  | beeflow api parseFloat, .stopDag dagId => BeeflowDagsManager.stopDag api parseFloat dagId
  | beeflow api parseFloat, .deleteDag dagId => BeeflowDagsManager.deleteDag api parseFloat dagId
  | beeflow api parseFloat, .triggerDag dagId => BeeflowDagsManager.triggerDag api parseFloat dagId
  | mwaa env, .scaleDefaultPool poolSize => MWAADagsManager.scaleDefaultPool env poolSize
  | mwaa env, .waitUntilDagExists dagId timeoutSeconds =>
    MWAADagsManager.waitUntilDagExists env dagId timeoutSeconds
  | mwaa env, .startDag dagId => MWAADagsManager.startDag env dagId
  | mwaa env, .stopDag dagId => MWAADagsManager.stopDag env dagId
  | mwaa env, .deleteDag dagId => MWAADagsManager.deleteDag env dagId
  | mwaa env, .triggerDag dagId => MWAADagsManager.triggerDag env dagId
  | _, .clearDags | _, .publishDags _ => request .client fun db => (db, ())

end DagsManager

/-- The DAG that a call is about. -/
def Call.dagId? : Call → Option String
  | .waitUntilDagExists dagId _ | .startDag dagId | .stopDag dagId | .deleteDag dagId
  | .triggerDag dagId => some dagId
  | .scaleDefaultPool _ | .clearDags | .publishDags _ => none

-- ---------------------------------------------------------------------------
-- What the commands do to the pausing
-- ---------------------------------------------------------------------------

section Commands

variable {api : ApiClient} {db db' : Database} {dagId out message : String}

/-- A command that sets whether a DAG is paused fails only where there is no such DAG. -/
theorem setIsPaused_cases (isPaused : Bool) (dagId : String) (db : Database) :
    setIsPaused isPaused [("dag_id", some dagId)] db = .error (notExists dagId) ∨
      ∃ db' out, setIsPaused isPaused [("dag_id", some dagId)] db = .ok (db', out) ∧
        unpaused db' = Function.update (unpaused db) dagId !isPaused := by
  have hword : (word [("dag_id", some dagId)] "dag_id").getD "" = dagId := rfl
  unfold setIsPaused
  rw [hword]
  dsimp only
  cases h : db.dagModel dagId with
  | none => exact .inl rfl
  | some m => exact .inr ⟨_, _, rfl, unpaused_updateDagModel h isPaused⟩

/-- The command that pauses a DAG or unpauses it. -/
theorem run_setIsPaused {words : List String} {isPaused : Bool}
    (hrun : ∀ db, run api words db = setIsPaused isPaused [("dag_id", some dagId)] db) :
    (∀ {db db' out}, run api words db = .ok (db', out) →
      unpaused db' = Function.update (unpaused db) dagId !isPaused) ∧
    ∀ {db message}, run api words db = .error message → message = notExists dagId := by
  constructor
  · intro db db' out h
    rw [hrun] at h
    rcases setIsPaused_cases isPaused dagId db with hcase | ⟨db'', out', hcase, heffect⟩
    · cases hcase.symm.trans h
    · cases hcase.symm.trans h
      exact heffect
  · intro db message h
    rw [hrun] at h
    rcases setIsPaused_cases isPaused dagId db with hcase | ⟨db'', out', hcase, -⟩
    · exact (Except.error.inj (hcase.symm.trans h)).symm
    · cases hcase.symm.trans h

theorem run_poolSet_unpaused (hapi : api.Lawful) {poolSize : Int}
    (h : run api ["pools", "set", "default_pool", toString poolSize, "default"] db =
      .ok (db', out)) : unpaused db' = unpaused db := by
  rw [run_poolSet] at h
  cases hpool : api.createPool "default_pool" poolSize "default" db with
  | error message =>
    rw [hpool] at h
    cases h
  | ok db'' =>
    rw [hpool] at h
    cases h
    exact hapi.createPool hpool

theorem effect_idem (m : ControllerType) (call : Call) (unpaused : String → Bool) :
    call.effect m (call.effect m unpaused) = call.effect m unpaused := by
  cases call with
  | waitUntilDagExists dagId timeoutSeconds =>
    unfold Call.effect
    split_ifs
    · exact Function.update_idem _ _ _
    · rfl
  | startDag dagId => exact Function.update_idem _ _ _
  | stopDag dagId => exact Function.update_idem _ _ _
  | deleteDag dagId => exact Function.update_idem _ _ _
  | _ => rfl

theorem does_waitUntil {f : (String → Bool) → String → Bool} (hf : ∀ v, f (f v) = f v)
    {dagExists : Method Bool} (h : DoesRemotely unpaused f (· = true) dagExists)
    (timeoutSeconds : Int) (error : ManagerError) :
    DoesRemotely unpaused f (fun _ => True) (waitUntil dagExists timeoutSeconds error) := by
  refine does_time.bind hf fun now => does_get.bind hf fun w => ?_
  refine (does_pollUntil hf h _).bind hf fun _ => h.bind hf fun exists' => ?_
  split_ifs with hexists
  · exact does_throw
  · exact does_pure fun h => absurd (by simpa using hexists) h.2

end Commands

-- ---------------------------------------------------------------------------
-- The manager of the forwarder
-- ---------------------------------------------------------------------------

namespace BeeflowDagsManager

variable {api : ApiClient} {parseFloat : List Char → Json} {args : List String}
  {f : (String → Bool) → String → Bool} {dagId : String}

theorem does_invokeCli (hf : ∀ v, f (f v) = f v)
    (hrun : ∀ {db db' out}, run api args db = .ok (db', out) → unpaused db' = f (unpaused db)) :
    DoesRemotely unpaused f (fun response => invocationOk response = true)
      (invokeCli api parseFloat args) := by
  refine does_request _ hf (fun db => ?_) (fun db hok => ?_)
  · rw [invoke_args]
    cases h : run api args db with
    | ok p => exact .inr (hrun h)
    | error message => exact .inl rfl
  · rw [invoke_args] at hok ⊢
    cases h : run api args db with
    | ok p => exact hrun h
    | error message =>
      rw [h] at hok
      cases hok

theorem does_command (hf : ∀ v, f (f v) = f v)
    (hrun : ∀ {db db' out}, run api args db = .ok (db', out) → unpaused db' = f (unpaused db))
    (error : InvocationResponse → ManagerError) :
    DoesRemotely unpaused f (fun _ => True) (command api parseFloat args error) := by
  refine (does_invokeCli hf hrun).bind hf fun response => ?_
  split_ifs with hok
  · exact does_throw
  · exact does_pure fun h => absurd (by simpa using hok) h.2

/-- Each method has its effect when it returns. -/
theorem does_method (hapi : api.Lawful) (parseFloat : List Char → Json) (call : Call)
    (hword : ∀ dagId ∈ call.dagId?, IsWord dagId) :
    DoesRemotely unpaused (call.effect .beeflow) (fun _ => True)
      ((DagsManager.beeflow api parseFloat).method call) := by
  have hid : ∀ v : String → Bool, id (id v) = id v := fun _ => rfl
  cases call with
  | scaleDefaultPool poolSize =>
    exact does_command hid (fun h => run_poolSet_unpaused hapi h) _
  | waitUntilDagExists dagId timeoutSeconds =>
    refine does_waitUntil (effect_idem .beeflow _) ?_ _ _
    refine (does_invokeCli hid fun {db db' out} h => ?_).bind hid fun response => ?_
    · rw [run_listJobs (hword dagId rfl)] at h
      rw [dagListJobs_db h]
      rfl
    · exact does_pure fun _ _ => rfl
  | startDag dagId =>
    obtain ⟨hrun, -⟩ := run_setIsPaused fun db =>
      (run_unpause (hword dagId rfl) : run api ["dags", "unpause", dagId] db = _)
    exact does_command (effect_idem .beeflow (.startDag dagId)) hrun _
  | stopDag dagId =>
    obtain ⟨hrun, -⟩ := run_setIsPaused fun db =>
      (run_pause (hword dagId rfl) : run api ["dags", "pause", dagId] db = _)
    exact does_command (effect_idem .beeflow (.stopDag dagId)) hrun _
  | deleteDag dagId =>
    refine does_command (effect_idem .beeflow (.deleteDag dagId)) (fun {db db' out} h => ?_) _
    rw [run_delete (hword dagId rfl)] at h
    exact hapi.deleteDag h
  | triggerDag dagId =>
    refine does_command hid (fun {db db' out} h => ?_) _
    rw [run_trigger (hword dagId rfl)] at h
    exact hapi.triggerDag h
  | clearDags => exact does_request _ hid (fun _ => .inl rfl) fun _ _ => rfl
  | publishDags _ => exact does_request _ hid (fun _ => .inl rfl) fun _ _ => rfl

end BeeflowDagsManager

-- ---------------------------------------------------------------------------
-- The manager of the managed environment
-- ---------------------------------------------------------------------------

theorem splitWords_append {action word : String} (hne : word.toList ≠ [])
    (hword : ∀ c ∈ word.toList, isSpace c = false) :
    splitWords (action ++ " " ++ word) = splitWords action ++ [word] := by
  have htext : (action ++ " " ++ word).toList = action.toList ++ ' ' :: word.toList := by simp
  rw [splitWords, htext, Fields.fields_append_cons _ _ rfl, Fields.fields_eq_singleton hne hword,
    List.map_append, List.map_singleton, String.ofList_toList]
  rfl

theorem splitWords_poolSet (poolSize : Int) :
    splitWords ("pools set default_pool " ++ toString poolSize ++ " default") =
      ["pools", "set", "default_pool", toString poolSize, "default"] := by
  have htext : "pools set default_pool " ++ toString poolSize ++ " default" =
      "pools set default_pool" ++ " " ++ toString poolSize ++ " " ++ "default" :=
    (@String.append_assoc ("pools set default_pool " ++ toString poolSize) " " "default").symm
  obtain ⟨hne, hword⟩ := toString_word poolSize
  rw [htext, splitWords_append (by decide) (isSpace_of_all rfl), splitWords_append hne hword]
  rfl

theorem contains_trans {text sub sub' : String} (h : contains text sub = true)
    (h' : contains sub sub' = true) : contains text sub' = true :=
  decide_eq_true ((of_decide_eq_true h').trans (of_decide_eq_true h))

namespace MWAADagsManager

variable {env : MwaaEnvironment} {action dagId : String} {words : List String}
  {f : (String → Bool) → String → Bool}

/-- The checks let no answer pass that a command has ended with. -/
theorem not_accepted (henv : env.Lawful) {message : String}
    (h : message = notExists dagId ∨ contains message "Exception" = true) :
    ¬(isResponseOk (readAnswer (env.respond (.error message))) = true ∧
      dagExistsIn dagId (readAnswer (env.respond (.error message))) = true) := by
  rintro ⟨hok, hexists⟩
  simp only [isResponseOk, Bool.and_eq_true, beq_iff_eq, Bool.not_eq_true'] at hok
  obtain ⟨⟨hstatus, hexception⟩, -⟩ := hok
  have hread : (readAnswer (env.respond (.error message))).statusCode =
      (env.respond (.error message)).statusCode := by
    unfold readAnswer
    split_ifs <;> rfl
  obtain ⟨stderr, hstderr, hmessage⟩ := henv.respond message (hread ▸ hstatus)
  have hanswer : (readAnswer (env.respond (.error message))).stderr = stderr := by
    rw [readAnswer, if_neg (by simp [← hread, hstatus])]
    simp [hstderr]
  rw [hanswer] at hexception
  rcases h with rfl | h
  · simp [dagExistsIn, hanswer, hmessage] at hexists
  · rw [contains_trans hmessage h] at hexception
    cases hexception

/-- A command whose failure shows has had its effect when its answer is accepted. -/
theorem does_executeCli (henv : env.Lawful) (hwords : splitWords action = words)
    (hf : ∀ v, f (f v) = f v)
    (hrun : ∀ {db db' out}, run env.api words db = .ok (db', out) →
      unpaused db' = f (unpaused db))
    (herror : ∀ {db message}, run env.api words db = .error message →
      unpaused db = f (unpaused db) ∨ message = notExists dagId ∨
        contains message "Exception" = true) :
    DoesRemotely unpaused f
      (fun response => isResponseOk response = true ∧ dagExistsIn dagId response = true)
      (executeCli env action) := by
  have hanswer : DoesRemotely unpaused f
      (fun response => isResponseOk (readAnswer response) = true ∧
        dagExistsIn dagId (readAnswer response) = true)
      (request ManagerError.client (answer env action)) := by
    refine does_request _ hf (fun db => ?_) (fun db haccepted => ?_)
    · rw [answer, hwords]
      cases h : run env.api words db with
      | ok p => exact .inr (hrun h)
      | error message => exact .inl rfl
    · rw [answer, hwords] at haccepted ⊢
      cases h : run env.api words db with
      | ok p => exact hrun h
      | error message =>
        rw [h] at haccepted
        rcases herror h with hnone | hmessage
        · exact hnone
        · exact absurd haccepted (not_accepted henv hmessage)
  refine hanswer.bind hf fun response => does_pure ?_
  rintro ⟨haccepted, hrefused⟩
  exact absurd haccepted hrefused

theorem does_command (henv : env.Lawful) (hwords : splitWords action = words)
    (hf : ∀ v, f (f v) = f v)
    (hrun : ∀ {db db' out}, run env.api words db = .ok (db', out) →
      unpaused db' = f (unpaused db))
    (herror : ∀ {db message}, run env.api words db = .error message →
      unpaused db = f (unpaused db) ∨ message = notExists dagId ∨
        contains message "Exception" = true) (error : String) :
    DoesRemotely unpaused f (fun _ => True) (command env action dagId error) := by
  refine (does_executeCli henv hwords hf hrun herror).bind hf fun response => ?_
  split_ifs with hrefused
  · exact does_throw
  · exact does_pure fun h => absurd (by simpa using hrefused) h.2

/-- The words of a command about a DAG. -/
theorem splitWords_dag (action : String) {words : List String} (haction : splitWords action = words)
    (h : IsWord dagId) : splitWords (action ++ " " ++ dagId) = words ++ [dagId] :=
  haction ▸ splitWords_append h.1 h.2.1

/-- A command that leaves the pausing alone. -/
theorem does_id (henv : env.Lawful) (hwords : splitWords action = words)
    (hrun : ∀ {db db' out}, run env.api words db = .ok (db', out) → unpaused db' = unpaused db)
    {check : MWAACLIResponse → Bool} {error : MWAACLIResponse → ManagerError} :
    DoesRemotely unpaused id (fun _ => True) (do
      let response ← executeCli env action
      if check response then throw (error response)) := by
  have hid : ∀ v : String → Bool, id (id v) = id v := fun _ => rfl
  have hanswer : DoesRemotely unpaused id
      (fun response => isResponseOk response = true ∧ dagExistsIn "" response = true)
      (executeCli env action) := does_executeCli henv hwords hid hrun fun _ => .inl rfl
  refine hanswer.bind hid fun response => ?_
  split_ifs
  · exact does_throw
  · exact does_pure fun _ _ => rfl

theorem does_assertDagExists (henv : env.Lawful) (dagId : String) :
    DoesRemotely unpaused id (fun _ => True) (assertDagExists env dagId) := by
  have hwords : splitWords "dags list -o plain" = ["dags", "list", "-o", "plain"] := rfl
  refine does_id henv hwords fun h => ?_
  rw [run_listDags] at h
  cases h
  rfl

theorem does_pause (henv : env.Lawful) (h : IsWord dagId) :
    DoesRemotely unpaused (Function.update · dagId false)
      (fun response => isResponseOk response = true ∧ dagExistsIn dagId response = true)
      (executeCli env ("dags pause " ++ dagId)) := by
  obtain ⟨hrun, herror⟩ := run_setIsPaused fun db =>
    (run_pause h : run env.api ["dags", "pause", dagId] db = _)
  exact does_executeCli henv (splitWords_dag "dags pause" rfl h)
    (fun v => Function.update_idem _ _ v) hrun fun h => .inr (.inl (herror h))

theorem does_method (henv : env.Lawful) (call : Call)
    (hword : ∀ dagId ∈ call.dagId?, IsWord dagId) :
    DoesRemotely unpaused (call.effect .mwaa) (fun _ => True)
      ((DagsManager.mwaa env).method call) := by
  have hid : ∀ v : String → Bool, id (id v) = id v := fun _ => rfl
  have hf := effect_idem .mwaa call
  cases call with
  | scaleDefaultPool poolSize =>
    exact does_id henv (splitWords_poolSet poolSize) fun h => run_poolSet_unpaused henv.api h
  | waitUntilDagExists dagId timeoutSeconds =>
    refine does_waitUntil (f := (Function.update · dagId false)) hf ?_ _ _
    refine (does_pause henv (hword dagId rfl)).bind hf fun response => does_pure fun h => ?_
    exact absurd (by simpa using h.1) h.2
  | startDag dagId =>
    obtain ⟨hrun, herror⟩ := run_setIsPaused fun db =>
      (run_unpause (hword dagId rfl) : run env.api ["dags", "unpause", dagId] db = _)
    have hunpause := does_command henv (splitWords_dag "dags unpause" rfl (hword dagId rfl)) hf hrun
      (fun h => .inr (.inl (herror h))) "Can't start dag"
    refine does_time.bind hf fun start => does_get.bind hf fun w => ?_
    refine (does_onException hf ?_ _).mono fun _ _ => trivial
    exact (does_assertDagExists henv dagId).of_id.bind hf fun _ => hunpause.mono fun _ _ => trivial
  | stopDag dagId =>
    refine (does_pause henv (hword dagId rfl)).bind hf fun response => ?_
    split_ifs with hrefused
    · exact does_throw
    · exact does_pure fun h => absurd (by simpa using hrefused) h.2
  | deleteDag dagId =>
    have hwords : splitWords ("dags delete -y " ++ dagId) = ["dags", "delete", "-y", dagId] :=
      splitWords_dag "dags delete -y" rfl (hword dagId rfl)
    refine does_command henv hwords hf ?_ ?_ _
    · intro db db' out h
      rw [run_delete (hword dagId rfl)] at h
      exact henv.api.deleteDag h
    · intro db message h
      rw [run_delete (hword dagId rfl)] at h
      rcases henv.deleteDag h with hnone | hexception
      · have hpaused : unpaused db dagId = false := by rw [unpaused, hnone]; rfl
        exact .inl (Function.update_eq_self_iff.mpr hpaused.symm).symm
      · exact .inr (.inr hexception)
  | triggerDag dagId =>
    have hwords : splitWords ("dags trigger " ++ dagId) = ["dags", "trigger", dagId] :=
      splitWords_dag "dags trigger" rfl (hword dagId rfl)
    refine does_command henv hwords hf ?_ ?_ _
    · intro db db' out h
      rw [run_trigger (hword dagId rfl)] at h
      exact henv.api.triggerDag h
    · exact fun _ => .inl rfl
  | clearDags => exact does_request _ hid (fun _ => .inl rfl) fun _ _ => rfl
  | publishDags _ => exact does_request _ hid (fun _ => .inl rfl) fun _ _ => rfl

end MWAADagsManager

end Beeflow.Experiments
