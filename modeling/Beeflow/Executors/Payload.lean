import Beeflow.Events.Parsing
import Beeflow.Executors.Event
import Beeflow.Python.JsonText

/-!
# What the worker and the catcher are handed

Both executors write the queued event into the input of a Step Functions
execution. The worker is handed what a path picks from that input, and the
catcher the whole input with the error added. `none` stands for an exception or
an error of the state machine.
-/

namespace Beeflow.Executors

open Events Python

/-- The model that `parse` builds, with the type that the event carries. -/
def TaskInstanceQueued.parsed (event : TaskInstanceQueued) (t : BeeflowEventType) : ParsedEvent :=
  ⟨t, ⟨taskInstanceQueued, [
    ("dag_id", .str event.dagId),
    ("run_id", .str event.runId),
    ("task_id", .str event.taskId),
    ("map_index", .int event.mapIndex),
    ("try_number", .int event.tryNumber),
    ("pool", .str event.pool),
    ("queue", .str event.queue),
    ("queued_dttm", .str event.queuedDttm)]⟩⟩

theorem validate_str {name : String} {kwargs : Dict} {v : FieldValue}
    (h : (Python.Field.mk name .str).validate kwargs = .ok v) : ∃ s, v = .str s := by
  unfold Field.validate at h
  split at h
  · obtain ⟨s, rfl⟩ := exists_of_map_ok h
    exact ⟨s, rfl⟩
  · cases h

theorem validate_int {name : String} {kwargs : Dict} {v : FieldValue}
    (h : (Python.Field.mk name .int).validate kwargs = .ok v) : ∃ n, v = .int n := by
  unfold Field.validate at h
  split at h
  · obtain ⟨n, rfl⟩ := exists_of_map_ok h
    exact ⟨n, rfl⟩
  · cases h

/-- Every model that `parse` builds is one of these. -/
theorem parse_parsed {kwargs : Dict} {e : ParsedEvent}
    (h : taskInstanceQueued.parse kwargs = .ok e) :
    ∃ event : TaskInstanceQueued, e = event.parsed e.eventType := by
  obtain ⟨-, hevent, hvalid⟩ := EventClass.parse_event h
  simp only [taskInstanceQueued, strs, ints, List.map_cons, List.map_nil, List.cons_append,
    List.nil_append, List.forall_mem_cons, List.not_mem_nil, false_implies, implies_true,
    and_true] at hvalid
  obtain ⟨⟨v₁, h₁⟩, ⟨v₂, h₂⟩, ⟨v₃, h₃⟩, ⟨v₄, h₄⟩, ⟨v₅, h₅⟩, ⟨v₆, h₆⟩, ⟨v₇, h₇⟩, ⟨v₈, h₈⟩⟩ := hvalid
  obtain ⟨dagId, rfl⟩ := validate_str h₁
  obtain ⟨runId, rfl⟩ := validate_str h₂
  obtain ⟨taskId, rfl⟩ := validate_str h₃
  obtain ⟨mapIndex, rfl⟩ := validate_int h₄
  obtain ⟨tryNumber, rfl⟩ := validate_int h₅
  obtain ⟨pool, rfl⟩ := validate_str h₆
  obtain ⟨queue, rfl⟩ := validate_str h₇
  obtain ⟨queuedDttm, rfl⟩ := validate_str h₈
  refine ⟨⟨dagId, runId, taskId, mapIndex, tryNumber, pool, queue, queuedDttm⟩, ?_⟩
  obtain ⟨t, event⟩ := e
  cases hevent
  simp [TaskInstanceQueued.parsed, taskInstanceQueued, strs, ints, validateFields, h₁, h₂, h₃, h₄,
    h₅, h₆, h₇, h₈]

theorem parse_dict (event : TaskInstanceQueued) (t : BeeflowEventType) :
    taskInstanceQueued.parse (event.parsed t).dict = .ok (event.parsed t) := by
  have htype := (event.parsed t).validateEventType_dict taskInstanceQueued
  rw [EventClass.parse, htype]
  rfl

theorem plain_dict (event : TaskInstanceQueued) (t : BeeflowEventType) :
    (Json.obj (event.parsed t).dict).Plain := by
  refine .obj ?_ ?_
  · have h : ("event_type" :: taskInstanceQueued.fieldNames).Nodup := by decide
    exact h
  · intro m hm
    simp only [ParsedEvent.dict, TaskInstanceQueued.parsed, List.map_cons, List.map_nil,
      FieldValue.json, List.mem_cons, List.not_mem_nil, or_false] at hm
    rcases hm with rfl | rfl | rfl | rfl | rfl | rfl | rfl | rfl | rfl <;> constructor

-- ---------------------------------------------------------------------------
-- `parse` on decoded JSON
-- ---------------------------------------------------------------------------

def pairOf : Json → Option (String × Json)
  | .arr [.str key, j] => some (key, j)
  | .str s => match s.toList with
    | [a, b] => some (String.singleton a, .str (String.singleton b))
    | _ => none
  | _ => none

/-- `dict(j)`, where every key is a string -/
def dictOf : Json → Option Dict
  | .obj members => some members
  | .arr elements => (elements.mapM pairOf).map Dict.ofPairs
  | .str s => if s = "" then some [] else none
  | _ => none

section Delivery

variable (parseFloat : List Char → Json)

/-- `parse(event=j, model=TaskInstanceQueued)`: a string is decoded first. -/
def parse (j : Json) : Option ParsedEvent := do
  let obj ← match j with
    | .str s => (loads parseFloat s).toOption
    | j => some j
  (taskInstanceQueued.parse (← dictOf obj)).toOption

theorem parse_obj_dict (event : TaskInstanceQueued) (t : BeeflowEventType) :
    parse parseFloat (.obj (event.parsed t).dict) = some (event.parsed t) := by
  simp [parse, dictOf, parse_dict, Except.toOption]

theorem parse_dumps_dict (event : TaskInstanceQueued) (t : BeeflowEventType) :
    parse parseFloat (.str (dumps (.obj (event.parsed t).dict))) = some (event.parsed t) := by
  simp [parse, loads_dumps (plain_dict event t), dictOf, parse_dict, Except.toOption]

-- ---------------------------------------------------------------------------
-- The state machines
-- ---------------------------------------------------------------------------

/-- A path of the state language picks a value from the input of a state. -/
abbrev StatePath := String → Json → Option Json

/-- The path `$.name` picks the member of that name. -/
def ReadsMember (path : StatePath) (name : String) : Prop :=
  ∀ members, path ("$." ++ name) (.obj members) = members.lookup name

def LambdaExecutor.prepareInput (field : String) (event : ParsedEvent) : String :=
  dumps (.obj [(field, .obj event.dict)])

def BatchExecutor.prepareInput (field : String) (event : ParsedEvent) : String :=
  dumps (.obj [(field, .str (dumps (.obj event.dict)))])

/-- The input of the first state, decoded. -/
def executionInput (input : String) : Option Json := (loads parseFloat input).toOption

/-- `"ResultPath" : "$.error"` -/
def addError (state error : Json) : Option Json :=
  match state with
  | .obj members => some (.obj (Dict.set members "error" error))
  | _ => none

def item (field : String) (j : Json) : Option Json := (j.item field).toOption

/-- `args.event`; whether a value with a leading dash is an option is left open. -/
def eventArgument : List String → Option String
  | ["--event", value] => if value.toList.head? = some '-' then none else some value
  | _ => none

variable (path : StatePath)

/-- What the worker's state picks from the input. -/
def workerField (field input : String) : Option Json := do
  path ("$." ++ field) (← executionInput parseFloat input)

/-- What the catcher finds in the input with the error. -/
def catcherField (field input : String) (error : Json) : Option Json := do
  item field (← addError (← executionInput parseFloat input) error)

def lambdaWorkerEvent (field input : String) : Option ParsedEvent := do
  parse parseFloat (← workerField parseFloat path field input)

def lambdaCatcherEvent (field input : String) (error : Json) : Option ParsedEvent := do
  parse parseFloat (← catcherField parseFloat field input error)

/-- The parameters of a Batch job are strings. -/
def batchWorkerEvent (field input : String) : Option ParsedEvent := do
  match ← workerField parseFloat path field input with
  | .str serialized => parse parseFloat (.str (← eventArgument ["--event", serialized]))
  | _ => none

def batchCatcherEvent (field input : String) (error : Json) : Option ParsedEvent := do
  match ← catcherField parseFloat field input error with
  | .str serialized => parse parseFloat (← (loads parseFloat serialized).toOption)
  | _ => none

-- ---------------------------------------------------------------------------
-- Worker and catcher are told the same
-- ---------------------------------------------------------------------------

theorem executionInput_dumps {field : String} {j : Json} (hj : j.Plain) :
    executionInput parseFloat (dumps (.obj [(field, j)])) = some (.obj [(field, j)]) := by
  have hplain : (Json.obj [(field, j)]).Plain :=
    .obj (List.nodup_singleton _) fun m hm => List.mem_singleton.mp hm ▸ hj
  simp [executionInput, loads_dumps hplain, Except.toOption]

theorem eventArgument_dumps (d : Dict) :
    eventArgument ["--event", dumps (.obj d)] = some (dumps (.obj d)) := by
  simp [eventArgument, dumps, encode]

variable {path} {field : String}

theorem workerField_dumps (hpath : ReadsMember path field) {j : Json} (hj : j.Plain) :
    workerField parseFloat path field (dumps (.obj [(field, j)])) = some j := by
  simp [workerField, executionInput_dumps parseFloat hj, hpath _]

/-- The error stands beside the field, unless the field has its name. -/
theorem catcherField_dumps (hfield : field ≠ "error") {j : Json} (hj : j.Plain) (error : Json) :
    catcherField parseFloat field (dumps (.obj [(field, j)])) error = some j := by
  simp [catcherField, executionInput_dumps parseFloat hj, addError, Dict.set, hfield.symm, item,
    Json.item, Dict.item, Except.toOption]

theorem lambda_handed_over (hpath : ReadsMember path field) (hfield : field ≠ "error")
    (event : TaskInstanceQueued) (t : BeeflowEventType) (error : Json) :
    lambdaWorkerEvent parseFloat path field
        (LambdaExecutor.prepareInput field (event.parsed t)) = some (event.parsed t) ∧
      lambdaCatcherEvent parseFloat field
        (LambdaExecutor.prepareInput field (event.parsed t)) error = some (event.parsed t) := by
  have hplain := plain_dict event t
  have hparse := parse_obj_dict parseFloat event t
  constructor
  · simp [lambdaWorkerEvent, LambdaExecutor.prepareInput, workerField_dumps parseFloat hpath hplain,
      hparse]
  · simp [lambdaCatcherEvent, LambdaExecutor.prepareInput,
      catcherField_dumps parseFloat hfield hplain, hparse]

/-- The text inside the text is decoded once by the state machine and once by the reader. -/
theorem batch_handed_over (hpath : ReadsMember path field) (hfield : field ≠ "error")
    (event : TaskInstanceQueued) (t : BeeflowEventType) (error : Json) :
    batchWorkerEvent parseFloat path field
        (BatchExecutor.prepareInput field (event.parsed t)) = some (event.parsed t) ∧
      batchCatcherEvent parseFloat field
        (BatchExecutor.prepareInput field (event.parsed t)) error = some (event.parsed t) := by
  have hplain := Json.Plain.str (dumps (.obj (event.parsed t).dict))
  constructor
  · simp [batchWorkerEvent, BatchExecutor.prepareInput, workerField_dumps parseFloat hpath hplain,
      eventArgument_dumps, parse_dumps_dict]
  · simp [batchCatcherEvent, BatchExecutor.prepareInput,
      catcherField_dumps parseFloat hfield hplain, loads_dumps (plain_dict event t),
      Except.toOption, parse_obj_dict]

/-- On both paths the worker and the catcher read the event that the executor wrote. -/
theorem handed_over (hpath : ReadsMember path field) (hfield : field ≠ "error") {kwargs : Dict}
    {e : ParsedEvent} (he : taskInstanceQueued.parse kwargs = .ok e) (error : Json) :
    (lambdaWorkerEvent parseFloat path field (LambdaExecutor.prepareInput field e) = some e ∧
      lambdaCatcherEvent parseFloat field (LambdaExecutor.prepareInput field e) error = some e) ∧
    (batchWorkerEvent parseFloat path field (BatchExecutor.prepareInput field e) = some e ∧
      batchCatcherEvent parseFloat field (BatchExecutor.prepareInput field e) error = some e) := by
  obtain ⟨event, hevent⟩ := parse_parsed he
  rw [hevent]
  exact ⟨lambda_handed_over parseFloat hpath hfield event _ error,
    batch_handed_over parseFloat hpath hfield event _ error⟩

end Delivery

/-- A path of member names with dots between them. -/
def dotPath : StatePath := fun path j =>
  match path.toList.splitOn '.' with
  | ['$'] :: names => names.foldlM (fun j name => item (String.ofList name) j) j
  | _ => none

theorem dotPath_readsMember {name : String} (h : '.' ∉ name.toList) :
    ReadsMember dotPath name := by
  intro members
  have hsplit : ("$." ++ name).toList.splitOn '.' = [['$'], name.toList] := by
    rw [String.toList_append]
    exact (List.splitOn_append_cons_self ['$'] name.toList).trans
      (by rw [List.splitOn_eq_singleton h]; rfl)
  rw [dotPath, hsplit]
  cases hl : members.lookup name <;>
    simp [item, Json.item, Dict.item, hl, Except.toOption]

def loadQueuedArgs : Dict := [("dag_id", .str "etl"), ("run_id", .str "größe\n😀"),
  ("task_id", .str "load \"x\\y\""), ("map_index", .int (-1)), ("try_number", .int 0),
  ("pool", .str "default_pool"), ("queue", .str "lambda"), ("queued_dttm", .str "132")]

theorem handed_over_passedevent : ∃ e, taskInstanceQueued.parse loadQueuedArgs = .ok e ∧
    (lambdaWorkerEvent (fun _ => .null) dotPath "passedevent"
        (LambdaExecutor.prepareInput "passedevent" e) = some e ∧
      lambdaCatcherEvent (fun _ => .null) "passedevent"
        (LambdaExecutor.prepareInput "passedevent" e) .null = some e) ∧
    (batchWorkerEvent (fun _ => .null) dotPath "passedevent"
        (BatchExecutor.prepareInput "passedevent" e) = some e ∧
      batchCatcherEvent (fun _ => .null) "passedevent"
        (BatchExecutor.prepareInput "passedevent" e) .null = some e) :=
  ⟨_, rfl, @handed_over (fun _ => .null) dotPath "passedevent"
    (dotPath_readsMember (by decide)) (by decide) loadQueuedArgs _ rfl .null⟩

/-- The path `$.a.b` looks for a member `b` of a member `a`. -/
theorem dottedField_not_handed_over : "a.b" ≠ "error" ∧ ∃ e,
    taskInstanceQueued.parse loadQueuedArgs = .ok e ∧
      lambdaWorkerEvent (fun _ => .null) dotPath "a.b" (LambdaExecutor.prepareInput "a.b" e) ≠
        some e := by
  obtain ⟨e, he⟩ : ∃ e, taskInstanceQueued.parse loadQueuedArgs = .ok e := ⟨_, rfl⟩
  refine ⟨by decide, e, he, ?_⟩
  obtain ⟨event, hevent⟩ := parse_parsed he
  have hpicks : dotPath ("$." ++ "a.b") (.obj [("a.b", .obj e.dict)]) = none := rfl
  have hworker : workerField (fun _ => .null) dotPath "a.b"
      (LambdaExecutor.prepareInput "a.b" e) = none := by
    rw [workerField, LambdaExecutor.prepareInput,
      executionInput_dumps _ (hevent ▸ plain_dict event _)]
    exact hpicks
  simp [lambdaWorkerEvent, hworker]

end Beeflow.Executors
