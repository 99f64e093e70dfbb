import Beeflow.Events.Classes
import Beeflow.Lib.Comprehension

/-!
# Parsing events

`parse` builds an event of a class from a decoded object. Keys that the class
does not declare are ignored, and any event type is taken for the class's own.
-/

namespace Beeflow.Python

def FieldValue.json : FieldValue → Json
  | .str s => .str s
  | .int n => .int n
  | .bool b => .bool b
  | .strs l => .arr (l.map .str)
  | .dict d => .obj d

theorem strsValidator_map (l : List String) : strsValidator (.arr (l.map .str)) = .ok l := by
  unfold strsValidator
  induction l with
  | nil => rfl
  | cons s l ih =>
    dsimp only at ih ⊢
    rw [List.map_cons, List.mapM_cons, ih]
    rfl

theorem exists_of_map_ok {α β ε : Type} {f : α → β} {x : Except ε α} {b : β}
    (h : x.map f = .ok b) : ∃ a, f a = b := by
  cases x with
  | error e => cases h
  | ok a => exact ⟨a, Except.ok.inj h⟩

/-- A value that a type took is taken again as it is. -/
theorem FieldType.validate_json {t : FieldType} {j : Json} {v : FieldValue}
    (h : t.validate j = .ok v) : t.validate v.json = .ok v := by
  cases t with
  | strs =>
    obtain ⟨w, rfl⟩ := exists_of_map_ok h
    simp [FieldType.validate, FieldValue.json, strsValidator_map, Except.map]
  | _ =>
    obtain ⟨w, rfl⟩ := exists_of_map_ok h
    rfl

end Beeflow.Python

namespace Beeflow.Events

open Python

-- ---------------------------------------------------------------------------
-- The event type
-- ---------------------------------------------------------------------------

def BeeflowEventType.all : List BeeflowEventType := [
  .migrationCompleted, .triggerDagsProcessingCommand, .dagsProcessingTriggered, .dagsProcessed,
  .cdcInput, .newCronCreated, .dagCronTriggered, .dagScheduleUpdaterEmpty,
  .apiToCliForwarderInput, .dagCreated, .dagUpdated,
  .taskInstanceQueued, .taskInstanceScheduled, .taskInstanceFailed, .taskInstanceSuccess,
  .taskInstanceSkipped, .taskInstanceUnknown, .taskInstanceRunning, .taskInstanceUpForRetry,
  .taskInstanceRestarting, .taskInstanceShutdown, .taskInstanceUpstreamFailed,
  .dagRunSuccess, .dagRunFailed, .dagRunRunning, .dagRunQueued]

def BeeflowEventType.ofValue (s : String) : Option BeeflowEventType := all.find? (·.value = s)

theorem BeeflowEventType.ofValue_value (t : BeeflowEventType) : ofValue t.value = some t := by
  cases t <;> decide

def enumError : String :=
  "value is not a valid enumeration member; permitted: " ++
    String.intercalate ", " (BeeflowEventType.all.map fun t => "'" ++ t.value ++ "'")

/-- The field `event_type`, which defaults to the class's own type. -/
def EventClass.validateEventType (cls : EventClass) (d : Dict) : Except String BeeflowEventType :=
  match d.lookup "event_type" with
  | none => .ok cls.eventType
  | some (.str s) =>
    match BeeflowEventType.ofValue s with
    | some t => .ok t
    | none => .error enumError
  | some .null => .error "none is not an allowed value"
  | some _ => .error enumError

/-- A type that is given counts the same for every class. -/
theorem EventClass.validateEventType_congr (A B : EventClass) {d : Dict} {j : Json}
    (h : d.lookup "event_type" = some j) : A.validateEventType d = B.validateEventType d := by
  unfold validateEventType
  rw [h]
  cases j <;> rfl

-- ---------------------------------------------------------------------------
-- Parsing
-- ---------------------------------------------------------------------------

structure ParsedEvent where
  eventType : BeeflowEventType
  event : BeeflowEvent

def EventClass.parse (cls : EventClass) (d : Dict) : Except PyError ParsedEvent :=
  match cls.validateEventType d, validateFields d cls.fields with
  | .ok t, (values, []) => .ok ⟨t, ⟨cls, values⟩⟩
  | .ok _, (_, errors) => .error (.validationError cls.name errors)
  | .error message, (_, errors) =>
    .error (.validationError cls.name (("event_type", message) :: errors))

/-- The event as an object, with the value of its type. -/
def ParsedEvent.dict (e : ParsedEvent) : Dict :=
  ("event_type", .str e.eventType.value) :: e.event.values.map fun p => (p.1, p.2.json)

theorem EventClass.parse_ok_iff {cls : EventClass} {d : Dict} :
    (∃ e, cls.parse d = .ok e) ↔
      (∃ t, cls.validateEventType d = .ok t) ∧ ∀ f ∈ cls.fields, ∃ v, f.validate d = .ok v := by
  rw [← validateFields_errors]
  unfold parse
  cases cls.validateEventType d with
  | error message => simp
  | ok t =>
    rcases validateFields d cls.fields with ⟨values, - | ⟨err, errors⟩⟩
    · simp
    · simp

/-- What does not parse raises the validation error of the class. -/
theorem EventClass.parse_error {cls : EventClass} {d : Dict} (h : ¬∃ e, cls.parse d = .ok e) :
    ∃ errors, cls.parse d = .error (.validationError cls.name errors) := by
  unfold parse at h ⊢
  cases ht : cls.validateEventType d with
  | error message => exact ⟨_, rfl⟩
  | ok t =>
    rcases hv : validateFields d cls.fields with ⟨values, - | ⟨err, errors⟩⟩
    · simp [ht, hv] at h
    · exact ⟨_, rfl⟩

theorem EventClass.parse_event {cls : EventClass} {d : Dict} {e : ParsedEvent}
    (h : cls.parse d = .ok e) :
    cls.validateEventType d = .ok e.eventType ∧
      e.event = ⟨cls, (validateFields d cls.fields).1⟩ ∧
        ∀ f ∈ cls.fields, ∃ v, f.validate d = .ok v := by
  refine ⟨?_, ?_, (EventClass.parse_ok_iff.mp ⟨e, h⟩).2⟩
  all_goals
    unfold parse at h
    cases ht : cls.validateEventType d with
    | error message => simp [ht] at h
    | ok t =>
      rcases hv : validateFields d cls.fields with ⟨values, - | ⟨err, errors⟩⟩
      · simp only [ht, hv, Except.ok.injEq] at h
        subst h
        rfl
      · simp [ht, hv] at h

theorem EventClass.parse_field {cls : EventClass} {d : Dict} {e : ParsedEvent}
    (h : cls.parse d = .ok e) (hn : cls.fieldNames.Nodup) {f : Field} (hf : f ∈ cls.fields)
    {v : FieldValue} (hv : f.validate d = .ok v) : e.event.field f.name = some v := by
  rw [BeeflowEvent.field, (parse_event h).2.1]
  exact validateFields_lookup hn hf hv

-- ---------------------------------------------------------------------------
-- Parsing the event of another class
-- ---------------------------------------------------------------------------

/-- The type of a field is settled by its name, over all event classes. -/
def fieldType (name : String) : FieldType :=
  if name ∈ ["map_index", "try_number"] then .int
  else if name ∈ ["is_paused", "is_active"] then .bool
  else if name = "args" then .strs
  else if name = "metadata" then .dict
  else .str

structure EventClass.WellFormed (cls : EventClass) : Prop where
  nodup : cls.fieldNames.Nodup
  types : ∀ f ∈ cls.fields, f.type = fieldType f.name
  untagged : "event_type" ∉ cls.fieldNames

theorem eventClasses_wellFormed : ∀ cls ∈ eventClasses, cls.WellFormed := by
  have h : ∀ cls ∈ eventClasses, cls.fieldNames.Nodup ∧
      (∀ f ∈ cls.fields, f.type = fieldType f.name) ∧ "event_type" ∉ cls.fieldNames := by decide
  exact fun cls hcls => ⟨(h cls hcls).1, (h cls hcls).2.1, (h cls hcls).2.2⟩

theorem mem_validateFields_values {kwargs : Dict} {fs : List Field} {p : String × FieldValue}
    (h : p ∈ (validateFields kwargs fs).1) : ∃ f ∈ fs, f.name = p.1 := by
  induction fs with
  | nil => simp [validateFields] at h
  | cons f fs ih =>
    cases hv : f.validate kwargs with
    | ok v =>
      simp only [validateFields, hv, List.mem_cons] at h
      rcases h with rfl | h
      · exact ⟨f, List.mem_cons_self, rfl⟩
      · obtain ⟨g, hg, he⟩ := ih h
        exact ⟨g, List.mem_cons_of_mem _ hg, he⟩
    | error message =>
      simp only [validateFields, hv] at h
      obtain ⟨g, hg, he⟩ := ih h
      exact ⟨g, List.mem_cons_of_mem _ hg, he⟩

theorem ParsedEvent.lookup_dict (e : ParsedEvent) {name : String} (hn : name ≠ "event_type") :
    e.dict.lookup name = (e.event.field name).map FieldValue.json := by
  rw [dict, List.lookup_cons, beq_false_of_ne hn]
  exact Comprehension.lookup_map (fun _ => FieldValue.json) _ _

theorem ParsedEvent.validateEventType_dict (cls : EventClass) (e : ParsedEvent) :
    cls.validateEventType e.dict = .ok e.eventType := by
  simp [EventClass.validateEventType, dict, BeeflowEventType.ofValue_value]

section Across

variable {A B : EventClass} {kwargs : Dict} {a : ParsedEvent}

/-- Exactly the fields that both classes declare are found in the event of the other class. -/
theorem validate_dict_iff (hA : A.WellFormed) (hB : B.WellFormed) (ha : A.parse kwargs = .ok a)
    {f : Field} (hf : f ∈ B.fields) :
    (∃ v, f.validate a.dict = .ok v) ↔ f.name ∈ A.fieldNames := by
  have hne : f.name ≠ "event_type" := fun he => hB.untagged (he ▸ List.mem_map_of_mem hf)
  obtain ⟨-, hevent, hvalid⟩ := EventClass.parse_event ha
  have hlookup := a.lookup_dict hne
  constructor
  · rintro ⟨v, hv⟩
    cases hl : a.event.field f.name with
    | none => simp [Field.validate, hlookup, hl] at hv
    | some w =>
      rw [BeeflowEvent.field, hevent] at hl
      obtain ⟨l, m, hl, -⟩ := List.lookup_eq_some_iff.mp hl
      have hmem : (f.name, w) ∈ (validateFields kwargs A.fields).1 := by
        rw [show (validateFields kwargs A.fields).1 = _ from hl]
        simp
      obtain ⟨g, hg, hname⟩ := mem_validateFields_values hmem
      exact List.mem_map.mpr ⟨g, hg, hname⟩
  · intro hmem
    obtain ⟨g, hg, hname⟩ := List.mem_map.mp hmem
    obtain ⟨v, hv⟩ := hvalid g hg
    have hfield := EventClass.parse_field ha hA.nodup hg hv
    rw [hname] at hfield
    have htype : g.type = f.type := by rw [hA.types g hg, hB.types f hf, hname]
    unfold Field.validate at hv
    cases hl : kwargs.lookup g.name with
    | none => simp [hl] at hv
    | some j =>
      rw [hl, htype] at hv
      exact ⟨v, by simp [Field.validate, hlookup, hfield, FieldType.validate_json hv]⟩

/-- The other class refuses an event exactly if it declares a field the event's class lacks. -/
theorem parse_dict_iff (hA : A.WellFormed) (hB : B.WellFormed) (ha : A.parse kwargs = .ok a) :
    (∃ b, B.parse a.dict = .ok b) ↔ ∀ f ∈ B.fields, f.name ∈ A.fieldNames := by
  rw [EventClass.parse_ok_iff]
  constructor
  · rintro ⟨-, h⟩ f hf
    exact (validate_dict_iff hA hB ha hf).mp (h f hf)
  · intro h
    exact ⟨⟨_, a.validateEventType_dict B⟩,
      fun f hf => (validate_dict_iff hA hB ha hf).mpr (h f hf)⟩

end Across

end Beeflow.Events
