import Beeflow.DagSchedules.Updater

/-!
# Which events put a rule

The updater tells the events apart by what parses, and an event parses as one
of another class wherever it has the fields: every event with a `dag_id` puts
a rule.
-/

namespace Beeflow.DagSchedules

open Events Python

/-- The event type says that the detail is about a created or an updated DAG. -/
def AboutDag (detail : Dict) : Prop :=
  detail.lookup "event_type" = some (.str BeeflowEventType.dagCreated.value) ∨
    detail.lookup "event_type" = some (.str BeeflowEventType.dagUpdated.value)

/-- The requests for a rule that EventBridge accepts; the others raise and leave no rule. -/
def Outcome.acceptedRules {α : Type} (env : Environment) (outcome : Outcome α) : List PutRule :=
  outcome.putRules.filter env.putRule

/-- A rule is put exactly for these details, and the others are answered with the empty event. -/
structure ActsByType (env : Environment) (detail : Dict) : Prop where
  puts : (actOnEvent env detail).acceptedRules env ≠ [] ↔ AboutDag detail
  others : ¬AboutDag detail →
    actOnEvent env detail = ⟨[], [], .ok ⟨dagScheduleUpdaterEmptyEvent, []⟩⟩

/-- The DAG that the detail names as an event of a created DAG. -/
def ParsesFor (detail : Dict) (dagId : String) : Prop :=
  ∃ parsed, dagCreatedEvent.parse detail = .ok parsed ∧
    parsed.event.field "dag_id" = some (.str dagId)

/-- The dagbag has the DAG, its schedule is a string with five fields, and EventBridge accepts
the rule that they make. -/
def Schedulable (env : Environment) (dagId : String) : Prop :=
  ∃ dag, env.getDagById dagId = .ok dag ∧
    ∃ expression, fromAirflowScheduleToAwsCron dag.normalizedScheduleInterval = .ok expression ∧
      env.putRule (dag.putRule dagId expression (env.isPaused dag.dagId))

-- ---------------------------------------------------------------------------
-- Parsing as an event of a created DAG
-- ---------------------------------------------------------------------------

theorem upsert_acceptedRules (env : Environment) (dagId : String) :
    (upsertNewCronSchedule env dagId).acceptedRules env ≠ [] ↔ Schedulable env dagId := by
  unfold upsertNewCronSchedule Schedulable Outcome.acceptedRules
  cases env.getDagById dagId with
  | error e => simp
  | ok dag =>
    cases h : fromAirflowScheduleToAwsCron dag.normalizedScheduleInterval with
    | error e => simp [h]
    | ok expression =>
      simp only [h, Except.ok.injEq, exists_eq_left']
      split_ifs with hrule htargets
      · simp [hrule]
      · simp [hrule]
      · simp [hrule]

/-- Without a rule the call raises. -/
theorem upsert_raises (env : Environment) (dagId : String) (event : BeeflowEvent) :
    upsertNewCronSchedule env dagId ≠ ⟨[], [], .ok event⟩ := by
  intro h
  unfold upsertNewCronSchedule at h
  cases hd : env.getDagById dagId with
  | error e => simp [hd] at h
  | ok dag =>
    cases hs : fromAirflowScheduleToAwsCron dag.normalizedScheduleInterval with
    | error e => simp [hd, hs] at h
    | ok expression =>
      simp only [hd, hs] at h
      split_ifs at h <;> simp at h

theorem parse_dagCreated {detail : Dict} {parsed : ParsedEvent}
    (h : dagCreatedEvent.parse detail = .ok parsed) : ∃ dagId, ParsesFor detail dagId := by
  obtain ⟨-, -, hvalid⟩ := EventClass.parse_event h
  obtain ⟨v, hv⟩ := hvalid ⟨"dag_id", .str⟩ (by decide)
  have hfield := EventClass.parse_field h (by decide) (by decide) hv
  unfold Field.validate at hv
  cases hl : detail.lookup "dag_id" with
  | none => simp [hl] at hv
  | some j =>
    rw [hl] at hv
    obtain ⟨s, rfl⟩ := exists_of_map_ok hv
    exact ⟨s, parsed, h, hfield⟩

/-- What parses as an event of an updated DAG parses as one of a created DAG. -/
theorem parse_dagUpdated {detail : Dict} (h : ∃ parsed, dagUpdatedEvent.parse detail = .ok parsed) :
    ∃ parsed, dagCreatedEvent.parse detail = .ok parsed := by
  rw [EventClass.parse_ok_iff] at h ⊢
  obtain ⟨⟨t, ht⟩, hvalid⟩ := h
  refine ⟨?_, fun f hf => hvalid f ?_⟩
  · cases hl : detail.lookup "event_type" with
    | none => exact ⟨dagCreatedEvent.eventType, by simp [EventClass.validateEventType, hl]⟩
    | some j => exact ⟨t, (EventClass.validateEventType_congr _ dagUpdatedEvent hl).trans ht⟩
  · obtain rfl := List.mem_singleton.mp hf
    decide

theorem actOnDagEvent_refused {cls : EventClass} {env : Environment} {detail : Dict}
    (h : ¬∃ parsed, cls.parse detail = .ok parsed) :
    actOnDagEvent cls env detail = ⟨[], [], .ok none⟩ := by
  obtain ⟨errors, he⟩ := EventClass.parse_error h
  simp [actOnDagEvent, he]

/-- Without an event of a created DAG neither handler returns one. -/
theorem actOnEvent_refused {env : Environment} {detail : Dict}
    (h : ¬∃ parsed, dagCreatedEvent.parse detail = .ok parsed) :
    actOnEvent env detail = ⟨[], [], .ok ⟨dagScheduleUpdaterEmptyEvent, []⟩⟩ := by
  have hupdated : ¬∃ parsed, dagUpdatedEvent.parse detail = .ok parsed :=
    fun hu => h (parse_dagUpdated hu)
  simp [actOnEvent, firstResult, actOnDagCreatedEvent, actOnDagUpdatedEvent,
    actOnDagEvent_refused h, actOnDagEvent_refused hupdated]

/-- Every detail that parses for a DAG is handed to `upsert_new_cron_schedule`. -/
theorem actOnEvent_parsed {env : Environment} {detail : Dict} {dagId : String}
    (h : ParsesFor detail dagId) :
    actOnEvent env detail = upsertNewCronSchedule env dagId := by
  obtain ⟨parsed, hparse, hfield⟩ := h
  have hcreated : actOnDagCreatedEvent env detail =
      { upsertNewCronSchedule env dagId with
        result := (upsertNewCronSchedule env dagId).result.map some } := by
    simp [actOnDagCreatedEvent, actOnDagEvent, hparse, hfield]
  unfold actOnEvent firstResult
  rw [hcreated]
  rcases upsertNewCronSchedule env dagId with ⟨rules, targets, e | event⟩
  · rfl
  · rfl

-- ---------------------------------------------------------------------------
-- Telling the events apart
-- ---------------------------------------------------------------------------

theorem ParsesFor.unique {detail : Dict} {d d' : String} (h : ParsesFor detail d)
    (h' : ParsesFor detail d') : d = d' := by
  obtain ⟨p, hp, hf⟩ := h
  obtain ⟨p', hp', hf'⟩ := h'
  obtain rfl := Except.ok.inj (hp.symm.trans hp')
  exact FieldValue.str.inj (Option.some.inj (hf.symm.trans hf'))

theorem actsByType_iff (env : Environment) (detail : Dict) :
    ActsByType env detail ↔
      AboutDag detail ∧ (∃ dagId, ParsesFor detail dagId ∧ Schedulable env dagId) ∨
      ¬AboutDag detail ∧ ¬∃ parsed, dagCreatedEvent.parse detail = .ok parsed := by
  by_cases hparse : ∃ parsed, dagCreatedEvent.parse detail = .ok parsed
  · obtain ⟨dagId, hfor⟩ := parse_dagCreated hparse.choose_spec
    have hact : actOnEvent env detail = _ := actOnEvent_parsed hfor
    have hputs := upsert_acceptedRules env dagId
    constructor
    · intro h
      have habout : AboutDag detail := by
        by_contra hnot
        exact upsert_raises env dagId _ (hact ▸ h.others hnot)
      refine .inl ⟨habout, dagId, hfor, hputs.mp ?_⟩
      rw [← hact]
      exact h.puts.mpr habout
    · rintro (⟨habout, d, hd, hschedulable⟩ | ⟨-, hnot⟩)
      · obtain rfl := hfor.unique hd
        refine ⟨?_, fun hnot => absurd habout hnot⟩
        rw [hact]
        exact iff_of_true (hputs.mpr hschedulable) habout
      · exact absurd hparse hnot
  · have hact : actOnEvent env detail = _ := actOnEvent_refused hparse
    constructor
    · intro h
      refine .inr ⟨fun habout => h.puts.mpr habout ?_, hparse⟩
      rw [hact]
      rfl
    · rintro (⟨-, d, ⟨parsed, hd, -⟩, -⟩ | ⟨hnot, -⟩)
      · exact absurd ⟨parsed, hd⟩ hparse
      · refine ⟨?_, fun _ => hact⟩
        rw [hact]
        exact iff_of_false (fun h => h rfl) hnot

/-- Parsing tells two classes apart where the one that parses declares a field the other lacks;
the updater goes by the event type where exactly the details about a DAG parse. -/
theorem discriminates_iff {A B : EventClass} (hA : A ∈ eventClasses) (hB : B ∈ eventClasses)
    {kwargs : Dict} {a : ParsedEvent} (ha : A.parse kwargs = .ok a) (env : Environment)
    (detail : Dict) :
    ((∃ errors, B.parse a.dict = .error (.validationError B.name errors)) ↔
      ∃ f ∈ B.fields, f.name ∉ A.fieldNames) ∧
    (ActsByType env detail ↔
      AboutDag detail ∧ (∃ dagId, ParsesFor detail dagId ∧ Schedulable env dagId) ∨
      ¬AboutDag detail ∧ ¬∃ parsed, dagCreatedEvent.parse detail = .ok parsed) := by
  refine ⟨?_, actsByType_iff env detail⟩
  have h := parse_dict_iff (eventClasses_wellFormed A hA) (eventClasses_wellFormed B hB) ha
  constructor
  · rintro ⟨errors, he⟩
    by_contra hnone
    push Not at hnone
    obtain ⟨b, hb⟩ := h.mpr hnone
    cases he.symm.trans hb
  · rintro ⟨f, hf, hlacks⟩
    exact EventClass.parse_error fun hb => hlacks (h.mp hb f hf)

def etlCreated : ParsedEvent := ⟨.dagCreated, dagCreatedEvent, [("dag_id", .str "etl")]⟩

/-- It is not the event of a rule, and the updater puts the rule. -/
theorem discriminates_iff_etlCreated :
    (∃ errors, dagCronTriggered.parse etlCreated.dict =
      .error (.validationError dagCronTriggered.name errors)) ∧
    ActsByType evening etlCreated.dict := by
  obtain ⟨hparses, hacts⟩ := @discriminates_iff dagCreatedEvent dagCronTriggered (by decide)
    (by decide) etlCreated.dict etlCreated rfl evening etlCreated.dict
  exact ⟨hparses.mpr (by decide),
    hacts.mpr (.inl ⟨.inl rfl, "etl", ⟨_, rfl, rfl⟩, _, rfl, _, rfl, rfl⟩)⟩

/-- The event of the DAG's own rule. -/
def etlTriggered : ParsedEvent :=
  ⟨.dagCronTriggered, dagCronTriggered,
    [("dag_id", .str "etl"), ("trigger_time", .str "2022-12-18T20:00:00Z")]⟩

/-- It parses as the event of a created DAG, and the updater puts the rule again. -/
theorem etlTriggered_not_discriminated :
    dagCronTriggered.parse etlTriggered.dict = .ok etlTriggered ∧
      (∃ parsed, dagCreatedEvent.parse etlTriggered.dict = .ok parsed) ∧
        ¬ActsByType evening etlTriggered.dict := by
  refine ⟨rfl, ⟨_, rfl⟩, fun h => ?_⟩
  have habout : ¬AboutDag etlTriggered.dict := by
    rintro (htype | htype)
    all_goals
      have hvalue := Json.str.inj (Option.some.inj htype)
      exact absurd hvalue (by decide)
  exact habout (h.puts.mp (List.cons_ne_nil _ _))

end Beeflow.DagSchedules
