import Beeflow.DagSchedules.Dispatch
import Beeflow.Events.Rules
import Beeflow.Lib.Upserts

/-!
# Batches of messages

The handler acts on the messages of a batch in one comprehension. A DAG whose
rule cannot be put raises and ends it, so the DAGs behind it get no rule, and
the batch that is delivered again ends at the same place.
-/

namespace Beeflow.DagSchedules

open Events Python

/-- The list that `handler` returns, over the details of the events. The DAGs are downloaded
before it. -/
def handler (env : Environment) : List Dict → Outcome (List Dict)
  | [] => ⟨[], [], .ok []⟩
  | detail :: details =>
    let outcome := actOnEvent env detail
    match outcome.result with
    | .error e => { outcome with result := .error e }
    | .ok event =>
      let rest := handler env details
      ⟨outcome.putRules ++ rest.putRules, outcome.putTargets ++ rest.putTargets,
        rest.result.map (event.dict :: ·)⟩

-- ---------------------------------------------------------------------------
-- The rules
-- ---------------------------------------------------------------------------

/-- The rules of the default bus by name, and the target of each. -/
structure EventBridge where
  rules : String → Option PutRule
  targets : String → Option PutTargets

/-- One delivery of the batch. EventBridge keeps what it accepts. -/
def deliver (env : Environment) (details : List Dict) (bus : EventBridge) : EventBridge where
  rules := Upserts.upserts PutRule.name bus.rules
    ((handler env details).putRules.filter env.putRule)
  targets := Upserts.upserts PutTargets.rule bus.targets
    ((handler env details).putTargets.filter env.putTargets)

/-- The rule and the target of a DAG whose schedule translates, where EventBridge accepts them. -/
def ownRule (env : Environment) (dagId : String) : Option (PutRule × PutTargets) :=
  match env.getDagById dagId with
  | .error _ => none
  | .ok dag =>
    match fromAirflowScheduleToAwsCron dag.normalizedScheduleInterval with
    | .error _ => none
    | .ok expression =>
      let rule := dag.putRule dagId expression (env.isPaused dag.dagId)
      let targets := dag.putTargets env
      if env.putRule rule ∧ env.putTargets targets then some (rule, targets) else none

/-- After the first delivery and after every other one, each DAG of the batch that can have a
rule has it. -/
def UpsertsAll (env : Environment) (details : List Dict) : Prop :=
  ∀ detail ∈ details, ∀ dagId, ParsesFor detail dagId → ∀ own, ownRule env dagId = some own →
    ∀ (bus : EventBridge) (redeliveries : Nat),
      let bus' := (deliver env details)^[redeliveries + 1] bus
      bus'.rules dagId = some own.1 ∧ bus'.targets dagId = some own.2

/-- Each DAG that can have a rule has a message with none before it for a DAG that cannot. -/
def AheadOfRaising (env : Environment) (details : List Dict) : Prop :=
  ∀ detail ∈ details, ∀ dagId, ParsesFor detail dagId → (ownRule env dagId).isSome →
    ∃ ahead message behind, details = ahead ++ message :: behind ∧ ParsesFor message dagId ∧
      ∀ other ∈ ahead, ∀ otherId, ParsesFor other otherId → (ownRule env otherId).isSome

-- ---------------------------------------------------------------------------
-- What a message puts
-- ---------------------------------------------------------------------------

def raises (env : Environment) (detail : Dict) : Bool :=
  match (actOnEvent env detail).result with
  | .error _ => true
  | .ok _ => false

section Messages

variable {env : Environment} {detail : Dict} {details : List Dict} {dagId : String}
  {own : PutRule × PutTargets}

theorem getDagById_dagId {dag : Dag} (h : env.getDagById dagId = .ok dag) : dag.dagId = dagId := by
  unfold Environment.getDagById at h
  split at h
  · rename_i dag' hfind
    obtain rfl := Except.ok.inj h
    simpa using List.find?_some hfind
  · cases h

/-- What upserting a DAG puts, and whether it raises. -/
theorem upsert_own (env : Environment) (dagId : String) :
    (∀ own, ownRule env dagId = some own → ∃ event,
      upsertNewCronSchedule env dagId = ⟨[own.1], [own.2], .ok event⟩ ∧
        env.putRule own.1 ∧ env.putTargets own.2) ∧
    (ownRule env dagId = none → ∃ e, (upsertNewCronSchedule env dagId).result = .error e) := by
  unfold ownRule upsertNewCronSchedule
  cases env.getDagById dagId with
  | error e => exact ⟨fun own h => (by cases h), fun _ => ⟨_, rfl⟩⟩
  | ok dag =>
    dsimp only
    cases fromAirflowScheduleToAwsCron dag.normalizedScheduleInterval with
    | error e => exact ⟨fun own h => (by cases h), fun _ => ⟨_, rfl⟩⟩
    | ok expression =>
      dsimp only
      by_cases hrule : env.putRule (dag.putRule dagId expression (env.isPaused dag.dagId)) = true
      · by_cases htargets : env.putTargets (dag.putTargets env) = true
        · simp [hrule, htargets]
        · simp [hrule, htargets]
      · simp [hrule]

/-- Rules and targets carry the id of their DAG. -/
theorem upsert_names (env : Environment) (dagId : String) :
    (∀ rule ∈ (upsertNewCronSchedule env dagId).putRules, rule.name = dagId) ∧
      ∀ targets ∈ (upsertNewCronSchedule env dagId).putTargets, targets.rule = dagId := by
  unfold upsertNewCronSchedule
  cases hdag : env.getDagById dagId with
  | error e => simp
  | ok dag =>
    have hid := getDagById_dagId hdag
    dsimp only
    cases fromAirflowScheduleToAwsCron dag.normalizedScheduleInterval with
    | error e => simp
    | ok expression =>
      dsimp only
      split_ifs <;> simp [Dag.putRule, Dag.putTargets, hid]

theorem parses_cases (detail : Dict) :
    (∃ dagId, ParsesFor detail dagId) ∨ ¬∃ parsed, dagCreatedEvent.parse detail = .ok parsed := by
  by_cases h : ∃ parsed, dagCreatedEvent.parse detail = .ok parsed
  · exact .inl (parse_dagCreated h.choose_spec)
  · exact .inr h

theorem raises_iff :
    raises env detail = true ↔ ∃ dagId, ParsesFor detail dagId ∧ ownRule env dagId = none := by
  rcases parses_cases detail with ⟨dagId, hfor⟩ | hnot
  · have hact := @actOnEvent_parsed env _ _ hfor
    obtain ⟨hsome, hnone⟩ := upsert_own env dagId
    rw [raises, hact]
    cases hown : ownRule env dagId with
    | none =>
      obtain ⟨e, he⟩ := hnone hown
      rw [he]
      exact iff_of_true rfl ⟨dagId, hfor, hown⟩
    | some own =>
      obtain ⟨event, he, -⟩ := hsome own hown
      rw [he]
      refine iff_of_false Bool.false_ne_true ?_
      rintro ⟨d, hd, hnone⟩
      obtain rfl := hfor.unique hd
      rw [hown] at hnone
      cases hnone
  · rw [raises, actOnEvent_refused hnot]
    refine iff_of_false Bool.false_ne_true ?_
    rintro ⟨d, ⟨parsed, hparse, -⟩, -⟩
    exact hnot ⟨parsed, hparse⟩

/-- The rules that a message puts are those of its DAG. -/
theorem actOnEvent_puts :
    (∀ rule ∈ (actOnEvent env detail).putRules,
      ∃ dagId, ParsesFor detail dagId ∧ rule ∈ (upsertNewCronSchedule env dagId).putRules) ∧
    ∀ targets ∈ (actOnEvent env detail).putTargets,
      ∃ dagId, ParsesFor detail dagId ∧ targets ∈ (upsertNewCronSchedule env dagId).putTargets := by
  rcases parses_cases detail with ⟨dagId, hfor⟩ | hnot
  · rw [actOnEvent_parsed hfor]
    exact ⟨fun rule hrule => ⟨dagId, hfor, hrule⟩, fun targets h => ⟨dagId, hfor, h⟩⟩
  · rw [actOnEvent_refused hnot]
    simp

theorem handler_puts (env : Environment) (details : List Dict) :
    (handler env details).putRules =
      (Upserts.attempted (raises env) details).flatMap (fun d => (actOnEvent env d).putRules) ∧
    (handler env details).putTargets =
      (Upserts.attempted (raises env) details).flatMap
        (fun d => (actOnEvent env d).putTargets) := by
  induction details with
  | nil => exact ⟨rfl, rfl⟩
  | cons detail details ih =>
    rw [Upserts.attempted, handler]
    cases hresult : (actOnEvent env detail).result with
    | error e =>
      have hraises : raises env detail = true := by rw [raises, hresult]
      simp [hraises]
    | ok event =>
      have hraises : raises env detail = false := by rw [raises, hresult]
      simp [hraises, ih.1, ih.2]

-- ---------------------------------------------------------------------------
-- What a batch puts
-- ---------------------------------------------------------------------------

/-- A message that is reached writes the rule and the target of its DAG, and nothing overwrites
them. -/
theorem deliver_reached {message : Dict} (hfor : ParsesFor message dagId)
    (hown : ownRule env dagId = some own)
    (hreached : message ∈ Upserts.attempted (raises env) details) (bus : EventBridge) :
    (deliver env details bus).rules dagId = some own.1 ∧
      (deliver env details bus).targets dagId = some own.2 := by
  obtain ⟨event, hupsert, hrule, htargets⟩ := (upsert_own env dagId).1 own hown
  obtain ⟨hnames, hnames'⟩ := upsert_names env dagId
  have hact := (@actOnEvent_parsed env _ _ hfor).trans hupsert
  obtain ⟨hrules, htargetss⟩ := handler_puts env details
  constructor
  · refine Upserts.upserts_agreed ?_ (hnames own.1 (by simp [hupsert])) fun rule hr hid => ?_
    · rw [List.mem_filter, hrules, List.mem_flatMap]
      exact ⟨⟨message, hreached, by simp [hact]⟩, hrule⟩
    · rw [List.mem_filter, hrules, List.mem_flatMap] at hr
      obtain ⟨⟨other, -, hin⟩, -⟩ := hr
      obtain ⟨d, -, hin⟩ := actOnEvent_puts.1 rule hin
      obtain rfl := ((upsert_names env d).1 rule hin).symm.trans hid
      simpa [hupsert] using hin
  · refine Upserts.upserts_agreed ?_ (hnames' own.2 (by simp [hupsert])) fun targets ht hid => ?_
    · rw [List.mem_filter, htargetss, List.mem_flatMap]
      exact ⟨⟨message, hreached, by simp [hact]⟩, htargets⟩
    · rw [List.mem_filter, htargetss, List.mem_flatMap] at ht
      obtain ⟨⟨other, -, hin⟩, -⟩ := ht
      obtain ⟨d, -, hin⟩ := actOnEvent_puts.2 targets hin
      obtain rfl := ((upsert_names env d).2 targets hin).symm.trans hid
      simpa [hupsert] using hin

def emptyBus : EventBridge := ⟨fun _ => none, fun _ => none⟩

/-- A rule on an empty bus was put by a message of its DAG. -/
theorem reached_of_deliver {rule : PutRule}
    (h : (deliver env details emptyBus).rules dagId = some rule) :
    ∃ message ∈ Upserts.attempted (raises env) details, ParsesFor message dagId := by
  obtain ⟨rule, hrule, hid⟩ := Upserts.exists_of_upserts h
  rw [List.mem_filter, (handler_puts env details).1, List.mem_flatMap] at hrule
  obtain ⟨⟨message, hreached, hin⟩, -⟩ := hrule
  obtain ⟨d, hfor, hin⟩ := actOnEvent_puts.1 rule hin
  obtain rfl := ((upsert_names env d).1 rule hin).symm.trans hid
  exact ⟨message, hreached, hfor⟩

theorem reached_iff {message : Dict} :
    message ∈ Upserts.attempted (raises env) details ↔
      ∃ ahead behind, details = ahead ++ message :: behind ∧
        ∀ other ∈ ahead, ∀ otherId, ParsesFor other otherId → (ownRule env otherId).isSome := by
  rw [Upserts.mem_attempted]
  refine exists_congr fun ahead => exists_congr fun behind => and_congr_right fun _ => ?_
  refine forall₂_congr fun other _ => ?_
  rw [← Bool.not_eq_true, raises_iff]
  push Not
  refine forall_congr' fun d => forall_congr' fun _ => ?_
  rw [Option.isSome_iff_ne_none]

/-- The handler puts every rule it can where none stands behind a DAG that raises. -/
theorem upsertsAll_iff (env : Environment) (details : List Dict) :
    UpsertsAll env details ↔ AheadOfRaising env details := by
  constructor
  · intro h detail hdetail dagId hfor hown
    obtain ⟨own, hown⟩ := Option.isSome_iff_exists.mp hown
    obtain ⟨hrule, -⟩ := h detail hdetail dagId hfor own hown emptyBus 0
    obtain ⟨message, hreached, hfor⟩ := reached_of_deliver hrule
    obtain ⟨ahead, behind, hdetails, hahead⟩ := reached_iff.mp hreached
    exact ⟨ahead, message, behind, hdetails, hfor, hahead⟩
  · intro h detail hdetail dagId hfor own hown bus redeliveries
    obtain ⟨ahead, message, behind, hdetails, hfor, hahead⟩ :=
      h detail hdetail dagId hfor (by simp [hown])
    have hreached : message ∈ Upserts.attempted (raises env) details :=
      reached_iff.mpr ⟨ahead, behind, hdetails, hahead⟩
    simp only [Function.iterate_succ_apply']
    exact deliver_reached hfor hown hreached _

end Messages

-- ---------------------------------------------------------------------------
-- A DAG without a schedule
-- ---------------------------------------------------------------------------

/-- The DAG `manual` has no schedule. -/
def eveningAndManual : Environment :=
  { evening with dagbag := ⟨"manual", .other "None"⟩ :: evening.dagbag }

def created (dagId : String) : Dict := [("event_type", .str "dag_created"), ("dag_id", .str dagId)]

theorem created_parsesFor (dagId : String) : ParsesFor (created dagId) dagId := ⟨_, rfl, rfl⟩

def manualFirst : List Dict := [created "manual", created "etl"]

theorem handler_manualFirst : (handler eveningAndManual manualFirst).putRules = [] := by
  have hupsert : upsertNewCronSchedule eveningAndManual "manual" = ⟨[], [], .error (.python
    (.valueError "Currently supporting only schedule intervals for cron string type, got "
      (.str "None") " instead"))⟩ := rfl
  rw [manualFirst, handler, actOnEvent_parsed (created_parsesFor "manual"), hupsert]

/-- Behind the message of `manual`, `etl` never gets its rule. -/
theorem manual_holds_back_etl :
    (ownRule eveningAndManual "etl").isSome ∧ ¬UpsertsAll eveningAndManual manualFirst ∧
      ∀ deliveries,
        ((deliver eveningAndManual manualFirst)^[deliveries] emptyBus).rules "etl" = none := by
  have hnone : ∀ deliveries,
      ((deliver eveningAndManual manualFirst)^[deliveries] emptyBus).rules "etl" = none := by
    intro deliveries
    induction deliveries with
    | zero => rfl
    | succ n ih =>
      rw [Function.iterate_succ_apply', deliver, handler_manualFirst]
      exact ih
  have hown : (ownRule eveningAndManual "etl").isSome := rfl
  refine ⟨hown, fun h => ?_, hnone⟩
  obtain ⟨own, hown⟩ := Option.isSome_iff_exists.mp hown
  have hrule := (h (created "etl") (by simp [manualFirst]) "etl" (created_parsesFor "etl") own hown
    emptyBus 0).1
  rw [hnone] at hrule
  cases hrule

end Beeflow.DagSchedules
