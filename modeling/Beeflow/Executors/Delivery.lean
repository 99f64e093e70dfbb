import Beeflow.Executors.Name
import Beeflow.Lib.Machine

/-!
# Starting executions

`lambda_executor.handler` and `batch_executor.handler` start one Step
Functions execution for each event of an SQS batch, in order, and stop at the
first exception. An execution that is closed under the event's name raises
one, so the events behind it wait for the redelivery, which meets the same
execution again.
-/

namespace Beeflow.Executors

inductive ExecutionStatus
  | running | closed
  deriving DecidableEq, Repr

abbrev Executions := String → Option ExecutionStatus

inductive SfnError
  | executionAlreadyExists
  deriving DecidableEq, Repr

/-- The call, and whether it made an execution. The input is a function of the
event, so an execution running under the name has the same input. -/
def startExecution (executions : Executions) (name : String) :
    Except SfnError (Executions × Bool) :=
  match executions name with
  | none => .ok (Function.update executions name (some .running), true)
  | some .running => .ok (executions, false)
  | some .closed => .error .executionAlreadyExists

/-- What a delivery of a batch leaves: the executions, the events it made an
execution for, and the exception that ended the handler. -/
structure Delivery where
  executions : Executions
  started : List TaskInstanceQueued
  raised : Option SfnError

def triggerEach
    (trigger : Executions → TaskInstanceQueued → Except SfnError (Executions × Bool)) :
    Executions → List TaskInstanceQueued → Delivery
  | executions, [] => ⟨executions, [], none⟩
  | executions, event :: events =>
    match trigger executions event with
    | .error e => ⟨executions, [], some e⟩
    | .ok (executions', created) =>
      let rest := triggerEach trigger executions' events
      { rest with started := if created then event :: rest.started else rest.started }

/-- The executions of these names that are running close. -/
def closeAll (executions : Executions) (names : List String) : Executions := fun name =>
  if name ∈ names ∧ executions name = some .running then some .closed else executions name

/-- The loop, and the names whose executions close in front of each of its turns. -/
def triggerEachClosing
    (trigger : Executions → TaskInstanceQueued → Except SfnError (Executions × Bool)) :
    Executions → List (List String × TaskInstanceQueued) → Delivery
  | executions, [] => ⟨executions, [], none⟩
  | executions, (names, event) :: turns =>
    match trigger (closeAll executions names) event with
    | .error e => ⟨closeAll executions names, [], some e⟩
    | .ok (executions', created) =>
      let rest := triggerEachClosing trigger executions' turns
      { rest with started := if created then event :: rest.started else rest.started }

theorem closeAll_nil (executions : Executions) : closeAll executions [] = executions := by
  funext name
  simp [closeAll]

theorem triggerEach_eq
    (trigger : Executions → TaskInstanceQueued → Except SfnError (Executions × Bool))
    (executions : Executions) (events : List TaskInstanceQueued) :
    triggerEach trigger executions events =
      triggerEachClosing trigger executions (events.map fun event => ([], event)) := by
  induction events generalizing executions with
  | nil => rfl
  | cons event events ih =>
    rw [List.map_cons, triggerEach, triggerEachClosing, closeAll_nil]
    cases trigger executions event with
    | error e => rfl
    | ok result => simp only [ih]

namespace LambdaExecutor

def triggerStepFunctions (sha256 : List UInt8 → String) (executions : Executions)
    (event : TaskInstanceQueued) : Except SfnError (Executions × Bool) :=
  startExecution executions (fromTiQueuedEvent sha256 event)

def handler (sha256 : List UInt8 → String) : Executions → List TaskInstanceQueued → Delivery :=
  triggerEach (triggerStepFunctions sha256)

end LambdaExecutor

namespace BatchExecutor

/-- `backoff.on_exception` around a call that has no effect when it raises;
`retries` is how many further calls fit in `max_time`. -/
def onException (call : Unit → Except ε α) : Nat → Except ε α
  | 0 => call ()
  | retries + 1 =>
    match call () with
    | .ok a => .ok a
    | .error _ => onException call retries

def triggerStepFunctions (sha256 : List UInt8 → String) (retries : Nat) (executions : Executions)
    (event : TaskInstanceQueued) : Except SfnError (Executions × Bool) :=
  onException (fun _ => startExecution executions (fromTiQueuedEvent sha256 event)) retries

def handler (sha256 : List UInt8 → String) (retries : Nat) :
    Executions → List TaskInstanceQueued → Delivery :=
  triggerEach (triggerStepFunctions sha256 retries)

theorem onException_eq (call : Unit → Except ε α) (retries : Nat) :
    onException call retries = call () := by
  induction retries with
  | zero => rfl
  | succ retries ih =>
    unfold onException
    rw [ih]
    cases call () with
    | ok a => rfl
    | error e => rfl

theorem triggerStepFunctions_eq (sha256 : List UInt8 → String) (retries : Nat) :
    triggerStepFunctions sha256 retries = LambdaExecutor.triggerStepFunctions sha256 := by
  funext executions event
  exact onException_eq _ retries

theorem handler_eq (sha256 : List UInt8 → String) (retries : Nat) :
    handler sha256 retries = LambdaExecutor.handler sha256 := by
  rw [handler, LambdaExecutor.handler, triggerStepFunctions_eq]

end BatchExecutor

-- ---------------------------------------------------------------------------
-- One delivery
-- ---------------------------------------------------------------------------

section Delivery

variable (sha256 : List UInt8 → String)

def DistinctNames (events : List TaskInstanceQueued) : Prop :=
  ∀ a ∈ events, ∀ b ∈ events, fromTiQueuedEvent sha256 a = fromTiQueuedEvent sha256 b → a = b

/-- The events of the batch before the first one whose execution is closed. -/
def beforeClosed (executions : Executions) (events : List TaskInstanceQueued) :
    List TaskInstanceQueued :=
  events.takeWhile fun a => executions (fromTiQueuedEvent sha256 a) ≠ some .closed

/-- The same, where executions close in front of the turns. -/
def beforeClosing : Executions → List (List String × TaskInstanceQueued) → List TaskInstanceQueued
  | _, [] => []
  | executions, (names, event) :: turns =>
    let name := fromTiQueuedEvent sha256 event
    let executions := closeAll executions names
    if executions name = some .closed then []
    else event :: beforeClosing (Function.update executions name (some .running)) turns

theorem beforeClosing_subset {executions : Executions}
    {turns : List (List String × TaskInstanceQueued)} :
    beforeClosing sha256 executions turns ⊆ turns.map (·.2) := by
  induction turns generalizing executions with
  | nil => exact List.nil_subset _
  | cons turn turns ih =>
    obtain ⟨names, event⟩ := turn
    rw [beforeClosing, List.map_cons]
    dsimp only
    split_ifs with hclosed
    · exact List.nil_subset _
    · exact List.cons_subset_cons _ ih

theorem update_eq_none {executions : Executions} {name : String} {status : ExecutionStatus}
    {n : String} : Function.update executions name (some status) n = none ↔
      n ≠ name ∧ executions n = none := by
  by_cases h : n = name <;> simp [h]

theorem beforeClosed_update {executions : Executions} {name : String}
    (h : executions name = none) (events : List TaskInstanceQueued) :
    beforeClosed sha256 (Function.update executions name (some .running)) events =
      beforeClosed sha256 executions events := by
  unfold beforeClosed
  congr 1
  funext a
  by_cases ha : fromTiQueuedEvent sha256 a = name
  · simp [ha, h]
  · simp [Function.update_of_ne ha]

theorem beforeClosed_cons {sha256 : List UInt8 → String} {executions : Executions}
    {event : TaskInstanceQueued} {events : List TaskInstanceQueued}
    (h : executions (fromTiQueuedEvent sha256 event) ≠ some .closed) :
    beforeClosed sha256 executions (event :: events) =
      event :: beforeClosed sha256 executions events :=
  List.takeWhile_cons_of_pos (decide_eq_true h)

theorem beforeClosing_eq (executions : Executions) (events : List TaskInstanceQueued) :
    beforeClosing sha256 executions (events.map fun event => ([], event)) =
      beforeClosed sha256 executions events := by
  induction events generalizing executions with
  | nil => rfl
  | cons event events ih =>
    rw [List.map_cons, beforeClosing, closeAll_nil]
    cases hname : executions (fromTiQueuedEvent sha256 event) with
    | none =>
      rw [if_neg (by simp), ih, beforeClosed_update sha256 hname,
        beforeClosed_cons (by simp [hname])]
    | some status =>
      cases status with
      | running =>
        have hsame : Function.update executions (fromTiQueuedEvent sha256 event)
            (some .running) = executions := Function.update_eq_self_iff.mpr hname.symm
        rw [if_neg (by simp), hsame, ih, beforeClosed_cons (by simp [hname])]
      | closed => simp [beforeClosed, hname]

section Handler

variable {sha256} {executions : Executions} {event : TaskInstanceQueued}
  {events : List TaskInstanceQueued}

theorem handler_none (h : executions (fromTiQueuedEvent sha256 event) = none) :
    LambdaExecutor.handler sha256 executions (event :: events) =
      let rest := LambdaExecutor.handler sha256
        (Function.update executions (fromTiQueuedEvent sha256 event) (some .running)) events
      ⟨rest.executions, event :: rest.started, rest.raised⟩ := by
  simp [LambdaExecutor.handler, triggerEach, LambdaExecutor.triggerStepFunctions, startExecution, h]

theorem handler_running (h : executions (fromTiQueuedEvent sha256 event) = some .running) :
    LambdaExecutor.handler sha256 executions (event :: events) =
      LambdaExecutor.handler sha256 executions events := by
  simp [LambdaExecutor.handler, triggerEach, LambdaExecutor.triggerStepFunctions, startExecution, h]

theorem handler_closed (h : executions (fromTiQueuedEvent sha256 event) = some .closed) :
    LambdaExecutor.handler sha256 executions (event :: events) =
      ⟨executions, [], some .executionAlreadyExists⟩ := by
  simp [LambdaExecutor.handler, triggerEach, LambdaExecutor.triggerStepFunctions, startExecution, h]

end Handler

section Closing

variable {sha256} {executions : Executions} {turns : List (List String × TaskInstanceQueued)}

theorem closeAll_eq_none {names : List String} {name : String} :
    closeAll executions names name = none ↔ executions name = none := by
  unfold closeAll
  split_ifs with hclose
  · simp [hclose.2]
  · rfl

/-- The loop starts the events without an execution that stand before the first one whose
execution has closed when the loop comes to it. -/
theorem mem_startedClosing (hnames : DistinctNames sha256 (turns.map (·.2)))
    (e : TaskInstanceQueued) :
    e ∈ (triggerEachClosing (LambdaExecutor.triggerStepFunctions sha256) executions turns).started ↔
      executions (fromTiQueuedEvent sha256 e) = none ∧
        e ∈ beforeClosing sha256 executions turns := by
  induction turns generalizing executions with
  | nil => simp [triggerEachClosing, beforeClosing]
  | cons turn turns ih =>
    obtain ⟨names, a⟩ := turn
    have hnames' : DistinctNames sha256 (turns.map (·.2)) := fun b hb c hc =>
      hnames b (List.mem_cons_of_mem _ hb) c (List.mem_cons_of_mem _ hc)
    rw [← @closeAll_eq_none executions names, triggerEachClosing, beforeClosing,
      LambdaExecutor.triggerStepFunctions, startExecution]
    generalize closeAll executions names = x
    dsimp only
    cases ha : x (fromTiQueuedEvent sha256 a) with
    | none =>
      simp only [reduceCtorEq, if_true, if_false, List.mem_cons, ih hnames']
      constructor
      · rintro (rfl | ⟨hnone, hmem⟩)
        · exact ⟨ha, .inl rfl⟩
        · exact ⟨(update_eq_none.mp hnone).2, .inr hmem⟩
      · rintro ⟨hnone, rfl | hmem⟩
        · exact .inl rfl
        · by_cases hname : fromTiQueuedEvent sha256 e = fromTiQueuedEvent sha256 a
          · have hin : e ∈ turns.map (·.2) := beforeClosing_subset sha256 hmem
            exact .inl (hnames e (List.mem_cons_of_mem _ hin) a List.mem_cons_self hname)
          · exact .inr ⟨update_eq_none.mpr ⟨hname, hnone⟩, hmem⟩
    | some status =>
      cases status with
      | running =>
        have hsame : Function.update x (fromTiQueuedEvent sha256 a) (some .running) = x :=
          Function.update_eq_self_iff.mpr ha.symm
        have hopen : ¬some ExecutionStatus.running = some .closed := by simp
        simp only [Bool.false_eq_true, if_neg hopen, if_false, hsame, List.mem_cons, ih hnames']
        constructor
        · rintro ⟨hnone, hmem⟩
          exact ⟨hnone, .inr hmem⟩
        · rintro ⟨hnone, rfl | hmem⟩
          · cases ha.symm.trans hnone
          · exact ⟨hnone, hmem⟩
      | closed => simp

/-- So both executors start all of them exactly where none is behind a closed execution. -/
theorem startsClosing_iff (retries : Nat) (hnames : DistinctNames sha256 (turns.map (·.2)))
    {trigger : Executions → TaskInstanceQueued → Except SfnError (Executions × Bool)}
    (htrigger : trigger = LambdaExecutor.triggerStepFunctions sha256 ∨
      trigger = BatchExecutor.triggerStepFunctions sha256 retries) :
    (∀ e ∈ turns.map (·.2), executions (fromTiQueuedEvent sha256 e) = none →
        e ∈ (triggerEachClosing trigger executions turns).started) ↔
      ∀ e ∈ turns.map (·.2), executions (fromTiQueuedEvent sha256 e) = none →
        e ∈ beforeClosing sha256 executions turns := by
  rw [BatchExecutor.triggerStepFunctions_eq, or_self] at htrigger
  subst htrigger
  constructor
  · intro h e he hnone
    exact ((mem_startedClosing hnames e).mp (h e he hnone)).2
  · intro h e he hnone
    exact (mem_startedClosing hnames e).mpr ⟨hnone, h e he hnone⟩

end Closing

/-- The handler starts the events without an execution that no closed one stands before. -/
theorem mem_started {executions : Executions} {events : List TaskInstanceQueued}
    (hnames : DistinctNames sha256 events) (e : TaskInstanceQueued) :
    e ∈ (LambdaExecutor.handler sha256 executions events).started ↔
      executions (fromTiQueuedEvent sha256 e) = none ∧
        e ∈ beforeClosed sha256 executions events := by
  have hsame : (events.map fun event => (([] : List String), event)).map (·.2) = events := by
    simp [Function.comp_def]
  rw [LambdaExecutor.handler, triggerEach_eq, ← beforeClosing_eq]
  exact mem_startedClosing (hsame.symm ▸ hnames) e

/-- What a delivery starts had no execution, and has one afterwards; no execution goes away. -/
structure Starts (executions : Executions) (d : Delivery) : Prop where
  kept : ∀ name, executions name ≠ none → d.executions name = executions name
  fresh : ∀ e ∈ d.started, executions (fromTiQueuedEvent sha256 e) = none
  exist : ∀ e ∈ d.started, d.executions (fromTiQueuedEvent sha256 e) ≠ none
  nodup : (d.started.map (fromTiQueuedEvent sha256)).Nodup

theorem Starts.nothing (executions : Executions) (raised : Option SfnError) :
    Starts sha256 executions ⟨executions, [], raised⟩ :=
  ⟨fun _ _ => rfl, by simp, by simp, List.nodup_nil⟩

theorem Starts.cons {sha256 : List UInt8 → String} {executions : Executions}
    {event : TaskInstanceQueued} {d : Delivery}
    (hnone : executions (fromTiQueuedEvent sha256 event) = none)
    (h : Starts sha256
      (Function.update executions (fromTiQueuedEvent sha256 event) (some .running)) d) :
    Starts sha256 executions ⟨d.executions, event :: d.started, d.raised⟩ := by
  refine ⟨fun name hname => ?_, ?_, ?_, ?_⟩
  · have hne : name ≠ fromTiQueuedEvent sha256 event := by
      rintro rfl
      exact hname hnone
    have hkept := h.kept name (by rwa [Function.update_of_ne hne])
    rwa [Function.update_of_ne hne] at hkept
  · exact List.forall_mem_cons.mpr ⟨hnone, fun e he => (update_eq_none.mp (h.fresh e he)).2⟩
  · refine List.forall_mem_cons.mpr ⟨?_, h.exist⟩
    have hself := h.kept (fromTiQueuedEvent sha256 event) (by simp)
    simp [hself]
  · rw [List.map_cons, List.nodup_cons]
    refine ⟨fun hmem => ?_, h.nodup⟩
    obtain ⟨e, he, hname⟩ := List.mem_map.mp hmem
    exact (update_eq_none.mp (h.fresh e he)).1 hname

theorem handler_starts (executions : Executions) (events : List TaskInstanceQueued) :
    Starts sha256 executions (LambdaExecutor.handler sha256 executions events) := by
  induction events generalizing executions with
  | nil => exact .nothing sha256 executions none
  | cons a events ih =>
    cases ha : executions (fromTiQueuedEvent sha256 a) with
    | none =>
      rw [handler_none ha]
      exact .cons ha (ih _)
    | some status =>
      cases status with
      | running =>
        rw [handler_running ha]
        exact ih executions
      | closed =>
        rw [handler_closed ha]
        exact .nothing sha256 executions _

end Delivery

-- ---------------------------------------------------------------------------
-- Deliveries and redeliveries
-- ---------------------------------------------------------------------------

structure ExecutorState where
  executions : Executions
  log : List TaskInstanceQueued

inductive ExecutorLabel
  | deliver (events : List TaskInstanceQueued)
  | close (name : String)

def executorStep (handler : Executions → List TaskInstanceQueued → Delivery) (s : ExecutorState) :
    ExecutorLabel → Option ExecutorState
  | .deliver events =>
    let d := handler s.executions events
    some ⟨d.executions, s.log ++ d.started⟩
  | .close name =>
    if s.executions name = some .running then
      some { s with executions := Function.update s.executions name (some .closed) }
    else none

/-- The events of the log have executions, different ones, and had none at the start. -/
structure Logged (sha256 : List UInt8 → String) (start : Executions) (s : ExecutorState) :
    Prop where
  kept : ∀ name, start name ≠ none → s.executions name ≠ none
  fresh : ∀ e ∈ s.log, start (fromTiQueuedEvent sha256 e) = none
  exist : ∀ e ∈ s.log, s.executions (fromTiQueuedEvent sha256 e) ≠ none
  nodup : (s.log.map (fromTiQueuedEvent sha256)).Nodup

theorem Logged.deliver {sha256 : List UInt8 → String} {start : Executions} {s : ExecutorState}
    (h : Logged sha256 start s) {d : Delivery} (hd : Starts sha256 s.executions d) :
    Logged sha256 start ⟨d.executions, s.log ++ d.started⟩ := by
  have hkept (name : String) (hname : s.executions name ≠ none) : d.executions name ≠ none := by
    rwa [hd.kept name hname]
  refine ⟨fun name hname => hkept name (h.kept name hname), ?_, ?_, ?_⟩
  · refine List.forall_mem_append.mpr ⟨h.fresh, fun e he => ?_⟩
    by_contra hne
    exact h.kept _ hne (hd.fresh e he)
  · exact List.forall_mem_append.mpr ⟨fun e he => hkept _ (h.exist e he), hd.exist⟩
  · rw [List.map_append, List.nodup_append]
    refine ⟨h.nodup, hd.nodup, fun a ha b hb hab => ?_⟩
    obtain ⟨e, he, rfl⟩ := List.mem_map.mp ha
    obtain ⟨e', he', rfl⟩ := List.mem_map.mp hb
    exact h.exist e he (hab ▸ hd.fresh e' he')

theorem Logged.step {sha256 : List UInt8 → String} {start : Executions} {s s' : ExecutorState}
    (h : Logged sha256 start s) {l : ExecutorLabel}
    (hs : executorStep (LambdaExecutor.handler sha256) s l = some s') :
    Logged sha256 start s' := by
  cases l with
  | deliver events =>
    obtain rfl := Option.some.inj hs
    exact h.deliver (handler_starts sha256 s.executions events)
  | close name =>
    simp only [executorStep] at hs
    split_ifs at hs with hrun
    obtain rfl := Option.some.inj hs
    have hkept (n : String) (hn : s.executions n ≠ none) :
        Function.update s.executions name (some .closed) n ≠ none :=
      fun he => hn (update_eq_none.mp he).2
    exact ⟨fun n hn => hkept n (h.kept n hn), h.fresh, fun e he => hkept _ (h.exist e he), h.nodup⟩

-- ---------------------------------------------------------------------------
-- The contract
-- ---------------------------------------------------------------------------

section Contract

variable (sha256 : List UInt8 → String)
  (handler : Executions → List TaskInstanceQueued → Delivery)
  (executions : Executions) (events : List TaskInstanceQueued)

/-- The delivery starts every event that has no execution yet, and no event is
started twice, or again, in any run of deliveries that begins like this. -/
structure StartsEachOnce : Prop where
  starts : ∀ e ∈ events, executions (fromTiQueuedEvent sha256 e) = none →
    e ∈ (handler executions events).started
  once : ∀ labels s, Machine.run (executorStep handler) ⟨executions, []⟩ labels = some s →
    s.log.Nodup ∧ ∀ e ∈ s.log, executions (fromTiQueuedEvent sha256 e) = none

def NoneBehindClosed : Prop :=
  ∀ e ∈ events, executions (fromTiQueuedEvent sha256 e) = none →
    e ∈ beforeClosed sha256 executions events

end Contract

theorem handler_once (sha256 : List UInt8 → String) (executions : Executions)
    {labels : List ExecutorLabel} {s : ExecutorState}
    (hr : Machine.run (executorStep (LambdaExecutor.handler sha256)) ⟨executions, []⟩ labels =
      some s) :
    s.log.Nodup ∧ ∀ e ∈ s.log, executions (fromTiQueuedEvent sha256 e) = none := by
  have hstart : Logged sha256 executions ⟨executions, []⟩ :=
    ⟨fun _ h => h, by simp, by simp, List.nodup_nil⟩
  have h := Machine.run_invariant_all (fun _ _ _ h hs => Logged.step h hs) hstart hr
  exact ⟨h.nodup.of_map _, h.fresh⟩

theorem startsEachOnce_iff {sha256 : List UInt8 → String} {executions : Executions}
    {events : List TaskInstanceQueued} (hnames : DistinctNames sha256 events) :
    StartsEachOnce sha256 (LambdaExecutor.handler sha256) executions events ↔
      NoneBehindClosed sha256 executions events := by
  constructor
  · intro h e he hnone
    exact ((mem_started sha256 hnames e).mp (h.starts e he hnone)).2
  · intro h
    refine ⟨fun e he hnone => ?_, fun labels s hr => handler_once sha256 executions hr⟩
    exact (mem_started sha256 hnames e).mpr ⟨hnone, h e he hnone⟩

/-- Both executors do what is expected of a batch exactly where no event without an
execution is behind one whose execution is closed. -/
theorem executors_start_iff (sha256 : List UInt8 → String) (executions : Executions)
    (events : List TaskInstanceQueued) (hnames : DistinctNames sha256 events) :
    (StartsEachOnce sha256 (LambdaExecutor.handler sha256) executions events ↔
        NoneBehindClosed sha256 executions events) ∧
      ∀ retries, StartsEachOnce sha256 (BatchExecutor.handler sha256 retries) executions events ↔
        NoneBehindClosed sha256 executions events := by
  refine ⟨startsEachOnce_iff hnames, fun retries => ?_⟩
  rw [BatchExecutor.handler_eq]
  exact startsEachOnce_iff hnames

def closedFirstTry : Executions :=
  Function.update (fun _ => none) (fromTiQueuedEvent sha256Table (mappedEvent 1 1)) (some .closed)

theorem executors_start_iff_tries :
    (StartsEachOnce sha256Table (LambdaExecutor.handler sha256Table) closedFirstTry
        [mappedEvent 1 2, mappedEvent 1 1] ↔
        NoneBehindClosed sha256Table closedFirstTry [mappedEvent 1 2, mappedEvent 1 1]) ∧
      ∀ retries, StartsEachOnce sha256Table (BatchExecutor.handler sha256Table retries)
          closedFirstTry [mappedEvent 1 2, mappedEvent 1 1] ↔
        NoneBehindClosed sha256Table closedFirstTry [mappedEvent 1 2, mappedEvent 1 1] :=
  executors_start_iff sha256Table closedFirstTry _ (by unfold DistinctNames; decide)

/-- The closed first try keeps both executors from the second. -/
theorem closedFirstTry_blocks :
    ¬StartsEachOnce sha256Table (LambdaExecutor.handler sha256Table) closedFirstTry
        [mappedEvent 1 1, mappedEvent 1 2] ∧
      ¬StartsEachOnce sha256Table (BatchExecutor.handler sha256Table 3) closedFirstTry
        [mappedEvent 1 1, mappedEvent 1 2] := by
  constructor
  · intro h
    exact absurd (h.starts (mappedEvent 1 2) (by simp) (by decide)) (by decide)
  · intro h
    exact absurd (h.starts (mappedEvent 1 2) (by simp) (by decide)) (by decide)

end Beeflow.Executors
