import Beeflow.Pipeline.Drained
import Beeflow.Scheduler.Interleavings

/-!
# The deployment

The scheduler's database in front of the pipeline, and the scheduler and the
schedule updater behind it. A change of a row is committed, replicated into the
shard, forwarded and routed; what an executor hears of becomes an execution,
and what the scheduler or the updater hears of invokes it. An invocation of the
scheduler only counts the records of its event, and what its turns do to the
database are steps of their own.
-/

namespace Beeflow.Events

open Airflow

def TaskInstanceRow.key (row : TaskInstanceRow) : TaskInstanceKey :=
  ⟨row.dagId, row.taskId, row.runId, row.mapIndex⟩

theorem CommittedRow.key {ti : TaskInstance} {row : TaskInstanceRow} (h : CommittedRow ti row) :
    row.key = ti.key := by
  obtain ⟨hdag, htask, hrun, hmap, -, -⟩ := h
  simp only [TaskInstanceRow.key, hdag, htask, hrun, hmap, TaskInstance.dagId,
    TaskInstance.taskId]

instance (ti : TaskInstance) (row : TaskInstanceRow) : Decidable (CommittedRow ti row) :=
  decidable_of_iff (row.dagId = ti.dagId ∧ row.taskId = ti.taskId ∧ row.runId = ti.key.runId ∧
      row.mapIndex = ti.key.mapIndex ∧ row.state = ti.state ∧ row.pool = ti.pool)
    ⟨fun ⟨hdag, htask, hrun, hmap, hstate, hpool⟩ => ⟨hdag, htask, hrun, hmap, hstate, hpool⟩,
      fun ⟨hdag, htask, hrun, hmap, hstate, hpool⟩ => ⟨hdag, htask, hrun, hmap, hstate, hpool⟩⟩

/-- The record is that of the task instance. -/
def DmsRecord.Tells (r : DmsRecord) (ti : TaskInstance) : Prop :=
  match r.row with
  | .taskInstance row => CommittedRow ti row
  | .dagRun _ | .dag _ => False

instance (r : DmsRecord) (ti : TaskInstance) : Decidable (r.Tells ti) := by
  unfold DmsRecord.Tells
  split <;> infer_instance

/-- A record of a row that is handled has an event. -/
theorem DmsRecord.converted_input {r : DmsRecord} {input : Option EventbridgeInput}
    (h : toEventBridgeEvent r.record = .ok input) : ∃ e, input = some ⟨e, r.record⟩ := by
  rw [r.toEventBridgeEvent_record] at h
  cases hc : r.converter.convert with
  | error err => simp [hc, Except.map] at h
  | ok e => exact ⟨e, by simpa [hc, Except.map] using h.symm⟩

theorem DmsRecord.tells_iff {r : DmsRecord} {ti : TaskInstance} :
    r.Tells ti ↔ ∃ row, r.row = .taskInstance row ∧ CommittedRow ti row := by
  unfold Tells
  split <;> simp [*]

end Beeflow.Events

namespace Beeflow.Pipeline

open Airflow Events Executors Python Scheduler

-- ---------------------------------------------------------------------------
-- All parties
-- ---------------------------------------------------------------------------

structure Deployment where
  scheduler : SchedulerState
  /-- changes that were committed and have yet to be replicated -/
  written : List DmsRecord
  system : System
  /-- the invocations of the scheduler and of the schedule updater, with their batches -/
  invocations : SqsQueue → List (Consumer Dict)

namespace Deployment

def db (d : Deployment) : Database := d.scheduler.db

/-- The records of the shard, and those that will be. -/
def records (d : Deployment) : List KinesisStreamRecord :=
  d.system.shard.records ++ d.written.map (·.record)

/-- A queue, with the invocations for its consumers. -/
def queue (d : Deployment) (q : SqsQueue) : Mailbox Dict :=
  { d.system.queues q with consumers := d.invocations q }

def setQueue (d : Deployment) (q : SqsQueue) (b : Mailbox Dict) : Deployment :=
  { d with
    system := d.system.setQueue q { b with consumers := [] }
    invocations := Function.update d.invocations q b.consumers }

end Deployment

inductive DeploymentLabel
  /-- a transaction, and the records of the rows it wrote -/
  | database (l : LoopLabel) (changes : List DmsRecord)
  /-- DMS puts the oldest record into the shard -/
  | replicate
  | pipeline (l : Label)
  /-- an invocation with the messages of these ids -/
  | wake (q : SqsQueue) (ids : List Nat)
  /-- the handler returns, and its batch is deleted -/
  | sleep (q : SqsQueue) (k : Nat)
  /-- the handler is stopped, or its batch could not be deleted -/
  | crash (q : SqsQueue) (k : Nat)

/-- DMS writes records of its own and of deleted rows, which are not forwarded. Every other
record is that of a change. -/
def unforwarded : Label → Bool
  | .commit r => match toEventBridgeEvent r with
    | .ok none => true
    | _ => false
  | _ => true

section Step

variable (busname : String) (sha256 : List UInt8 → String) (retries : Nat)

def deploymentStep (d : Deployment) : DeploymentLabel → Option Deployment
  | .database l changes => (loopStep d.scheduler l).map fun s =>
      { d with scheduler := s, written := d.written ++ changes }
  | .replicate => match d.written with
    | [] => none
    | r :: written => (systemStep busname sha256 retries d.system (.commit r.record)).map fun s =>
        { d with system := s, written := written }
  | .pipeline l =>
    if unforwarded l then
      (systemStep busname sha256 retries d.system l).map fun s => { d with system := s }
    else none
  | .wake q ids =>
    if q.executor = false ∧ ids.Nodup ∧ ids ≠ [] ∧ ids.length ≤ sqsBatchSize ∧
        ∀ id ∈ ids, ((d.queue q).find? id).isSome then
      some (d.setQueue q ((d.queue q).receive ids))
    else none
  | .sleep q k =>
    if q.executor then none
    else (d.invocations q)[k]?.map fun c =>
      d.setQueue q (((d.queue q).remove (c.batch.map (·.id))).dismiss k)
  | .crash q k =>
    if q.executor then none
    else (d.invocations q)[k]?.map fun _ => d.setQueue q ((d.queue q).dismiss k)

end Step

def Deployment.start (s : SchedulerState) (shardId : String) : Deployment :=
  ⟨s, [], .start shardId, fun _ => []⟩

-- ---------------------------------------------------------------------------
-- What DMS and AWS promise
-- ---------------------------------------------------------------------------

/-- The records of a transaction are those of rows it left behind, and every row it changed has
one. -/
structure Tells (db db' : Database) (changes : List DmsRecord) : Prop where
  current : ∀ r ∈ changes, r.row.table = "task_instance" →
    ∃ ti ∈ db'.taskInstances.rows, r.Tells ti
  complete : ∀ ti ∈ db'.taskInstances.rows, ti ∉ db.taskInstances.rows → ∃ r ∈ changes, r.Tells ti

instance (db db' : Database) (changes : List DmsRecord) : Decidable (Tells db db' changes) :=
  decidable_of_iff (_ ∧ _) ⟨fun h => ⟨h.1, h.2⟩, fun h => ⟨h.current, h.complete⟩⟩

/-- Every transaction is replicated. -/
def Replicated (d : Deployment) : DeploymentLabel → Prop
  | .database l changes => ∀ s ∈ loopStep d.scheduler l, Tells d.db s.db changes
  | _ => True

instance (d : Deployment) : (l : DeploymentLabel) → Decidable (Replicated d l)
  | .database l changes =>
    match h : loopStep d.scheduler l with
    | some s => decidable_of_iff (Tells d.db s.db changes) (by simp [Replicated, h])
    | none => .isTrue (by simp [Replicated, h])
  | .replicate | .pipeline _ | .wake .. | .sleep .. | .crash .. => .isTrue trivial

/-- No step of the pipeline gives up a batch or lets a message expire. -/
def Delivering (busname : String) (d : Deployment) : DeploymentLabel → Prop
  | .pipeline l => GivesNothingUp busname d.system l
  | _ => True

instance (busname : String) (d : Deployment) :
    (l : DeploymentLabel) → Decidable (Delivering busname d l)
  | .pipeline l => inferInstanceAs (Decidable (GivesNothingUp busname d.system l))
  | .database .. | .replicate | .wake .. | .sleep .. | .crash .. => .isTrue trivial

-- ---------------------------------------------------------------------------
-- What a step does
-- ---------------------------------------------------------------------------

section Cases

variable {busname : String} {sha256 : List UInt8 → String} {retries : Nat} {d t : Deployment}

/-- A step is one of the database's, one of the pipeline's, or one of an invocation. -/
theorem deploymentStep_cases {l : DeploymentLabel}
    (h : deploymentStep busname sha256 retries d l = some t) :
    (∃ ll changes s, l = .database ll changes ∧ loopStep d.scheduler ll = some s ∧
        t = { d with scheduler := s, written := d.written ++ changes }) ∨
      (∃ r written s, l = .replicate ∧ d.written = r :: written ∧
        systemStep busname sha256 retries d.system (.commit r.record) = some s ∧
        t = { d with system := s, written := written }) ∨
      (∃ pl s, l = .pipeline pl ∧ unforwarded pl ∧
        systemStep busname sha256 retries d.system pl = some s ∧ t = { d with system := s }) ∨
      ∃ q b, q.executor = false ∧ t = d.setQueue q b ∧
        ((∃ ids, l = .wake q ids ∧ b = (d.queue q).receive ids) ∨
          (∃ k c, l = .sleep q k ∧ (d.invocations q)[k]? = some c ∧
            b = ((d.queue q).remove (c.batch.map (·.id))).dismiss k) ∨
          ∃ k, l = .crash q k ∧ b = (d.queue q).dismiss k) := by
  cases l with
  | database ll changes =>
    obtain ⟨s, hs, rfl⟩ := Option.map_eq_some_iff.mp h
    exact .inl ⟨ll, changes, s, rfl, hs, rfl⟩
  | replicate =>
    simp only [deploymentStep] at h
    split at h
    · cases h
    · rename_i r written hwritten
      obtain ⟨s, hs, rfl⟩ := Option.map_eq_some_iff.mp h
      exact .inr (.inl ⟨r, written, s, rfl, hwritten, hs, rfl⟩)
  | pipeline pl =>
    simp only [deploymentStep] at h
    split_ifs at h with hun
    obtain ⟨s, hs, rfl⟩ := Option.map_eq_some_iff.mp h
    exact .inr (.inr (.inl ⟨pl, s, rfl, hun, hs, rfl⟩))
  | wake q ids =>
    simp only [deploymentStep] at h
    split_ifs at h with hguard
    obtain rfl := Option.some.inj h
    exact .inr (.inr (.inr ⟨q, _, hguard.1, rfl, .inl ⟨ids, rfl, rfl⟩⟩))
  | sleep q k =>
    simp only [deploymentStep] at h
    split_ifs at h with hq
    obtain ⟨c, hc, rfl⟩ := Option.map_eq_some_iff.mp h
    exact .inr (.inr (.inr ⟨q, _, by simpa using hq, rfl, .inr (.inl ⟨k, c, rfl, hc, rfl⟩)⟩))
  | crash q k =>
    simp only [deploymentStep] at h
    split_ifs at h with hq
    obtain ⟨c, -, rfl⟩ := Option.map_eq_some_iff.mp h
    exact .inr (.inr (.inr ⟨q, _, by simpa using hq, rfl, .inr (.inr ⟨k, rfl, rfl⟩)⟩))

end Cases

-- ---------------------------------------------------------------------------
-- The queues of the scheduler and of the updater
-- ---------------------------------------------------------------------------

section Queue

variable {busname : String} {sha256 : List UInt8 → String} {retries : Nat}

/-- A queue without an executor is only sent to, but for messages that expire. -/
theorem System.Sound.step_queue {s t : System} (h : s.Sound sha256) {l : Label}
    (hs : systemStep busname sha256 retries s l = some t) {q : SqsQueue} (hq : ¬q.executor) :
    (∃ bodies, t.queues q = (s.queues q).sendAll bodies) ∨
      ∃ id, l = .expire q id ∧ t.queues q = (s.queues q).remove [id] := by
  have hset : ∀ {q' : SqsQueue} {b : Mailbox Dict}, q' ≠ q →
      (s.setQueue q' b).queues q = (s.queues q).sendAll [] :=
    fun hne => Function.update_of_ne hne.symm _ _
  have hne : ∀ {q' : SqsQueue} {k : Nat} {c : Consumer Dict},
      (s.queues q').consumers[k]? = some c → q' ≠ q := by
    rintro q' k c hc rfl
    exact hq ((h q').consumers fun hnil => by simp [hnil] at hc)
  cases l with
  | commit r =>
    simp only [systemStep] at hs
    split_ifs at hs
    obtain rfl := Option.some.inj hs
    exact .inl ⟨[], rfl⟩
  | forward size putEvents =>
    obtain ⟨-, source, -, rfl⟩ := System.forward_cases hs
    exact .inl ⟨_, rfl⟩
  | resend q' id =>
    obtain ⟨m, -, rfl⟩ := Option.map_eq_some_iff.mp hs
    by_cases he : q' = q
    · subst he
      exact .inl ⟨[m.body], Function.update_self _ _ _⟩
    · exact .inl ⟨[], hset he⟩
  | receive q' ids =>
    simp only [systemStep] at hs
    split_ifs at hs with hguard
    obtain rfl := Option.some.inj hs
    exact .inl ⟨[], hset fun he => hq (he ▸ hguard.1)⟩
  | turn q' k =>
    obtain ⟨c, m, hc, -, rfl | ⟨u, -, rfl⟩⟩ := System.turn_cases hs
    · exact .inl ⟨[], hset (hne hc)⟩
    · exact .inl ⟨[], hset (hne hc)⟩
  | finish q' k =>
    simp only [systemStep] at hs
    split at hs
    · rename_i batch hk
      obtain rfl := Option.some.inj hs
      exact .inl ⟨[], hset (hne hk)⟩
    · cases hs
  | stop q' k =>
    obtain ⟨c, hc, rfl⟩ := Option.map_eq_some_iff.mp hs
    exact .inl ⟨[], hset (hne hc)⟩
  | expire q' id =>
    obtain rfl := Option.some.inj hs
    by_cases he : q' = q
    · subst he
      exact .inr ⟨id, rfl, Function.update_self _ _ _⟩
    · exact .inl ⟨[], hset he⟩
  | close q' name =>
    obtain ⟨x, -, rfl⟩ := Option.map_eq_some_iff.mp hs
    exact .inl ⟨[], rfl⟩

variable {d t : Deployment} {q : SqsQueue}

@[simp] theorem Deployment.queue_set (d : Deployment) (q : SqsQueue) (b : Mailbox Dict) :
    (d.setQueue q b).queue q = b := by
  simp [queue, setQueue, System.setQueue]

theorem Deployment.queue_set_of_ne (d : Deployment) {q q' : SqsQueue} (hne : q' ≠ q)
    (b : Mailbox Dict) : (d.setQueue q b).queue q' = d.queue q' := by
  simp [queue, setQueue, System.setQueue, Function.update_of_ne hne]

/-- The system is sound, and an invocation is handed messages of its queue. -/
structure Deployment.Sound (sha256 : List UInt8 → String) (d : Deployment) : Prop where
  system : d.system.Sound sha256
  queue : ∀ q, q.executor = false → (d.queue q).Valid fun _ => True

theorem System.Sound.queue_pipeline (h : d.system.Sound sha256) (hq : q.executor = false)
    {s : System} {l : Label} (hs : systemStep busname sha256 retries d.system l = some s) :
    (∃ bodies, { d with system := s }.queue q = (d.queue q).sendAll bodies) ∨
      ∃ id, l = .expire q id ∧ { d with system := s }.queue q = (d.queue q).remove [id] := by
  rcases h.step_queue hs (by simpa using hq) with ⟨bodies, hb⟩ | ⟨id, rfl, hb⟩
  · refine .inl ⟨bodies, ?_⟩
    rw [Deployment.queue]
    dsimp only
    rw [hb, Mailbox.sendAll_consumers]
    rfl
  · refine .inr ⟨id, rfl, ?_⟩
    rw [Deployment.queue]
    dsimp only
    rw [hb]
    rfl

/-- What a step makes of a queue: it is sent to, a message expires, or an invocation begins,
returns or is stopped. -/
theorem System.Sound.queue_cases (h : d.system.Sound sha256) (hq : q.executor = false)
    {l : DeploymentLabel} (hs : deploymentStep busname sha256 retries d l = some t) :
    (∃ bodies, t.queue q = (d.queue q).sendAll bodies) ∨
      (∃ id, l = .pipeline (.expire q id) ∧ t.queue q = (d.queue q).remove [id]) ∨
      (∃ ids, l = .wake q ids ∧ t.queue q = (d.queue q).receive ids) ∨
      (∃ k c, l = .sleep q k ∧ (d.invocations q)[k]? = some c ∧
        t.queue q = ((d.queue q).remove (c.batch.map (·.id))).dismiss k) ∨
      ∃ k, l = .crash q k ∧ t.queue q = (d.queue q).dismiss k := by
  rcases deploymentStep_cases hs with ⟨ll, changes, s, -, -, rfl⟩ |
    ⟨r, written, s, -, -, hr, rfl⟩ | ⟨pl, s, rfl, -, hpl, rfl⟩ | ⟨q', b, -, rfl, hb⟩
  · exact .inl ⟨[], rfl⟩
  · rcases h.queue_pipeline hq hr with hsent | ⟨id, hl, -⟩
    · exact .inl hsent
    · cases hl
  · rcases h.queue_pipeline hq hpl with hsent | ⟨id, rfl, hremoved⟩
    · exact .inl hsent
    · exact .inr (.inl ⟨id, rfl, hremoved⟩)
  · by_cases hne : q = q'
    · subst hne
      rw [Deployment.queue_set]
      rcases hb with ⟨ids, rfl, rfl⟩ | ⟨k, c, rfl, hc, rfl⟩ | ⟨k, rfl, rfl⟩
      · exact .inr (.inr (.inl ⟨ids, rfl, rfl⟩))
      · exact .inr (.inr (.inr (.inl ⟨k, c, rfl, hc, rfl⟩)))
      · exact .inr (.inr (.inr (.inr ⟨k, rfl, rfl⟩)))
    · exact .inl ⟨[], Deployment.queue_set_of_ne d hne b⟩

theorem System.Sound.deployment (h : d.system.Sound sha256) {l : DeploymentLabel}
    (hs : deploymentStep busname sha256 retries d l = some t) : t.system.Sound sha256 := by
  rcases deploymentStep_cases hs with ⟨ll, changes, s, -, -, rfl⟩ |
    ⟨r, written, s, -, -, hr, rfl⟩ | ⟨pl, s, -, -, hpl, rfl⟩ | ⟨q', b, -, rfl, hb⟩
  · exact h
  · exact h.step hr
  · exact h.step hpl
  · have hsub : b.sent = (d.queue q').sent ∧ b.messages ⊆ (d.queue q').messages := by
      rcases hb with ⟨ids, -, rfl⟩ | ⟨k, c, -, -, rfl⟩ | ⟨k, -, rfl⟩
      · exact ⟨rfl, List.Subset.refl _⟩
      · exact ⟨rfl, List.filter_subset_self _⟩
      · exact ⟨rfl, List.Subset.refl _⟩
    rw [Deployment.setQueue, System.setQueue_eq]
    exact h.set ((h q').of_subset hsub.1 hsub.2 (List.nil_subset _))

theorem Deployment.Sound.step (h : d.Sound sha256) {l : DeploymentLabel}
    (hs : deploymentStep busname sha256 retries d l = some t) : t.Sound sha256 := by
  refine ⟨h.system.deployment hs, fun q hq => ?_⟩
  have hvalid := h.queue q hq
  rcases h.system.queue_cases hq hs with ⟨bodies, hb⟩ | ⟨id, -, hb⟩ | ⟨ids, -, hb⟩ |
    ⟨k, c, -, -, hb⟩ | ⟨k, -, hb⟩
  all_goals rw [hb]
  · exact hvalid.sendAll bodies
  · exact hvalid.remove [id]
  · exact hvalid.receive ids
  · exact (hvalid.remove _).dismiss k
  · exact hvalid.dismiss k

theorem Deployment.start_sound (s : SchedulerState) (shardId : String) :
    (start s shardId).Sound sha256 :=
  ⟨System.start_sound sha256 shardId, fun _ _ => Mailbox.valid_empty⟩

end Queue

end Beeflow.Pipeline
