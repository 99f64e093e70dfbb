import Beeflow.Events.Checkpoints
import Beeflow.Lib.Mailbox
import Beeflow.Pipeline.Executor

/-!
# From the commit to the execution

A committed row becomes a record of the shard, the forwarder publishes its
event, the rules put the event into the queues of their targets, and an
executor starts an execution for each message it is handed. The parties take
their steps in any order; a queue hands out a message again until a handler
that is through with its batch lets it be deleted.
-/

namespace Beeflow.Events

/-- A record of the shard has a sequence number of its own, in digits. -/
def Shard.Accepts (shard : Shard) (r : KinesisStreamRecord) : Prop :=
  r.eventId = shard.shardId ++ ":" ++ r.sequenceNumber ∧ ':' ∉ r.sequenceNumber.toList ∧
    r.sequenceNumber ∉ shard.records.map (·.sequenceNumber)

instance (shard : Shard) (r : KinesisStreamRecord) : Decidable (shard.Accepts r) :=
  inferInstanceAs (Decidable (_ ∧ _ ∧ _))

def Shard.append (shard : Shard) (r : KinesisStreamRecord) (h : shard.Accepts r) : Shard where
  shardId := shard.shardId
  records := shard.records ++ [r]
  eventIds := by
    intro r' hr'
    rcases List.mem_append.mp hr' with hr' | hr'
    · exact shard.eventIds r' hr'
    · exact List.mem_singleton.mp hr' ▸ h.1
  distinct := by
    rw [List.map_append, List.nodup_append]
    refine ⟨shard.distinct, List.nodup_singleton _, ?_⟩
    intro a ha b hb hab
    obtain rfl := List.mem_singleton.mp hb
    rw [hab] at ha
    exact h.2.2 ha

end Beeflow.Events

namespace Beeflow.Pipeline

open Events Executors Python

-- ---------------------------------------------------------------------------
-- Publishing
-- ---------------------------------------------------------------------------

/-- The bus answers with one entry for each entry it is given. -/
structure PutEvents where
  put : List PutEventsEntry → List PutEventsResultEntry
  length : ∀ entries, (put entries).length = entries.length

def publishedEvents (busname : String) (i : Invocation) : List BeeflowEvent :=
  (Comprehension.failing (·.errorCode.isNone) (i.response busname) i.submitted).map
    (·.beeflowEvent)

/-- What the targets of the matching rules put into the queue. -/
def routed (events : List BeeflowEvent) (q : SqsQueue) : List Dict :=
  events.flatMap fun e => List.replicate ((deliveries e.dict).count q) e.dict

-- ---------------------------------------------------------------------------
-- The system
-- ---------------------------------------------------------------------------

structure System where
  shard : Shard
  source : EventSource
  queues : SqsQueue → Mailbox Dict
  executors : SqsQueue → ExecutorState

inductive Label
  /-- a change of a table, as DMS writes it to the shard -/
  | commit (r : KinesisStreamRecord)
  /-- an invocation of the forwarder; `size` counts for a new batch -/
  | forward (size : Nat) (putEvents : PutEvents)
  /-- the bus or the queue delivers a message once more -/
  | resend (q : SqsQueue) (id : Nat)
  /-- an invocation of an executor, with the messages of these ids -/
  | receive (q : SqsQueue) (ids : List Nat)
  /-- the next turn of the handler's loop -/
  | turn (q : SqsQueue) (consumer : Nat)
  /-- the handler returns, and its batch is deleted -/
  | finish (q : SqsQueue) (consumer : Nat)
  /-- the handler is stopped, or its batch could not be deleted -/
  | stop (q : SqsQueue) (consumer : Nat)
  /-- the retention period of a message ends -/
  | expire (q : SqsQueue) (id : Nat)
  | close (q : SqsQueue) (name : String)

/-- How the code of each executor starts an execution. -/
def triggerOf (sha256 : List UInt8 → String) (retries : Nat) : SqsQueue → Trigger
  | .batchExecutor => BatchExecutor.triggerStepFunctions sha256 retries
  | .lambdaExecutor | .scheduler | .dagScheduleUpdater => LambdaExecutor.triggerStepFunctions sha256

def sqsBatchSize : Nat := 10

def System.setQueue (s : System) (q : SqsQueue) (b : Mailbox Dict) : System :=
  { s with queues := Function.update s.queues q b }

def System.setExecutor (s : System) (q : SqsQueue) (x : ExecutorState) : System :=
  { s with executors := Function.update s.executors q x }

section Step

variable (busname : String) (sha256 : List UInt8 → String) (retries : Nat)

/-- The batch of the next invocation of the forwarder. -/
def System.nextInvocation (s : System) (size : Nat) (putEvents : PutEvents) : Invocation where
  batch := (s.shard.records.drop s.source.checkpoint).take
    (if s.source.pending = 0 then size else s.source.pending)
  putEvents := putEvents.put

def System.forward (s : System) (size : Nat) (putEvents : PutEvents) : Option System :=
  (s.source.step busname s.shard.records ⟨size, putEvents.put⟩).map fun source =>
    let events := publishedEvents busname (s.nextInvocation size putEvents)
    { s with source := source, queues := fun q => (s.queues q).sendAll (routed events q) }

/-- A turn that raises ends the handler, and the batch stays. -/
def System.turn (s : System) (q : SqsQueue) (k : Nat) : Option System :=
  match (s.queues q).consumers[k]? with
  | some ⟨_, m :: _⟩ =>
    match Pipeline.turn (triggerOf sha256 retries q) (s.executors q).executions m.body with
    | .ok t => some ((s.setQueue q ((s.queues q).advance k)).setExecutor q
        ⟨t.executions, (s.executors q).log ++ if t.created then [t.event] else []⟩)
    | .error _ => some (s.setQueue q ((s.queues q).dismiss k))
  | _ => none

def systemStep (s : System) : Label → Option System
  | .commit r => if h : s.shard.Accepts r then some { s with shard := s.shard.append r h } else none
  | .forward size putEvents => s.forward busname size putEvents
  | .resend q id => ((s.queues q).find? id).map fun m => s.setQueue q ((s.queues q).send m.body)
  | .receive q ids =>
    if q.executor ∧ ids.Nodup ∧ ids ≠ [] ∧ ids.length ≤ sqsBatchSize ∧
        ∀ id ∈ ids, ((s.queues q).find? id).isSome then
      some (s.setQueue q ((s.queues q).receive ids))
    else none
  | .turn q k => s.turn sha256 retries q k
  | .finish q k =>
    match (s.queues q).consumers[k]? with
    | some ⟨batch, []⟩ =>
      some (s.setQueue q (((s.queues q).remove (batch.map (·.id))).dismiss k))
    | _ => none
  | .stop q k =>
    ((s.queues q).consumers[k]?).map fun _ => s.setQueue q ((s.queues q).dismiss k)
  | .expire q id => some (s.setQueue q ((s.queues q).remove [id]))
  | .close q name =>
    (executorStep (LambdaExecutor.handler sha256) (s.executors q) (.close name)).map
      (s.setExecutor q)

end Step

def System.start (shardId : String) : System where
  shard := ⟨shardId, [], by simp, by simp⟩
  source := .latest
  queues := fun _ => .empty
  executors := fun _ => ⟨fun _ => none, []⟩

end Beeflow.Pipeline
