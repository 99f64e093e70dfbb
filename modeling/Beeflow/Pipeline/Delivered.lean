import Beeflow.Lib.Machine
import Beeflow.Pipeline.System

/-!
# Every episode is executed once

Along every run of the system an executor starts executions only for episodes
that were committed, of its own queues, and one for each name. Along a run that
gives up no batch and lets no message expire, an episode that the forwarder has
behind it waits in the queue of its executor or has its execution.
-/

namespace Beeflow.Pipeline

open Events Executors Python

/-- The detail is that of an event that has an execution. -/
def Executed (sha256 : List UInt8 → String) (x : ExecutorState) (detail : Dict) : Prop :=
  ∃ event : TaskInstanceQueued, detail = (event.parsed .taskInstanceQueued).dict ∧
    x.executions (fromTiQueuedEvent sha256 event) ≠ none

/-- One of the records is that of the event, and the rules hand it to this executor. -/
def Announced (records : List KinesisStreamRecord) (q : SqsQueue) (event : TaskInstanceQueued) :
    Prop :=
  ∃ r ∈ records, ∃ e, toEventBridgeEvent r = .ok (some e) ∧ q ∈ executorQueues e.beeflowEvent ∧
    queuedOf e.beeflowEvent = event

def AnnouncedDetail (records : List KinesisStreamRecord) (q : SqsQueue) (detail : Dict) : Prop :=
  ∃ event : TaskInstanceQueued, Announced records q event ∧
    detail = (event.parsed .taskInstanceQueued).dict

theorem Announced.mono {records records' : List KinesisStreamRecord} {q : SqsQueue}
    {event : TaskInstanceQueued} (h : Announced records q event) (hsub : records ⊆ records') :
    Announced records' q event := by
  obtain ⟨r, hr, he⟩ := h
  exact ⟨r, hsub hr, he⟩

theorem Announced.executorsOf {records : List KinesisStreamRecord} {q : SqsQueue}
    {event : TaskInstanceQueued} (h : Announced records q event) :
    q ∈ executorsOf event.queue := by
  obtain ⟨r, -, e, he, hq, rfl⟩ := h
  obtain ⟨event, -, hevent, hmem⟩ := delivered_queued he hq
  exact hevent ▸ hmem

-- ---------------------------------------------------------------------------
-- One queue and its executor
-- ---------------------------------------------------------------------------

structure QueueSound (sha256 : List UInt8 → String) (records : List KinesisStreamRecord)
    (q : SqsQueue) (b : Mailbox Dict) (x : ExecutorState) : Prop where
  valid : b.Valid (Executed sha256 x)
  bodies : q.executor → b.All (AnnouncedDetail records q)
  consumers : b.consumers ≠ [] → q.executor
  log : ∀ event ∈ x.log, Announced records q event
  logged : Logged sha256 (fun _ => none) x
  named : ∀ name, x.executions name ≠ none → ∃ event ∈ x.log, fromTiQueuedEvent sha256 event = name

section Queue

variable {sha256 : List UInt8 → String} {records : List KinesisStreamRecord} {q : SqsQueue}
  {b : Mailbox Dict} {x x' : ExecutorState}

theorem Executed.mono {detail : Dict} (h : Executed sha256 x detail)
    (hkept : ∀ name, x.executions name ≠ none → x'.executions name ≠ none) :
    Executed sha256 x' detail := by
  obtain ⟨event, hdetail, hname⟩ := h
  exact ⟨event, hdetail, hkept _ hname⟩

theorem QueueSound.start : QueueSound sha256 records q .empty ⟨fun _ => none, []⟩ where
  valid := Mailbox.valid_empty
  bodies _ := Mailbox.all_empty
  consumers h := absurd rfl h
  log := by simp
  logged := ⟨fun _ h => h, by simp, by simp, List.nodup_nil⟩
  named _ h := absurd rfl h

theorem QueueSound.mono (h : QueueSound sha256 records q b x)
    {records' : List KinesisStreamRecord} (hsub : records ⊆ records') :
    QueueSound sha256 records' q b x :=
  { h with
    bodies := fun hq => (h.bodies hq).mono fun _ ⟨event, ha, hd⟩ => ⟨event, ha.mono hsub, hd⟩
    log := fun event he => (h.log event he).mono hsub }

theorem QueueSound.sendAll (h : QueueSound sha256 records q b x) {bodies : List Dict}
    (hbodies : q.executor → ∀ body ∈ bodies, AnnouncedDetail records q body) :
    QueueSound sha256 records q (b.sendAll bodies) x :=
  { h with
    valid := h.valid.sendAll bodies
    bodies := fun hq => (h.bodies hq).sendAll (hbodies hq)
    consumers := by
      rw [Mailbox.consumers_sendAll]
      exact h.consumers }

theorem QueueSound.receive (h : QueueSound sha256 records q b x) (hq : q.executor)
    (ids : List Nat) : QueueSound sha256 records q (b.receive ids) x :=
  { h with
    valid := h.valid.receive ids
    bodies := fun _ => (h.bodies hq).of_known fun _ hm => Mailbox.mem_known_receive.mp hm
    consumers := fun _ => hq }

/-- A step that only takes messages or consumers away. -/
theorem QueueSound.of_subset (h : QueueSound sha256 records q b x) {b' : Mailbox Dict}
    (hsent : b'.sent = b.sent) (hmessages : b'.messages ⊆ b.messages)
    (hconsumers : b'.consumers ⊆ b.consumers) : QueueSound sha256 records q b' x :=
  { h with
    valid := h.valid.of_subset hsent hmessages hconsumers
    bodies := fun hq => (h.bodies hq).of_known (Mailbox.known_of_subset hmessages hconsumers)
    consumers := fun hne => h.consumers fun hnil =>
      hne (List.eq_nil_of_subset_nil (hnil ▸ hconsumers)) }

theorem QueueSound.dismiss (h : QueueSound sha256 records q b x) (k : Nat) :
    QueueSound sha256 records q (b.dismiss k) x :=
  h.of_subset rfl (List.Subset.refl _) List.eraseIdx_subset

theorem QueueSound.remove (h : QueueSound sha256 records q b x) (ids : List Nat) :
    QueueSound sha256 records q (b.remove ids) x :=
  h.of_subset rfl (List.filter_subset_self _) (List.Subset.refl _)

theorem update_closed {executions : Executions} {name n : String} (h : executions n ≠ none) :
    Function.update executions name (some .closed) n ≠ none :=
  fun he => h (update_eq_none.mp he).2

theorem QueueSound.close (h : QueueSound sha256 records q b x) {name : String}
    (hs : executorStep (LambdaExecutor.handler sha256) x (.close name) = some x') :
    QueueSound sha256 records q b x' := by
  have hlogged := h.logged.step hs
  simp only [executorStep] at hs
  split_ifs at hs with hrun
  obtain rfl := Option.some.inj hs
  refine { h with
    valid := h.valid.mono fun _ hd => hd.mono fun _ => update_closed
    logged := hlogged
    named := fun n hn => ?_ }
  by_cases hname : n = name
  · exact h.named n (by rw [hname, hrun]; simp)
  · refine h.named n ?_
    dsimp only at hn
    rwa [Function.update_of_ne hname] at hn

-- ---------------------------------------------------------------------------
-- A turn
-- ---------------------------------------------------------------------------

theorem triggerOf_eq (sha256 : List UInt8 → String) (retries : Nat) (q : SqsQueue)
    (executions : Executions) (event : TaskInstanceQueued) :
    triggerOf sha256 retries q executions event =
      startExecution executions (fromTiQueuedEvent sha256 event) := by
  cases q with
  | batchExecutor => exact BatchExecutor.onException_eq _ retries
  | lambdaExecutor | scheduler | dagScheduleUpdater => rfl

/-- What a turn over the detail of an event makes of the executor. -/
structure Turned (sha256 : List UInt8 → String) (event : TaskInstanceQueued)
    (x x' : ExecutorState) : Prop where
  kept : ∀ name, x.executions name ≠ none → x'.executions name ≠ none
  executed : x'.executions (fromTiQueuedEvent sha256 event) ≠ none
  log : x'.log = x.log ∨ x'.log = x.log ++ [event]
  logged : Logged sha256 (fun _ => none) x → Logged sha256 (fun _ => none) x'
  named : ∀ name, x'.executions name ≠ none →
    x.executions name ≠ none ∨ name = fromTiQueuedEvent sha256 event ∧ event ∈ x'.log

theorem turned {retries : Nat} {event : TaskInstanceQueued} {t : Turn}
    (h : turn (triggerOf sha256 retries q) x.executions (event.parsed .taskInstanceQueued).dict =
      .ok t) :
    Turned sha256 event x ⟨t.executions, x.log ++ if t.created then [t.event] else []⟩ := by
  rw [turn_parsed, triggerOf_eq] at h
  cases hname : x.executions (fromTiQueuedEvent sha256 event) with
  | none =>
    have hstarts := Starts.cons hname (.nothing sha256 _ none)
    simp only [startExecution, hname, Except.ok.injEq] at h
    subst h
    refine ⟨fun name hn he => hn ((hstarts.kept name hn).symm.trans he), by simp, .inr rfl,
      fun hl => hl.deliver hstarts, fun name hn => ?_⟩
    by_cases he : name = fromTiQueuedEvent sha256 event
    · exact .inr ⟨he, by simp⟩
    · dsimp only at hn
      rw [Function.update_of_ne he] at hn
      exact .inl hn
  | some status =>
    cases status with
    | running =>
      simp only [startExecution, hname, Except.ok.injEq] at h
      subst h
      simp only [Bool.false_eq_true, if_false, List.append_nil]
      exact ⟨fun _ hn => hn, by simp [hname], .inl rfl, id, fun _ => .inl⟩
    | closed => simp [startExecution, hname] at h

theorem QueueSound.turn (h : QueueSound sha256 records q b x) {k : Nat} {c : Consumer Dict}
    {m : Message Dict} (hc : b.consumers[k]? = some c) (hm : c.todo.head? = some m)
    {event : TaskInstanceQueued} (hevent : Announced records q event)
    (hbody : m.body = (event.parsed .taskInstanceQueued).dict) (ht : Turned sha256 event x x') :
    QueueSound sha256 records q (b.advance k) x' where
  valid := by
    refine (h.valid.mono fun _ hd => hd.mono ht.kept).advance fun c' hc' m' hm' => ?_
    obtain rfl := Option.some.inj (hc.symm.trans hc')
    obtain rfl := Option.some.inj (hm.symm.trans hm')
    exact ⟨event, hbody, ht.executed⟩
  bodies hq := (h.bodies hq).of_known fun _ hm => Mailbox.known_advance hm
  consumers _ := h.consumers fun hnil => by simp [hnil] at hc
  log := by
    rcases ht.log with hlog | hlog
    · exact hlog ▸ h.log
    · rw [hlog]
      exact List.forall_mem_append.mpr ⟨h.log, List.forall_mem_singleton.mpr hevent⟩
  logged := ht.logged h.logged
  named name hn := by
    rcases ht.named name hn with hn | ⟨rfl, hmem⟩
    · obtain ⟨e, he, hname⟩ := h.named name hn
      rcases ht.log with hlog | hlog
      · exact ⟨e, hlog ▸ he, hname⟩
      · exact ⟨e, hlog ▸ List.mem_append_left _ he, hname⟩
    · exact ⟨event, hmem, rfl⟩

/-- The message of a turn is that of an announced event. -/
theorem QueueSound.next (h : QueueSound sha256 records q b x) {k : Nat} {c : Consumer Dict}
    {m : Message Dict} (hc : b.consumers[k]? = some c) (hm : c.todo.head? = some m) :
    AnnouncedDetail records q m.body := by
  have hmem := List.mem_of_getElem? hc
  have hq := h.consumers fun hnil => by simp [hnil] at hc
  refine h.bodies hq m (Mailbox.mem_known.mpr (.inr ⟨c, hmem, ?_⟩))
  exact h.valid.todo c hmem (List.mem_of_head? hm)

end Queue

-- ---------------------------------------------------------------------------
-- Publishing
-- ---------------------------------------------------------------------------

theorem converted_eq_some {r : KinesisStreamRecord} {e : EventbridgeInput} :
    converted r = some e ↔ toEventBridgeEvent r = .ok (some e) := by
  unfold converted
  cases toEventBridgeEvent r <;> simp

theorem submitted_eq {i : Invocation} (h : ∀ r ∈ i.batch, Handles r) :
    i.submitted = i.batch.filterMap converted := by
  obtain ⟨events, hok, hevents⟩ := transformed_ok h
  rw [Invocation.submitted, hok]
  exact hevents

theorem mem_submitted {i : Invocation} {e : EventbridgeInput} (h : e ∈ i.submitted) :
    ∃ r ∈ i.batch, toEventBridgeEvent r = .ok (some e) := by
  by_cases hall : ∀ r ∈ i.batch, Handles r
  · rw [submitted_eq hall] at h
    obtain ⟨r, hr, hc⟩ := List.mem_filterMap.mp h
    exact ⟨r, hr, converted_eq_some.mp hc⟩
  · push Not at hall
    obtain ⟨r, hr, hraise⟩ := hall
    obtain ⟨err, herr⟩ := transformed_error hr hraise
    simp [Invocation.submitted, herr] at h

theorem mem_publishedEvents {busname : String} {i : Invocation} {e : BeeflowEvent}
    (h : e ∈ publishedEvents busname i) :
    ∃ r ∈ i.batch, ∃ input, toEventBridgeEvent r = .ok (some input) ∧ input.beeflowEvent = e := by
  obtain ⟨input, hinput, rfl⟩ := List.mem_map.mp h
  obtain ⟨k, -, -, hk, -⟩ := Comprehension.mem_failing.mp hinput
  obtain ⟨r, hr, he⟩ := mem_submitted (List.mem_of_getElem? hk)
  exact ⟨r, hr, input, he, rfl⟩

theorem mem_routed {events : List BeeflowEvent} {q : SqsQueue} {detail : Dict} :
    detail ∈ routed events q ↔ ∃ e ∈ events, q ∈ deliveries e.dict ∧ e.dict = detail := by
  simp only [routed, List.mem_flatMap, List.mem_replicate, ne_eq, List.count_eq_zero, not_not,
    eq_comm (a := detail)]

theorem announcedDetail {records : List KinesisStreamRecord} {r : KinesisStreamRecord}
    (hr : r ∈ records) {e : EventbridgeInput} (he : toEventBridgeEvent r = .ok (some e))
    {q : SqsQueue} (hq : q ∈ executorQueues e.beeflowEvent) :
    AnnouncedDetail records q e.beeflowEvent.dict := by
  obtain ⟨event, hdict, hevent, -⟩ := delivered_queued he hq
  exact ⟨event, ⟨r, hr, e, he, hq, hevent⟩, hdict⟩

theorem routed_announced {busname : String} {i : Invocation} {records : List KinesisStreamRecord}
    (hsub : i.batch ⊆ records) {q : SqsQueue} (hq : q.executor) :
    ∀ detail ∈ routed (publishedEvents busname i) q, AnnouncedDetail records q detail := by
  intro detail hdetail
  obtain ⟨_, hpublished, hdelivered, rfl⟩ := mem_routed.mp hdetail
  obtain ⟨r, hr, e, he, rfl⟩ := mem_publishedEvents hpublished
  exact announcedDetail (hsub hr) he (List.mem_filter.mpr ⟨hdelivered, hq⟩)

-- ---------------------------------------------------------------------------
-- Every step
-- ---------------------------------------------------------------------------

def System.Sound (sha256 : List UInt8 → String) (s : System) : Prop :=
  ∀ q, QueueSound sha256 s.shard.records q (s.queues q) (s.executors q)

section Step

variable {busname : String} {sha256 : List UInt8 → String} {retries : Nat} {s t : System}

theorem System.Sound.set (h : s.Sound sha256) {q : SqsQueue} {b : Mailbox Dict} {x : ExecutorState}
    (hb : QueueSound sha256 s.shard.records q b x) :
    ((s.setQueue q b).setExecutor q x).Sound sha256 := by
  intro q'
  by_cases hq : q' = q
  · subst hq
    simpa [setQueue, setExecutor] using hb
  · simpa [setQueue, setExecutor, Function.update_of_ne hq] using h q'

theorem System.setQueue_eq (s : System) (q : SqsQueue) (b : Mailbox Dict) :
    s.setQueue q b = (s.setQueue q b).setExecutor q (s.executors q) := by
  simp [setQueue, setExecutor]

theorem System.setExecutor_eq (s : System) (q : SqsQueue) (x : ExecutorState) :
    s.setExecutor q x = (s.setQueue q (s.queues q)).setExecutor q x := by
  simp [setQueue, setExecutor]

theorem System.turn_cases {q : SqsQueue} {k : Nat} (h : s.turn sha256 retries q k = some t) :
    ∃ c m, (s.queues q).consumers[k]? = some c ∧ c.todo.head? = some m ∧
      (t = s.setQueue q ((s.queues q).dismiss k) ∨ ∃ u : Turn,
        Pipeline.turn (triggerOf sha256 retries q) (s.executors q).executions m.body = .ok u ∧
        t = (s.setQueue q ((s.queues q).advance k)).setExecutor q
          ⟨u.executions, (s.executors q).log ++ if u.created then [u.event] else []⟩) := by
  unfold System.turn at h
  split at h
  · rename_i batch m rest hc
    refine ⟨_, m, hc, rfl, ?_⟩
    split at h
    · rename_i u hu
      exact .inr ⟨u, hu, (Option.some.inj h).symm⟩
    · exact .inl (Option.some.inj h).symm
  · cases h

theorem System.Sound.turn (h : s.Sound sha256) {q : SqsQueue} {k : Nat}
    (hs : s.turn sha256 retries q k = some t) : t.Sound sha256 := by
  obtain ⟨c, m, hc, hm, rfl | ⟨u, hu, rfl⟩⟩ := System.turn_cases hs
  · rw [System.setQueue_eq]
    exact h.set ((h q).dismiss k)
  · obtain ⟨event, hevent, hbody⟩ := (h q).next hc hm
    rw [hbody] at hu
    exact h.set ((h q).turn hc hm hevent hbody (turned hu))

theorem System.forward_cases {size : Nat} {putEvents : PutEvents}
    (h : s.forward busname size putEvents = some t) :
    (s.nextInvocation size putEvents).batch ⊆ s.shard.records ∧
      ∃ source, s.source.step busname s.shard.records ⟨size, putEvents.put⟩ = some source ∧
        t = { s with
          source := source
          queues := fun q => (s.queues q).sendAll
            (routed (publishedEvents busname (s.nextInvocation size putEvents)) q) } := by
  obtain ⟨source, hsource, rfl⟩ := Option.map_eq_some_iff.mp h
  exact ⟨fun r hr => List.mem_of_mem_drop (List.mem_of_mem_take hr), source, hsource, rfl⟩

theorem System.Sound.step (h : s.Sound sha256) {l : Label}
    (hs : systemStep busname sha256 retries s l = some t) : t.Sound sha256 := by
  cases l with
  | commit r =>
    simp only [systemStep] at hs
    split_ifs at hs
    obtain rfl := Option.some.inj hs
    exact fun q => (h q).mono (List.subset_append_left ..)
  | forward size putEvents =>
    obtain ⟨hsub, source, -, rfl⟩ := System.forward_cases hs
    exact fun q => (h q).sendAll fun hq => routed_announced hsub hq
  | resend q id =>
    obtain ⟨m, hm, rfl⟩ := Option.map_eq_some_iff.mp hs
    rw [System.setQueue_eq]
    have hbodies : q.executor → ∀ body ∈ [m.body], AnnouncedDetail s.shard.records q body :=
      fun hq => List.forall_mem_singleton.mpr
        ((h q).bodies hq m (Mailbox.mem_known.mpr (.inl (Mailbox.mem_of_find? hm))))
    exact h.set ((h q).sendAll hbodies)
  | receive q ids =>
    simp only [systemStep] at hs
    split_ifs at hs with hguard
    obtain rfl := Option.some.inj hs
    rw [System.setQueue_eq]
    exact h.set ((h q).receive hguard.1 ids)
  | turn q k => exact h.turn hs
  | finish q k =>
    simp only [systemStep] at hs
    split at hs
    · obtain rfl := Option.some.inj hs
      rw [System.setQueue_eq]
      exact h.set (((h q).remove _).dismiss k)
    · cases hs
  | stop q k =>
    obtain ⟨-, -, rfl⟩ := Option.map_eq_some_iff.mp hs
    rw [System.setQueue_eq]
    exact h.set ((h q).dismiss k)
  | expire q id =>
    obtain rfl := Option.some.inj hs
    rw [System.setQueue_eq]
    exact h.set ((h q).remove [id])
  | close q name =>
    obtain ⟨x, hx, rfl⟩ := Option.map_eq_some_iff.mp hs
    rw [System.setExecutor_eq]
    exact h.set ((h q).close hx)

theorem System.start_sound (sha256 : List UInt8 → String) (shardId : String) :
    (System.start shardId).Sound sha256 := fun _ => .start

theorem System.Sound.run (h : s.Sound sha256) {labels : List Label}
    (hr : Machine.run (systemStep busname sha256 retries) s labels = some t) : t.Sound sha256 :=
  Machine.run_invariant_all (fun _ _ _ h hs => h.step hs) h hr

end Step

theorem executorsOf_unique {queue : String} {q q' : SqsQueue} (hq : q ∈ executorsOf queue)
    (hq' : q' ∈ executorsOf queue) : q = q' := by
  unfold executorsOf at hq hq'
  split_ifs at hq hq'
  · exact (List.mem_singleton.mp hq).trans (List.mem_singleton.mp hq').symm
  · exact (List.mem_singleton.mp hq).trans (List.mem_singleton.mp hq').symm
  · exact nomatch hq

/-- In every run an executor starts each execution for an episode that was committed and whose
queue is one of its own, never two of one name, and never for an episode the other executor has. -/
theorem executions_announced {busname : String} {sha256 : List UInt8 → String} {retries : Nat}
    {shardId : String} {labels : List Label} {s : System}
    (hr : Machine.run (systemStep busname sha256 retries) (.start shardId) labels = some s)
    (q : SqsQueue) :
    ((s.executors q).log.map (fromTiQueuedEvent sha256)).Nodup ∧
      (∀ name, (s.executors q).executions name ≠ none ↔
        ∃ event ∈ (s.executors q).log, fromTiQueuedEvent sha256 event = name) ∧
      ∀ event ∈ (s.executors q).log, Announced s.shard.records q event ∧
        ∀ q', event ∈ (s.executors q').log → q' = q := by
  have hsound := (System.start_sound sha256 shardId).run hr
  refine ⟨(hsound q).logged.nodup, fun name => ⟨(hsound q).named name, ?_⟩,
    fun event hevent => ⟨(hsound q).log event hevent, fun q' hevent' => ?_⟩⟩
  · rintro ⟨event, hevent, rfl⟩
    exact (hsound q).logged.exist event hevent
  · exact executorsOf_unique ((hsound q').log event hevent').executorsOf
      ((hsound q).log event hevent).executorsOf

def acceptAll : PutEvents := ⟨acceptEntries, fun entries => by simp [acceptEntries]⟩

/-- A task instance of the queue `batch` is queued, published, received and executed. -/
def batchRun : List Label := [
  .commit (loadRecord "batch").record, .forward 1 acceptAll, .receive .batchExecutor [0],
  .turn .batchExecutor 0, .finish .batchExecutor 0]

theorem executions_announced_batchRun : ∃ s,
    Machine.run (systemStep "bus" sha256Table 3) (.start "shardId-000000000006") batchRun =
        some s ∧
      (((s.executors .batchExecutor).log.map (fromTiQueuedEvent sha256Table)).Nodup ∧
        (∀ name, (s.executors .batchExecutor).executions name ≠ none ↔
          ∃ event ∈ (s.executors .batchExecutor).log, fromTiQueuedEvent sha256Table event = name) ∧
        ∀ event ∈ (s.executors .batchExecutor).log,
          Announced s.shard.records .batchExecutor event ∧
            ∀ q', event ∈ (s.executors q').log → q' = .batchExecutor) :=
  ⟨_, rfl, @executions_announced "bus" sha256Table 3 "shardId-000000000006" batchRun _ rfl
    .batchExecutor⟩

end Beeflow.Pipeline
