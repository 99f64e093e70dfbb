import Beeflow.Pipeline.Delivered

/-!
# No episode is lost

The forwarder leaves a batch behind only when every record of it is handled
and every entry is taken, or when Lambda has no attempt left for it; and a
handler that returns has an execution for each of its messages. So along a run
that gives up no batch and lets no message expire, what is committed waits in
the shard or in a queue, or is executed.
-/

namespace Beeflow.Pipeline

open Events Executors Python

-- ---------------------------------------------------------------------------
-- What the forwarder leaves behind
-- ---------------------------------------------------------------------------

/-- Lambda is done with all of the batch or with none of it: no event id is a sequence number. -/
theorem done_cases (busname : String) {i : Invocation} {shard : Shard}
    (hsub : i.batch ⊆ shard.records)
    (hdigits : ∀ r ∈ shard.records, ':' ∉ r.sequenceNumber.toList) :
    i.done busname = 0 ∨
      i.done busname = i.batch.length ∧ (∀ r ∈ i.batch, Handles r) ∧ i.failed busname = [] := by
  rcases i.handled_cases busname with hok | ⟨⟨err, herr⟩, -⟩
  · cases hfailed : i.failed busname with
    | nil =>
      rw [hfailed, List.map_nil] at hok
      refine .inr ⟨by simp [Invocation.done, hok, recordsDone_nil], fun r hr => ?_, rfl⟩
      by_contra hraise
      obtain ⟨err, herr⟩ := handleRecords_error hr hraise busname i.putEvents
      rw [Invocation.handled, herr] at hok
      cases hok
    | cons r failed =>
      have hmem : r ∈ i.failed busname := by simp [hfailed]
      have hr := hsub (mem_batch_of_failing hmem)
      have hid : r.eventId ∉ i.batch.map (·.sequenceNumber) := by
        intro hid
        obtain ⟨r', hr', he⟩ := List.mem_map.mp hid
        refine hdigits r' (hsub hr') ?_
        rw [he, shard.eventIds r hr]
        simp
      refine .inl ?_
      rw [Invocation.done, hok]
      exact if_neg fun hall => hid (hall _ (List.mem_map_of_mem hmem))
  · exact .inl (by simp [Invocation.done, herr])

/-- Where every record is handled and no entry failed, every event is published. -/
theorem published_of_clean {busname : String} {i : Invocation} {putEvents : PutEvents}
    (hput : i.putEvents = putEvents.put) (hhandles : ∀ r ∈ i.batch, Handles r)
    (hclean : i.failed busname = []) {r : KinesisStreamRecord} (hr : r ∈ i.batch)
    {e : EventbridgeInput} (he : toEventBridgeEvent r = .ok (some e)) :
    e.beeflowEvent ∈ publishedEvents busname i := by
  have hmem : e ∈ i.submitted := by
    rw [submitted_eq hhandles]
    exact List.mem_filterMap.mpr ⟨r, hr, converted_eq_some.mpr he⟩
  obtain ⟨k, hk⟩ := List.mem_iff_getElem?.mp hmem
  have hlt : k < (i.response busname).length := by
    rw [Invocation.response, hput, putEvents.length, List.length_map]
    exact (List.getElem?_eq_some_iff.mp hk).1
  have hresult := List.getElem?_eq_getElem hlt
  cases hcode : (i.response busname)[k].errorCode with
  | none =>
    exact List.mem_map_of_mem (Comprehension.mem_failing.mpr ⟨k, _, hresult, hk, by simp [hcode]⟩)
  | some code =>
    have hfailed : e.input ∈ i.failed busname :=
      List.mem_map_of_mem (Comprehension.mem_failing.mpr ⟨k, _, hresult, hk, by simp [hcode]⟩)
    simp [hclean] at hfailed

-- ---------------------------------------------------------------------------
-- Nothing is given up
-- ---------------------------------------------------------------------------

/-- Lambda's last attempt gets through with the batch, and no message expires. -/
def GivesNothingUp (busname : String) (s : System) : Label → Prop
  | .forward size putEvents => maximumRetryAttempts ≤ s.source.attempts →
      (s.nextInvocation size putEvents).done busname =
        (s.nextInvocation size putEvents).batch.length
  | .expire .. => False
  | .commit _ | .resend .. | .receive .. | .turn .. | .finish .. | .stop .. | .close .. => True

instance (busname : String) (s : System) : (l : Label) → Decidable (GivesNothingUp busname s l)
  | .forward size putEvents =>
    inferInstanceAs (Decidable (maximumRetryAttempts ≤ s.source.attempts →
      (s.nextInvocation size putEvents).done busname =
        (s.nextInvocation size putEvents).batch.length))
  | .expire .. => .isFalse id
  | .commit _ | .resend .. | .receive .. | .turn .. | .finish .. | .stop .. | .close .. =>
    .isTrue trivial

section Step

variable {busname : String} {sha256 : List UInt8 → String} {retries : Nat} {s t : System}

structure System.Numbered (s : System) : Prop where
  behind : s.source.checkpoint ≤ s.shard.records.length
  digits : ∀ r ∈ s.shard.records, ':' ∉ r.sequenceNumber.toList

/-- The checkpoint stays, or it moves behind a batch whose events are all published. -/
theorem System.forward_checkpoint (hn : s.Numbered) {size : Nat} {putEvents : PutEvents}
    (hc : GivesNothingUp busname s (.forward size putEvents)) {source : EventSource}
    (h : s.source.step busname s.shard.records ⟨size, putEvents.put⟩ = some source) :
    source.checkpoint = s.source.checkpoint ∨
      source.checkpoint = s.source.checkpoint +
          (s.nextInvocation size putEvents).batch.length ∧
        source.checkpoint ≤ s.shard.records.length ∧
        (∀ r ∈ (s.nextInvocation size putEvents).batch, Handles r) ∧
        (s.nextInvocation size putEvents).failed busname = [] := by
  have hsub : (s.nextInvocation size putEvents).batch ⊆ s.shard.records :=
    fun r hr => List.mem_of_mem_drop (List.mem_of_mem_take hr)
  have hdone := done_cases busname hsub hn.digits
  simp only [GivesNothingUp] at hc
  unfold EventSource.step at h
  dsimp only at h
  unfold System.nextInvocation at hdone hc ⊢
  generalize hi : (if s.source.pending = 0 then size else s.source.pending) = n at h hdone hc ⊢
  split_ifs at h with hguard hleft
  all_goals
    obtain rfl := Option.some.inj h
    push Not at hguard
    obtain ⟨hpos, -, hroom⟩ := hguard
    have hlength : ((s.shard.records.drop s.source.checkpoint).take n).length = n := by
      simp
      omega
    rw [hlength] at hdone hc ⊢
  · rcases hdone with hdone | ⟨-, hclean⟩
    · omega
    · exact .inr ⟨rfl, hroom, hclean⟩
  · rcases hdone with hdone | ⟨hdone, -⟩
    · exact .inl (by rw [hdone]; rfl)
    · omega

/-- What waits in a queue or is executed does so afterwards. -/
def System.Keeps (sha256 : List UInt8 → String) (s t : System) : Prop :=
  ∀ q detail, (s.queues q).Holds (Executed sha256 (s.executors q)) detail →
    (t.queues q).Holds (Executed sha256 (t.executors q)) detail

theorem System.Keeps.set {q : SqsQueue} {b : Mailbox Dict} {x : ExecutorState}
    (hb : ∀ detail, (s.queues q).Holds (Executed sha256 (s.executors q)) detail →
      b.Holds (Executed sha256 x) detail) :
    s.Keeps sha256 ((s.setQueue q b).setExecutor q x) := by
  intro q' detail hh
  by_cases hq : q' = q
  · subst hq
    simpa [setQueue, setExecutor] using hb detail hh
  · simpa [setQueue, setExecutor, Function.update_of_ne hq] using hh

theorem System.Keeps.setQueue {q : SqsQueue} {b : Mailbox Dict}
    (hb : ∀ detail, (s.queues q).Holds (Executed sha256 (s.executors q)) detail →
      b.Holds (Executed sha256 (s.executors q)) detail) :
    s.Keeps sha256 (s.setQueue q b) := by
  rw [System.setQueue_eq]
  exact .set hb

theorem System.Keeps.turn (h : s.Sound sha256) {q : SqsQueue} {k : Nat}
    (hs : s.turn sha256 retries q k = some t) : s.Keeps sha256 t := by
  obtain ⟨c, m, hc, hm, rfl | ⟨u, hu, rfl⟩⟩ := System.turn_cases hs
  · exact .setQueue fun detail hh => hh
  · obtain ⟨event, -, hbody⟩ := (h q).next hc hm
    rw [hbody] at hu
    exact .set fun detail hh =>
      Mailbox.Holds.mono (b := (s.queues q).advance k) hh fun _ hd => hd.mono (turned hu).kept

theorem System.Keeps.step (h : s.Sound sha256) {l : Label} (hc : GivesNothingUp busname s l)
    (hs : systemStep busname sha256 retries s l = some t) : s.Keeps sha256 t := by
  cases l with
  | commit r =>
    simp only [systemStep] at hs
    split_ifs at hs
    obtain rfl := Option.some.inj hs
    exact fun _ _ hh => hh
  | forward size putEvents =>
    obtain ⟨-, source, -, rfl⟩ := System.forward_cases hs
    exact fun q detail hh => hh.of_messages (Mailbox.messages_sendAll _ _)
  | resend q id =>
    obtain ⟨m, -, rfl⟩ := Option.map_eq_some_iff.mp hs
    exact .setQueue fun detail hh => hh.of_messages (Mailbox.messages_sendAll _ [m.body])
  | receive q ids =>
    simp only [systemStep] at hs
    split_ifs at hs
    obtain rfl := Option.some.inj hs
    exact .setQueue fun detail hh => hh
  | turn q k => exact .turn h hs
  | finish q k =>
    simp only [systemStep] at hs
    split at hs
    · rename_i batch hk
      obtain rfl := Option.some.inj hs
      exact .setQueue fun detail hh => hh.remove (h q).valid (List.mem_of_getElem? hk) rfl
    · cases hs
  | stop q k =>
    obtain ⟨-, -, rfl⟩ := Option.map_eq_some_iff.mp hs
    exact .setQueue fun detail hh => hh
  | expire q id => exact hc.elim
  | close q name =>
    obtain ⟨x, hx, rfl⟩ := Option.map_eq_some_iff.mp hs
    rw [System.setExecutor_eq]
    refine .set fun detail hh => hh.mono fun _ hd => hd.mono ?_
    simp only [executorStep] at hx
    split_ifs at hx
    obtain rfl := Option.some.inj hx
    exact fun _ => update_closed

-- ---------------------------------------------------------------------------
-- Runs
-- ---------------------------------------------------------------------------

/-- Every episode in front of the checkpoint waits for its executor or is executed. -/
structure System.Delivered (sha256 : List UInt8 → String) (s : System) : Prop where
  sound : s.Sound sha256
  numbered : s.Numbered
  kept : ∀ r ∈ s.shard.records.take s.source.checkpoint, ∀ e,
    toEventBridgeEvent r = .ok (some e) → ∀ q ∈ executorQueues e.beeflowEvent,
      (s.queues q).Holds (Executed sha256 (s.executors q)) e.beeflowEvent.dict

/-- Only a commit and the forwarder touch the shard and its checkpoint. -/
theorem System.step_cases {l : Label} (hs : systemStep busname sha256 retries s l = some t) :
    (∃ r h, l = .commit r ∧ t = { s with shard := s.shard.append r h }) ∨
      (∃ size putEvents, l = .forward size putEvents ∧ s.forward busname size putEvents = some t) ∨
      t.shard = s.shard ∧ t.source = s.source := by
  cases l with
  | commit r =>
    simp only [systemStep] at hs
    split_ifs at hs with haccepts
    exact .inl ⟨r, haccepts, rfl, (Option.some.inj hs).symm⟩
  | forward size putEvents => exact .inr (.inl ⟨size, putEvents, rfl, hs⟩)
  | turn q k =>
    obtain ⟨-, -, -, -, rfl | ⟨-, -, rfl⟩⟩ := System.turn_cases hs
    · exact .inr (.inr ⟨rfl, rfl⟩)
    · exact .inr (.inr ⟨rfl, rfl⟩)
  | finish q k =>
    simp only [systemStep] at hs
    split at hs
    · obtain rfl := Option.some.inj hs
      exact .inr (.inr ⟨rfl, rfl⟩)
    · cases hs
  | receive q ids =>
    simp only [systemStep] at hs
    split_ifs at hs
    obtain rfl := Option.some.inj hs
    exact .inr (.inr ⟨rfl, rfl⟩)
  | expire q id =>
    obtain rfl := Option.some.inj hs
    exact .inr (.inr ⟨rfl, rfl⟩)
  | resend q id | stop q k | close q name =>
    obtain ⟨-, -, rfl⟩ := Option.map_eq_some_iff.mp hs
    exact .inr (.inr ⟨rfl, rfl⟩)

theorem System.Numbered.step (h : s.Numbered) {l : Label} (hc : GivesNothingUp busname s l)
    (hs : systemStep busname sha256 retries s l = some t) : t.Numbered := by
  rcases System.step_cases hs with
    ⟨r, haccepts, -, rfl⟩ | ⟨size, putEvents, rfl, hforward⟩ | ⟨hshard, hsource⟩
  · refine ⟨h.behind.trans ?_, List.forall_mem_append.mpr ⟨h.digits, ?_⟩⟩
    · simp [Shard.append]
    · exact List.forall_mem_singleton.mpr haccepts.2.1
  · obtain ⟨-, source, hsource, rfl⟩ := System.forward_cases hforward
    refine ⟨?_, h.digits⟩
    rcases System.forward_checkpoint h hc hsource with hsame | ⟨-, hle, -⟩
    · exact hsame ▸ h.behind
    · exact hle
  · exact ⟨by rw [hshard, hsource]; exact h.behind, by rw [hshard]; exact h.digits⟩

/-- The batch that the forwarder leaves behind is in the queues of its executors. -/
theorem System.Delivered.forward (h : s.Delivered sha256) {size : Nat} {putEvents : PutEvents}
    (hc : GivesNothingUp busname s (.forward size putEvents))
    (hs : s.forward busname size putEvents = some t)
    {r : KinesisStreamRecord} (hr : r ∈ t.shard.records.take t.source.checkpoint)
    {e : EventbridgeInput} (he : toEventBridgeEvent r = .ok (some e)) {q : SqsQueue}
    (hq : q ∈ executorQueues e.beeflowEvent) :
    (t.queues q).Holds (Executed sha256 (t.executors q)) e.beeflowEvent.dict := by
  have hstep : systemStep busname sha256 0 s (.forward size putEvents) = some t := hs
  have hkeeps := System.Keeps.step h.sound hc hstep
  obtain ⟨-, source, hsource, rfl⟩ := System.forward_cases hs
  rcases System.forward_checkpoint h.numbered hc hsource with hsame | ⟨hnext, -, hhandles, hclean⟩
  · dsimp only at hr
    rw [hsame] at hr
    exact hkeeps q _ (h.kept r hr e he q hq)
  · dsimp only at hr
    rw [hnext, List.take_add] at hr
    rcases List.mem_append.mp hr with hr | hr
    · exact hkeeps q _ (h.kept r hr e he q hq)
    · have hbatch : r ∈ (s.nextInvocation size putEvents).batch := by
        unfold System.nextInvocation at hr ⊢
        dsimp only at hr ⊢
        rw [List.length_take, ← List.take_eq_take_min] at hr
        exact hr
      have hput : (s.nextInvocation size putEvents).putEvents = putEvents.put := rfl
      have hpublished := published_of_clean hput hhandles hclean hbatch he
      exact Mailbox.holds_sendAll
        (mem_routed.mpr ⟨_, hpublished, (List.mem_filter.mp hq).1, rfl⟩)

theorem System.Delivered.step (h : s.Delivered sha256) {l : Label}
    (hc : GivesNothingUp busname s l)
    (hs : systemStep busname sha256 retries s l = some t) : t.Delivered sha256 := by
  refine ⟨h.sound.step hs, h.numbered.step hc hs, ?_⟩
  have hkeeps := System.Keeps.step h.sound hc hs
  rcases System.step_cases hs with
    ⟨r, haccepts, -, rfl⟩ | ⟨size, putEvents, rfl, hforward⟩ | ⟨hshard, hsource⟩
  · intro r' hr' e he q hq
    have hr' : r' ∈ (s.shard.records ++ [r]).take s.source.checkpoint := hr'
    rw [List.take_append_of_le_length h.numbered.behind] at hr'
    exact hkeeps q _ (h.kept r' hr' e he q hq)
  · exact fun r hr e he q hq => h.forward hc hforward hr he hq
  · rw [hshard, hsource]
    exact fun r hr e he q hq => hkeeps q _ (h.kept r hr e he q hq)

theorem System.start_delivered (sha256 : List UInt8 → String) (shardId : String) :
    (System.start shardId).Delivered sha256 where
  sound := System.start_sound sha256 shardId
  numbered := ⟨Nat.le_refl 0, by simp [System.start]⟩
  kept := by simp [System.start]

end Step

section Runs

variable {busname : String} {sha256 : List UInt8 → String} {retries : Nat} {shardId : String}
  {labels : List Label} {s : System}

theorem System.Delivered.run
    (hr : Machine.run (systemStep busname sha256 retries) (.start shardId) labels = some s)
    (hc : Machine.Along (systemStep busname sha256 retries) (GivesNothingUp busname)
      (.start shardId) labels) : s.Delivered sha256 :=
  Machine.run_invariant (fun _ _ _ h hc hs => h.step hc hs)
    (System.start_delivered sha256 shardId) hc hr

theorem parsed_dict_injective {a b : TaskInstanceQueued} {t : BeeflowEventType}
    (h : (a.parsed t).dict = (b.parsed t).dict) : a = b := by
  have hparse := (parse_dict a t).symm.trans (h ▸ parse_dict b t)
  exact congrArg (fun e => queuedOf e.event) (Except.ok.inj hparse)

theorem System.Delivered.episode (h : s.Delivered sha256) {r : KinesisStreamRecord}
    (hmem : r ∈ s.shard.records.take s.source.checkpoint) {e : EventbridgeInput}
    (he : toEventBridgeEvent r = .ok (some e)) {q : SqsQueue}
    (hq : q ∈ executorQueues e.beeflowEvent) :
    (∃ m ∈ (s.queues q).messages, m.body = e.beeflowEvent.dict) ∨
      (s.executors q).executions (fromTiQueuedEvent sha256 (queuedOf e.beeflowEvent)) ≠ none := by
  obtain ⟨event, hdict, hevent, -⟩ := delivered_queued he hq
  rw [hevent]
  refine (h.kept r hmem e he q hq).imp id ?_
  rintro ⟨event', hdetail, hexecuted⟩
  rwa [parsed_dict_injective (hdict.symm.trans hdetail)]

/-- Along a run that gives up no batch and lets no message expire, every record of an episode is
still to be read, or its event waits in the queue of its executor or has its execution. -/
theorem no_episode_lost
    (hr : Machine.run (systemStep busname sha256 retries) (.start shardId) labels = some s)
    (hc : Machine.Along (systemStep busname sha256 retries) (GivesNothingUp busname)
      (.start shardId) labels) {r : KinesisStreamRecord} (hmem : r ∈ s.shard.records)
    {e : EventbridgeInput} (he : toEventBridgeEvent r = .ok (some e)) {q : SqsQueue}
    (hq : q ∈ executorQueues e.beeflowEvent) :
    r ∈ s.shard.records.drop s.source.checkpoint ∨
      (∃ m ∈ (s.queues q).messages, m.body = e.beeflowEvent.dict) ∨
      (s.executors q).executions (fromTiQueuedEvent sha256 (queuedOf e.beeflowEvent)) ≠ none := by
  rw [← List.take_append_drop s.source.checkpoint s.shard.records] at hmem
  rcases List.mem_append.mp hmem with hmem | hmem
  · exact .inr ((System.Delivered.run hr hc).episode hmem he hq)
  · exact .inl hmem

def loadEvent : TaskInstanceQueued where
  dagId := "etl"
  runId := "scheduled"
  taskId := "load"
  mapIndex := -1
  tryNumber := 0
  pool := "default_pool"
  queue := "batch"
  queuedDttm := "1970-01-01T00:00:00.000000Z"

theorem no_episode_lost_batchRun : ∃ s e,
    Machine.run (systemStep "bus" sha256Table 3) (.start "shardId-000000000006") batchRun =
        some s ∧
      toEventBridgeEvent (loadRecord "batch").record = .ok (some e) ∧
      ((loadRecord "batch").record ∈ s.shard.records.drop s.source.checkpoint ∨
        (∃ m ∈ (s.queues .batchExecutor).messages, m.body = e.beeflowEvent.dict) ∨
        (s.executors .batchExecutor).executions
          (fromTiQueuedEvent sha256Table (queuedOf e.beeflowEvent)) ≠ none) :=
  ⟨_, _, rfl, rfl, @no_episode_lost "bus" sha256Table 3 "shardId-000000000006" batchRun _ rfl
    (by decide) (loadRecord "batch").record List.mem_cons_self _ rfl .batchExecutor
    List.mem_cons_self⟩

/-- Once such a run has read the shard and emptied a queue, the executions of its executor are
those of the episodes committed for it. -/
theorem executions_drained
    (hr : Machine.run (systemStep busname sha256 retries) (.start shardId) labels = some s)
    (hc : Machine.Along (systemStep busname sha256 retries) (GivesNothingUp busname)
      (.start shardId) labels) (hread : s.source.checkpoint = s.shard.records.length)
    {q : SqsQueue} (hempty : (s.queues q).messages = []) (name : String) :
    (s.executors q).executions name ≠ none ↔
      ∃ event, Announced s.shard.records q event ∧ fromTiQueuedEvent sha256 event = name := by
  have hdelivered := System.Delivered.run hr hc
  have hsound := hdelivered.sound q
  constructor
  · intro hname
    obtain ⟨event, hevent, rfl⟩ := hsound.named name hname
    exact ⟨event, hsound.log event hevent, rfl⟩
  · rintro ⟨event, hevent, rfl⟩
    obtain ⟨r, hmem, e, he, hq, rfl⟩ := hevent
    have hbehind : r ∈ s.shard.records.take s.source.checkpoint := by
      rwa [hread, List.take_length]
    rcases hdelivered.episode hbehind he hq with ⟨m, hm, -⟩ | hexecuted
    · simp [hempty] at hm
    · exact hexecuted

theorem executions_drained_batchRun : ∃ s,
    Machine.run (systemStep "bus" sha256Table 3) (.start "shardId-000000000006") batchRun =
        some s ∧
      ((s.executors .batchExecutor).executions (fromTiQueuedEvent sha256Table loadEvent) ≠ none ↔
        ∃ event, Announced s.shard.records .batchExecutor event ∧
          fromTiQueuedEvent sha256Table event = fromTiQueuedEvent sha256Table loadEvent) :=
  ⟨_, rfl, @executions_drained "bus" sha256Table 3 "shardId-000000000006" batchRun _ rfl
    (by decide) rfl .batchExecutor rfl (fromTiQueuedEvent sha256Table loadEvent)⟩

end Runs

end Beeflow.Pipeline
