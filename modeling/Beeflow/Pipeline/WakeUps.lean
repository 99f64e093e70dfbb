import Beeflow.Pipeline.EndToEnd

/-!
# No wake-up is lost

A change that the scheduler or the schedule updater has to hear of is under way
until its message is in their queue, and the message stays there until an
invocation that was handed it returns. Such an invocation began behind the
change.
-/

namespace Beeflow.Pipeline

open Events Executors Machine Python Scheduler

-- ---------------------------------------------------------------------------
-- Under way
-- ---------------------------------------------------------------------------

/-- The change is on its way to the queue; its message has an id from `first` on. -/
def UnderWay (r : DmsRecord) (q : SqsQueue) (first : Nat) (d : Deployment) : Prop :=
  r ∈ d.written ∨
    r.record ∈ d.system.shard.records.drop d.system.source.checkpoint ∨
    ∃ e, toEventBridgeEvent r.record = .ok (some ⟨e, r.record⟩) ∧
      ∃ m ∈ (d.queue q).messages, first ≤ m.id ∧ m.body = e.dict

/-- An invocation was handed such a message. -/
def Handed (e : BeeflowEvent) (q : SqsQueue) (first : Nat) (d : Deployment) : Prop :=
  ∃ c ∈ d.invocations q, ∃ m ∈ c.batch, first ≤ m.id ∧ m.body = e.dict

/-- The handler of the queue is invoked with a message of the event, with an id from `first` on. -/
def Wakes (e : BeeflowEvent) (q : SqsQueue) (first : Nat) (d : Deployment) (l : DeploymentLabel)
    (_ : Deployment) : Prop :=
  ∃ ids, l = .wake q ids ∧ ∃ id ∈ ids, first ≤ id ∧
    ∃ m, (d.queue q).find? id = some m ∧ m.body = e.dict

section Step

variable {busname : String} {sha256 : List UInt8 → String} {retries first : Nat}
  {d t : Deployment} {l : DeploymentLabel} {r : DmsRecord} {q : SqsQueue}

theorem sent_step (h : d.Sound sha256) (hq : q.executor = false)
    (hs : deploymentStep busname sha256 retries d l = some t) :
    (d.queue q).sent ≤ (t.queue q).sent := by
  rcases h.system.queue_cases hq hs with ⟨bodies, hb⟩ | ⟨id, -, hb⟩ | ⟨ids, -, hb⟩ |
    ⟨k, c, -, -, hb⟩ | ⟨k, -, hb⟩
  all_goals rw [hb]
  · exact (d.queue q).sent_sendAll bodies
  all_goals exact Nat.le_refl _

/-- Only a new invocation is handed messages that no invocation had. -/
theorem handed_step {e : BeeflowEvent} (h : d.Sound sha256) (hq : q.executor = false)
    (hs : deploymentStep busname sha256 retries d l = some t) (ht : Handed e q first t) :
    Handed e q first d ∨ Wakes e q first d l t := by
  obtain ⟨c, hc, m, hm, hid, hbody⟩ := ht
  have hold : c ∈ (d.queue q).consumers → Handed e q first d :=
    fun hc => ⟨c, hc, m, hm, hid, hbody⟩
  have hc : c ∈ (t.queue q).consumers := hc
  rcases h.system.queue_cases hq hs with ⟨bodies, hb⟩ | ⟨id, -, hb⟩ | ⟨ids, rfl, hb⟩ |
    ⟨k, c', -, -, hb⟩ | ⟨k, -, hb⟩
  all_goals rw [hb] at hc
  · exact .inl (hold (Mailbox.consumers_sendAll _ bodies ▸ hc))
  · exact .inl (hold hc)
  · rcases List.mem_append.mp hc with hc | hc
    · exact .inl (hold hc)
    · obtain rfl := List.mem_singleton.mp hc
      obtain ⟨id, hmem, hfind⟩ := List.mem_filterMap.mp hm
      have hsame : m.id = id := by simpa using List.find?_some hfind
      exact .inr ⟨ids, rfl, id, hmem, hsame ▸ hid, m, hfind, hbody⟩
  · exact .inl (hold (List.mem_of_mem_eraseIdx hc))
  · exact .inl (hold (List.mem_of_mem_eraseIdx hc))

/-- A message stays until an invocation returns that was handed it. -/
theorem message_step {e : BeeflowEvent} (h : d.Sound sha256) (hq : q.executor = false)
    (hc : Delivering busname d l) (hs : deploymentStep busname sha256 retries d l = some t)
    {m : Message Dict} (hm : m ∈ (d.queue q).messages) (hid : first ≤ m.id)
    (hbody : m.body = e.dict) : m ∈ (t.queue q).messages ∨ Handed e q first d := by
  rcases h.system.queue_cases hq hs with ⟨bodies, hb⟩ | ⟨id, rfl, -⟩ | ⟨ids, -, hb⟩ |
    ⟨k, c, -, hk, hb⟩ | ⟨k, -, hb⟩
  · exact .inl (hb ▸ Mailbox.messages_sendAll _ bodies hm)
  · exact hc.elim
  · exact .inl (hb ▸ hm)
  · by_cases hgone : m.id ∈ c.batch.map (·.id)
    · obtain ⟨m', hm', hsame⟩ := List.mem_map.mp hgone
      have hc := List.mem_of_getElem? hk
      have hknown : m' ∈ (d.queue q).known := Mailbox.mem_known.mpr (.inr ⟨c, hc, hm'⟩)
      obtain rfl := (h.queue q hq).ids m' hknown m (Mailbox.mem_known.mpr (.inl hm)) hsame
      exact .inr ⟨c, hc, m', hm', hid, hbody⟩
    · refine .inl (hb ▸ List.mem_filter.mpr ⟨hm, ?_⟩)
      simpa using hgone
  · exact .inl (hb ▸ hm)

/-- A record that the forwarder gets behind it is published, and its message is in the queue. -/
theorem underWay_forward (h : d.Delivered sha256) (hfirst : first ≤ (d.queue q).sent)
    (hheard : q ∈ r.row.heardBy) {size : Nat} {putEvents : PutEvents} {s : System}
    (hc : GivesNothingUp busname d.system (.forward size putEvents))
    (hs : d.system.forward busname size putEvents = some s)
    (hr : r.record ∈ d.system.shard.records.drop d.system.source.checkpoint) :
    UnderWay r q first { d with system := s } := by
  obtain ⟨-, source, hsource, rfl⟩ := System.forward_cases hs
  rcases System.forward_checkpoint h.system.numbered hc hsource with
    hsame | ⟨hnext, -, hhandles, hclean⟩
  · refine .inr (.inl ?_)
    dsimp only
    rwa [hsame]
  · rw [← List.take_append_drop (d.system.nextInvocation size putEvents).batch.length
      (d.system.shard.records.drop d.system.source.checkpoint), List.mem_append] at hr
    rcases hr with hr | hr
    · have hbatch : r.record ∈ (d.system.nextInvocation size putEvents).batch := by
        unfold System.nextInvocation at hr ⊢
        dsimp only at hr ⊢
        rwa [List.length_take, ← List.take_eq_take_min] at hr
      obtain ⟨input, hinput⟩ := hhandles _ hbatch
      obtain ⟨e, rfl⟩ := r.converted_input hinput
      have hput : (d.system.nextInvocation size putEvents).putEvents = putEvents.put := rfl
      have hpublished := published_of_clean hput hhandles hclean hbatch hinput
      have hmem : e.dict ∈ routed (publishedEvents busname
          (d.system.nextInvocation size putEvents)) q :=
        mem_routed.mpr ⟨e, hpublished, deliveries_record hinput ▸ hheard, rfl⟩
      obtain ⟨m, hm, hid, hbody⟩ := Mailbox.mem_sendAll (b := d.system.queues q) hmem
      exact .inr (.inr ⟨e, hinput, m, hm, hfirst.trans hid, hbody⟩)
    · refine .inr (.inl ?_)
      dsimp only
      rwa [hnext, ← List.drop_drop]

/-- A change stays under way until an invocation returns that was handed its message. -/
theorem underWay_step (h : d.Delivered sha256) (hfirst : first ≤ (d.queue q).sent)
    (hq : q.executor = false) (hheard : q ∈ r.row.heardBy) (hc : Delivering busname d l)
    (hs : deploymentStep busname sha256 retries d l = some t) (hU : UnderWay r q first d) :
    UnderWay r q first t ∨
      ∃ e, toEventBridgeEvent r.record = .ok (some ⟨e, r.record⟩) ∧ Handed e q first d := by
  have hdrop : ∀ r' : KinesisStreamRecord, (d.system.shard.records ++ [r']).drop
      d.system.source.checkpoint = d.system.shard.records.drop d.system.source.checkpoint ++ [r'] :=
    fun r' => List.drop_append_of_le_length h.system.numbered.behind
  rcases hU with hU | hU | ⟨e, he, m, hm, hid, hbody⟩
  · left
    rcases deploymentStep_cases hs with ⟨ll, changes, s, -, -, rfl⟩ |
      ⟨r', written, s, -, hwritten, hr', rfl⟩ | ⟨pl, s, -, -, -, rfl⟩ | ⟨q', b, -, rfl, -⟩
    · exact .inl (List.mem_append_left _ hU)
    · rcases List.mem_cons.mp (hwritten ▸ hU) with rfl | hU
      · simp only [systemStep] at hr'
        split_ifs at hr'
        obtain rfl := Option.some.inj hr'
        refine .inr (.inl ?_)
        change _ ∈ (d.system.shard.records ++ [_]).drop d.system.source.checkpoint
        rw [hdrop]
        exact List.mem_append_right _ (List.mem_singleton.mpr rfl)
      · exact .inl hU
    · exact .inl hU
    · exact .inl hU
  · left
    have hcommit : ∀ r' (haccepts : d.system.shard.Accepts r'), r.record ∈
        (d.system.shard.append r' haccepts).records.drop d.system.source.checkpoint := by
      intro r' haccepts
      rw [Shard.append, hdrop]
      exact List.mem_append_left _ hU
    rcases deploymentStep_cases hs with ⟨ll, changes, s, -, -, rfl⟩ |
      ⟨r', written, s, -, -, hr', rfl⟩ | ⟨pl, s, rfl, -, hpl, rfl⟩ | ⟨q', b, -, rfl, -⟩
    · exact .inr (.inl hU)
    · simp only [systemStep] at hr'
      split_ifs at hr' with haccepts
      obtain rfl := Option.some.inj hr'
      exact .inr (.inl (hcommit _ haccepts))
    · rcases System.step_cases hpl with
        ⟨r', haccepts, -, rfl⟩ | ⟨size, putEvents, rfl, hforward⟩ | ⟨hshard, hsource⟩
      · exact .inr (.inl (hcommit _ haccepts))
      · exact underWay_forward h hfirst hheard hc hforward hU
      · refine .inr (.inl ?_)
        dsimp only
        rwa [hshard, hsource]
    · exact .inr (.inl hU)
  · rcases message_step h.sound hq hc hs hm hid hbody with hm | hhanded
    · exact .inl (.inr (.inr ⟨e, he, m, hm, hid, hbody⟩))
    · exact .inr ⟨e, he, hhanded⟩

end Step

-- ---------------------------------------------------------------------------
-- Runs
-- ---------------------------------------------------------------------------

section Runs

variable {busname : String} {sha256 : List UInt8 → String} {retries : Nat} {shardId : String}
  {s : SchedulerState} {before later : List DeploymentLabel} {l : LoopLabel}
  {changes : List DmsRecord} {d t u : Deployment} {r : DmsRecord}

/-- A change that the scheduler or the updater has to hear of is still to be replicated or to be
read, or a message of it that was sent behind the change waits in the queue, or the handler was
invoked with one. -/
theorem change_wakes
    (hbefore : run (deploymentStep busname sha256 retries) (.start s shardId) before = some d)
    (hc : Along (deploymentStep busname sha256 retries) (Delivering busname) (.start s shardId)
      before)
    (hs : deploymentStep busname sha256 retries d (.database l changes) = some t)
    (hlater : run (deploymentStep busname sha256 retries) t later = some u)
    (hc' : Along (deploymentStep busname sha256 retries) (Delivering busname) t later)
    (hr : r ∈ changes) {q : SqsQueue} (hq : q.executor = false) (hheard : q ∈ r.row.heardBy) :
    r ∈ u.written ∨ r.record ∈ u.system.shard.records.drop u.system.source.checkpoint ∨
      ∃ e, toEventBridgeEvent r.record = .ok (some ⟨e, r.record⟩) ∧
        ((∃ m ∈ (u.system.queues q).messages, (t.system.queues q).sent ≤ m.id ∧
            m.body = e.dict) ∨
          Happens (deploymentStep busname sha256 retries)
            (Wakes e q (t.system.queues q).sent) t later) := by
  let first := (t.queue q).sent
  have hdelivered : d.Delivered sha256 := run_invariant (fun _ _ _ h hc hs => h.step hc hs)
    (Deployment.start_delivered s shardId) hc hbefore
  have hchange : Delivering busname d (.database l changes) := trivial
  have hdelivered := hdelivered.step hchange hs
  have hunder : UnderWay r q first t := by
    obtain ⟨s', -, rfl⟩ := Option.map_eq_some_iff.mp hs
    exact .inl (List.mem_append_right _ hr)
  have hstep : ∀ d l t, (d.Delivered sha256 ∧ first ≤ (d.queue q).sent) →
      Delivering busname d l → deploymentStep busname sha256 retries d l = some t →
      (t.Delivered sha256 ∧ first ≤ (t.queue q).sent) ∧
        (UnderWay r q first d → UnderWay r q first t ∨
          ∃ e, toEventBridgeEvent r.record = .ok (some ⟨e, r.record⟩) ∧ Handed e q first d) :=
    fun _ _ _ ⟨h, hfirst⟩ hc hs => ⟨⟨h.step hc hs, hfirst.trans (sent_step h.sound hq hs)⟩,
      underWay_step h hfirst hq hheard hc hs⟩
  rcases run_until hstep ⟨hdelivered, Nat.le_refl _⟩ hunder hc' hlater with
    hunder | ⟨ls₁, l', ls₂, v, w, rfl, hv, -, e, he, hhanded⟩
  · refine hunder.imp_right (Or.imp_right ?_)
    rintro ⟨e, he, m, hm, hid, hbody⟩
    exact ⟨e, he, .inl ⟨m, hm, hid, hbody⟩⟩
  · refine .inr (.inr ⟨e, he, .inr ?_⟩)
    have horigin : ∀ d l t, d.Sound sha256 → Delivering busname d l →
        deploymentStep busname sha256 retries d l = some t →
        t.Sound sha256 ∧ (Handed e q first t → Handed e q first d ∨ Wakes e q first d l t) :=
      fun _ _ _ h _ hs => ⟨h.step hs, handed_step h hq hs⟩
    rcases run_origin horigin hdelivered.sound hc'.of_append hv hhanded with
      ⟨c, hcons, m, hm, hid, -⟩ | hwakes
    · -- what an invocation had at the change was sent before it
      have hknown : m ∈ (t.queue q).known := Mailbox.mem_known.mpr (.inr ⟨c, hcons, hm⟩)
      exact absurd hid (Nat.not_le_of_lt ((hdelivered.sound.queue q hq).fresh m hknown))
    · exact hwakes.append

/-- The task instance that was executed succeeds. -/
def loadSucceeded : DmsRecord where
  row := .taskInstance { loadRow "batch" with state := some .success, queued_dttm := nofun }
  others := []
  disjoint := by simp
  operation := .update
  eventId := "shardId-000000000006:2"
  sequenceNumber := "2"

/-- The change is published, and the scheduler is invoked with it and returns. -/
def loadHeard : List DeploymentLabel :=
  [.replicate, .pipeline (.forward 1 acceptAll), .wake .scheduler [0], .sleep .scheduler 0]

theorem change_wakes_loadHeard : ∃ d t u,
    run (deploymentStep "bus" sha256Table 3) (.start loadScheduled "shardId-000000000006")
        loadExecuted = some d ∧
      deploymentStep "bus" sha256Table 3 d
        (.database (.pass (.write loadQueued.key (some .success))) [loadSucceeded]) = some t ∧
      run (deploymentStep "bus" sha256Table 3) t loadHeard = some u ∧
      (loadSucceeded ∈ u.written ∨
        loadSucceeded.record ∈ u.system.shard.records.drop u.system.source.checkpoint ∨
        ∃ e, toEventBridgeEvent loadSucceeded.record = .ok (some ⟨e, loadSucceeded.record⟩) ∧
          ((∃ m ∈ (u.system.queues .scheduler).messages,
              (t.system.queues .scheduler).sent ≤ m.id ∧ m.body = e.dict) ∨
            Happens (deploymentStep "bus" sha256Table 3)
              (Wakes e .scheduler (t.system.queues .scheduler).sent) t loadHeard)) :=
  ⟨_, _, _, rfl, rfl, rfl, @change_wakes "bus" sha256Table 3 "shardId-000000000006"
    loadScheduled loadExecuted loadHeard (.pass (.write loadQueued.key (some .success)))
    [loadSucceeded] _ _ _ loadSucceeded rfl (by decide) rfl rfl (by decide) List.mem_cons_self
    .scheduler rfl (by decide)⟩

end Runs

end Beeflow.Pipeline
