import Beeflow.Pipeline.Deployment
import Beeflow.Pipeline.Routing

/-!
# From the pass to the execution

Every execution goes back to a pass that queued its task instance, and once all
changes are through, every queued task instance of an executor's queue has its
execution.
-/

namespace Beeflow.Pipeline

open Airflow Events Executors Machine Python Scheduler

-- ---------------------------------------------------------------------------
-- The names in an event
-- ---------------------------------------------------------------------------

/-- How `prepare_input` and the event's model spell a text of a row. -/
def spelled (s : String) : String :=
  if s = "f" then "False" else if s = "t" then "True" else s

/-- The event is one of the task instance. -/
structure Names (event : TaskInstanceQueued) (key : TaskInstanceKey) : Prop where
  dagId : event.dagId = spelled key.dagId
  taskId : event.taskId = spelled key.taskId
  runId : event.runId = spelled key.runId
  mapIndex : event.mapIndex = key.mapIndex

theorem strValidator_spelled {s v : String} (h : strValidator (prepareValue (.str s)) = .ok v) :
    v = spelled s := by
  unfold spelled
  rw [prepareValue_str] at h
  split_ifs at h ⊢ with hf ht hn
  · exact (Except.ok.inj h).symm
  · exact (Except.ok.inj h).symm
  · cases h
  · exact (Except.ok.inj h).symm

section Row

variable {r : DmsRecord} {row : TaskInstanceRow} {e : BeeflowEvent}

/-- The event of a queued row is built from its columns. -/
theorem queued_fromMetadata (hrow : r.row = .taskInstance row) (hqueued : row.state = some .queued)
    (he : toEventBridgeEvent r.record = .ok (some ⟨e, r.record⟩)) :
    taskInstanceQueued.fromMetadata ["dag_id", "run_id", "task_id", "map_index", "pool", "queue",
      "try_number", "queued_dttm"] r.converter.metadata = .ok e := by
  have hc := (convert_taskInstance hrow).symm.trans (converted_record he)
  rw [convert_stateBranch hrow, hqueued] at hc
  exact hc

theorem queued_field (hrow : r.row = .taskInstance row) (hqueued : row.state = some .queued)
    (he : toEventBridgeEvent r.record = .ok (some ⟨e, r.record⟩)) {f : Field}
    (hf : f ∈ taskInstanceQueued.fields) :
    ∃ v, f.validate r.converter.metadata = .ok v ∧ e.field f.name = some v := by
  have hreads : taskInstanceQueued.Reads ["dag_id", "run_id", "task_id", "map_index", "pool",
    "queue", "try_number", "queued_dttm"] := by decide
  have hm := queued_fromMetadata hrow hqueued he
  obtain ⟨v, hv⟩ := (EventClass.fromMetadata_ok hreads).mp ⟨e, hm⟩ _ hf
  exact ⟨v, hv, EventClass.fromMetadata_field hreads hm hf hv⟩

theorem queued_text (hrow : r.row = .taskInstance row) (hqueued : row.state = some .queued)
    (he : toEventBridgeEvent r.record = .ok (some ⟨e, r.record⟩)) {name s : String}
    (hf : ⟨name, .str⟩ ∈ taskInstanceQueued.fields)
    (hl : r.converter.metadata.lookup name = some (prepareValue (.str s))) :
    strAttribute e name = spelled s := by
  obtain ⟨v, hv, hfield⟩ := queued_field hrow hqueued he hf
  simp only [Field.validate, hl, FieldType.validate] at hv
  cases hs : strValidator (prepareValue (.str s)) with
  | error message => simp [hs, Except.map] at hv
  | ok v' =>
    simp only [hs, Except.map, Except.ok.injEq] at hv
    rw [strAttribute, hfield, ← hv]
    exact strValidator_spelled hs

theorem queued_int (hrow : r.row = .taskInstance row) (hqueued : row.state = some .queued)
    (he : toEventBridgeEvent r.record = .ok (some ⟨e, r.record⟩)) {name : String} {o : Option Int}
    (hf : ⟨name, .int⟩ ∈ taskInstanceQueued.fields)
    (hl : r.converter.metadata.lookup name = o.map .int) : o = some (intAttribute e name) := by
  obtain ⟨v, hv, hfield⟩ := queued_field hrow hqueued he hf
  cases o with
  | none => simp [Field.validate, hl] at hv
  | some n =>
    simp only [Field.validate, hl, Option.map_some, FieldType.validate, intValidator, Except.map,
      Except.ok.injEq] at hv
    rw [intAttribute, hfield, ← hv]

theorem queued_names (hrow : r.row = .taskInstance row) (hqueued : row.state = some .queued)
    (he : toEventBridgeEvent r.record = .ok (some ⟨e, r.record⟩)) :
    Names (queuedOf e) row.key ∧ row.tryNumber = some (queuedOf e).tryNumber := by
  have hlookup : ∀ {name : String}, name ∈ (TableRow.taskInstance row).columns.map Prod.fst →
      r.converter.metadata.lookup name =
        ((TableRow.taskInstance row).columns.lookup name).join.map prepareValue :=
    fun hk => lookup_taskInstance hrow hk
  refine ⟨⟨?_, ?_, ?_, ?_⟩, ?_⟩
  · exact queued_text hrow hqueued he (by decide) (hlookup (by simp [TableRow.columns]))
  · exact queued_text hrow hqueued he (by decide) (hlookup (by simp [TableRow.columns]))
  · exact queued_text hrow hqueued he (by decide) (hlookup (by simp [TableRow.columns]))
  · have hmap : some row.mapIndex = some (intAttribute e "map_index") :=
      queued_int hrow hqueued he (by decide) (hlookup (by simp [TableRow.columns]))
    exact (Option.some.inj hmap).symm
  · refine queued_int hrow hqueued he (by decide) ?_
    rw [hlookup (by simp [TableRow.columns])]
    cases h : row.tryNumber with
    | none => simp [TableRow.columns, List.lookup_cons, h]
    | some n => simp [TableRow.columns, List.lookup_cons, h, prepareValue]

theorem heardBy_executor {row : TableRow} {q : SqsQueue} (hq : q ∈ row.heardBy)
    (hexecutor : q.executor) : ∃ ti, row = .taskInstance ti ∧ ti.state = some .queued := by
  cases row with
  | taskInstance ti =>
    refine ⟨ti, rfl, ?_⟩
    rcases hs : ti.state with - | st
    · simp only [TableRow.heardBy, hs, heardOfTaskInstance, List.mem_singleton] at hq
      simp [hq, SqsQueue.executor] at hexecutor
    · cases st with
      | queued => rfl
      | running | restarting | shutdown =>
        simp [TableRow.heardBy, hs, heardOfTaskInstance] at hq
      | removed | scheduled | success | failed | upForRetry | upForReschedule | upstreamFailed
      | skipped | deferred =>
        simp only [TableRow.heardBy, hs, heardOfTaskInstance, List.mem_singleton] at hq
        simp [hq, SqsQueue.executor] at hexecutor
  | dagRun run =>
    simp only [TableRow.heardBy] at hq
    split_ifs at hq
    · obtain rfl := List.mem_singleton.mp hq
      simp [SqsQueue.executor] at hexecutor
    · cases hq
  | dag row =>
    simp only [TableRow.heardBy, List.mem_cons, List.not_mem_nil, or_false] at hq
    rcases hq with rfl | rfl <;> simp [SqsQueue.executor] at hexecutor

/-- A record that an executor hears of is that of a queued row, and the event is the row's. -/
theorem announced_row {q : SqsQueue} {input : EventbridgeInput}
    (he : toEventBridgeEvent r.record = .ok (some input))
    (hq : q ∈ executorQueues input.beeflowEvent) :
    ∃ row, r.row = .taskInstance row ∧ row.state = some .queued ∧
      Names (queuedOf input.beeflowEvent) row.key := by
  have hinput : input = ⟨input.beeflowEvent, r.record⟩ := by
    rw [← toEventBridgeEvent_input he]
  rw [hinput] at he
  obtain ⟨hmem, hexecutor⟩ := List.mem_filter.mp hq
  rw [deliveries_record he] at hmem
  obtain ⟨row, hrow, hqueued⟩ := heardBy_executor hmem hexecutor
  exact ⟨row, hrow, hqueued, (queued_names hrow hqueued he).1⟩

end Row

-- ---------------------------------------------------------------------------
-- Where executions come from
-- ---------------------------------------------------------------------------

/-- The step is a pass that queues the event's task instance, whose dag run is running. -/
def QueuedBy (event : TaskInstanceQueued) (d : Deployment) (l : DeploymentLabel)
    (_ : Deployment) : Prop :=
  ∃ maxTis jobId now changes tis db, l = .database (.pass (.pass maxTis jobId now)) changes ∧
    executableTaskInstancesToQueued d.db maxTis jobId now = some (tis, db) ∧
    ∃ ti ∈ tis, Names event ti.key ∧
      ∃ run, d.db.dagRun ti.key.run = some run ∧ run.state = .running

/-- The event's task instance is in execution, or a record of it was written. -/
def Known (event : TaskInstanceQueued) (d : Deployment) : Prop :=
  (∃ q, Announced d.records q event) ∨
    ∃ ti ∈ d.db.taskInstances.rows, ti.inExecution ∧ Names event ti.key

section Origin

variable {busname : String} {sha256 : List UInt8 → String} {retries : Nat} {d t : Deployment}
  {event : TaskInstanceQueued}

theorem announced_append {records records' : List KinesisStreamRecord} {q : SqsQueue} :
    Announced (records ++ records') q event ↔
      Announced records q event ∨ Announced records' q event := by
  simp only [Announced, List.mem_append, or_and_right, exists_or]

theorem Tells.committed {db db' : Database} {changes : List DmsRecord} (h : Tells db db' changes)
    {r : DmsRecord} (hr : r ∈ changes) {row : TaskInstanceRow} (hrow : r.row = .taskInstance row) :
    ∃ ti ∈ db'.taskInstances.rows, CommittedRow ti row := by
  obtain ⟨ti, hti, htells⟩ := h.current r hr (by rw [hrow]; rfl)
  obtain ⟨row', hrow', hcommitted⟩ := r.tells_iff.mp htells
  obtain rfl := TableRow.taskInstance.inj (hrow.symm.trans hrow')
  exact ⟨ti, hti, hcommitted⟩

/-- A task instance that a step left in execution was so before, or the step queued it. -/
theorem known_executed {s : SchedulerState} {l : LoopLabel} {changes : List DmsRecord}
    (hu : UniqueRuns d.db) (hs : loopStep d.scheduler l = some s)
    {ti : TaskInstance} (hti : ti ∈ s.db.taskInstances.rows) (hin : ti.inExecution)
    (hnames : Names event ti.key) :
    Known event d ∨ QueuedBy event d (.database l changes) t := by
  have hcharge := mem_charges hti hin
  have hbefore : charge ti ∈ (d.db.taskInstances.rows.filter (·.inExecution)).map charge →
      Known event d := by
    intro hmem
    obtain ⟨ti', hti', heq⟩ := List.mem_map.mp hmem
    obtain ⟨hrow, hin'⟩ := List.mem_filter.mp hti'
    have hkey : ti'.key = ti.key := congrArg Prod.fst heq
    exact .inr ⟨ti', hrow, hin', hkey ▸ hnames⟩
  rcases loopStep_cases hu hs with ⟨maxTis, jobId, now, tis, rfl, hpass⟩ | hprogress
  · have hmem := (executable_spec hpass).2.charges.subset hcharge
    rw [List.map_append, List.mem_append] at hmem
    rcases hmem with hmem | hmem
    · exact .inl (hbefore hmem)
    · obtain ⟨ti', hti', heq⟩ := List.mem_map.mp hmem
      have hkey : ti'.key = ti.key := congrArg Prod.fst heq
      refine .inr ⟨maxTis, jobId, now, changes, tis, s.db, rfl, hpass, ti', hti', hkey ▸ hnames, ?_⟩
      exact (executable_runs hpass).2 ti' hti'
  · exact .inl (hbefore (hprogress.charges.subset hcharge))

theorem known_step {l : DeploymentLabel} (hu : UniqueRuns d.db) (hc : Replicated d l)
    (hs : deploymentStep busname sha256 retries d l = some t) (h : Known event t) :
    Known event d ∨ QueuedBy event d l t := by
  rcases deploymentStep_cases hs with ⟨ll, changes, s, rfl, hstep, rfl⟩ |
    ⟨r, written, s, -, hwritten, hstep, rfl⟩ | ⟨pl, s, -, hun, hstep, rfl⟩ | ⟨q', b, hq', rfl, -⟩
  · have htells := hc s hstep
    rcases h with ⟨q, hannounced⟩ | ⟨ti, hti, hin, hnames⟩
    · simp only [Deployment.records, List.map_append, ← List.append_assoc] at hannounced
      rcases announced_append.mp hannounced with hold | ⟨_, hmem, input, he, hq, rfl⟩
      · exact .inl (.inl ⟨q, hold⟩)
      · obtain ⟨r, hr, rfl⟩ := List.mem_map.mp hmem
        obtain ⟨row, hrow, hqueued, hnames⟩ := announced_row he hq
        obtain ⟨ti, hti, hcommitted⟩ := htells.committed hr hrow
        have hin : ti.inExecution := by
          rw [TaskInstance.inExecution, ← hcommitted.state, hqueued]
          rfl
        exact known_executed hu hstep hti hin (hcommitted.key ▸ hnames)
    · exact known_executed hu hstep hti hin hnames
  · left
    simp only [systemStep] at hstep
    split_ifs at hstep with haccepts
    obtain rfl := Option.some.inj hstep
    refine h.imp_left (Exists.imp fun q hannounced => hannounced.mono fun r' hr' => ?_)
    simpa [Deployment.records, Shard.append, hwritten] using hr'
  · left
    refine h.imp_left (Exists.imp fun q hannounced => ?_)
    rcases System.step_cases hstep with
      ⟨r, haccepts, rfl, rfl⟩ | ⟨size, putEvents, rfl, hforward⟩ | ⟨hshard, -⟩
    · obtain ⟨r', hr', input, he, hq⟩ := hannounced
      refine ⟨r', ?_, input, he, hq⟩
      simp only [Deployment.records, Shard.append, List.mem_append, List.mem_singleton] at hr' ⊢
      rcases hr' with (hr' | rfl) | hr'
      · exact .inl hr'
      · simp [unforwarded, he] at hun
      · exact .inr hr'
    · obtain ⟨-, source, -, rfl⟩ := System.forward_cases hforward
      exact hannounced
    · rw [Deployment.records] at hannounced
      dsimp only at hannounced
      rwa [hshard] at hannounced
  · exact .inl h

theorem uniqueRuns_step {l : DeploymentLabel} (hu : UniqueRuns d.db)
    (hs : deploymentStep busname sha256 retries d l = some t) : UniqueRuns t.db := by
  rcases deploymentStep_cases hs with ⟨ll, changes, s, -, hstep, rfl⟩ |
    ⟨r, written, s, -, -, -, rfl⟩ | ⟨pl, s, -, -, -, rfl⟩ | ⟨q', b, hq', rfl, -⟩
  · exact loopStep_unique hu hstep
  · exact hu
  · exact hu
  · exact hu

end Origin

-- ---------------------------------------------------------------------------
-- What is through
-- ---------------------------------------------------------------------------

/-- The forwarder has nothing behind it that it could not handle, and what it has behind it is
with the executors. -/
structure Deployment.Delivered (sha256 : List UInt8 → String) (d : Deployment) : Prop where
  sound : d.Sound sha256
  system : d.system.Delivered sha256
  handled : ∀ r ∈ d.system.shard.records.take d.system.source.checkpoint, Handles r

/-- The commit makes the row what it is, and this is its record of it. -/
def Writes (ti : TaskInstance) (r : DmsRecord) (d : Deployment) (l : DeploymentLabel)
    (t : Deployment) : Prop :=
  ∃ ll changes, l = .database ll changes ∧ r ∈ changes ∧ r.Tells ti ∧
    ti ∉ d.db.taskInstances.rows ∧ ti ∈ t.db.taskInstances.rows

section Delivery

variable {busname : String} {sha256 : List UInt8 → String} {retries : Nat} {d t : Deployment}

theorem System.Numbered.handled {s s' : System} (hn : s.Numbered)
    (h : ∀ r ∈ s.shard.records.take s.source.checkpoint, Handles r) {l : Label}
    (hc : GivesNothingUp busname s l) (hs : systemStep busname sha256 retries s l = some s') :
    ∀ r ∈ s'.shard.records.take s'.source.checkpoint, Handles r := by
  rcases System.step_cases hs with
    ⟨r, haccepts, -, rfl⟩ | ⟨size, putEvents, rfl, hforward⟩ | ⟨hshard, hsource⟩
  · intro r' hr'
    have hr' : r' ∈ (s.shard.records ++ [r]).take s.source.checkpoint := hr'
    rw [List.take_append_of_le_length hn.behind] at hr'
    exact h r' hr'
  · obtain ⟨-, source, hsource, rfl⟩ := System.forward_cases hforward
    rcases System.forward_checkpoint hn hc hsource with hsame | ⟨hnext, -, hhandles, -⟩
    · exact hsame ▸ h
    · intro r hr
      dsimp only at hr
      rw [hnext, List.take_add] at hr
      rcases List.mem_append.mp hr with hr | hr
      · exact h r hr
      · refine hhandles r ?_
        unfold System.nextInvocation at hr ⊢
        dsimp only at hr ⊢
        rwa [List.length_take, ← List.take_eq_take_min] at hr
  · rwa [hshard, hsource]

theorem Deployment.Delivered.step (h : d.Delivered sha256) {l : DeploymentLabel}
    (hc : Delivering busname d l) (hs : deploymentStep busname sha256 retries d l = some t) :
    t.Delivered sha256 := by
  have hsound := h.sound.step hs
  have hnumbered := h.system.numbered
  rcases deploymentStep_cases hs with ⟨ll, changes, s, -, -, rfl⟩ |
    ⟨r, written, s, -, -, hr, rfl⟩ | ⟨pl, s, rfl, -, hpl, rfl⟩ | ⟨q', b, hq', rfl, -⟩
  · exact ⟨hsound, h.system, h.handled⟩
  · have hcommit : GivesNothingUp busname d.system (.commit r.record) := trivial
    exact ⟨hsound, h.system.step hcommit hr, hnumbered.handled h.handled hcommit hr⟩
  · exact ⟨hsound, h.system.step hc hpl, hnumbered.handled h.handled hc hpl⟩
  · refine ⟨hsound, ⟨hsound.system, ⟨hnumbered.behind, hnumbered.digits⟩, fun r hr e he q hq => ?_⟩,
      h.handled⟩
    have hne : q ≠ q' := by
      rintro rfl
      simp [(List.mem_filter.mp hq).2] at hq'
    have hqueue : (d.setQueue q' b).system.queues q = d.system.queues q :=
      Function.update_of_ne hne _ _
    rw [hqueue]
    exact h.system.kept r hr e he q hq

theorem Deployment.start_delivered (s : SchedulerState) (shardId : String) :
    (start s shardId).Delivered sha256 :=
  ⟨start_sound s shardId, System.start_delivered sha256 shardId, by simp [start, System.start]⟩

theorem records_step {l : DeploymentLabel}
    (hs : deploymentStep busname sha256 retries d l = some t) : d.records ⊆ t.records := by
  rcases deploymentStep_cases hs with ⟨ll, changes, s, -, -, rfl⟩ |
    ⟨r, written, s, -, hwritten, hstep, rfl⟩ | ⟨pl, s, -, -, hstep, rfl⟩ | ⟨q', b, hq', rfl, -⟩
  · intro r hr
    simp only [Deployment.records, List.map_append, ← List.append_assoc] at hr ⊢
    exact List.mem_append_left _ hr
  · simp only [systemStep] at hstep
    split_ifs at hstep
    obtain rfl := Option.some.inj hstep
    intro r' hr'
    simpa [Deployment.records, Shard.append, hwritten] using hr'
  · have hshard : d.system.shard.records ⊆ s.shard.records := by
      rcases System.step_cases hstep with
        ⟨r, haccepts, -, rfl⟩ | ⟨size, putEvents, -, hforward⟩ | ⟨hshard, -⟩
      · exact List.subset_append_left ..
      · obtain ⟨-, source, -, rfl⟩ := System.forward_cases hforward
        exact List.Subset.refl _
      · exact hshard ▸ List.Subset.refl _
    intro r hr
    exact (List.mem_append.mp hr).elim (fun hr => List.mem_append_left _ (hshard hr))
      (List.mem_append_right _)
  · exact List.Subset.refl _

theorem Writes.tells {ti : TaskInstance} {r : DmsRecord} {l : DeploymentLabel}
    (h : Writes ti r d l t) : r.Tells ti := by
  obtain ⟨ll, changes, -, -, htells, -⟩ := h
  exact htells

theorem writes_records {ti : TaskInstance} {r : DmsRecord} {l : DeploymentLabel}
    (hs : deploymentStep busname sha256 retries d l = some t) (h : Writes ti r d l t) :
    r.record ∈ t.records := by
  obtain ⟨ll, changes, rfl, hr, -⟩ := h
  obtain ⟨s, -, rfl⟩ := Option.map_eq_some_iff.mp hs
  simp only [Deployment.records, List.mem_append, List.mem_map]
  exact .inr ⟨r, .inr hr, rfl⟩

theorem writes_step {ti : TaskInstance} {l : DeploymentLabel} (hc : Replicated d l)
    (hs : deploymentStep busname sha256 retries d l = some t)
    (hti : ti ∈ t.db.taskInstances.rows) :
    ti ∈ d.db.taskInstances.rows ∨ ∃ r, Writes ti r d l t := by
  rcases deploymentStep_cases hs with ⟨ll, changes, s, rfl, hstep, rfl⟩ |
    ⟨r, written, s, -, -, -, rfl⟩ | ⟨pl, s, -, -, -, rfl⟩ | ⟨q', b, hq', rfl, -⟩
  · by_cases hold : ti ∈ d.db.taskInstances.rows
    · exact .inl hold
    · obtain ⟨r, hr, htells⟩ := (hc s hstep).complete ti hti hold
      exact .inr ⟨r, ll, changes, rfl, hr, htells, hold, hti⟩
  · exact .inl hti
  · exact .inl hti
  · exact .inl hti

end Delivery

section Runs

variable {busname : String} {sha256 : List UInt8 → String} {retries : Nat} {shardId : String}
  {s : SchedulerState} {labels : List DeploymentLabel} {d : Deployment}

/-- In every run from a database with nothing in execution, an executor starts an execution only
for a task instance that a pass queued while its dag run was running. -/
theorem executions_queued (hu : UniqueRuns s.db)
    (hidle : ∀ ti ∈ s.db.taskInstances.rows, ti.inExecution = false)
    (hr : run (deploymentStep busname sha256 retries) (.start s shardId) labels = some d)
    (hc : Along (deploymentStep busname sha256 retries) Replicated (.start s shardId) labels)
    {q : SqsQueue} {event : TaskInstanceQueued} (hevent : event ∈ (d.system.executors q).log) :
    Happens (deploymentStep busname sha256 retries) (QueuedBy event) (.start s shardId) labels := by
  have hsound : d.Sound sha256 :=
    run_invariant_all (fun _ _ _ h hs => h.step hs) (Deployment.start_sound s shardId) hr
  have hannounced := (hsound.system q).log event hevent
  have hknown : Known event d := .inl ⟨q, hannounced.mono (List.subset_append_left ..)⟩
  have hstep : ∀ d l t, UniqueRuns d.db → Replicated d l →
      deploymentStep busname sha256 retries d l = some t →
      UniqueRuns t.db ∧ (Known event t → Known event d ∨ QueuedBy event d l t) :=
    fun _ _ _ hu hc hs => ⟨uniqueRuns_step hu hs, known_step hu hc hs⟩
  have hstart : UniqueRuns (Deployment.start s shardId).db := hu
  rcases run_origin hstep hstart hc hr hknown with
    (⟨q', r, hr', -⟩ | ⟨ti, hti, hin, -⟩) | hhappens
  · exact nomatch hr'
  · exact absurd hin (by simp [hidle ti hti])
  · exact hhappens

/-- One scheduled task instance of a running dag run. -/
def loadScheduled : SchedulerState := ⟨oneScheduled, []⟩

/-- A pass queues the task instance, and its executor starts it. -/
def loadExecuted : List DeploymentLabel := [
  .database (.pass (.pass 1 7 0)) [loadRecord "batch"], .replicate,
  .pipeline (.forward 1 acceptAll), .pipeline (.receive .batchExecutor [0]),
  .pipeline (.turn .batchExecutor 0), .pipeline (.finish .batchExecutor 0)]

theorem executions_queued_loadExecuted :
    Happens (deploymentStep "bus" sha256Table 3) (QueuedBy loadEvent)
      (.start loadScheduled "shardId-000000000006") loadExecuted :=
  executions_queued (by decide) (by decide)
    (rfl : run (deploymentStep "bus" sha256Table 3) (.start loadScheduled "shardId-000000000006")
      loadExecuted = some _) (by decide) (q := .batchExecutor) List.mem_cons_self

/-- Once every change is replicated and forwarded and the executors' queues are empty, each
queued task instance has its execution at every executor of the queue that the commit which wrote
its row put into the record. -/
theorem queued_executed (hidle : ∀ ti ∈ s.db.taskInstances.rows, ti.inExecution = false)
    (hr : run (deploymentStep busname sha256 retries) (.start s shardId) labels = some d)
    (hc : Along (deploymentStep busname sha256 retries) Replicated (.start s shardId) labels)
    (hd : Along (deploymentStep busname sha256 retries) (Delivering busname) (.start s shardId)
      labels)
    (hwritten : d.written = [])
    (hread : d.system.source.checkpoint = d.system.shard.records.length)
    (hempty : ∀ q, q.executor → (d.system.queues q).messages = [])
    {ti : TaskInstance} (hti : ti ∈ d.db.taskInstances.rows) (hqueued : ti.state = some .queued) :
    (∃ r, Happens (deploymentStep busname sha256 retries) (Writes ti r) (.start s shardId)
        labels) ∧
      ∀ r, Happens (deploymentStep busname sha256 retries) (Writes ti r) (.start s shardId)
          labels →
        ∃ row queue, r.row = .taskInstance row ∧ row.queue = some queue ∧
          ∀ q ∈ executorsOf queue, ∃ event, Names event ti.key ∧
            row.tryNumber = some event.tryNumber ∧
            (d.system.executors q).executions (fromTiQueuedEvent sha256 event) ≠ none := by
  have hdelivered : d.Delivered sha256 :=
    run_invariant (fun _ _ _ h hc hs => h.step hc hs) (Deployment.start_delivered s shardId) hd hr
  refine ⟨?_, fun r hwrites => ?_⟩
  · have hstep : ∀ d l t, True → Replicated d l →
        deploymentStep busname sha256 retries d l = some t →
        True ∧ (ti ∈ t.db.taskInstances.rows →
          ti ∈ d.db.taskInstances.rows ∨ ∃ r, Writes ti r d l t) :=
      fun _ _ _ _ hc hs => ⟨trivial, writes_step hc hs⟩
    rcases run_origin hstep trivial hc hr hti with hstart | hhappens
    · have hout := hidle ti hstart
      simp [TaskInstance.inExecution, hqueued, TaskInstanceState.inExecution] at hout
    · exact happens_exists.mp hhappens
  · have hmem : r.record ∈ d.records :=
      hwrites.holds (F := fun d : Deployment => r.record ∈ d.records)
        (fun _ _ _ h hs => records_step hs h) (fun _ _ _ => writes_records) hr
    have htells : r.Tells ti := hwrites.holds (F := fun _ => r.Tells ti) (fun _ _ _ h _ => h)
      (fun _ _ _ _ => Writes.tells) hr
    obtain ⟨row, hrow, hcommitted⟩ := r.tells_iff.mp htells
    have hmem : r.record ∈ d.system.shard.records.take d.system.source.checkpoint := by
      rw [hread, List.take_length]
      simpa [Deployment.records, hwritten] using hmem
    obtain ⟨input, hinput⟩ := hdelivered.handled r.record hmem
    obtain ⟨e, rfl⟩ := r.converted_input hinput
    have hstate := hcommitted.state.trans hqueued
    obtain ⟨queue, hqueue, hexecutors⟩ := executorQueues_queued hrow hstate hinput
    obtain ⟨hnames, htry⟩ := queued_names hrow hstate hinput
    refine ⟨row, queue, hrow, hqueue, fun q hq =>
      ⟨queuedOf e, hcommitted.key ▸ hnames, htry, ?_⟩⟩
    have hq' : q ∈ executorQueues e := hexecutors ▸ hq
    rcases hdelivered.system.episode hmem hinput hq' with ⟨m, hm, -⟩ | hexecuted
    · rw [hempty q (List.mem_filter.mp hq').2] at hm
      cases hm
    · exact hexecuted

theorem queued_executed_loadExecuted : ∃ r d,
    run (deploymentStep "bus" sha256Table 3) (.start loadScheduled "shardId-000000000006")
        loadExecuted = some d ∧
      Happens (deploymentStep "bus" sha256Table 3) (Writes loadQueued r)
        (.start loadScheduled "shardId-000000000006") loadExecuted ∧
      ∃ row queue, r.row = .taskInstance row ∧ row.queue = some queue ∧
        ∀ q ∈ executorsOf queue, ∃ event, Names event loadQueued.key ∧
          row.tryNumber = some event.tryNumber ∧
          (d.system.executors q).executions (fromTiQueuedEvent sha256Table event) ≠ none := by
  have hr : run (deploymentStep "bus" sha256Table 3)
      (.start loadScheduled "shardId-000000000006") loadExecuted = some _ := rfl
  obtain ⟨⟨r, hwrites⟩, hexecuted⟩ := queued_executed (by decide) hr (by decide)
    (by decide) rfl rfl (fun q _ => by cases q <;> rfl) (by decide : loadQueued ∈ _) rfl
  exact ⟨r, _, hr, hwrites, hexecuted r hwrites⟩

end Runs

end Beeflow.Pipeline
