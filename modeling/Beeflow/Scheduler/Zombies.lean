import Beeflow.Python.Json
import Beeflow.Scheduler.Intervals
import Beeflow.Scheduler.PassRuns

/-!
# Zombies

Every invocation of the scheduler Lambda is a new `BeeflowSchedulerJob`. The
query of `_find_zombies` asks for `queued_by_job_id == self.id`, so it finds
the zombies of its own invocation only; and the first request it sends closes
the session that the second needs.
-/

namespace Beeflow.Scheduler

open Airflow Python

-- ---------------------------------------------------------------------------
-- Jobs
-- ---------------------------------------------------------------------------

inductive JobType
  | beeflowSchedulerJob | localTaskJob
  deriving DecidableEq, Repr

inductive JobState
  | running | success | failed | shutdown | restarting
  deriving DecidableEq, Repr

structure Job where
  id : Nat
  jobType : JobType
  state : Option JobState
  latestHeartbeat : Option Time
  deriving DecidableEq, Repr

structure TaskCallbackRequest where
  fullFilepath : Option String
  processorSubdir : Option String
  simpleTaskInstance : TaskInstance
  /-- the request carries `str` of it -/
  msg : Dict

/-- `queuings` records which job queued a task instance, the newest first; no step reads it. -/
structure Invocations where
  db : Database
  jobs : List Job
  callbacks : List TaskCallbackRequest
  queuings : List (TaskInstanceKey × Nat)

namespace Invocations

def job (s : Invocations) (jobType : JobType) (id : Nat) : Option Job :=
  s.jobs.find? fun job => job.id = id ∧ job.jobType = jobType

/-- The join `TaskInstance.job_id == LocalTaskJob.id`. -/
def localTaskJob (s : Invocations) (ti : TaskInstance) : Option Job :=
  ti.jobId.bind (s.job .localTaskJob)

def updateJob (s : Invocations) (id : Nat) (f : Job → Job) : Invocations :=
  { s with jobs := s.jobs.map fun job => if job.id = id then f job else job }

end Invocations

-- ---------------------------------------------------------------------------
-- Finding zombies
-- ---------------------------------------------------------------------------

/-- `or_(LocalTaskJob.state != State.RUNNING, LocalTaskJob.latest_heartbeat < limit_dttm)`;
a comparison with NULL does not hold. -/
def Job.gone (job : Job) (limit : Time) : Bool :=
  job.state.any (· ≠ .running) || job.latestHeartbeat.any (· < limit)

def generateZombieMessageDetails (ti : TaskInstance) : Dict :=
  [("DAG Id", .str ti.dagId), ("Task Id", .str ti.taskId), ("Run Id", .str ti.key.runId)] ++
    (if ti.key.mapIndex ≠ -1 then [("Map Index", .int ti.key.mapIndex)] else []) ++
    (ti.hostname.filter (· ≠ "")).toList.map (fun hostname => ("Hostname", .str hostname)) ++
    (ti.externalExecutorId.filter (· ≠ "")).toList.map
      (fun id => ("External Executor Id", .str id))

/-- The row the query joins to the task instance, if it selects it. -/
def zombieRow (s : Invocations) (selfId : Nat) (limit : Time) (ti : TaskInstance) :
    Option (TaskInstance × DagModel) := do
  let job ← s.localTaskJob ti
  let dagModel ← s.db.dagModel ti.dagId
  if ti.state = some .running ∧ job.gone limit ∧ ti.queuedByJobId = some selfId then
    some (ti, dagModel)
  else none

def zombieRequest (ti : TaskInstance) (dagModel : DagModel) : TaskCallbackRequest where
  fullFilepath := dagModel.fileloc
  processorSubdir := dagModel.processorSubdir
  simpleTaskInstance := ti
  msg := generateZombieMessageDetails ti

def zombies (s : Invocations) (selfId : Nat) (limit : Time) : List (TaskInstance × DagModel) :=
  s.db.taskInstances.rows.filterMap (zombieRow s selfId limit)

inductive SessionError
  /-- a lazy load of a row whose session is closed -/
  | detachedInstance
  deriving DecidableEq, Repr

/-- The loop over the zombies. `ti.dag_model` is loaded when it is asked for;
`DatabaseCallbackSink.send` commits and closes the session, which its thread shares. -/
def sendCallbacks : (sessionOpen : Bool) → List (TaskInstance × DagModel) →
    List TaskCallbackRequest × Except SessionError Unit
  | _, [] => ([], .ok ())
  | false, _ :: _ => ([], .error .detachedInstance)
  | true, (ti, dagModel) :: rest =>
    let (requests, outcome) := sendCallbacks false rest
    (zombieRequest ti dagModel :: requests, outcome)

/-- The requests `_find_zombies` sends to the callback sink, and how it ends. -/
def findZombies (s : Invocations) (selfId : Nat) (limit : Time) :
    List TaskCallbackRequest × Except SessionError Unit :=
  sendCallbacks true (zombies s selfId limit)

-- ---------------------------------------------------------------------------
-- Any order of the steps
-- ---------------------------------------------------------------------------

inductive InvocationLabel
  | invoke (id : Nat) (now : Time)
  | pass (selfId maxTis : Nat) (now : Time)
  | findZombies (selfId : Nat) (now : Time)
  /-- a worker starts a `LocalTaskJob` and takes the task instance up -/
  | takeUp (key : TaskInstanceKey) (id : Nat) (now : Time)
  | heartbeat (id : Nat) (now : Time)
  | endJob (id : Nat) (state : JobState)
  | write (key : TaskInstanceKey) (state : Option TaskInstanceState)

def setRunning (t : TaskTable) (key : TaskInstanceKey) (id : Nat) : TaskTable :=
  t.update (fun ti => ti.key = key && runnableState ti.state)
    (fun ti => { ti with state := some .running, jobId := some id }) fun _ => rfl

/-- `threshold` is `scheduler_zombie_task_threshold`. -/
def invocationStep (threshold : Time) (s : Invocations) : InvocationLabel → Option Invocations
  | .invoke id now =>
    if s.jobs.all (·.id ≠ id) then
      some { s with jobs := ⟨id, .beeflowSchedulerJob, some .running, some now⟩ :: s.jobs }
    else none
  | .pass selfId maxTis now => do
    let _ ← s.job .beeflowSchedulerJob selfId
    let (tis, db) ← executableTaskInstancesToQueued s.db maxTis selfId now
    some { s with db := db, queuings := tis.map (fun ti => (ti.key, selfId)) ++ s.queuings }
  | .findZombies selfId now => do
    let _ ← s.job .beeflowSchedulerJob selfId
    some { s with callbacks := s.callbacks ++ (findZombies s selfId (now - threshold)).1 }
  | .takeUp key id now =>
    if s.jobs.all (·.id ≠ id) then
      some { s with
        db := { s.db with taskInstances := setRunning s.db.taskInstances key id }
        jobs := ⟨id, .localTaskJob, some .running, some now⟩ :: s.jobs }
    else none
  | .heartbeat id now => some (s.updateJob id fun job => { job with latestHeartbeat := some now })
  | .endJob id state => some (s.updateJob id fun job => { job with state := some state })
  | .write key state =>
    some { s with db := { s.db with taskInstances := writeState s.db.taskInstances key state } }

-- ---------------------------------------------------------------------------
-- Which zombies are reported
-- ---------------------------------------------------------------------------

/-- Its `LocalTaskJob` is not running, or its heartbeat is too old. -/
def Job.Stale (job : Job) (limit : Time) : Prop :=
  job.state ≠ some .running ∨ ∃ heartbeat ∈ job.latestHeartbeat, heartbeat < limit

instance (job : Job) (limit : Time) : Decidable (job.Stale limit) :=
  inferInstanceAs (Decidable (_ ∨ _))

def Invocations.Zombie (s : Invocations) (limit : Time) (ti : TaskInstance) : Prop :=
  ti.state = some .running ∧ ∃ job ∈ s.localTaskJob ti, job.Stale limit

instance (s : Invocations) (limit : Time) (ti : TaskInstance) : Decidable (s.Zombie limit ti) :=
  inferInstanceAs (Decidable (_ ∧ _))

def lastQueuedBy (queuings : List (TaskInstanceKey × Nat)) (key : TaskInstanceKey) : Option Nat :=
  (queuings.find? (·.1 = key)).map (·.2)

def ReportsZombies (threshold : Time) (s : Invocations) : InvocationLabel → Prop
  | .findZombies selfId now => (s.job .beeflowSchedulerJob selfId).isSome →
      ∀ ti ∈ s.db.taskInstances.rows, s.Zombie (now - threshold) ti →
        ∃ request ∈ (findZombies s selfId (now - threshold)).1, request.simpleTaskInstance = ti
  | _ => True

/-- The zombie has a row in `dag`, and if the state of its job is NULL, the heartbeat is too old. -/
def Joined (s : Invocations) (limit : Time) (ti : TaskInstance) : Prop :=
  (s.db.dagModel ti.dagId).isSome ∧
    ∀ job ∈ s.localTaskJob ti, job.state = none →
      ∃ heartbeat ∈ job.latestHeartbeat, heartbeat < limit

instance (s : Invocations) (limit : Time) (ti : TaskInstance) : Decidable (Joined s limit ti) :=
  inferInstanceAs (Decidable (_ ∧ _))

/-- There is one zombie at most, and the invocation that looks for zombies queued it last. -/
def OneOwnZombie (threshold : Time) (s : Invocations) : InvocationLabel → Prop
  | .findZombies selfId now => (s.job .beeflowSchedulerJob selfId).isSome →
      ∀ ti ∈ s.db.taskInstances.rows, s.Zombie (now - threshold) ti →
        (lastQueuedBy s.queuings ti.key = some selfId ∧ Joined s (now - threshold) ti) ∧
          ∀ ti' ∈ s.db.taskInstances.rows, s.Zombie (now - threshold) ti' → ti' = ti
  | _ => True

instance (threshold : Time) (s : Invocations) :
    (l : InvocationLabel) → Decidable (ReportsZombies threshold s l)
  | .findZombies .. => inferInstanceAs (Decidable (_ → _))
  | .invoke .. | .pass .. | .takeUp .. | .heartbeat .. | .endJob .. | .write .. => .isTrue trivial

instance (threshold : Time) (s : Invocations) :
    (l : InvocationLabel) → Decidable (OneOwnZombie threshold s l)
  | .findZombies .. => inferInstanceAs (Decidable (_ → _))
  | .invoke .. | .pass .. | .takeUp .. | .heartbeat .. | .endJob .. | .write .. => .isTrue trivial

theorem Job.gone_iff {job : Job} {limit : Time} :
    job.gone limit = true ↔ job.Stale limit ∧
      (job.state = none → ∃ heartbeat ∈ job.latestHeartbeat, heartbeat < limit) := by
  unfold Job.gone Job.Stale
  cases job.state with
  | none => simp [Option.any_eq_true]
  | some state => by_cases h : state = .running <;> simp [h, Option.any_eq_true]

theorem zombieRow_eq_some {s : Invocations} {selfId : Nat} {limit : Time} {ti ti' : TaskInstance}
    {dagModel : DagModel} : zombieRow s selfId limit ti = some (ti', dagModel) ↔
      s.Zombie limit ti ∧ ti.queuedByJobId = some selfId ∧ Joined s limit ti ∧
        ti' = ti ∧ s.db.dagModel ti.dagId = some dagModel := by
  unfold zombieRow Invocations.Zombie Joined
  cases hj : s.localTaskJob ti with
  | none => simp
  | some job =>
    cases hd : s.db.dagModel ti.dagId with
    | none => simp
    | some m =>
      simp [Job.gone_iff]
      tauto

theorem sendCallbacks_eq (rows : List (TaskInstance × DagModel)) :
    (sendCallbacks true rows).1 = (rows.take 1).map fun row => zombieRequest row.1 row.2 := by
  cases rows with
  | nil => rfl
  | cons row rest =>
    cases rest with
    | nil => rfl
    | cons row' rest => rfl

theorem findZombies_raises_iff {s : Invocations} {selfId : Nat} {limit : Time} :
    (findZombies s selfId limit).2 = .error .detachedInstance ↔
      2 ≤ (zombies s selfId limit).length := by
  unfold findZombies
  cases zombies s selfId limit with
  | nil => simp [sendCallbacks]
  | cons row rest => cases rest <;> simp [sendCallbacks]

theorem mem_zombies {s : Invocations} {selfId : Nat} {limit : Time} {ti : TaskInstance}
    {dagModel : DagModel} : (ti, dagModel) ∈ zombies s selfId limit ↔
      ti ∈ s.db.taskInstances.rows ∧ s.Zombie limit ti ∧ ti.queuedByJobId = some selfId ∧
        Joined s limit ti ∧ s.db.dagModel ti.dagId = some dagModel := by
  simp only [zombies, List.mem_filterMap, zombieRow_eq_some]
  constructor
  · rintro ⟨_, hti, hz, hq, hj, rfl, hd⟩
    exact ⟨hti, hz, hq, hj, hd⟩
  · rintro ⟨hti, hz, hq, hj, hd⟩
    exact ⟨ti, hti, hz, hq, hj, rfl, hd⟩

/-- Only the first row that the query returns is reported. -/
theorem zombie_reported_iff {s : Invocations} {selfId : Nat} {limit : Time} {ti : TaskInstance} :
    (∃ request ∈ (findZombies s selfId limit).1, request.simpleTaskInstance = ti) ↔
      ∃ dagModel rest, zombies s selfId limit = (ti, dagModel) :: rest := by
  rw [findZombies, sendCallbacks_eq]
  cases zombies s selfId limit with
  | nil => simp
  | cons row rest =>
    simp only [List.take_succ_cons, List.take_zero, List.map_cons, List.map_nil,
      List.mem_singleton, exists_eq_left, List.cons.injEq]
    constructor
    · rintro rfl
      exact ⟨row.2, rest, rfl, rfl⟩
    · rintro ⟨dagModel, _, rfl, -⟩
      rfl

theorem zombies_reported_iff {s : Invocations} {selfId : Nat} {limit : Time} :
    (∀ ti ∈ s.db.taskInstances.rows, s.Zombie limit ti →
        ∃ request ∈ (findZombies s selfId limit).1, request.simpleTaskInstance = ti) ↔
      ∀ ti ∈ s.db.taskInstances.rows, s.Zombie limit ti →
        (ti.queuedByJobId = some selfId ∧ Joined s limit ti) ∧
          ∀ ti' ∈ s.db.taskInstances.rows, s.Zombie limit ti' → ti' = ti := by
  simp only [zombie_reported_iff]
  constructor
  · intro h ti hti hz
    obtain ⟨dagModel, rest, hrows⟩ := h ti hti hz
    have hmem : (ti, dagModel) ∈ zombies s selfId limit := hrows ▸ List.mem_cons_self
    obtain ⟨-, -, hq, hj, -⟩ := mem_zombies.mp hmem
    refine ⟨⟨hq, hj⟩, fun ti' hti' hz' => ?_⟩
    obtain ⟨dagModel', rest', hrows'⟩ := h ti' hti' hz'
    rw [hrows, List.cons.injEq, Prod.mk.injEq] at hrows'
    exact hrows'.1.1.symm
  · intro h ti hti hz
    obtain ⟨⟨hq, hj⟩, honly⟩ := h ti hti hz
    obtain ⟨dagModel, hd⟩ := Option.isSome_iff_exists.mp hj.1
    cases hrows : zombies s selfId limit with
    | nil =>
      have hmem := mem_zombies.mpr ⟨hti, hz, hq, hj, hd⟩
      rw [hrows] at hmem
      cases hmem
    | cons row rest =>
      have hmem : row ∈ zombies s selfId limit := hrows ▸ List.mem_cons_self
      obtain ⟨hrow, hzrow, -⟩ := mem_zombies.mp hmem
      rw [← honly row.1 hrow hzrow]
      exact ⟨row.2, rest, rfl⟩

-- ---------------------------------------------------------------------------
-- Who queued what
-- ---------------------------------------------------------------------------

def ownership (ti : TaskInstance) : TaskInstanceKey × Option Nat := (ti.key, ti.queuedByJobId)

theorem update_ownership (t : TaskTable) {p : TaskInstance → Bool} {f : TaskInstance → TaskInstance}
    (hf : ∀ ti, (f ti).key = ti.key) (hown : ∀ ti, ownership (f ti) = ownership ti) :
    (t.update p f hf).rows.map ownership = t.rows.map ownership := by
  simp only [TaskTable.update, List.map_map]
  refine List.map_congr_left fun ti _ => ?_
  simp only [Function.comp_apply]
  split_ifs
  · exact hown ti
  · rfl

theorem setRunning_ownership (t : TaskTable) (key : TaskInstanceKey) (id : Nat) :
    (setRunning t key id).rows.map ownership = t.rows.map ownership :=
  update_ownership t _ fun _ => rfl

theorem writeState_ownership (t : TaskTable) (key : TaskInstanceKey)
    (state : Option TaskInstanceState) :
    (writeState t key state).rows.map ownership = t.rows.map ownership := by
  unfold writeState writeRows
  exact update_ownership t _ fun _ => rfl

theorem executable_ownership {db db' : Database} {maxTis jobId : Nat} {now : Time}
    {tis : List TaskInstance}
    (h : executableTaskInstancesToQueued db maxTis jobId now = some (tis, db')) :
    db'.taskInstances.rows.map ownership = (db.taskInstances.rows.map ownership).map fun own =>
      if own.1 ∈ tis.map (·.key) then (own.1, some jobId) else own := by
  unfold executableTaskInstancesToQueued at h
  split_ifs at h
  · obtain ⟨rfl, rfl⟩ := Prod.mk.inj (Option.some.inj h)
    simp
  · simp only [bind, Option.bind_eq_some_iff, Option.some.injEq, Prod.mk.injEq] at h
    obtain ⟨s, hloop, rfl, rfl⟩ := h
    have hrows : s.taskInstances.rows.map ownership = db.taskInstances.rows.map ownership :=
      Pass.loop_rows (fun _ _ => rfl) hloop
    rw [← hrows]
    simp only [setQueued, TaskTable.update, List.map_map]
    refine List.map_congr_left fun ti _ => ?_
    simp only [Function.comp_apply, ownership]
    split_ifs <;> simp_all

theorem lastQueuedBy_append (keys : List TaskInstanceKey) (jobId : Nat)
    (queuings : List (TaskInstanceKey × Nat)) (key : TaskInstanceKey) :
    lastQueuedBy (keys.map (fun k => (k, jobId)) ++ queuings) key =
      if key ∈ keys then some jobId else lastQueuedBy queuings key := by
  induction keys with
  | nil => rfl
  | cons k keys ih =>
    by_cases h : k = key
    · simp [lastQueuedBy, h]
    · have h' : ¬key = k := fun he => h he.symm
      simpa [lastQueuedBy, List.find?_cons, h, h'] using ih

/-- `queued_by_job_id` is the job that queued the task instance last. -/
def Tracked (s : Invocations) : Prop :=
  ∀ own ∈ s.db.taskInstances.rows.map ownership, own.2 = lastQueuedBy s.queuings own.1

def NothingQueued (s : Invocations) : Prop :=
  s.queuings = [] ∧ ∀ ti ∈ s.db.taskInstances.rows, ti.queuedByJobId = none

theorem NothingQueued.tracked {s : Invocations} (h : NothingQueued s) : Tracked s := by
  intro own hown
  obtain ⟨ti, hti, rfl⟩ := List.mem_map.mp hown
  rw [h.1]
  exact h.2 ti hti

section Steps

variable {threshold : Time} {s t : Invocations} {l : InvocationLabel}

theorem Tracked.pass (h : Tracked s) {maxTis jobId : Nat} {now : Time} {tis : List TaskInstance}
    {db : Database}
    (hpass : executableTaskInstancesToQueued s.db maxTis jobId now = some (tis, db)) :
    Tracked { s with db := db, queuings := tis.map (fun ti => (ti.key, jobId)) ++ s.queuings } := by
  have hlog : tis.map (fun ti => (ti.key, jobId)) = (tis.map (·.key)).map fun k => (k, jobId) := by
    rw [List.map_map]
    rfl
  intro own' hown'
  dsimp only at hown' ⊢
  rw [executable_ownership hpass] at hown'
  obtain ⟨own, hown, rfl⟩ := List.mem_map.mp hown'
  rw [hlog, lastQueuedBy_append]
  split_ifs
  · rfl
  · exact h own hown

theorem Tracked.step (h : Tracked s) (hstep : invocationStep threshold s l = some t) :
    Tracked t := by
  cases l with
  | invoke id now =>
    simp only [invocationStep] at hstep
    split_ifs at hstep
    exact Option.some.inj hstep ▸ h
  | pass selfId maxTis now =>
    simp only [invocationStep, bind, Option.bind_eq_some_iff, Option.some.injEq, Prod.exists]
      at hstep
    obtain ⟨_, -, tis, db, hpass, rfl⟩ := hstep
    exact h.pass hpass
  | findZombies selfId now =>
    simp only [invocationStep, bind, Option.bind_eq_some_iff, Option.some.injEq] at hstep
    obtain ⟨_, -, rfl⟩ := hstep
    exact h
  | takeUp key id now =>
    simp only [invocationStep] at hstep
    split_ifs at hstep
    obtain rfl := Option.some.inj hstep
    exact fun own hown => h own (setRunning_ownership s.db.taskInstances key id ▸ hown)
  | heartbeat id now => exact Option.some.inj hstep ▸ h
  | endJob id state => exact Option.some.inj hstep ▸ h
  | write key state =>
    obtain rfl := Option.some.inj hstep
    exact fun own hown => h own (writeState_ownership s.db.taskInstances key state ▸ hown)

theorem Tracked.reports_iff (h : Tracked s) :
    ReportsZombies threshold s l ↔ OneOwnZombie threshold s l := by
  cases l with
  | findZombies selfId now =>
    refine forall_congr' fun _ => zombies_reported_iff.trans ?_
    refine forall₃_congr fun ti hti hz => ?_
    have hown : ti.queuedByJobId = lastQueuedBy s.queuings ti.key :=
      h (ownership ti) (List.mem_map_of_mem hti)
    rw [hown]
  | invoke | pass | takeUp | heartbeat | endJob | write => exact Iff.rfl

end Steps

/-- `_find_zombies` reports every zombie along a run just where there is never more than
one, and the invocation that looks for it has queued it. -/
theorem findZombies_reports_iff (threshold : Time) {s : Invocations} (hs : NothingQueued s)
    (ls : List InvocationLabel) :
    Machine.Along (invocationStep threshold) (ReportsZombies threshold) s ls ↔
      Machine.Along (invocationStep threshold) (OneOwnZombie threshold) s ls :=
  ⟨Machine.Along.imp (fun _ _ _ h _ hstep => h.step hstep) (fun _ _ h => h.reports_iff.mp)
      hs.tracked,
    Machine.Along.imp (fun _ _ _ h _ hstep => h.step hstep) (fun _ _ h => h.reports_iff.mpr)
      hs.tracked⟩

-- ---------------------------------------------------------------------------
-- A worker that dies between two invocations
-- ---------------------------------------------------------------------------

def minute : Time := 60000000

def loadKey : TaskInstanceKey := ⟨"daily", "load", "scheduled", -1⟩

def loadStart : Invocations where
  db := { dailyStart.db with
    pools := [("default_pool", 128)]
    dagRuns := [{ scheduledRun dailyDag 0 with state := .running }]
    taskInstances := ⟨[{
      key := loadKey, state := some .scheduled, pool := "default_pool", poolSlots := 1
      priorityWeight := 1, queuedDttm := none, queuedByJobId := none, jobId := none
      hostname := none, externalExecutorId := none }], List.nodup_singleton _⟩ }
  jobs := []
  callbacks := []
  queuings := []

/-- One invocation queues the task instance, its worker takes it up and is never heard of again. -/
def deadWorker : List InvocationLabel := [.invoke 1 0, .pass 1 16 0, .takeUp loadKey 2 minute]

theorem laterInvocation_misses_zombie :
    NothingQueued loadStart ∧ ¬Machine.Along (invocationStep (5 * minute))
      (ReportsZombies (5 * minute)) loadStart
      (deadWorker ++ [.invoke 3 (10 * minute), .findZombies 3 (10 * minute)]) := by
  refine ⟨⟨rfl, by decide⟩, by decide⟩

theorem findZombies_reports_iff_own :
    Machine.Along (invocationStep (5 * minute)) (ReportsZombies (5 * minute)) loadStart
      (deadWorker ++ [.findZombies 1 (10 * minute)]) :=
  (findZombies_reports_iff (5 * minute) ⟨rfl, by decide⟩ _).mpr (by decide)

end Beeflow.Scheduler
