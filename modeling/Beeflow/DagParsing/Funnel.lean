import Beeflow.Lib.FifoQueue
import Beeflow.Lib.Machine
import Mathlib

/-!
# The DAG parsing funnel

A changed DAG file sends a notification, a batch of notifications runs the
trigger, and the trigger sends a command to the processor's queue. The command
names the minute, so the queue delivers one command a minute. The processor
downloads the bucket when it starts.
-/

namespace Beeflow.DagParsing

-- ---------------------------------------------------------------------------
-- The trigger's command
-- ---------------------------------------------------------------------------

/-- The message body is `json.dumps` of it. -/
structure TriggerDAGsProcessingCommand where
  triggeredAt : String
  deriving DecidableEq, Repr

def minute : Nat := 60000000

/-- `current_time` is in microseconds since the epoch. -/
def prepareEvent (currentTime : Nat) : TriggerDAGsProcessingCommand :=
  ⟨toString (currentTime / minute)⟩

theorem prepareEvent_inj {now t : Nat} :
    prepareEvent now = prepareEvent t ↔ now / minute = t / minute := by
  constructor
  · intro h
    exact Nat.repr_injective (congrArg (·.triggeredAt) h)
  · intro h
    rw [prepareEvent, h]
    rfl

example : (prepareEvent 1000000000).triggeredAt = "16" := by decide

/-- The window of content-based deduplication. -/
def window : Nat := 5 * minute

-- ---------------------------------------------------------------------------
-- Changes, triggers and processors
-- ---------------------------------------------------------------------------

/-- The changes of the bucket are numbered from 1. -/
structure Funnel where
  clock : Nat
  version : Nat
  untriggered : List Nat
  queue : FifoQueue TriggerDAGsProcessingCommand
  /-- the last change that the processor's latest download saw -/
  downloaded : Nat

def Funnel.start : Funnel := ⟨0, 0, [], .empty, 0⟩

inductive FunnelLabel
  | change
  /-- the trigger's handler, with the notifications of these changes -/
  | trigger (changes : List Nat) (now : Nat)
  /-- the processor's handler starts, with so many commands -/
  | process (n : Nat)
  | finish
  | fail

def funnelStep (s : Funnel) : FunnelLabel → Option Funnel
  | .change =>
    some { s with version := s.version + 1, untriggered := (s.version + 1) :: s.untriggered }
  | .trigger changes now =>
    if s.clock ≤ now ∧ ∀ c ∈ changes, c ≤ s.version then
      some { s with
        clock := now
        untriggered := s.untriggered.filter (· ∉ changes)
        queue := s.queue.send window now (prepareEvent now) }
    else none
  | .process n =>
    if 0 < n ∧ n ≤ s.queue.waiting.length ∧ s.queue.inFlight = [] then
      some { s with queue := s.queue.receive n, downloaded := s.version }
    else none
  | .finish => some { s with queue := s.queue.delete }
  | .fail => some { s with queue := s.queue.release }

/-- Once every trigger has run and the queue is drained, the latest download saw every change. -/
def NoChangeLost (s : Funnel) : Prop :=
  s.untriggered = [] → s.queue.Drained → s.downloaded = s.version

/-- A trigger whose command is deduplicated finds one still waiting, or its
changes were downloaded. -/
def KeepsChanges (s : Funnel) : FunnelLabel → Prop
  | .trigger changes now => s.queue.deduplicates window now (prepareEvent now) = true →
      s.queue.waiting = [] → ∀ c ∈ changes, c ≤ s.downloaded
  | _ => True

section Decidable

variable (s : Funnel)

instance : Decidable (NoChangeLost s) :=
  inferInstanceAs (Decidable
    (s.untriggered = [] → s.queue.waiting = [] ∧ s.queue.inFlight = [] → _))

instance : (l : FunnelLabel) → Decidable (KeepsChanges s l)
  | .trigger .. => inferInstanceAs (Decidable (_ → _ → _))
  | .change | .process _ | .finish | .fail => .isTrue trivial

end Decidable

-- ---------------------------------------------------------------------------
-- Commands and minutes
-- ---------------------------------------------------------------------------

variable {s t : Funnel} {l : FunnelLabel} {ls : List FunnelLabel}

/-- The commands accepted so far name the minute they were sent in. -/
def Stamped (s : Funnel) : Prop := ∀ p ∈ s.queue.accepted, p.1 = prepareEvent p.2

theorem Stamped.step (h : Stamped s) (hstep : funnelStep s l = some t) : Stamped t := by
  cases l with
  | change | finish | fail => exact Option.some.inj hstep ▸ h
  | trigger changes now =>
    simp only [funnelStep] at hstep
    split_ifs at hstep
    obtain rfl := Option.some.inj hstep
    intro p hp
    rcases List.mem_cons.mp hp with rfl | hp
    · rfl
    · exact h p hp
  | process n =>
    simp only [funnelStep] at hstep
    split_ifs at hstep
    exact Option.some.inj hstep ▸ h

theorem stamped_run (hr : Machine.run funnelStep .start ls = some t) : Stamped t :=
  Machine.run_invariant_all (fun _ _ _ h hstep => h.step hstep) (by simp [Stamped, Funnel.start,
    FifoQueue.empty]) hr

/-- The queue takes a command for a duplicate just when one was sent in the same minute. -/
theorem Stamped.deduplicates_iff (h : Stamped s) {now : Nat} :
    s.queue.deduplicates window now (prepareEvent now) = true ↔
      ∃ p ∈ s.queue.accepted, p.2 / minute = now / minute := by
  rw [FifoQueue.deduplicates_iff]
  constructor
  · rintro ⟨t, hmem, -⟩
    exact ⟨_, hmem, (prepareEvent_inj.mp (h _ hmem)).symm⟩
  · rintro ⟨⟨body, t⟩, hmem, hmin⟩
    have hbody := h _ hmem
    dsimp only at hmin hbody
    refine ⟨t, ?_, ?_⟩
    · rwa [prepareEvent_inj.mpr hmin.symm, ← hbody]
    · -- both lie in one minute, and the window lasts five
      simp only [window, minute] at hmin ⊢
      omega

-- ---------------------------------------------------------------------------
-- No change is lost
-- ---------------------------------------------------------------------------

/-- A change whose trigger has run was downloaded, or a command is waiting. -/
structure Covered (s : Funnel) : Prop where
  behind : s.downloaded ≤ s.version
  numbered : ∀ c ∈ s.untriggered, c ≤ s.version
  covered : ∀ c ≤ s.version, c ∉ s.untriggered → c ≤ s.downloaded ∨ s.queue.waiting ≠ []

theorem covered_start : Covered .start :=
  ⟨Nat.le_refl _, fun _ hc => (nomatch hc), fun _ hc _ => .inl hc⟩

theorem Covered.noChangeLost (h : Covered s) : NoChangeLost s := by
  intro hall hdrained
  have hnone : s.version ∉ s.untriggered := by simp [hall]
  rcases h.covered s.version (Nat.le_refl _) hnone with hle | hwaiting
  · exact Nat.le_antisymm h.behind hle
  · exact absurd hdrained.1 hwaiting

theorem Covered.trigger (h : Covered s) {changes : List Nat} {now : Nat}
    (hc : KeepsChanges s (.trigger changes now)) :
    Covered { s with
      clock := now
      untriggered := s.untriggered.filter (· ∉ changes)
      queue := s.queue.send window now (prepareEvent now) } := by
  refine ⟨h.behind, fun c hin => h.numbered c (List.mem_filter.mp hin).1, fun c hcv hnot => ?_⟩
  dsimp only at hcv hnot ⊢
  cases hdup : s.queue.deduplicates window now (prepareEvent now) with
  | false => exact .inr (FifoQueue.send_waiting_ne hdup)
  | true =>
    by_cases hwaiting : s.queue.waiting = []
    · refine .inl ?_
      by_cases hmem : c ∈ changes
      · exact hc hdup hwaiting c hmem
      · have hun : c ∉ s.untriggered := fun hin => hnot (by simp [hin, hmem])
        exact (h.covered c hcv hun).resolve_right fun hne => hne hwaiting
    · exact .inr (FifoQueue.send_waiting_ne_of_ne hwaiting)

theorem Covered.step (h : Covered s) (hc : KeepsChanges s l) (hstep : funnelStep s l = some t) :
    Covered t := by
  cases l with
  | change =>
    obtain rfl := Option.some.inj hstep
    refine ⟨Nat.le_succ_of_le h.behind, fun c hin => ?_, fun c hcv hnot => ?_⟩
    · rcases List.mem_cons.mp hin with rfl | hin
      · exact Nat.le_refl _
      · exact Nat.le_succ_of_le (h.numbered c hin)
    · rw [List.mem_cons, not_or] at hnot
      exact h.covered c (Nat.le_of_lt_succ (Nat.lt_of_le_of_ne hcv hnot.1)) hnot.2
  | trigger changes now =>
    simp only [funnelStep] at hstep
    split_ifs at hstep
    exact Option.some.inj hstep ▸ h.trigger hc
  | process n =>
    simp only [funnelStep] at hstep
    split_ifs at hstep
    obtain rfl := Option.some.inj hstep
    exact ⟨Nat.le_refl _, h.numbered, fun c hcv _ => .inl hcv⟩
  | finish =>
    obtain rfl := Option.some.inj hstep
    exact ⟨h.behind, h.numbered, h.covered⟩
  | fail =>
    obtain rfl := Option.some.inj hstep
    exact ⟨h.behind, h.numbered, fun c hcv hnot =>
      (h.covered c hcv hnot).imp id FifoQueue.release_waiting_ne⟩

theorem run_trigger_all {now : Nat} (hclock : s.clock ≤ now)
    (hnumbered : ∀ c ∈ s.untriggered, c ≤ s.version) :
    ∃ u, Machine.run funnelStep s [.trigger s.untriggered now, .finish] = some u ∧
      u.untriggered = [] ∧ u.queue = (s.queue.send window now (prepareEvent now)).delete ∧
      u.downloaded = s.downloaded ∧ u.version = s.version := by
  refine ⟨⟨now, s.version, s.untriggered.filter (· ∉ s.untriggered),
    (s.queue.send window now (prepareEvent now)).delete, s.downloaded⟩, ?_, ?_, rfl, rfl, rfl⟩
  · rw [Machine.run_cons, funnelStep, if_pos ⟨hclock, hnumbered⟩]
    rfl
  · simp

/-- After a trigger that does not meet the condition, the other triggers may run in
the same minute and the processor return: the change is lost. -/
theorem lost_of_not_keepsChanges (h : Covered s) {changes : List Nat} {now : Nat}
    (hc : ¬KeepsChanges s (.trigger changes now))
    (hstep : funnelStep s (.trigger changes now) = some t) :
    ∃ u, Machine.run funnelStep t [.trigger t.untriggered now, .finish] = some u ∧
      ¬NoChangeLost u := by
  simp only [KeepsChanges, not_forall, exists_prop] at hc
  obtain ⟨hdup, hwaiting, c, hmem, hlost⟩ := hc
  simp only [funnelStep] at hstep
  split_ifs at hstep with hguard
  obtain rfl := Option.some.inj hstep
  have hnumbered : ∀ c ∈ s.untriggered.filter (· ∉ changes), c ≤ s.version :=
    fun c hin => h.numbered c (List.mem_filter.mp hin).1
  obtain ⟨u, hrun, hall, hqueue, hdown, hversion⟩ := run_trigger_all
    (s := ⟨now, s.version, _, s.queue.send window now (prepareEvent now), s.downloaded⟩)
    (Nat.le_refl now) hnumbered
  refine ⟨u, hrun, fun hno => ?_⟩
  have hwaiting₁ := (FifoQueue.send_waiting_of_dedup hdup).trans hwaiting
  have hdup₁ := FifoQueue.deduplicates_send s.queue (by decide : 0 < window) now (prepareEvent now)
  have hdrained : u.queue.Drained := by
    rw [hqueue]
    exact ⟨(FifoQueue.send_waiting_of_dedup hdup₁).trans hwaiting₁, rfl⟩
  have heq : s.downloaded = s.version := hdown.symm.trans ((hno hall hdrained).trans hversion)
  exact hlost (heq ▸ hguard.2 c hmem)

theorem noChangeLost_run (hc : Machine.Along funnelStep KeepsChanges .start ls)
    (hr : Machine.run funnelStep .start ls = some t) : NoChangeLost t :=
  (Machine.run_invariant (fun _ _ _ h hc hstep => h.step hc hstep) covered_start hc hr).noChangeLost

-- ---------------------------------------------------------------------------
-- Two changes in one minute
-- ---------------------------------------------------------------------------

def second : Nat := 1000000

/-- The second change comes after the processor downloaded the first, in the same minute. -/
def sameMinute : List FunnelLabel :=
  [.change, .trigger [1] (5 * second), .process 1, .change, .trigger [2] (30 * second), .finish]

theorem sameMinute_loses_change :
    ∃ t, Machine.run funnelStep .start sameMinute = some t ∧ ¬NoChangeLost t :=
  ⟨_, rfl, by decide⟩

/-- The second trigger's command is deduplicated while the first one's waits; the third comes in
the next minute, and its first processing fails. -/
def nextMinute : List FunnelLabel :=
  [.change, .trigger [1] (5 * second), .change, .trigger [2] (30 * second), .process 1, .finish,
    .change, .trigger [3] (70 * second), .process 1, .fail, .process 1, .finish]

theorem noChangeLost_nextMinute :
    (∃ s, Machine.run funnelStep .start (nextMinute.take 3) = some s ∧ s.queue.waiting ≠ [] ∧
      s.queue.deduplicates window (30 * second) (prepareEvent (30 * second)) = true) ∧
    ∃ t, Machine.run funnelStep .start nextMinute = some t ∧ t.untriggered = [] ∧
      t.queue.Drained ∧ NoChangeLost t := by
  have hc : Machine.Along funnelStep KeepsChanges .start nextMinute := by decide
  exact ⟨⟨_, rfl, by decide, by decide⟩, _, rfl, rfl, ⟨rfl, rfl⟩, noChangeLost_run hc rfl⟩

end Beeflow.DagParsing
