import Mathlib.Logic.Basic

/-!
# A queue with deduplication

A first-in, first-out queue that accepts but does not deliver a message whose
body is that of one accepted less than a window earlier, received or not.
Received messages are in flight until they are deleted or come back.
-/

namespace Beeflow

structure FifoQueue (β : Type*) where
  waiting : List β
  inFlight : List β
  /-- the bodies accepted so far, with their times -/
  accepted : List (β × Nat)

namespace FifoQueue

variable {β : Type*} [DecidableEq β]

def empty : FifoQueue β := ⟨[], [], []⟩

def deduplicates (q : FifoQueue β) (window now : Nat) (body : β) : Bool :=
  q.accepted.any fun p => p.1 = body && now < p.2 + window

def send (q : FifoQueue β) (window now : Nat) (body : β) : FifoQueue β where
  waiting := if q.deduplicates window now body then q.waiting else q.waiting ++ [body]
  inFlight := q.inFlight
  accepted := (body, now) :: q.accepted

def receive (q : FifoQueue β) (n : Nat) : FifoQueue β :=
  { q with waiting := q.waiting.drop n, inFlight := q.waiting.take n }

/-- The messages in flight are deleted. -/
def delete (q : FifoQueue β) : FifoQueue β := { q with inFlight := [] }

/-- The messages in flight come back. -/
def release (q : FifoQueue β) : FifoQueue β :=
  { q with waiting := q.inFlight ++ q.waiting, inFlight := [] }

def Drained (q : FifoQueue β) : Prop := q.waiting = [] ∧ q.inFlight = []

variable {q : FifoQueue β} {window now : Nat} {body : β}

theorem deduplicates_iff :
    q.deduplicates window now body = true ↔ ∃ t, (body, t) ∈ q.accepted ∧ now < t + window := by
  simp only [deduplicates, List.any_eq_true, Bool.and_eq_true, decide_eq_true_eq, Prod.exists]
  constructor
  · rintro ⟨_, t, hmem, rfl, hlt⟩
    exact ⟨t, hmem, hlt⟩
  · rintro ⟨t, hmem, hlt⟩
    exact ⟨body, t, hmem, rfl, hlt⟩

theorem deduplicates_send (q : FifoQueue β) (hw : 0 < window) (now : Nat) (body : β) :
    (q.send window now body).deduplicates window now body = true :=
  deduplicates_iff.mpr ⟨now, List.mem_cons_self .., by omega⟩

theorem send_waiting_of_dedup (h : q.deduplicates window now body = true) :
    (q.send window now body).waiting = q.waiting := if_pos h

theorem send_waiting_ne (h : q.deduplicates window now body = false) :
    (q.send window now body).waiting ≠ [] := by
  simp [send, h]

theorem send_waiting_ne_of_ne (h : q.waiting ≠ []) : (q.send window now body).waiting ≠ [] := by
  unfold send
  dsimp only
  split <;> simp [h]

omit [DecidableEq β] in
theorem release_waiting_ne (h : q.waiting ≠ []) : q.release.waiting ≠ [] := by
  simp [release, h]

end FifoQueue

end Beeflow
