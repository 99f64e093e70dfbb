import Mathlib.Logic.Function.Iterate

/-!
# Loops that a turn breaks

A turn leads to another state and says whether one more follows. Where each
turn that goes on makes a bounded rank grow, some turn breaks the loop, and
from then on more fuel changes nothing.
-/

namespace Beeflow.Loops

variable {σ : Type*} (turn : σ → σ × Bool)

/-- The state after `n` turns, wherever the loop has been broken. -/
def after (n : Nat) (s : σ) : σ := (fun s => (turn s).1)^[n] s

/-- The turns go on until number `n`, which breaks the loop; the first one has number 0. -/
structure Breaks (n : Nat) (s : σ) : Prop where
  goesOn : ∀ m < n, (turn (after turn m s)).2 = true
  breaks : (turn (after turn n s)).2 = false

/-- At most `fuel` turns of the loop. -/
def run : Nat → σ → Option σ
  | 0, _ => none
  | fuel + 1, s => if (turn s).2 then run fuel (turn s).1 else some (turn s).1

theorem after_succ (n : Nat) (s : σ) : after turn (n + 1) s = after turn n (turn s).1 :=
  Function.iterate_succ_apply _ n s

theorem after_succ' (n : Nat) (s : σ) : after turn (n + 1) s = (turn (after turn n s)).1 :=
  Function.iterate_succ_apply' _ n s

variable {turn} {n : Nat} {s : σ} {I : σ → Prop}

theorem after_keeps (hturn : ∀ s, I s → I (turn s).1) (hs : I s) (n : Nat) :
    I (after turn n s) := by
  induction n with
  | zero => exact hs
  | succ n ih => exact after_succ' turn n s ▸ hturn _ ih

theorem Breaks.tail (h : Breaks turn (n + 1) s) : Breaks turn n (turn s).1 :=
  ⟨fun m hm => after_succ turn m s ▸ h.goesOn (m + 1) (Nat.succ_lt_succ hm),
    after_succ turn n s ▸ h.breaks⟩

theorem Breaks.cons (hmore : (turn s).2 = true) (h : Breaks turn n (turn s).1) :
    Breaks turn (n + 1) s := by
  refine ⟨fun m hm => ?_, after_succ turn n s ▸ h.breaks⟩
  cases m with
  | zero => exact hmore
  | succ m => exact after_succ turn m s ▸ h.goesOn m (Nat.lt_of_succ_lt_succ hm)

/-- The loop ends with its last turn, if the fuel lasts until then. -/
theorem Breaks.run_eq (h : Breaks turn n s) (fuel : Nat) :
    run turn fuel s = if n < fuel then some (after turn (n + 1) s) else none := by
  induction fuel generalizing n s with
  | zero => rfl
  | succ fuel ih =>
    cases n with
    | zero =>
      have hbreaks : (turn s).2 = false := h.breaks
      rw [run, hbreaks, if_neg Bool.false_ne_true, if_pos fuel.succ_pos]
      rfl
    | succ n =>
      have hmore : (turn s).2 = true := h.goesOn 0 n.succ_pos
      rw [run, hmore, if_pos rfl, ih h.tail, after_succ turn (n + 1)]
      simp only [Nat.succ_lt_succ_iff]

/-- A rank that grows with each turn that goes on bounds the turns before the last one. -/
theorem exists_breaks {rank : σ → Nat} {bound : Nat} (hturn : ∀ s, I s → I (turn s).1)
    (hgrows : ∀ s, I s → (turn s).2 = true → rank s < rank (turn s).1)
    (hbound : ∀ s, I s → rank s ≤ bound) (hs : I s) :
    ∃ n, n + rank s ≤ bound ∧ Breaks turn n s := by
  induction hd : bound - rank s using Nat.strongRecOn generalizing s with
  | ind d ih =>
    cases hmore : (turn s).2 with
    | false =>
      refine ⟨0, (Nat.zero_add _).symm ▸ hbound s hs, ⟨fun m hm => ?_, hmore⟩⟩
      exact absurd hm m.not_lt_zero
    | true =>
      have hlt := hgrows s hs hmore
      have hle := hbound _ (hturn s hs)
      obtain ⟨n, hn, hbreaks⟩ := ih _ (by omega) (hturn s hs) rfl
      exact ⟨n + 1, by omega, hbreaks.cons hmore⟩

end Beeflow.Loops
