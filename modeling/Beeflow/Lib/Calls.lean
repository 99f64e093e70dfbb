import Mathlib.Data.List.Basic

/-!
# Programs of calls that may fail

A program makes one call after another. A call returns, or raises, with or
without having had its effect. A raise ends the program, unless the call is
guarded and the program goes on. A script is a program with the outcome of
each of its calls.
-/

namespace Beeflow.Calls

inductive Outcome
  | returned
  | raised (effective : Bool)
  deriving DecidableEq, Repr

variable {ι σ : Type*} (guarded : ι → Bool) (effect : ι → σ → σ)

/-- The state in which the program ends. -/
def exec : List (ι × Outcome) → σ → σ
  | [], s => s
  | (call, .returned) :: rest, s => exec rest (effect call s)
  | (call, .raised effective) :: rest, s =>
    let s' := if effective then effect call s else s
    if guarded call then exec rest s' else s'

/-- The call that ended a program, and what was done before. -/
structure Raise (ι : Type*) where
  before : List (ι × Outcome)
  call : ι
  effective : Bool

def Raise.after (script : List (ι × Outcome)) (r : Raise ι) : Raise ι :=
  { r with before := script ++ r.before }

def raise : List (ι × Outcome) → Option (Raise ι)
  | [] => none
  | (call, .returned) :: rest => (raise rest).map (.after [(call, .returned)])
  | (call, .raised effective) :: rest =>
    if guarded call then (raise rest).map (.after [(call, .raised effective)])
    else some ⟨[], call, effective⟩

variable {guarded effect} {script script' : List (ι × Outcome)} {s : σ} {r : Raise ι}

theorem map_or_after (o : Option (Raise ι)) (o' : Option (Raise ι)) (p : ι × Outcome) :
    (o.or (o'.map (Raise.after script))).map (Raise.after [p]) =
      (o.map (Raise.after [p])).or (o'.map (Raise.after (p :: script))) := by
  cases o with
  | some r => rfl
  | none =>
    cases o' with
    | none => rfl
    | some r => rfl

theorem raise_append : raise guarded (script ++ script') =
    (raise guarded script).or ((raise guarded script').map (Raise.after script)) := by
  induction script with
  | nil =>
    rw [List.nil_append, raise, Option.none_or]
    exact Option.map_id'.symm
  | cons p script ih =>
    obtain ⟨call, _ | effective⟩ := p
    · rw [List.cons_append, raise, raise, ih, map_or_after]
    · rw [List.cons_append, raise, raise]
      cases guarded call with
      | true => exact (congrArg _ ih).trans (map_or_after _ _ _)
      | false => rfl

/-- What follows a program runs where that has not raised. -/
theorem exec_append : exec guarded effect (script ++ script') s =
    if (raise guarded script).isSome then exec guarded effect script s
    else exec guarded effect script' (exec guarded effect script s) := by
  induction script generalizing s with
  | nil => rfl
  | cons p script ih =>
    obtain ⟨call, _ | effective⟩ := p
    · rw [List.cons_append, exec, exec, raise, ih, Option.isSome_map]
    · rw [List.cons_append, exec, exec, raise]
      cases guarded call with
      | true =>
        rw [if_pos rfl, if_pos rfl, if_pos rfl, ih, Option.isSome_map]
      | false => rfl

theorem exec_append_of_raise (h : raise guarded script = some r) :
    exec guarded effect (script ++ script') s = exec guarded effect script s := by
  rw [exec_append, h]
  rfl

theorem exec_append_of_none (h : raise guarded script = none) :
    exec guarded effect (script ++ script') s =
      exec guarded effect script' (exec guarded effect script s) := by
  rw [exec_append, h]
  rfl

theorem raise_mem (h : raise guarded script = some r) :
    (r.call, Outcome.raised r.effective) ∈ script ∧ ∀ p ∈ r.before, p ∈ script := by
  induction script generalizing r with
  | nil => cases h
  | cons p script ih =>
    have hbehind : ∀ {p : ι × Outcome} {r : Raise ι},
        (raise guarded script).map (Raise.after [p]) = some r →
        (r.call, Outcome.raised r.effective) ∈ p :: script ∧
          ∀ q ∈ r.before, q ∈ p :: script := by
      intro p r h
      obtain ⟨r', hr', rfl⟩ := Option.map_eq_some_iff.mp h
      obtain ⟨hcall, hbefore⟩ := ih hr'
      refine ⟨List.mem_cons_of_mem _ hcall, List.forall_mem_cons.mpr ⟨List.mem_cons_self, ?_⟩⟩
      exact fun q hq => List.mem_cons_of_mem _ (hbefore q hq)
    obtain ⟨call, _ | effective⟩ := p
    · exact hbehind h
    · rw [raise] at h
      cases hg : guarded call with
      | true =>
        rw [hg, if_pos rfl] at h
        exact hbehind h
      | false =>
        rw [hg, if_neg Bool.false_ne_true] at h
        obtain rfl := Option.some.inj h
        exact ⟨List.mem_cons_self, fun q hq => absurd hq List.not_mem_nil⟩

/-- Where the program raises, it is in a way that meets the condition. -/
def RaisesOnly (guarded : ι → Bool) (P : Raise ι → Prop) (script : List (ι × Outcome)) : Prop :=
  ∀ r, raise guarded script = some r → P r

theorem raisesOnly_append_of_raise {P : Raise ι → Prop} (h : raise guarded script = some r) :
    RaisesOnly guarded P (script ++ script') ↔ P r := by
  rw [RaisesOnly, raise_append, h, Option.some_or]
  exact ⟨fun hall => hall r rfl, fun hr r' he => Option.some.inj he ▸ hr⟩

theorem raisesOnly_append_of_none {P : Raise ι → Prop} (h : raise guarded script = none) :
    RaisesOnly guarded P (script ++ script') ↔
      RaisesOnly guarded (fun r => P (r.after script)) script' := by
  rw [RaisesOnly, raise_append, h, Option.none_or]
  constructor
  · intro hall r hr
    exact hall _ (by rw [hr]; rfl)
  · intro hall r hr
    obtain ⟨r', hr', rfl⟩ := Option.map_eq_some_iff.mp hr
    exact hall r' hr'

theorem raise_eq_none (h : ∀ p ∈ script, p.2 = .returned) : raise guarded script = none := by
  induction script with
  | nil => rfl
  | cons p script ih =>
    obtain ⟨hp, hrest⟩ := List.forall_mem_cons.mp h
    obtain ⟨call, outcome⟩ := p
    obtain rfl : outcome = .returned := hp
    rw [raise, ih hrest]
    rfl

/-- What each call of a script keeps, the script keeps, wherever it ends. -/
theorem exec_keeps {I : σ → Prop} (hstep : ∀ p ∈ script, ∀ s, I s → I (effect p.1 s))
    (hs : I s) : I (exec guarded effect script s) := by
  induction script generalizing s with
  | nil => exact hs
  | cons p script ih =>
    obtain ⟨hp, hrest⟩ := List.forall_mem_cons.mp hstep
    obtain ⟨call, _ | effective⟩ := p
    · exact ih hrest (hp s hs)
    · have hs' : I (if effective then effect call s else s) := by
        cases effective with
        | true => exact hp s hs
        | false => exact hs
      rw [exec]
      cases guarded call with
      | true => exact ih hrest hs'
      | false => exact hs'

/-- In a program that does not raise, every call that is not guarded returns. -/
theorem returned_of_raise_eq_none (h : raise guarded script = none) {p : ι × Outcome}
    (hp : p ∈ script) (hguarded : guarded p.1 = false) : p.2 = .returned := by
  induction script with
  | nil => cases hp
  | cons q script ih =>
    obtain ⟨call, _ | effective⟩ := q
    · rw [raise, Option.map_eq_none_iff] at h
      rcases List.mem_cons.mp hp with rfl | hp
      · rfl
      · exact ih h hp
    · rw [raise] at h
      cases hg : guarded call with
      | false =>
        rw [hg, if_neg Bool.false_ne_true] at h
        cases h
      | true =>
        rw [hg, if_pos rfl, Option.map_eq_none_iff] at h
        rcases List.mem_cons.mp hp with rfl | hp
        · exact absurd (hguarded.symm.trans hg) Bool.false_ne_true
        · exact ih h hp

end Beeflow.Calls
