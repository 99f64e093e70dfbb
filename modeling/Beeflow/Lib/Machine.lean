import Mathlib.Logic.Basic

/-!
# Runs of a partial step function

`step s l` is the state label `l` leads to from `s`, or `none` where `l` is
not enabled in `s`. A run is a list of labels. `Along C` says that every step
of a run meets a condition on the state it is taken in, and `run_invariant`
is the induction rule: what holds initially and survives each step that meets
the condition holds at the end of every run whose steps all meet it.
-/

namespace Beeflow.Machine

variable {σ ℓ : Type*} (step : σ → ℓ → Option σ)

def run : σ → List ℓ → Option σ
  | s, [] => some s
  | s, l :: ls => (step s l).bind fun s' => run s' ls

/-- Every step of the run from `s` that is taken meets `C` in the state it is taken in. -/
def Along (C : σ → ℓ → Prop) : σ → List ℓ → Prop
  | _, [] => True
  | s, l :: ls => C s l ∧ match step s l with
    | some s' => Along C s' ls
    | none => True

instance Along.decidable (C : σ → ℓ → Prop) [∀ s l, Decidable (C s l)] :
    (s : σ) → (ls : List ℓ) → Decidable (Along step C s ls)
  | _, [] => .isTrue trivial
  | s, l :: ls =>
    have : Decidable (match step s l with
        | some s' => Along step C s' ls
        | none => True) :=
      match step s l with
      | some s' => Along.decidable C s' ls
      | none => .isTrue trivial
    inferInstanceAs (Decidable (_ ∧ _))

variable {step} {s t : σ} {l : ℓ} {ls : List ℓ} {C P : σ → ℓ → Prop} {I : σ → Prop}

@[simp] theorem run_nil : run step s [] = some s := rfl

theorem run_cons : run step s (l :: ls) = (step s l).bind fun s' => run step s' ls := rfl

theorem run_cons_some :
    run step s (l :: ls) = some t ↔ ∃ u, step s l = some u ∧ run step u ls = some t := by
  simp [run_cons, Option.bind_eq_some_iff]

theorem Along.cons (h : Along step C s (l :: ls)) (hs : step s l = some t) :
    Along step C t ls := by
  have h := h.2
  rwa [hs] at h

theorem run_invariant (hstep : ∀ s l s', I s → C s l → step s l = some s' → I s')
    (hs : I s) (hc : Along step C s ls) (hr : run step s ls = some t) : I t := by
  induction ls generalizing s with
  | nil => exact Option.some.inj hr ▸ hs
  | cons l ls ih =>
    obtain ⟨u, hu, hr⟩ := run_cons_some.mp hr
    exact ih (hstep s l u hs hc.1 hu) (hc.cons hu) hr

theorem along_true : Along step (fun _ _ => True) s ls := by
  induction ls generalizing s with
  | nil => trivial
  | cons l ls ih =>
    refine ⟨trivial, ?_⟩
    cases step s l with
    | none => trivial
    | some u => exact ih

theorem along_of_forall (h : ∀ s, ∀ l ∈ ls, C s l) : Along step C s ls := by
  induction ls generalizing s with
  | nil => trivial
  | cons l ls ih =>
    refine ⟨h s l List.mem_cons_self, ?_⟩
    cases step s l with
    | none => trivial
    | some u => exact ih fun s l hl => h s l (List.mem_cons_of_mem _ hl)

/-- The induction rule for steps that need no condition. -/
theorem run_invariant_all (hstep : ∀ s l s', I s → step s l = some s' → I s')
    (hs : I s) (hr : run step s ls = some t) : I t :=
  run_invariant (C := fun _ _ => True) (fun s l s' hi _ h => hstep s l s' hi h) hs along_true hr

/-- An invariant turns a condition on the steps of a run into another one. -/
theorem Along.imp (hstep : ∀ s l s', I s → C s l → step s l = some s' → I s')
    (himp : ∀ s l, I s → C s l → P s l) (hs : I s) (hc : Along step C s ls) :
    Along step P s ls := by
  induction ls generalizing s with
  | nil => trivial
  | cons l ls ih =>
    refine ⟨himp s l hs hc.1, ?_⟩
    cases hu : step s l with
    | none => trivial
    | some u => exact ih (hstep s l u hs hc.1 hu) (hc.cons hu)

/-- Two conditions that come to the same in the states of an invariant. -/
theorem along_congr (hstep : ∀ s l s', I s → C s l → step s l = some s' → I s')
    (hiff : ∀ s l, I s → (C s l ↔ P s l)) (hs : I s) : Along step C s ls ↔ Along step P s ls :=
  ⟨Along.imp hstep (fun s l hi => (hiff s l hi).mp) hs,
    Along.imp (fun s l s' hi hp => hstep s l s' hi ((hiff s l hi).mpr hp))
      (fun s l hi => (hiff s l hi).mpr) hs⟩

-- ---------------------------------------------------------------------------
-- What runs reach
-- ---------------------------------------------------------------------------

variable (step C) in
/-- A run whose steps all meet `C` leads from `s` to `t`. -/
def Reaches (s t : σ) : Prop := ∃ ls, run step s ls = some t ∧ Along step C s ls

theorem run_append (ls ms : List ℓ) :
    run step s (ls ++ ms) = (run step s ls).bind fun t => run step t ms := by
  induction ls generalizing s with
  | nil => rfl
  | cons l ls ih =>
    rw [List.cons_append, run_cons, run_cons, Option.bind_assoc]
    exact congrArg _ (funext fun u => ih)

theorem Along.append {ms : List ℓ} (hls : Along step C s ls) (hr : run step s ls = some t)
    (hms : Along step C t ms) : Along step C s (ls ++ ms) := by
  induction ls generalizing s with
  | nil => exact Option.some.inj hr ▸ hms
  | cons l ls ih =>
    obtain ⟨u, hu, hr⟩ := run_cons_some.mp hr
    refine ⟨hls.1, ?_⟩
    rw [hu]
    exact ih (hls.cons hu) hr

theorem Reaches.refl (s : σ) : Reaches step C s s := ⟨[], rfl, trivial⟩

theorem Reaches.trans {u : σ} (hs : Reaches step C s t) (ht : Reaches step C t u) :
    Reaches step C s u := by
  obtain ⟨ls, hls, hcls⟩ := hs
  obtain ⟨ms, hms, hcms⟩ := ht
  exact ⟨ls ++ ms, by rw [run_append, hls, Option.bind_some, hms], hcls.append hls hcms⟩

theorem Reaches.single (hc : C s l) (hs : step s l = some t) : Reaches step C s t := by
  refine ⟨[l], by rw [run_cons, hs]; rfl, hc, ?_⟩
  rw [hs]
  trivial

-- ---------------------------------------------------------------------------
-- What a run did
-- ---------------------------------------------------------------------------

variable (step) in
/-- One of the steps of the run from `s` is one of `Q`. -/
def Happens (Q : σ → ℓ → σ → Prop) : σ → List ℓ → Prop
  | _, [] => False
  | s, l :: ls => ∃ u, step s l = some u ∧ (Q s l u ∨ Happens Q u ls)

variable {F : σ → Prop} {Q : σ → ℓ → σ → Prop}

/-- What only steps of `Q` make true was true at the start, or one of them was taken. -/
theorem run_origin (hstep : ∀ s l s', I s → C s l → step s l = some s' →
      I s' ∧ (F s' → F s ∨ Q s l s'))
    (hs : I s) (hc : Along step C s ls) (hr : run step s ls = some t) (ht : F t) :
    F s ∨ Happens step Q s ls := by
  induction ls generalizing s with
  | nil => exact .inl (Option.some.inj hr ▸ ht)
  | cons l ls ih =>
    obtain ⟨u, hu, hr⟩ := run_cons_some.mp hr
    obtain ⟨hI, hF⟩ := hstep s l u hs hc.1 hu
    rcases ih hI (hc.cons hu) hr with hold | hlater
    · rcases hF hold with hold | hnow
      · exact .inl hold
      · exact .inr ⟨u, hu, .inl hnow⟩
    · exact .inr ⟨u, hu, .inr hlater⟩

/-- What steps of `Q` make true and no step ends holds behind a run with one of them. -/
theorem Happens.holds (hstep : ∀ s l s', F s → step s l = some s' → F s')
    (hQ : ∀ s l s', step s l = some s' → Q s l s' → F s') (h : Happens step Q s ls)
    (hr : run step s ls = some t) : F t := by
  induction ls generalizing s with
  | nil => exact h.elim
  | cons l ls ih =>
    obtain ⟨u, hu, hq⟩ := h
    obtain ⟨u', hu', hr⟩ := run_cons_some.mp hr
    obtain rfl := Option.some.inj (hu.symm.trans hu')
    rcases hq with hnow | hlater
    · exact run_invariant_all hstep (hQ s l u hu hnow) hr
    · exact ih hlater hr

theorem happens_exists {ι : Type*} {Q : ι → σ → ℓ → σ → Prop} :
    Happens step (fun s l t => ∃ i, Q i s l t) s ls ↔ ∃ i, Happens step (Q i) s ls := by
  induction ls generalizing s with
  | nil => simp [Happens]
  | cons l ls ih =>
    simp only [Happens, ih]
    constructor
    · rintro ⟨u, hu, ⟨i, hnow⟩ | ⟨i, hlater⟩⟩
      · exact ⟨i, u, hu, .inl hnow⟩
      · exact ⟨i, u, hu, .inr hlater⟩
    · rintro ⟨i, u, hu, hq⟩
      exact ⟨u, hu, hq.imp (⟨i, ·⟩) (⟨i, ·⟩)⟩

/-- What only steps of `Q` end still holds, or one of them was taken, at a state of the run. -/
theorem run_until (hstep : ∀ s l s', I s → C s l → step s l = some s' →
      I s' ∧ (F s → F s' ∨ Q s l s'))
    (hs : I s) (hF : F s) (hc : Along step C s ls) (hr : run step s ls = some t) :
    F t ∨ ∃ ls₁ l ls₂ u v, ls = ls₁ ++ l :: ls₂ ∧ run step s ls₁ = some u ∧
      step u l = some v ∧ Q u l v := by
  induction ls generalizing s with
  | nil => exact .inl (Option.some.inj hr ▸ hF)
  | cons l ls ih =>
    obtain ⟨u, hu, hr⟩ := run_cons_some.mp hr
    obtain ⟨hI, hnext⟩ := hstep s l u hs hc.1 hu
    rcases hnext hF with hF | hnow
    · rcases ih hI hF (hc.cons hu) hr with hF | ⟨ls₁, l', ls₂, u', v, rfl, hu', hv, hq⟩
      · exact .inl hF
      · exact .inr ⟨l :: ls₁, l', ls₂, u', v, rfl, run_cons_some.mpr ⟨u, hu, hu'⟩, hv, hq⟩
    · exact .inr ⟨[], l, ls, s, u, rfl, rfl, hu, hnow⟩

theorem Happens.append {ms : List ℓ} (h : Happens step Q s ls) : Happens step Q s (ls ++ ms) := by
  induction ls generalizing s with
  | nil => exact h.elim
  | cons l ls ih =>
    obtain ⟨u, hu, hq⟩ := h
    exact ⟨u, hu, hq.imp_right ih⟩

theorem Along.of_append {ms : List ℓ} (h : Along step C s (ls ++ ms)) : Along step C s ls := by
  induction ls generalizing s with
  | nil => trivial
  | cons l ls ih =>
    refine ⟨h.1, ?_⟩
    cases hu : step s l with
    | none => trivial
    | some u => exact ih (Along.cons h hu)

end Beeflow.Machine
