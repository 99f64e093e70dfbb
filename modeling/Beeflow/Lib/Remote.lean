import Mathlib.Logic.Function.Iterate
import Beeflow.Lib.Calls

/-!
# Calls over a network

A program changes a remote state by requests. A request may be lost, may arrive
more than once, and may have been carried out although its answer is lost;
others write in between. Seen through a view that the others leave alone, a
method changes the state by one idempotent function, or not at all. Then a
program of such methods is a script of calls.
-/

namespace Beeflow.Remote

open Calls

-- ---------------------------------------------------------------------------
-- Requests
-- ---------------------------------------------------------------------------

/-- What happens around one request. -/
structure Round (δ : Type) where
  starts : Int
  ends : Int
  /-- what others write before it arrives -/
  others : δ → δ
  /-- how often it is carried out without an answer -/
  lost : Nat
  answered : Bool

/-- The remote state, and the rounds that are still to come. -/
structure World (δ : Type) where
  clock : Int
  rounds : List (Round δ)
  state : δ

variable {δ ε ρ : Type}

/-- `time.time()` -/
def time : EStateM ε (World δ) Int := fun w =>
  .ok (w.rounds.head?.elim w.clock Round.starts) w

/-- `serve` carries a request out and answers it; without an answer it raises. -/
def request (noAnswer : ε) (serve : δ → δ × ρ) : EStateM ε (World δ) ρ := fun w =>
  match w.rounds with
  | [] => .error noAnswer w
  | r :: rounds =>
    let s := (fun s => (serve s).1)^[r.lost] (r.others w.state)
    if r.answered then .ok (serve s).2 ⟨r.ends, rounds, (serve s).1⟩
    else .error noAnswer ⟨r.ends, rounds, s⟩

/-- `while time.time() < t_end: if check(): break`; each check takes a round. -/
def pollUntil (tEnd : Int) (check : EStateM ε (World δ) Bool) : Nat → EStateM ε (World δ) Unit
  | 0 => pure ()
  | rounds + 1 => do
    if (← time) < tEnd then
      if !(← check) then pollUntil tEnd check rounds

/-- Tries again after the exceptions in `again`, until `maxTime` has passed since `start`. -/
def onException (again : ε → Bool) (start maxTime : Int) (attempt : EStateM ε (World δ) Unit) :
    Nat → EStateM ε (World δ) Unit
  | 0 => attempt
  | rounds + 1 => tryCatch attempt fun e => do
    if again e && (← get).clock - start < maxTime then
      onException again start maxTime attempt rounds
    else throw e

-- ---------------------------------------------------------------------------
-- What a computation does
-- ---------------------------------------------------------------------------

section Does

variable {σ : Type*} {α β : Type} (view : ρ → σ) (I : ρ → Prop)

def Once (f : σ → σ) (before after : σ) : Prop := after = before ∨ after = f before

/-- Seen through `view` the computation has the effect `f` or none, and it has it where it returns
a result in `P`. -/
def Does (f : σ → σ) (P : α → Prop) (x : EStateM ε ρ α) : Prop :=
  ∀ s, I s → match x s with
    | .ok a s' => I s' ∧ Once f (view s) (view s') ∧ (P a → view s' = f (view s))
    | .error _ s' => I s' ∧ Once f (view s) (view s')

variable {view I} {f : σ → σ} {P Q : α → Prop} {x : EStateM ε ρ α}

theorem Once.trans (hf : ∀ v, f (f v) = f v) {v v' v'' : σ} (h : Once f v v')
    (h' : Once f v' v'') : Once f v v'' := by
  rcases h with rfl | rfl
  · exact h'
  · rcases h' with rfl | rfl
    · exact .inr rfl
    · exact .inr (hf v)

/-- What has had its effect keeps it. -/
theorem Once.kept (hf : ∀ v, f (f v) = f v) {v v' : σ} (h : Once f (f v) v') : v' = f v := by
  rcases h with rfl | rfl
  · rfl
  · exact hf v

theorem does_pure {a : α} (h : P a → ∀ v, f v = v) : Does view I f P (pure a : EStateM ε ρ α) :=
  fun _ hs => ⟨hs, .inl rfl, fun ha => (h ha _).symm⟩

theorem does_throw {e : ε} : Does view I f P (throw e : EStateM ε ρ α) :=
  fun _ hs => ⟨hs, .inl rfl⟩

theorem Does.mono (h : Does view I f Q x) (hPQ : ∀ a, P a → Q a) : Does view I f P x := by
  intro s hs
  have h := h s hs
  cases hx : x s with
  | ok a s' =>
    rw [hx] at h
    exact ⟨h.1, h.2.1, fun ha => h.2.2 (hPQ a ha)⟩
  | error e s' =>
    rw [hx] at h
    exact h

/-- What has no effect at all. -/
theorem Does.of_id (h : Does view I id P x) : Does view I f (fun _ => False) x := by
  intro s hs
  have h := h s hs
  have honce : ∀ {v v' : σ}, Once id v v' → Once f v v' := by
    rintro v v' (rfl | rfl) <;> exact .inl rfl
  cases hx : x s with
  | ok a s' =>
    rw [hx] at h
    exact ⟨h.1, honce h.2.1, False.elim⟩
  | error e s' =>
    rw [hx] at h
    exact ⟨h.1, honce h.2⟩

/-- The second computation owes the effect where the first has not had it. -/
theorem Does.bind (hf : ∀ v, f (f v) = f v) {R : β → Prop} {y : α → EStateM ε ρ β}
    (hx : Does view I f Q x) (hy : ∀ a, Does view I f (fun b => R b ∧ ¬Q a) (y a)) :
    Does view I f R (x >>= y) := by
  intro s hs
  have hx := hx s hs
  show match EStateM.bind x y s with
    | .ok a s' => I s' ∧ Once f (view s) (view s') ∧ (R a → view s' = f (view s))
    | .error _ s' => I s' ∧ Once f (view s) (view s')
  unfold EStateM.bind
  cases h : x s with
  | error e s' =>
    rw [h] at hx
    exact hx
  | ok a s' =>
    rw [h] at hx
    obtain ⟨hs', honce, hQ⟩ := hx
    have hy := hy a s' hs'
    dsimp only
    cases h' : y a s' with
    | error e s'' =>
      rw [h'] at hy
      exact ⟨hy.1, honce.trans hf hy.2⟩
    | ok b s'' =>
      rw [h'] at hy
      refine ⟨hy.1, honce.trans hf hy.2.1, fun hb => ?_⟩
      by_cases ha : Q a
      · exact Once.kept hf (hQ ha ▸ hy.2.1)
      · rw [hy.2.2 ⟨hb, ha⟩]
        rcases honce with hv | hv
        · rw [hv]
        · rw [hv, hf]

/-- An attempt that has raised may have had the effect; the next one has it again. -/
theorem Does.tryCatch (hf : ∀ v, f (f v) = f v) {y : ε → EStateM ε ρ α}
    (hx : Does view I f P x) (hy : ∀ e, Does view I f P (y e)) :
    Does view I f P (tryCatch x y) := by
  intro s hs
  have hx := hx s hs
  show match EStateM.tryCatch x y s with
    | .ok a s' => I s' ∧ Once f (view s) (view s') ∧ (P a → view s' = f (view s))
    | .error _ s' => I s' ∧ Once f (view s) (view s')
  unfold EStateM.tryCatch
  cases h : x s with
  | ok a s' =>
    rw [h] at hx
    exact hx
  | error e s' =>
    rw [h] at hx
    obtain ⟨hs', honce⟩ := hx
    have hy := hy e s' hs'
    show match y e s' with
      | .ok a s' => I s' ∧ Once f (view s) (view s') ∧ (P a → view s' = f (view s))
      | .error _ s' => I s' ∧ Once f (view s) (view s')
    cases h' : y e s' with
    | error e' s'' =>
      rw [h'] at hy
      exact ⟨hy.1, honce.trans hf hy.2⟩
    | ok b s'' =>
      rw [h'] at hy
      refine ⟨hy.1, honce.trans hf hy.2.1, fun hb => ?_⟩
      rw [hy.2.2 hb]
      rcases honce with hv | hv
      · rw [hv]
      · rw [hv, hf]

end Does

-- ---------------------------------------------------------------------------
-- What requests do
-- ---------------------------------------------------------------------------

section Requests

variable {σ : Type*} {view : δ → σ} {f : σ → σ}

/-- The others leave the view alone. -/
def Quiet (view : δ → σ) (w : World δ) : Prop := ∀ r ∈ w.rounds, ∀ s, view (r.others s) = view s

abbrev DoesRemotely (view : δ → σ) (f : σ → σ) {α : Type} (P : α → Prop)
    (x : EStateM ε (World δ) α) : Prop := Does (fun w => view w.state) (Quiet view) f P x

theorem does_request {P : ρ → Prop} {serve : δ → δ × ρ} (noAnswer : ε) (hf : ∀ v, f (f v) = f v)
    (honce : ∀ s, Once f (view s) (view (serve s).1))
    (heffect : ∀ s, P (serve s).2 → view (serve s).1 = f (view s)) :
    DoesRemotely view f P (request noAnswer serve) := by
  intro w hw
  unfold request
  cases h : w.rounds with
  | nil => exact ⟨hw, .inl rfl⟩
  | cons r rounds =>
    have hrounds : ∀ r' ∈ rounds, ∀ s, view (r'.others s) = view s := fun r' hr' =>
      hw r' (h ▸ List.mem_cons_of_mem r hr')
    have hlost : ∀ n s, Once f (view s) (view ((fun s => (serve s).1)^[n] s)) := by
      intro n
      induction n with
      | zero => exact fun s => .inl rfl
      | succ n ih =>
        intro s
        rw [Function.iterate_succ_apply]
        exact (honce s).trans hf (ih _)
    have hothers : view (r.others w.state) = view w.state := hw r (h ▸ List.mem_cons_self) _
    have hbefore := hothers ▸ hlost r.lost (r.others w.state)
    dsimp only
    cases r.answered with
    | false => exact ⟨hrounds, hbefore⟩
    | true =>
      refine ⟨hrounds, hbefore.trans hf (honce _), fun hP => ?_⟩
      refine (heffect _ hP).trans ?_
      rcases hbefore with hv | hv
      · rw [hv]
      · rw [hv, hf]

theorem does_time : DoesRemotely view f (fun _ => False) (time : EStateM ε (World δ) Int) :=
  fun _ hw => ⟨hw, .inl rfl, False.elim⟩

theorem does_get :
    DoesRemotely view f (fun _ => False) (get : EStateM ε (World δ) (World δ)) :=
  fun _ hw => ⟨hw, .inl rfl, False.elim⟩

theorem does_pollUntil (hf : ∀ v, f (f v) = f v) {Q : Bool → Prop} {tEnd : Int}
    {check : EStateM ε (World δ) Bool} (hcheck : DoesRemotely view f Q check) (rounds : Nat) :
    DoesRemotely view f (fun _ => False) (pollUntil tEnd check rounds) := by
  induction rounds with
  | zero => exact does_pure False.elim
  | succ rounds ih =>
    refine does_time.bind hf fun t => ?_
    split_ifs
    · refine hcheck.bind hf fun exists' => ?_
      split_ifs
      · exact ih.mono fun _ h => h.1.1
      · exact does_pure fun h => h.1.1.elim
    · exact does_pure fun h => h.1.elim

theorem does_onException (hf : ∀ v, f (f v) = f v) {again : ε → Bool} {start maxTime : Int}
    {P : Unit → Prop} {attempt : EStateM ε (World δ) Unit} (h : DoesRemotely view f P attempt)
    (rounds : Nat) : DoesRemotely view f P (onException again start maxTime attempt rounds) := by
  induction rounds with
  | zero => exact h
  | succ rounds ih =>
    refine h.tryCatch hf fun e => ?_
    refine does_get.bind hf fun w => ?_
    split_ifs
    · exact ih.mono fun _ h => h.1
    · exact does_throw

end Requests

-- ---------------------------------------------------------------------------
-- Programs of methods
-- ---------------------------------------------------------------------------

section Programs

variable {ι : Type*} {σ : Type*} (guarded : ι → Bool) (method : ι → EStateM ε ρ Unit)

/-- What a guarded method raises is swallowed. -/
def tried (i : ι) : EStateM ε ρ Unit :=
  if guarded i then tryCatch (method i) fun _ => pure () else method i

def runAll : List ι → EStateM ε ρ Unit
  | [] => pure ()
  | i :: rest => do
    tried guarded method i
    runAll rest

/-- The run ends as the script does, from the view `v` on. -/
def Follows (effect : ι → σ → σ) (view : ρ → σ) (I : ρ → Prop) (script : List (ι × Outcome))
    (v : σ) : EStateM.Result ε ρ Unit → Prop
  | .ok _ s => I s ∧ view s = exec guarded effect script v ∧ raise guarded script = none
  | .error _ s => I s ∧ view s = exec guarded effect script v ∧ raise guarded script ≠ none

variable {guarded method} {effect : ι → σ → σ} {view : ρ → σ} {I : ρ → Prop}
  {script : List (ι × Outcome)} {v v' : σ}

/-- A call that does not end the program stands before the script of the others. -/
theorem Follows.cons {p : ι × Outcome} {result : EStateM.Result ε ρ Unit}
    (h : Follows guarded effect view I script v' result)
    (hexec : exec guarded effect (p :: script) v = exec guarded effect script v')
    (hraise : raise guarded (p :: script) = (raise guarded script).map (.after [p])) :
    Follows guarded effect view I (p :: script) v result := by
  cases result with
  | ok a s =>
    obtain ⟨hs, hview, hnone⟩ := h
    exact ⟨hs, hview.trans hexec.symm, hraise.trans (Option.map_eq_none_iff.mpr hnone)⟩
  | error e s =>
    obtain ⟨hs, hview, hsome⟩ := h
    refine ⟨hs, hview.trans hexec.symm, fun hnone => hsome ?_⟩
    exact Option.map_eq_none_iff.mp (hraise.symm.trans hnone)

theorem tried_of_ok {i : ι} {s s' : ρ} (h : method i s = .ok () s') :
    tried guarded method i s = .ok () s' := by
  rw [tried]
  cases guarded i with
  | false => exact h
  | true =>
    show EStateM.tryCatch (method i) (fun _ => pure ()) s = .ok () s'
    rw [EStateM.tryCatch, h]

theorem tried_of_error {i : ι} {s s' : ρ} {e : ε} (h : method i s = .error e s') :
    tried guarded method i s = if guarded i then .ok () s' else .error e s' := by
  rw [tried]
  cases guarded i with
  | false => exact h
  | true =>
    show EStateM.tryCatch (method i) (fun _ => pure ()) s = .ok () s'
    rw [EStateM.tryCatch, h]
    rfl

theorem runAll_of_ok {i : ι} {rest : List ι} {s s' : ρ} (h : tried guarded method i s = .ok () s') :
    runAll guarded method (i :: rest) s = runAll guarded method rest s' := by
  show EStateM.bind (tried guarded method i) (fun _ => runAll guarded method rest) s = _
  rw [EStateM.bind, h]

theorem runAll_of_error {i : ι} {rest : List ι} {s s' : ρ} {e : ε}
    (h : tried guarded method i s = .error e s') :
    runAll guarded method (i :: rest) s = .error e s' := by
  show EStateM.bind (tried guarded method i) (fun _ => runAll guarded method rest) s = _
  rw [EStateM.bind, h]

/-- A program whose methods have had their effects when they return is a script of calls, and it
raises where the script does. -/
theorem runAll_follows {calls : List ι}
    (h : ∀ i ∈ calls, Does view I (effect i) (fun _ => True) (method i)) {s : ρ} (hs : I s) :
    ∃ script : List (ι × Outcome), script.map Prod.fst = calls ∧
      Follows guarded effect view I script (view s) (runAll guarded method calls s) := by
  induction calls generalizing s with
  | nil => exact ⟨[], rfl, hs, rfl, rfl⟩
  | cons i rest ih =>
    obtain ⟨hi, hrest⟩ := List.forall_mem_cons.mp h
    have hi := hi s hs
    cases hm : method i s with
    | ok a s' =>
      rw [hm] at hi
      obtain ⟨hs', -, heffect⟩ := hi
      obtain ⟨script, hcalls, hscript⟩ := ih hrest hs'
      refine ⟨(i, .returned) :: script, congrArg (i :: ·) hcalls, ?_⟩
      rw [runAll_of_ok (tried_of_ok hm)]
      exact (heffect trivial ▸ hscript).cons rfl rfl
    | error e s' =>
      rw [hm] at hi
      obtain ⟨hs', honce⟩ := hi
      obtain ⟨effective, hv⟩ : ∃ effective : Bool,
          view s' = if effective then effect i (view s) else view s := by
        rcases honce with hv | hv
        · exact ⟨false, hv⟩
        · exact ⟨true, hv⟩
      cases hg : guarded i with
      | false =>
        have htried : tried guarded method i s = .error e s' := by
          rw [tried_of_error hm, hg]
          rfl
        refine ⟨(i, .raised effective) :: rest.map (·, .returned), ?_, ?_⟩
        · rw [List.map_cons, List.map_map]
          exact congrArg (i :: ·) (List.map_id rest)
        · rw [runAll_of_error htried, Follows, exec, raise, hg]
          exact ⟨hs', hv, Option.some_ne_none _⟩
      | true =>
        have htried : tried guarded method i s = .ok () s' := by
          rw [tried_of_error hm, hg]
          rfl
        obtain ⟨script, hcalls, hscript⟩ := ih hrest hs'
        refine ⟨(i, .raised effective) :: script, congrArg (i :: ·) hcalls, ?_⟩
        rw [runAll_of_ok htried]
        refine hscript.cons ?_ ?_
        · rw [exec, hg, hv]
          rfl
        · rw [raise, hg]
          rfl

end Programs

end Beeflow.Remote
