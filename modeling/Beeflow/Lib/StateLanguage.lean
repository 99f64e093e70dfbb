import Mathlib.Data.List.Basic

/-!
# A state language of tasks

A state machine's states each invoke a resource on what they select from their
input. An invocation that fails is retried where the error is one for that, and
where no attempt is left a catcher hands the input, with the error placed in
it, to another state. The invocations act on a world of their own.
-/

namespace Beeflow.StateLanguage

variable {ρ α σ : Type*}

structure TaskState (ρ α : Type*) where
  resource : ρ
  /-- what the resource is handed of the input -/
  select : α → Option α
  /-- how often the retrier invokes again, and behind which errors -/
  maxAttempts : Nat
  retries : α → Bool
  /-- the catcher's state, and where it places the error in the input -/
  caught : Option (String × (α → α → Option α))
  /-- `none` at the end -/
  next : Option String

structure StateMachine (ρ α : Type*) where
  startAt : String
  states : List (String × TaskState ρ α)

inductive Status (α : Type*)
  | succeeded (output : α)
  | failed

structure Call (ρ α : Type*) where
  resource : ρ
  arg : α
  outcome : Except α α

/-- What an execution leaves, and its invocations in their order. -/
structure Ended (ρ α σ : Type*) where
  status : Status α
  world : σ
  log : List (Call ρ α)

abbrev Invoke (ρ α σ : Type*) := ρ → α → σ → Except α α × σ

section Replays

variable {invoke : Invoke ρ α σ} {s t u : σ}

/-- Made one behind the other, the calls end as it says here. -/
def Replays (invoke : Invoke ρ α σ) : σ → List (Call ρ α) → σ → Prop
  | s, [], t => s = t
  | s, c :: cs, t => ∃ u, invoke c.resource c.arg s = (c.outcome, u) ∧ Replays invoke u cs t

theorem Replays.append {cs ds : List (Call ρ α)} (h : Replays invoke s cs t)
    (h' : Replays invoke t ds u) : Replays invoke s (cs ++ ds) u := by
  induction cs generalizing s with
  | nil =>
    obtain rfl : s = t := h
    exact h'
  | cons c cs ih =>
    obtain ⟨v, hcall, hrest⟩ := h
    exact ⟨v, hcall, ih hrest⟩

end Replays

-- ---------------------------------------------------------------------------
-- Attempts
-- ---------------------------------------------------------------------------

/-- The errors of the attempts in front of the last one, and how that one ended. -/
structure Attempts (α σ : Type*) where
  failed : List α
  outcome : Except α α
  world : σ

def Attempts.calls (a : Attempts α σ) (r : ρ) (arg : α) : List (Call ρ α) :=
  a.failed.map (fun e => ⟨r, arg, .error e⟩) ++ [⟨r, arg, a.outcome⟩]

section Attempts

variable (invoke : Invoke ρ α σ) (r : ρ) (arg : α) (retries : α → Bool)

def attempts : Nat → σ → Attempts α σ
  | 0, s => ⟨[], (invoke r arg s).1, (invoke r arg s).2⟩
  | n + 1, s =>
    match invoke r arg s with
    | (.ok v, s') => ⟨[], .ok v, s'⟩
    | (.error e, s') =>
      if retries e then
        let rest := attempts n s'
        { rest with failed := e :: rest.failed }
      else ⟨[], .error e, s'⟩

variable {invoke r arg retries} {n : Nat} {s : σ}

theorem attempts_ok {v : α} {s' : σ} (h : invoke r arg s = (.ok v, s')) :
    attempts invoke r arg retries n s = ⟨[], .ok v, s'⟩ := by
  cases n <;> simp [attempts, h]

theorem attempts_retried {e : α} {s' : σ} (h : invoke r arg s = (.error e, s'))
    (hretried : retries e = true) : attempts invoke r arg retries (n + 1) s =
      { attempts invoke r arg retries n s' with
        failed := e :: (attempts invoke r arg retries n s').failed } := by
  simp [attempts, h, hretried]

/-- Attempts in a larger world, of which the invocation sees a part. -/
theorem attempts_map {ρ' τ : Type*} {invoke' : Invoke ρ' α τ} {r' : ρ'} {arg' : α}
    {f : σ → τ} (h : ∀ s, invoke' r' arg' (f s) = ((invoke r arg s).1, f (invoke r arg s).2))
    (n : Nat) (s : σ) : attempts invoke' r' arg' retries n (f s) =
      let a := attempts invoke r arg retries n s
      ⟨a.failed, a.outcome, f a.world⟩ := by
  induction n generalizing s with
  | zero => simp [attempts, h]
  | succ n ih =>
    cases hinvoke : invoke r arg s with
    | mk outcome s' =>
      have hinvoke' := h s
      rw [hinvoke] at hinvoke'
      cases outcome with
      | ok v => rw [attempts_ok hinvoke, attempts_ok hinvoke']
      | error e =>
        by_cases hretried : retries e = true
        · rw [attempts_retried hinvoke hretried, attempts_retried hinvoke' hretried, ih]
        · simp [attempts, hinvoke, hinvoke', hretried]

end Attempts

-- ---------------------------------------------------------------------------
-- Executions
-- ---------------------------------------------------------------------------

section Run

variable (m : StateMachine ρ α) (invoke : Invoke ρ α σ)

/-- The invocations of one state in front of those behind it. -/
def Ended.after (e : Ended ρ α σ) (calls : List (Call ρ α)) : Ended ρ α σ :=
  { e with log := calls ++ e.log }

def runFrom : Nat → String → α → σ → Option (Ended ρ α σ)
  | 0, _, _, _ => none
  | fuel + 1, name, input, s =>
    match m.states.lookup name with
    | none => some ⟨.failed, s, []⟩
    | some st =>
      match st.select input with
      | none => some ⟨.failed, s, []⟩
      | some arg =>
        let a := attempts invoke st.resource arg st.retries st.maxAttempts s
        let calls := a.calls st.resource arg
        match a.outcome with
        | .ok output =>
          match st.next with
          | none => some ⟨.succeeded output, a.world, calls⟩
          | some next => (runFrom fuel next output a.world).map (·.after calls)
        | .error e =>
          match st.caught with
          | none => some ⟨.failed, a.world, calls⟩
          | some (next, place) =>
            match place input e with
            | none => some ⟨.failed, a.world, calls⟩
            | some input' => (runFrom fuel next input' a.world).map (·.after calls)

/-- An execution of the machine, which visits no state twice. -/
def StateMachine.run (input : α) (s : σ) : Option (Ended ρ α σ) :=
  runFrom m invoke m.states.length m.startAt input s

variable {m invoke}

end Run

end Beeflow.StateLanguage
