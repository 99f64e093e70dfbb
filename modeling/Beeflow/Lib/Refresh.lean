import Mathlib.Data.List.Basic
import Beeflow.Lib.Machine

/-!
# A view refreshed by readers

Each change of a source leaves a notice. A delivered notice starts a reader,
which reads the source and in a later step writes what it read to a view. In
between the source may change, so a reader may overwrite the view with a value
that is no longer current. The view follows the source as long as behind every
such write somebody is left who will refresh it.
-/

namespace Beeflow.Refresh

variable {α β κ : Type*}

/-- A reader is `none` until it has read the source. -/
structure State (α β : Type*) where
  source : α
  view : β
  notices : Nat
  readers : List (Option α)

inductive Label (α : Type*)
  | change (a : α)
  | deliver
  | redeliver
  | read (k : Nat)
  /-- the reader raises before it writes, and its notice is delivered again -/
  | fail (k : Nat)
  | write (k : Nat)

/-- `write` gives the new view, and whether the reader ended well. -/
def State.step (write : β → α → β × Bool) (s : State α β) : Label α → Option (State α β)
  | .change a => some { s with source := a, notices := s.notices + 1 }
  | .deliver =>
    if s.notices = 0 then none
    else some { s with notices := s.notices - 1, readers := s.readers ++ [none] }
  | .redeliver => some { s with readers := s.readers ++ [none] }
  | .read k =>
    match s.readers[k]? with
    | some none => some { s with readers := s.readers.set k (some s.source) }
    | _ => none
  | .fail k =>
    if k < s.readers.length then
      some { s with notices := s.notices + 1, readers := s.readers.eraseIdx k }
    else none
  | .write k =>
    match s.readers[k]? with
    | some (some a) => some { s with
        view := (write s.view a).1
        notices := if (write s.view a).2 then s.notices else s.notices + 1
        readers := s.readers.eraseIdx k }
    | _ => none

/-- No notice is under way, and every reader has ended. -/
def State.Quiescent (s : State α β) : Prop := s.notices = 0 ∧ s.readers = []

section Following

variable (key : α → κ) (shown : β → κ)

/-- Among the notices and these readers is one that will see the current source. -/
def State.Refreshes (s : State α β) (readers : List (Option α)) : Prop :=
  s.notices ≠ 0 ∨ ∃ r ∈ readers, ∀ a ∈ r, key a = key s.source

instance [DecidableEq κ] (s : State α β) (readers : List (Option α)) :
    Decidable (s.Refreshes key readers) :=
  inferInstanceAs (Decidable (_ ∨ ∃ r ∈ readers, ∀ a ∈ r, _))

/-- Who writes a value that is not current leaves somebody behind who will refresh it. -/
def State.Covered (s : State α β) : Label α → Prop
  | .write k => ∀ r ∈ s.readers[k]?, ∀ a ∈ r, key a ≠ key s.source →
      s.Refreshes key (s.readers.eraseIdx k)
  | _ => True

instance [DecidableEq κ] (s : State α β) : (l : Label α) → Decidable (s.Covered key l)
  | .write k => inferInstanceAs (Decidable (∀ r ∈ s.readers[k]?, ∀ a ∈ r, _ → _))
  | .change _ | .deliver | .redeliver | .read _ | .fail _ => .isTrue trivial

/-- The view shows the source, or will be refreshed. -/
def State.Follows (s : State α β) : Prop :=
  shown s.view = key s.source ∨ s.Refreshes key s.readers

variable {key shown} {write : β → α → β × Bool} {s t : State α β} {l : Label α}

theorem State.Follows.of_quiescent (h : s.Follows key shown) (hq : s.Quiescent) :
    shown s.view = key s.source := by
  rcases h with h | h | ⟨r, hr, -⟩
  · exact h
  · exact absurd hq.1 h
  · rw [hq.2] at hr
    simp at hr

/-- After any step that is covered. -/
theorem State.follows_step (hwrite : ∀ b a, (write b a).2 = true → shown (write b a).1 = key a)
    (hc : s.Covered key l) (hs : s.step write l = some t) : t.Follows key shown := by
  cases l with
  | change a =>
    obtain rfl := Option.some.inj hs
    exact .inr (.inl (Nat.succ_ne_zero _))
  | deliver =>
    simp only [State.step] at hs
    split_ifs at hs
    obtain rfl := Option.some.inj hs
    exact .inr (.inr ⟨none, by simp, by simp⟩)
  | redeliver =>
    obtain rfl := Option.some.inj hs
    exact .inr (.inr ⟨none, by simp, by simp⟩)
  | read k =>
    simp only [State.step] at hs
    split at hs
    · rename_i hk
      obtain rfl := Option.some.inj hs
      obtain ⟨hlt, -⟩ := List.getElem?_eq_some_iff.mp hk
      exact .inr (.inr ⟨some s.source, List.mem_set hlt _, by simp⟩)
    · cases hs
  | fail k =>
    simp only [State.step] at hs
    split_ifs at hs
    obtain rfl := Option.some.inj hs
    exact .inr (.inl (Nat.succ_ne_zero _))
  | write k =>
    simp only [State.step] at hs
    split at hs
    · rename_i a hk
      obtain rfl := Option.some.inj hs
      cases hdone : (write s.view a).2 with
      | false => exact .inr (.inl (by simp))
      | true =>
        by_cases hkey : key a = key s.source
        · exact .inl ((hwrite _ _ hdone).trans hkey)
        · -- the value is not current, so the condition speaks about this write
          refine .inr ?_
          simpa [State.Refreshes, hdone] using hc _ hk a rfl hkey
    · cases hs

/-- Where every write is covered, the view shows the source once all is quiet. -/
theorem run_follows (hwrite : ∀ b a, (write b a).2 = true → shown (write b a).1 = key a)
    {ls : List (Label α)} (h : s.Follows key shown)
    (hc : Machine.Along (State.step write) (State.Covered key) s ls)
    (hr : Machine.run (State.step write) s ls = some t) (hq : t.Quiescent) :
    shown t.view = key t.source := by
  have hfollows := Machine.run_invariant
    (fun _ _ _ _ hc hs => State.follows_step hwrite hc hs) h hc hr
  exact hfollows.of_quiescent hq

-- ---------------------------------------------------------------------------
-- Writes that are not covered
-- ---------------------------------------------------------------------------

/-- Readers that hold no current value leave the view at what is not the source. -/
theorem outdated_of_stale (hwrite : ∀ b a, shown (write b a).1 = key a)
    (hdone : ∀ b a, (write b a).2 = true) (hnotices : s.notices = 0)
    (hview : shown s.view ≠ key s.source) {readers : List (Option α)}
    (hreaders : s.readers = readers)
    (hstale : ∀ r ∈ readers, ∃ a, r = some a ∧ key a ≠ key s.source) :
    ∃ ls t, Machine.run (State.step write) s ls = some t ∧ t.Quiescent ∧
      shown t.view ≠ key t.source := by
  induction readers generalizing s with
  | nil => exact ⟨[], s, rfl, ⟨hnotices, hreaders⟩, hview⟩
  | cons r readers ih =>
    obtain ⟨⟨a, rfl, ha⟩, hrest⟩ := List.forall_mem_cons.mp hstale
    have hstep : s.step write (.write 0) =
        some { s with view := (write s.view a).1, readers := readers } := by
      simp [State.step, hreaders, hdone]
    have hview' : shown (write s.view a).1 ≠ key s.source := by rwa [hwrite]
    obtain ⟨ls, t, hr, hq, ht⟩ := ih
      (s := { s with view := (write s.view a).1, readers := readers }) hnotices hview' rfl hrest
    exact ⟨.write 0 :: ls, t, by rw [Machine.run_cons, hstep]; exact hr, hq, ht⟩

/-- A write that is not covered may be the one that the view is left with. -/
theorem outdated_of_not_covered (hwrite : ∀ b a, shown (write b a).1 = key a)
    (hdone : ∀ b a, (write b a).2 = true) (h : ¬s.Covered key l) :
    ∃ ls t, Machine.run (State.step write) s (l :: ls) = some t ∧ t.Quiescent ∧
      shown t.view ≠ key t.source := by
  cases l with
  | write k =>
    simp only [State.Covered, not_forall] at h
    obtain ⟨r, hk, a, rfl, ha, hnot⟩ := h
    simp only [State.Refreshes, not_or, not_exists, not_and, not_forall] at hnot
    obtain ⟨hnotices, hreaders⟩ := hnot
    have hstep : s.step write (.write k) =
        some { s with view := (write s.view a).1, readers := s.readers.eraseIdx k } := by
      simp [State.step, Option.mem_def.mp hk, hdone]
    have hview : shown (write s.view a).1 ≠ key s.source := by rwa [hwrite]
    have hstale : ∀ r ∈ s.readers.eraseIdx k, ∃ b, r = some b ∧ key b ≠ key s.source := by
      intro r hr
      obtain ⟨b, hb, hkey⟩ := hreaders r hr
      exact ⟨b, hb, hkey⟩
    obtain ⟨ls, t, hr, hq, ht⟩ := outdated_of_stale
      (s := { s with view := (write s.view a).1, readers := s.readers.eraseIdx k })
      hwrite hdone (not_not.mp hnotices) hview rfl hstale
    exact ⟨ls, t, by rw [Machine.run_cons, hstep]; exact hr, hq, ht⟩
  | _ => exact absurd trivial h

end Following

end Beeflow.Refresh
