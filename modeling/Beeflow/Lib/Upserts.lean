import Mathlib.Logic.Basic
import Mathlib.Data.List.Basic

/-!
# Batches of upserts

A loop over a batch that ends with the first element it fails on, and a store
that keeps the last write of each key. Where a key is written with one value
only, it has that value as soon as the loop reaches one of its elements.
-/

namespace Beeflow.Upserts

variable {α κ : Type*}

section Attempted

variable (fails : α → Bool)

/-- What the loop works on: everything up to the first failure, and the failure. -/
def attempted : List α → List α
  | [] => []
  | a :: l => a :: if fails a then [] else attempted l

variable {fails} {a b : α} {l : List α}

theorem mem_attempted :
    a ∈ attempted fails l ↔
      ∃ ahead behind, l = ahead ++ a :: behind ∧ ∀ b ∈ ahead, fails b = false := by
  induction l with
  | nil => simp [attempted]
  | cons b l ih =>
    rw [attempted, List.mem_cons]
    constructor
    · rintro (rfl | h)
      · exact ⟨[], l, rfl, by simp⟩
      · split_ifs at h with hb
        · exact nomatch h
        obtain ⟨ahead, behind, rfl, hahead⟩ := ih.mp h
        exact ⟨b :: ahead, behind, rfl,
          List.forall_mem_cons.mpr ⟨Bool.eq_false_iff.mpr hb, hahead⟩⟩
    · rintro ⟨ahead, behind, hl, hahead⟩
      cases ahead with
      | nil => exact .inl (List.cons.inj hl).1.symm
      | cons c ahead =>
        obtain ⟨rfl, rfl⟩ := List.cons.inj hl
        obtain ⟨hb, hahead⟩ := List.forall_mem_cons.mp hahead
        rw [hb]
        exact .inr (ih.mpr ⟨ahead, behind, rfl, hahead⟩)

end Attempted

section Store

variable [DecidableEq κ] (key : α → κ)

def upsert (store : κ → Option α) (a : α) : κ → Option α :=
  fun k => if k = key a then some a else store k

def upserts (store : κ → Option α) (l : List α) : κ → Option α := l.foldl (upsert key) store

variable {key} {store : κ → Option α} {k : κ} {a : α} {l : List α}

theorem upserts_other (h : ∀ b ∈ l, key b ≠ k) : upserts key store l k = store k := by
  induction l generalizing store with
  | nil => rfl
  | cons b l ih =>
    obtain ⟨hb, h⟩ := List.forall_mem_cons.mp h
    exact (ih h).trans (if_neg hb.symm)

/-- The writes of a key agree. -/
theorem upserts_agreed (ha : a ∈ l) (hk : key a = k) (h : ∀ b ∈ l, key b = k → b = a) :
    upserts key store l k = some a := by
  induction l generalizing store with
  | nil => exact nomatch ha
  | cons b l ih =>
    have htail := (List.forall_mem_cons.mp h).2
    by_cases hin : a ∈ l
    · exact ih hin htail
    · obtain rfl := (List.mem_cons.mp ha).resolve_right hin
      have hother : ∀ c ∈ l, key c ≠ k := fun c hc hkc => hin (htail c hc hkc ▸ hc)
      exact (upserts_other hother).trans (if_pos hk.symm)

theorem exists_of_upserts (h : upserts key (fun _ => none) l k = some a) : ∃ b ∈ l, key b = k := by
  by_contra hnone
  push Not at hnone
  rw [upserts_other hnone] at h
  cases h

end Store

end Beeflow.Upserts
