import Beeflow.Lib.Tally

/-!
# Quotas

A loop goes over a list once and admits an element while there is room for one
more of its key. What it admits of a key are the first elements of that key, as
many as fit.
-/

namespace Beeflow.Quota

variable {α κ : Type*} [DecidableEq κ] (key : α → κ) (room : κ → Nat → Bool)

/-- `count k` elements of key `k` are in already. -/
def admitted : List α → (κ → Nat) → List α
  | [], _ => []
  | a :: l, count =>
    if room (key a) (count (key a)) then a :: admitted l (Tally.bump count (key a) 1)
    else admitted l count

variable {key room} {k : κ} {a : α} {l : List α} {count : κ → Nat}

theorem admitted_open (h : room (key a) (count (key a)) = true) :
    admitted key room (a :: l) count = a :: admitted key room l (Tally.bump count (key a) 1) :=
  if_pos h

theorem admitted_full (h : room (key a) (count (key a)) = false) :
    admitted key room (a :: l) count = admitted key room l count :=
  if_neg (Bool.eq_false_iff.mp h)

theorem bump_self (count : κ → Nat) (k : κ) : Tally.bump count k 1 k = count k + 1 := if_pos rfl

theorem bump_of_ne (count : κ → Nat) {j : κ} (h : k ≠ j) : Tally.bump count j 1 k = count k :=
  if_neg h

theorem filter_key (h : key a = k) (l : List α) :
    (a :: l).filter (key · = k) = a :: l.filter (key · = k) := List.filter_cons_of_pos (by simpa)

theorem filter_key_of_ne (h : key a ≠ k) (l : List α) :
    (a :: l).filter (key · = k) = l.filter (key · = k) := List.filter_cons_of_neg (by simpa)

theorem admitted_sublist (l : List α) (count : κ → Nat) :
    (admitted key room l count).Sublist l := by
  induction l generalizing count with
  | nil => exact .refl _
  | cons a l ih =>
    unfold admitted
    split_ifs
    · exact (ih _).cons_cons a
    · exact (ih count).cons a

/-- An element of another key changes nothing for this one. -/
theorem admitted_filter_of_ne (room : κ → Nat → Bool) (h : key a ≠ k) (l : List α)
    (count : κ → Nat) :
    ∃ count' : κ → Nat, count' k = count k ∧
      (admitted key room (a :: l) count).filter (key · = k) =
        (admitted key room l count').filter (key · = k) := by
  cases hroom : room (key a) (count (key a)) with
  | true =>
    refine ⟨_, bump_of_ne count h.symm, ?_⟩
    rw [admitted_open hroom, filter_key_of_ne h]
  | false => exact ⟨count, rfl, by rw [admitted_full hroom]⟩

theorem admitted_filter_of_limit {m : Nat} (hroom : ∀ n, room k n = decide (n < m)) (l : List α)
    (count : κ → Nat) :
    (admitted key room l count).filter (key · = k) =
      (l.filter (key · = k)).take (m - count k) := by
  induction l generalizing count with
  | nil => simp [admitted]
  | cons a l ih =>
    by_cases h : key a = k
    · rw [filter_key h]
      by_cases hlt : count k < m
      · have hopen : room (key a) (count (key a)) = true := by simp [h, hroom, hlt]
        have hsub : m - count k = m - (count k + 1) + 1 := by omega
        rw [admitted_open hopen, filter_key h, ih, h, bump_self, hsub, List.take_succ_cons]
      · have hfull : room (key a) (count (key a)) = false := by simp [h, hroom, hlt]
        have hzero : m - count k = 0 := by omega
        rw [admitted_full hfull, ih, hzero, List.take_zero, List.take_zero]
    · obtain ⟨count', hcount, hfilter⟩ := admitted_filter_of_ne room h l count
      rw [hfilter, ih, hcount, filter_key_of_ne h]

theorem admitted_filter_of_open (hroom : ∀ n, room k n = true) (l : List α) (count : κ → Nat) :
    (admitted key room l count).filter (key · = k) = l.filter (key · = k) := by
  induction l generalizing count with
  | nil => rfl
  | cons a l ih =>
    by_cases h : key a = k
    · have hopen : room (key a) (count (key a)) = true := h ▸ hroom _
      rw [admitted_open hopen, filter_key h, ih, filter_key h]
    · obtain ⟨count', -, hfilter⟩ := admitted_filter_of_ne room h l count
      rw [hfilter, ih, filter_key_of_ne h]

theorem admitted_filter_of_closed (hroom : ∀ n, room k n = false) (l : List α) (count : κ → Nat) :
    (admitted key room l count).filter (key · = k) = [] := by
  rw [admitted_filter_of_limit (m := 0) (by simpa using hroom), Nat.zero_sub, List.take_zero]

end Beeflow.Quota
