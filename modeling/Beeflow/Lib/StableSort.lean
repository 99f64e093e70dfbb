import Mathlib.Data.List.Sort

/-!
# Sorting what is left

Insertion sort is stable, so leaving elements out before or after sorting is
the same.
-/

namespace Beeflow.StableSort

variable {α : Type*} {r : α → α → Prop} [DecidableRel r] {a : α} {l : List α}

theorem orderedInsert_of_forall (h : ∀ b ∈ l, r a b) : l.orderedInsert r a = a :: l := by
  cases l with
  | nil => rfl
  | cons b l => exact List.orderedInsert_cons_of_le r l (h b List.mem_cons_self)

theorem filter_orderedInsert [IsTrans α r] (p : α → Bool) (h : l.Pairwise r) :
    (l.orderedInsert r a).filter p =
      if p a then (l.filter p).orderedInsert r a else l.filter p := by
  induction l with
  | nil => cases hp : p a <;> simp [hp]
  | cons b l ih =>
    obtain ⟨hb, hl⟩ := List.pairwise_cons.mp h
    by_cases hab : r a b
    · rw [List.orderedInsert_cons_of_le r l hab]
      cases hp : p a with
      | false => simp [hp]
      | true =>
        have hall : ∀ c ∈ (b :: l).filter p, r a c := by
          intro c hc
          rcases List.mem_cons.mp (List.mem_filter.mp hc).1 with rfl | hc
          · exact hab
          · exact IsTrans.trans a b c hab (hb c hc)
        rw [List.filter_cons_of_pos hp, if_pos rfl, orderedInsert_of_forall hall]
    · rw [List.orderedInsert_of_not_le r l hab]
      cases hp : p b with
      | false =>
        rw [List.filter_cons_of_neg (by simp [hp]), List.filter_cons_of_neg (by simp [hp])]
        exact ih hl
      | true =>
        rw [List.filter_cons_of_pos hp, List.filter_cons_of_pos hp, ih hl]
        split_ifs
        · exact (List.orderedInsert_of_not_le r _ hab).symm
        · rfl

theorem filter_insertionSort [IsTrans α r] [Std.Total r] (p : α → Bool) (l : List α) :
    (l.insertionSort r).filter p = (l.filter p).insertionSort r := by
  induction l with
  | nil => rfl
  | cons a l ih =>
    rw [List.insertionSort_cons, filter_orderedInsert p (List.pairwise_insertionSort r l), ih]
    cases hp : p a with
    | true => rw [List.filter_cons_of_pos hp, List.insertionSort_cons, if_pos rfl]
    | false =>
      rw [List.filter_cons_of_neg (by simp [hp])]
      exact if_neg (by simp)

end Beeflow.StableSort
