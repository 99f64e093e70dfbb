import Mathlib.Data.List.Basic

/-!
# Fields between separators

Runs of separators divide a list into its fields. A split at one of the
separators cuts finer: the fields are those of the parts.
-/

namespace Beeflow.Fields

variable {α : Type*} (sep : α → Bool)

def fields (l : List α) : List (List α) := (l.splitOnP sep).filter fun f => !f.isEmpty

variable {sep} {l m f : List α} {a : α}

theorem fields_append_cons (l m : List α) (ha : sep a = true) :
    fields sep (l ++ a :: m) = fields sep l ++ fields sep m := by
  rw [fields, List.splitOnP_append_cons l m ha, List.filter_append]
  rfl

theorem fields_eq_singleton (hne : l ≠ []) (h : ∀ a ∈ l, sep a = false) : fields sep l = [l] := by
  rw [fields, List.splitOnP_eq_singleton h]
  exact List.filter_cons_of_pos (by simpa using hne)

theorem mem_splitOnP (hf : f ∈ l.splitOnP sep) : ∀ a ∈ f, sep a = false := by
  induction l generalizing f with
  | nil =>
    obtain rfl := List.mem_singleton.mp hf
    simp
  | cons b l ih =>
    rw [List.splitOnP_cons_eq_if_modifyHead] at hf
    split_ifs at hf with hb
    · rcases List.mem_cons.mp hf with rfl | hf
      · simp
      · exact ih hf
    · obtain ⟨g, rest, hl⟩ := List.exists_cons_of_ne_nil (List.splitOnP_ne_nil sep l)
      rw [hl, List.modifyHead_cons] at hf
      rcases List.mem_cons.mp hf with rfl | hf
      · refine List.forall_mem_cons.mpr ⟨Bool.eq_false_iff.mpr hb, ih ?_⟩
        simp [hl]
      · exact ih (by simp [hl, hf])

theorem mem_fields (hf : f ∈ fields sep l) : f ≠ [] ∧ ∀ a ∈ f, sep a = false := by
  obtain ⟨hf, hne⟩ := List.mem_filter.mp hf
  exact ⟨by simpa using hne, mem_splitOnP hf⟩

theorem exists_mem_splitOnP (ha : sep a = false) : (∃ f ∈ l.splitOnP sep, a ∈ f) ↔ a ∈ l := by
  induction l with
  | nil => simp
  | cons b l ih =>
    rw [List.splitOnP_cons_eq_if_modifyHead, List.mem_cons]
    split_ifs with hb
    · have hne : a ≠ b := by
        rintro rfl
        exact absurd hb (Bool.eq_false_iff.mp ha)
      rw [List.exists_mem_cons_iff, ih, or_iff_right List.not_mem_nil, or_iff_right hne]
    · obtain ⟨g, rest, hl⟩ := List.exists_cons_of_ne_nil (List.splitOnP_ne_nil sep l)
      rw [hl, List.exists_mem_cons_iff] at ih
      rw [hl, List.modifyHead_cons, List.exists_mem_cons_iff, List.mem_cons, or_assoc, ih]

/-- What is no separator is in a field. -/
theorem exists_mem_fields (ha : sep a = false) : (∃ f ∈ fields sep l, a ∈ f) ↔ a ∈ l := by
  rw [← exists_mem_splitOnP (l := l) ha]
  refine exists_congr fun f => ?_
  rw [fields, List.mem_filter, and_assoc]
  refine and_congr_right fun _ => and_iff_right_of_imp fun hf => ?_
  simpa using List.ne_nil_of_mem hf

theorem fields_intercalate (ha : sep a = true) {parts : List (List α)} (hne : parts ≠ []) :
    fields sep ([a].intercalate parts) = parts.flatMap (fields sep) := by
  induction parts with
  | nil => exact absurd rfl hne
  | cons p parts ih =>
    cases parts with
    | nil => simp
    | cons q parts =>
      rw [List.intercalate_cons_cons, List.append_assoc, List.singleton_append,
        fields_append_cons _ _ ha, ih (List.cons_ne_nil _ _)]
      rfl

theorem fields_splitOn [BEq α] [LawfulBEq α] (ha : sep a = true) (l : List α) :
    fields sep l = (l.splitOn a).flatMap (fields sep) := by
  rw [← fields_intercalate ha (List.splitOn_ne_nil a l), List.intercalate_splitOn]

/-- Parts without separators are fields themselves. -/
theorem flatMap_fields {parts : List (List α)}
    (h : ∀ p ∈ parts, p ≠ [] ∧ ∀ a ∈ p, sep a = false) :
    parts.flatMap (fields sep) = parts := by
  induction parts with
  | nil => rfl
  | cons p parts ih =>
    obtain ⟨⟨hne, hp⟩, h⟩ := List.forall_mem_cons.mp h
    rw [List.flatMap_cons, fields_eq_singleton hne hp, ih h, List.singleton_append]

end Beeflow.Fields
