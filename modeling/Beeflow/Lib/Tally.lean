import Mathlib.Data.List.Dedup
import Mathlib.Data.List.Perm.Basic
import Mathlib.Algebra.BigOperators.Group.List.Lemmas
import Mathlib.Algebra.Order.BigOperators.Group.List
import Mathlib.Algebra.Order.Ring.Int

/-!
# Tallies

A tally is a total map of counts, the meaning of a `defaultdict(int)`. The
lemmas say how a tally that counts a list follows the list when an element is
appended, and how grouped counts add up to plain ones.
-/

namespace Beeflow.Tally

variable {α κ δ : Type*} [DecidableEq κ]

def count (key : α → κ) (l : List α) (k : κ) : Nat := l.countP fun a => key a = k

def weight (key : α → κ) (w : α → Int) (l : List α) (k : κ) : Int :=
  ((l.filter fun a => key a = k).map w).sum

/-- `m[k] += n` -/
def bump (m : κ → Nat) (k : κ) (n : Nat) : κ → Nat := fun j => if j = k then m j + n else m j

variable {key : α → κ} {w : α → Int} {l m : List α} {a : α} {k : κ}

@[simp] theorem count_nil : count key [] k = 0 := rfl

@[simp] theorem weight_nil : weight key w [] k = 0 := rfl

theorem count_append_singleton :
    count key (l ++ [a]) k = count key l k + if key a = k then 1 else 0 := by
  simp [count, List.countP_append, List.countP_cons]

theorem weight_append_singleton :
    weight key w (l ++ [a]) k = weight key w l k + if key a = k then w a else 0 := by
  by_cases h : key a = k <;> simp [weight, List.filter_append, h]

theorem bump_count {m' base : κ → Nat} (hm : ∀ k, m' k = base k + count key l k) :
    bump m' (key a) 1 k = base k + count key (l ++ [a]) k := by
  rw [count_append_singleton]
  by_cases h : k = key a
  · subst h; simp [bump, hm, Nat.add_assoc]
  · simp [bump, hm, h, Ne.symm h]

theorem count_eq_zero (h : ∀ a ∈ l, key a ≠ k) : count key l k = 0 := by
  simpa [count, List.countP_eq_zero] using h

theorem weight_eq_zero (h : ∀ a ∈ l, key a ≠ k) : weight key w l k = 0 := by
  have hf : l.filter (fun a => decide (key a = k)) = [] :=
    List.filter_eq_nil_iff.mpr fun a ha => by simpa using h a ha
  simp [weight, hf]

theorem count_append : count key (l ++ m) k = count key l k + count key m k := by
  simp [count, List.countP_append]

theorem weight_append : weight key w (l ++ m) k = weight key w l k + weight key w m k := by
  simp [weight, List.filter_append]

theorem count_comp {f : β → α} {l : List β} : count key (l.map f) k = count (key ∘ f) l k := by
  simp [count, List.countP_map, Function.comp_def]

theorem weight_comp {f : β → α} {l : List β} :
    weight key w (l.map f) k = weight (key ∘ f) (w ∘ f) l k := by
  simp [weight, List.filter_map, Function.comp_def]

theorem count_perm (h : l.Perm m) : count key l k = count key m k := h.countP_eq _

theorem weight_perm (h : l.Perm m) : weight key w l k = weight key w m k :=
  ((h.filter _).map w).sum_eq

theorem weight_sublist (h : l.Sublist m) (hw : ∀ a ∈ m, 0 ≤ w a) :
    weight key w l k ≤ weight key w m k := by
  refine ((h.filter _).map w).sum_le_sum ?_
  intro n hn
  obtain ⟨a, ha, rfl⟩ := List.mem_map.mp hn
  exact hw a (List.mem_filter.mp ha).1

theorem count_sublist (h : l.Sublist m) (k : κ) : count key l k ≤ count key m k := h.countP_le

theorem filter_or_perm {α : Type*} {p q : α → Bool} {l : List α}
    (h : ∀ a ∈ l, p a = true → q a = false) :
    (l.filter fun a => p a || q a).Perm (l.filter q ++ l.filter p) := by
  induction l with
  | nil => exact .refl _
  | cons a l ih =>
    have ih := ih fun b hb => h b (List.mem_cons_of_mem _ hb)
    cases hp : p a with
    | true =>
      have hq := h a (by simp) hp
      simpa [hp, hq] using (ih.cons a).trans List.perm_middle.symm
    | false =>
      cases hq : q a with
      | true => simpa [hp, hq] using ih.cons a
      | false => simpa [hp, hq] using ih

theorem countP_or_le {α : Type*} (p q : α → Bool) (l : List α) :
    (l.countP fun a => p a || q a) ≤ l.countP p + l.countP q := by
  induction l with
  | nil => exact Nat.le_refl 0
  | cons a l ih =>
    rw [List.countP_cons, List.countP_cons, List.countP_cons]
    cases p a <;> cases q a <;> simp <;> omega

/-- The counts of a `GROUP BY key`: one row for each key that occurs. -/
def groups (key : α → κ) (l : List α) : List (κ × Nat) :=
  (l.map key).dedup.map fun k => (k, count key l k)

theorem count_map : (l.map key).count k = count key l k := by
  simp [count, List.count, List.countP_map, Function.comp_def, BEq.beq]

omit [DecidableEq κ] in
theorem foldl_bump [DecidableEq δ] (f : κ → δ) (rows : List (κ × Nat)) (base : δ → Nat) (d : δ) :
    rows.foldl (fun m r => bump m (f r.1) r.2) base d =
      base d + ((rows.filter fun r => f r.1 = d).map Prod.snd).sum := by
  induction rows generalizing base with
  | nil => simp
  | cons r rows ih =>
    rw [List.foldl_cons, ih]
    by_cases h : f r.1 = d
    · simp [bump, h, Nat.add_assoc]
    · simp [bump, h, Ne.symm h]

/-- Adding up the groups by a coarser key counts by the coarser key. -/
theorem groups_sum [DecidableEq δ] (f : κ → δ) (d : δ) :
    (groups key l).foldl (fun m r => bump m (f r.1) r.2) (fun _ => 0) d =
      count (fun a => f (key a)) l d := by
  rw [foldl_bump, Nat.zero_add, groups, List.filter_map, List.map_map]
  have h := List.sum_map_count_dedup_filter_eq_countP (fun k => decide (f k = d)) (l.map key)
  simpa only [count_map, List.countP_map] using! h

/-- Writing each group under its own key counts by that key. -/
theorem groups_update (k : κ) :
    (groups key l).foldl (fun m r => Function.update m r.1 r.2) (fun _ => 0) k =
      count key l k := by
  have h (ks : List κ) (base : κ → Nat) :
      (ks.map fun k => (k, count key l k)).foldl (fun m r => Function.update m r.1 r.2) base k =
        if k ∈ ks then count key l k else base k := by
    induction ks generalizing base with
    | nil => simp
    | cons j ks ih =>
      rw [List.map_cons, List.foldl_cons, ih]
      by_cases hj : k = j
      · subst hj; simp
      · simp [hj]
  rw [groups, h]
  split_ifs with hk
  · rfl
  · refine (count_eq_zero fun a ha he => hk ?_).symm
    exact List.mem_dedup.mpr (he ▸ List.mem_map_of_mem ha)

end Beeflow.Tally
