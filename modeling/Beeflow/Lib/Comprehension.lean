import Mathlib.Data.List.Basic
import Mathlib.Data.List.Nodup
import Mathlib.Data.List.Perm.Subperm

/-!
# Maps, filters and zips that stay aligned

Where an element of a list ends up after a `filterMap`, and which elements a
zip with a list of results picks.
-/

namespace Beeflow.Comprehension

variable {α β γ : Type*} {f : α → Option β} {l : List α}

/-- An element that is kept stands behind what is kept of the elements before it. -/
theorem filterMap_getElem? {k : Nat} {a : α} {b : β} (ha : l[k]? = some a) (hb : f a = some b) :
    (l.filterMap f)[((l.take k).filterMap f).length]? = some b := by
  obtain ⟨hk, rfl⟩ := List.getElem?_eq_some_iff.mp ha
  have hl : l = l.take k ++ l[k] :: l.drop (k + 1) := by
    rw [← List.drop_eq_getElem_cons, List.take_append_drop]
  conv_lhs => rw [hl, List.filterMap_append, List.filterMap_cons_some hb]
  rw [List.take_append_of_le_length, List.take_take, Nat.min_self]
  · simp
  · simp
    omega

theorem lookup_map [BEq α] [LawfulBEq α] (f : α → β → γ) (l : List (α × β)) (a : α) :
    (l.map fun p => (p.1, f p.1 p.2)).lookup a = (l.lookup a).map (f a) := by
  induction l with
  | nil => rfl
  | cons p l ih =>
    rw [List.map_cons, List.lookup_cons, List.lookup_cons]
    cases h : a == p.1 with
    | true => simp [eq_of_beq h]
    | false => exact ih

theorem lookup_append [BEq α] (l m : List (α × β)) (a : α) :
    (l ++ m).lookup a = (l.lookup a).or (m.lookup a) := by
  induction l with
  | nil => rfl
  | cons p l ih =>
    rw [List.cons_append, List.lookup_cons, List.lookup_cons]
    cases a == p.1 with
    | true => rfl
    | false => exact ih

theorem lookup_eq_none [BEq α] [LawfulBEq α] {l : List (α × β)} {a : α} (h : ∀ p ∈ l, p.1 ≠ a) :
    l.lookup a = none := by
  induction l with
  | nil => rfl
  | cons p l ih =>
    obtain ⟨hp, h⟩ := List.forall_mem_cons.mp h
    rw [List.lookup_cons, beq_false_of_ne hp.symm]
    exact ih h

theorem lookup_of_mem [BEq α] [LawfulBEq α] {l : List (α × β)} (hn : (l.map Prod.fst).Nodup)
    {a : α} {b : β} (h : (a, b) ∈ l) : l.lookup a = some b := by
  induction l with
  | nil => exact nomatch h
  | cons p l ih =>
    obtain ⟨hp, hn⟩ := List.nodup_cons.mp hn
    rcases List.mem_cons.mp h with rfl | h
    · exact List.lookup_cons_self
    · have hne : a ≠ p.1 := fun he => hp (he ▸ List.mem_map_of_mem h)
      rw [List.lookup_cons, beq_false_of_ne hne]
      exact ih hn h

def present (l : List (α × Option β)) : List (α × β) := l.filterMap fun p => p.2.map (p.1, ·)

theorem lookup_present [BEq α] [LawfulBEq α] {l : List (α × Option β)}
    (hn : (l.map Prod.fst).Nodup) (a : α) : (present l).lookup a = (l.lookup a).join := by
  induction l with
  | nil => rfl
  | cons p l ih =>
    obtain ⟨k, v⟩ := p
    obtain ⟨hk, hn⟩ := List.nodup_cons.mp hn
    rw [List.lookup_cons]
    cases h : a == k with
    | true =>
      obtain rfl := eq_of_beq h
      cases v with
      | some v => simp [present]
      | none =>
        refine lookup_eq_none fun q hq he => hk ?_
        obtain ⟨r, hr, hv⟩ := List.mem_filterMap.mp hq
        rcases List.mem_cons.mp hr with rfl | hr
        · exact nomatch hv
        · obtain ⟨w, -, rfl⟩ := Option.map_eq_some_iff.mp hv
          exact List.mem_map.mpr ⟨r, hr, he⟩
    | false =>
      have ih := ih hn
      cases v with
      | some v => simpa [present, List.lookup_cons, h] using ih
      | none => simpa [present] using ih

def failing (p : γ → Bool) (results : List γ) (l : List α) : List α :=
  (results.zip l).filterMap fun (result, a) => if p result then some a else none

theorem mem_failing {p : γ → Bool} {results : List γ} {a : α} :
    a ∈ failing p results l ↔
      ∃ (i : Nat) (result : γ), results[i]? = some result ∧ l[i]? = some a ∧ p result := by
  rw [failing, List.mem_filterMap]
  constructor
  · rintro ⟨⟨result, b⟩, hz, h⟩
    obtain ⟨i, hi⟩ := List.mem_iff_getElem?.mp hz
    obtain ⟨hr, hb⟩ := List.getElem?_zip_eq_some.mp hi
    dsimp only at h
    split_ifs at h with hp
    cases h
    exact ⟨i, result, hr, hb, hp⟩
  · rintro ⟨i, result, hr, ha, hp⟩
    have hz : (results.zip l)[i]? = some (result, a) := List.getElem?_zip_eq_some.mpr ⟨hr, ha⟩
    exact ⟨(result, a), List.mem_of_getElem? hz, if_pos hp⟩

theorem getElem?_inj {key : α → β} (hn : (l.map key).Nodup) {i j : Nat} {a b : α}
    (ha : l[i]? = some a) (hb : l[j]? = some b) (h : key a = key b) : i = j := by
  have ha' : (l.map key)[i]? = some (key a) := by rw [List.getElem?_map, ha]; rfl
  have hb' : (l.map key)[j]? = some (key a) := by rw [List.getElem?_map, hb, h]; rfl
  have hi := (List.getElem?_eq_some_iff.mp ha').1
  exact (List.getElem?_inj hi hn).mp (ha'.trans hb'.symm)

/-- Of a list without repetition, a filter for the members of a sublist leaves the sublist. -/
theorem filter_mem_append [DecidableEq α] {m rest : List α} (hn : l.Nodup) (hsub : m.Sublist l)
    (hrest : ∀ a ∈ l, a ∉ rest) : l.filter (· ∈ m ++ rest) = m := by
  have hm : m.filter (· ∈ m ++ rest) = m :=
    List.filter_eq_self.mpr fun a ha => by simp [ha]
  have hsub' : m.Sublist (l.filter (· ∈ m ++ rest)) := by
    conv_lhs => rw [← hm]
    exact hsub.filter _
  have hperm : (l.filter (· ∈ m ++ rest)).Subperm m := by
    refine (hn.filter _).subperm fun a ha => ?_
    obtain ⟨ha, hmem⟩ := List.mem_filter.mp ha
    exact (List.mem_append.mp (of_decide_eq_true hmem)).resolve_right (hrest a ha)
  exact (hsub'.eq_of_length_le hperm.length_le).symm

/-- A prefix that reaches behind an element holds everything up to it. -/
theorem take_of_mem_behind {m : List α} {c r : α} {k : Nat} (hn : (l ++ c :: m).Nodup)
    (hr : r ∈ (l ++ c :: m).take k) (hm : r ∈ m) :
    ∃ j, (l ++ c :: m).take k = l ++ c :: m.take j := by
  rcases Nat.lt_or_ge l.length k with hlt | hge
  · obtain ⟨j, rfl⟩ := Nat.exists_eq_add_of_lt hlt
    exact ⟨j, by rw [Nat.add_assoc, List.take_length_add_append]; rfl⟩
  · rw [List.take_append_of_le_length hge] at hr
    have hdisjoint := (List.nodup_append.mp hn).2.2
    exact absurd rfl (hdisjoint r (List.mem_of_mem_take hr) r (List.mem_cons_of_mem _ hm))

end Beeflow.Comprehension
