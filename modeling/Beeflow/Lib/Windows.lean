import Mathlib.Data.List.Nodup
import Mathlib.Order.Lattice

/-!
# Windows between cuts

Cuts divide what lies up to the last of them into windows. Each reaches from
the cut before it, which it leaves out, to its own. A point up to the last cut
is in exactly one window, and a cut behind all others leaves their windows as
they are.
-/

namespace Beeflow.Windows

variable {α : Type*} [LinearOrder α]

/-- In the window that ends with `cut`. -/
def Within (cuts : List α) (cut a : α) : Prop := a ≤ cut ∧ ∀ c ∈ cuts, c < cut → c < a

instance (cuts : List α) (cut a : α) : Decidable (Within cuts cut a) :=
  inferInstanceAs (Decidable (_ ∧ _))

variable {cuts : List α} {a b c new : α}

theorem Within.unique (hb : b ∈ cuts) (hc : c ∈ cuts) (hab : Within cuts b a)
    (hac : Within cuts c a) : b = c := by
  rcases lt_trichotomy b c with hlt | rfl | hlt
  · exact absurd (hac.2 b hb hlt) (not_lt.mpr hab.1)
  · rfl
  · exact absurd (hab.2 c hc hlt) (not_lt.mpr hac.1)

/-- The first cut that is not before the point ends its window. -/
theorem exists_within (hcuts : cuts.Pairwise (· < ·)) (h : ∃ c ∈ cuts, a ≤ c) :
    ∃ c ∈ cuts, Within cuts c a := by
  induction cuts with
  | nil =>
    obtain ⟨c, hc, -⟩ := h
    exact nomatch hc
  | cons b cuts ih =>
    obtain ⟨hb, hcuts⟩ := List.pairwise_cons.mp hcuts
    by_cases hab : a ≤ b
    · refine ⟨b, List.mem_cons_self, hab, fun c hc hlt => ?_⟩
      rcases List.mem_cons.mp hc with rfl | hc
      · exact absurd hlt (lt_irrefl c)
      · exact absurd hlt (not_lt.mpr (le_of_lt (hb c hc)))
    · obtain ⟨c, hc, hac⟩ := h
      have hc : c ∈ cuts := (List.mem_cons.mp hc).resolve_left fun he => hab (he ▸ hac)
      obtain ⟨c, hc, hle, hbefore⟩ := ih hcuts ⟨c, hc, hac⟩
      refine ⟨c, List.mem_cons_of_mem _ hc, hle, fun c' hc' hlt => ?_⟩
      rcases List.mem_cons.mp hc' with rfl | hc'
      · exact not_le.mp hab
      · exact hbefore c' hc' hlt

theorem within_append (hnew : ∀ c ∈ cuts, c < new) (hc : c ∈ cuts) :
    Within (cuts ++ [new]) c a ↔ Within cuts c a := by
  refine and_congr_right fun _ => ⟨fun h b hb => h b (List.mem_append_left _ hb), ?_⟩
  intro h b hb hlt
  rcases List.mem_append.mp hb with hb | hb
  · exact h b hb hlt
  · obtain rfl := List.mem_singleton.mp hb
    exact absurd hlt (not_lt.mpr (le_of_lt (hnew c hc)))

theorem within_new (hnew : ∀ c ∈ cuts, c < new) :
    Within (cuts ++ [new]) new a ↔ a ≤ new ∧ ∀ c ∈ cuts, c < a := by
  refine and_congr_right fun _ => ⟨fun h c hc => ?_, fun h c hc hlt => ?_⟩
  · exact h c (List.mem_append_left _ hc) (hnew c hc)
  · refine h c ((List.mem_append.mp hc).resolve_right fun hc => ?_)
    exact (lt_irrefl _ (List.mem_singleton.mp hc ▸ hlt))

theorem countP_within (hcuts : cuts.Pairwise (· < ·)) (a : α) :
    cuts.countP (Within cuts · a) = if ∃ c ∈ cuts, a ≤ c then 1 else 0 := by
  split_ifs with h
  · obtain ⟨c, hc, hwithin⟩ := exists_within hcuts h
    have hnodup : cuts.Nodup := hcuts.imp ne_of_lt
    calc _ = cuts.countP (· == c) := List.countP_congr fun b hb => by
            simp only [decide_eq_true_eq, beq_iff_eq]
            exact ⟨fun hb' => hb'.unique hb hc hwithin, fun he => he ▸ hwithin⟩
      _ = 1 := List.count_eq_one_of_mem hnodup hc
  · refine List.countP_eq_zero.mpr fun c hc hwithin => h ⟨c, hc, ?_⟩
    exact (of_decide_eq_true hwithin).1

end Beeflow.Windows
