import Mathlib

/-!
# Decimal texts, taken apart

How the decimal text of an integer can be cut in two, and numbers whose text has
a given length.
-/

namespace Beeflow.Decimals

theorem toString_neg {n : Int} (h : n < 0) : toString n = "-" ++ toString (-n) := by
  rw [Int.toString_eq_repr, Int.toString_eq_repr, Int.repr_eq_if, if_neg (by omega),
    Int.repr_eq_if, if_pos (by omega)]

theorem toString_tens {n : Int} (h : 10 ≤ n) :
    toString n = toString (n / 10) ++ toString (n % 10) := by
  lift n to ℕ using by omega
  exact Nat.repr_eq_repr_append_repr (by omega)

theorem toString_digit {n : Int} (h : 0 ≤ n) (h' : n ≤ 9) :
    (toString n).toList = [Nat.digitChar n.toNat] := by
  lift n to ℕ using h
  exact Nat.toList_repr.trans (Nat.toDigits_of_lt_base (by omega))

theorem toDigits_last (n : Nat) : ∃ s c, c.isDigit ∧ Nat.toDigits 10 n = s ++ [c] := by
  obtain ⟨s, c, h⟩ := List.eq_nil_or_concat (Nat.toDigits 10 n) |>.resolve_left Nat.toDigits_ne_nil
  have hc : c ∈ Nat.toDigits 10 n := by simp [h]
  exact ⟨s, c, Nat.isDigit_of_mem_toDigits (by decide) (by decide) hc, by simpa using h⟩

/-- A text that ends in a sign is no number. -/
theorem toString_last (n : Int) : ∃ s c, c.isDigit ∧ (toString n).toList = s ++ [c] := by
  cases n with
  | ofNat m =>
    obtain ⟨s, c, hc, h⟩ := toDigits_last m
    exact ⟨s, c, hc, Nat.toList_repr.trans h⟩
  | negSucc m =>
    obtain ⟨s, c, hc, h⟩ := toDigits_last (m + 1)
    exact ⟨'-' :: s, c, hc, by simp [Int.repr, h]⟩

theorem length_toString_pos (n : Int) : 0 < (toString n).length := by
  obtain ⟨s, c, -, h⟩ := toString_last n
  rw [← String.length_toList, h]
  simp

theorem toString_ne_empty (n : Int) : toString n ≠ "" := by
  intro h
  have hpos := length_toString_pos n
  rw [h] at hpos
  exact absurd hpos (by decide)

/-! ## Texts of ones -/

def ones (k : Nat) : String := String.ofList (List.replicate k '1')

@[simp] theorem length_ones (k : Nat) : (ones k).length = k := by simp [ones]

theorem ones_append (k l : Nat) : ones k ++ ones l = ones (k + l) := by
  rw [ones, ones, ones, ← String.ofList_append, List.replicate_append_replicate]

def repunit : Nat → Nat
  | 0 => 0
  | k + 1 => 10 * repunit k + 1

theorem toDigits_repunit (k : Nat) :
    Nat.toDigits 10 (repunit (k + 1)) = List.replicate (k + 1) '1' := by
  induction k with
  | zero => rfl
  | succ k ih =>
    have hpos : 0 < repunit (k + 1) := by simp [repunit]
    have h := Nat.toDigits_append_toDigits (b := 10) (d := 1) (by decide) hpos (by decide)
    rw [ih] at h
    rw [repunit, ← h, List.replicate_succ' (n := k + 1)]
    rfl

theorem toString_repunit {k : Nat} (h : 0 < k) : toString (repunit k : Int) = ones k := by
  obtain ⟨k, rfl⟩ := Nat.exists_eq_add_of_lt h
  rw [Nat.zero_add, ones, ← toDigits_repunit]
  rfl

end Beeflow.Decimals
