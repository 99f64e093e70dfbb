import Mathlib.Data.List.Basic

/-!
# Cron fields

A field is a list of items `*`, `n` or `n-m`, each with a step `/s` or
without, over the values of a range. What a field selects depends on the range
only through `*` and through `n/s`, which runs to the end of the range.
-/

namespace Beeflow.Cron

/-- The values from `first` to `last` in steps of `step`. -/
structure Item where
  first : Nat
  last : Nat
  step : Nat
  deriving DecidableEq, Repr

abbrev Field := List Item

def Item.Matches (i : Item) (n : Nat) : Prop :=
  i.first ≤ n ∧ n ≤ i.last ∧ (n - i.first) % i.step = 0

def Field.Matches (f : Field) (n : Nat) : Prop := ∃ i ∈ f, i.Matches n

instance (i : Item) (n : Nat) : Decidable (i.Matches n) :=
  inferInstanceAs (Decidable (_ ∧ _ ∧ _))

instance (f : Field) (n : Nat) : Decidable (f.Matches n) :=
  inferInstanceAs (Decidable (∃ i ∈ f, i.Matches n))

-- ---------------------------------------------------------------------------
-- Parsing
-- ---------------------------------------------------------------------------

def number (cs : List Char) : Option Nat :=
  if cs ≠ [] ∧ cs.all Char.isDigit then
    some (cs.foldl (fun n c => 10 * n + (c.toNat - '0'.toNat)) 0)
  else none

section Parse

variable (lo hi : Nat)

def numberIn (cs : List Char) : Option Nat := (number cs).filter fun n => lo ≤ n && n ≤ hi

/-- The first and the last value of an item. -/
def parseRange (stepped : Bool) (cs : List Char) : Option (Nat × Nat) :=
  if cs = ['*'] then some (lo, hi)
  else match cs.splitOn '-' with
    | [n] => (numberIn lo hi n).map fun n => (n, if stepped then hi else n)
    | [n, m] => (numberIn lo hi n).bind fun n =>
        ((numberIn lo hi m).filter (n ≤ ·)).map fun m => (n, m)
    | _ => none

def parseItem (cs : List Char) : Option Item :=
  match cs.splitOn '/' with
  | [range] => (parseRange lo hi false range).map fun (first, last) => ⟨first, last, 1⟩
  | [range, step] => (parseRange lo hi true range).bind fun (first, last) =>
      ((number step).filter (0 < ·)).map fun step => ⟨first, last, step⟩
  | _ => none

def parse (cs : List Char) : Option Field := (cs.splitOn ',').mapM (parseItem lo hi)

end Parse

example : parse 0 59 "5,10-20/5,50/4".toList = some [⟨5, 5, 1⟩, ⟨10, 20, 5⟩, ⟨50, 59, 4⟩] := by
  decide

-- ---------------------------------------------------------------------------
-- The characters of a field
-- ---------------------------------------------------------------------------

theorem mem_intercalate {α : Type*} {a x : α} {ls : List (List α)}
    (h : a ∈ [x].intercalate ls) : a = x ∨ ∃ l ∈ ls, a ∈ l := by
  induction ls with
  | nil => simp at h
  | cons l ls ih =>
    cases ls with
    | nil =>
      rw [List.intercalate_singleton] at h
      exact .inr ⟨l, List.mem_cons_self, h⟩
    | cons m ls =>
      rw [List.intercalate_cons_cons, List.mem_append, List.mem_append] at h
      rcases h with (h | h) | h
      · exact .inr ⟨l, List.mem_cons_self, h⟩
      · exact .inl (List.mem_singleton.mp h)
      · exact (ih h).imp_right fun ⟨k, hk, hmem⟩ => ⟨k, List.mem_cons_of_mem _ hk, hmem⟩

theorem mem_of_splitOn {α : Type*} [DecidableEq α] {x : α} {l : List α} {P : α → Prop} (hx : P x)
    (h : ∀ part ∈ l.splitOn x, ∀ a ∈ part, P a) : ∀ a ∈ l, P a := by
  intro a ha
  have hl : [x].intercalate (l.splitOn x) = l := List.intercalate_splitOn x
  rcases mem_intercalate (hl ▸ ha) with rfl | ⟨part, hpart, hmem⟩
  · exact hx
  · exact h part hpart a hmem

def FieldChar (c : Char) : Prop := c.isDigit ∨ c ∈ ['*', '-', '/', ',']

variable {lo hi : Nat} {cs : List Char}

theorem number_chars {n : Nat} (h : number cs = some n) : ∀ c ∈ cs, FieldChar c := by
  unfold number at h
  split_ifs at h with hdigits
  exact fun c hc => .inl (List.all_eq_true.mp hdigits.2 c hc)

theorem numberIn_chars {n : Nat} (h : numberIn lo hi cs = some n) : ∀ c ∈ cs, FieldChar c :=
  number_chars (Option.filter_eq_some_iff.mp h).1

theorem parseRange_chars {stepped : Bool} {r : Nat × Nat}
    (h : parseRange lo hi stepped cs = some r) : ∀ c ∈ cs, FieldChar c := by
  unfold parseRange at h
  by_cases hstar : cs = ['*']
  · simp [hstar, FieldChar]
  rw [if_neg hstar] at h
  refine mem_of_splitOn (x := '-') (by simp [FieldChar]) ?_
  split at h
  · rename_i n hn
    obtain ⟨k, hk, -⟩ := Option.map_eq_some_iff.mp h
    rw [hn]
    simpa using numberIn_chars hk
  · rename_i n m hnm
    obtain ⟨k, hk, h⟩ := Option.bind_eq_some_iff.mp h
    obtain ⟨j, hj, -⟩ := Option.map_eq_some_iff.mp h
    rw [hnm]
    simpa using ⟨numberIn_chars hk, numberIn_chars (Option.filter_eq_some_iff.mp hj).1⟩
  · exact nomatch h

theorem parseItem_chars {i : Item} (h : parseItem lo hi cs = some i) : ∀ c ∈ cs, FieldChar c := by
  unfold parseItem at h
  refine mem_of_splitOn (x := '/') (by simp [FieldChar]) ?_
  split at h
  · rename_i range hrange
    obtain ⟨r, hr, -⟩ := Option.map_eq_some_iff.mp h
    rw [hrange]
    simpa using parseRange_chars hr
  · rename_i range step hstep
    obtain ⟨r, hr, h⟩ := Option.bind_eq_some_iff.mp h
    obtain ⟨k, hk, -⟩ := Option.map_eq_some_iff.mp h
    rw [hstep]
    simpa using ⟨parseRange_chars hr, number_chars (Option.filter_eq_some_iff.mp hk).1⟩
  · exact nomatch h

theorem mapM_some {α β : Type*} {f : α → Option β} {l : List α} {m : List β}
    (h : l.mapM f = some m) : ∀ a ∈ l, ∃ b, f a = some b := by
  induction l generalizing m with
  | nil => simp
  | cons a l ih =>
    rw [List.mapM_cons] at h
    obtain ⟨b, hb, h⟩ := Option.bind_eq_some_iff.mp h
    obtain ⟨bs, hbs, -⟩ := Option.bind_eq_some_iff.mp h
    exact List.forall_mem_cons.mpr ⟨⟨b, hb⟩, ih hbs⟩

/-- A field that parses holds digits, `*`, `-`, `/` and `,` only. -/
theorem parse_chars {f : Field} (h : parse lo hi cs = some f) : ∀ c ∈ cs, FieldChar c := by
  refine mem_of_splitOn (x := ',') (by simp [FieldChar]) fun part hpart => ?_
  obtain ⟨i, hi⟩ := mapM_some h part hpart
  exact parseItem_chars hi

end Beeflow.Cron
