import Mathlib.Data.List.Infix

/-!
# Decoded JSON

What `json.loads` returns, and the operations Python programs apply to it
before they know its shape: `in`, subscripts, `.items()`, `str` and `int`.
-/

namespace Beeflow.Python

/-- A float is kept as its `repr` and what `int` makes of it, if it is finite.
A decoded object has each key once. -/
inductive Json
  | null
  | bool (b : Bool)
  | int (n : Int)
  | float (repr : String) (trunc : Option Int)
  | str (s : String)
  | arr (elements : List Json)
  | obj (members : List (String × Json))

abbrev Dict := List (String × Json)

inductive PyError
  | keyError (key : String)
  | typeError
  | attributeError (name : String)
  | jsonDecodeError
  /-- the value that stands in the message between the two texts -/
  | valueError (before : String) (value : Json) (after : String)
  | validationError (model : String) (errors : List (String × String))

def Dict.set (d : Dict) (key : String) (v : Json) : Dict :=
  if key ∈ d.map Prod.fst then d.map fun p => if p.1 = key then (key, v) else p
  else d ++ [(key, v)]

/-- `dict(pairs)`: of a key that comes twice, the place of the first and the value of the last. -/
def Dict.ofPairs (pairs : List (String × Json)) : Dict :=
  pairs.foldl (fun d p => d.set p.1 p.2) []

def Dict.item (d : Dict) (key : String) : Except PyError Json :=
  match d.lookup key with
  | some v => .ok v
  | none => .error (.keyError key)

theorem Dict.item_ok {d : Dict} : d.item key = .ok v ↔ d.lookup key = some v := by
  unfold Dict.item
  cases d.lookup key with
  | none => simp
  | some w => simp

/-- `k₁=d[k₁], k₂=d[k₂], ...` -/
def Dict.pick (d : Dict) : List String → Except PyError Dict
  | [] => .ok []
  | key :: keys =>
    match d.item key with
    | .error e => .error e
    | .ok v =>
      match d.pick keys with
      | .error e => .error e
      | .ok kwargs => .ok ((key, v) :: kwargs)

theorem Dict.pick_ok {d : Dict} {keys : List String} :
    (∃ kwargs, d.pick keys = .ok kwargs) ↔ ∀ key ∈ keys, ∃ v, d.lookup key = some v := by
  induction keys with
  | nil => simp [Dict.pick]
  | cons key keys ih =>
    rw [List.forall_mem_cons, ← ih]
    cases hl : d.lookup key with
    | none => simp [Dict.pick, Dict.item, hl]
    | some v =>
      cases hp : d.pick keys with
      | error e => simp [Dict.pick, Dict.item, hl, hp]
      | ok kwargs => simp [Dict.pick, Dict.item, hl, hp]

theorem Dict.pick_lookup {d kwargs : Dict} {keys : List String} (h : d.pick keys = .ok kwargs)
    {key : String} (hk : key ∈ keys) : kwargs.lookup key = d.lookup key := by
  induction keys generalizing kwargs with
  | nil => exact nomatch hk
  | cons k keys ih =>
    unfold Dict.pick at h
    cases hi : d.item k with
    | error e => simp [hi] at h
    | ok v =>
      cases hp : d.pick keys with
      | error e => simp [hi, hp] at h
      | ok rest =>
        simp only [hi, hp, Except.ok.injEq] at h
        subst h
        rw [List.lookup_cons]
        cases he : key == k with
        | true =>
          rw [eq_of_beq he, Dict.item_ok.mp hi]
        | false =>
          have hne := ne_of_beq_false he
          exact ih hp ((List.mem_cons.mp hk).resolve_left hne)

def Json.contains (key : String) : Json → Except PyError Bool
  | .obj members => .ok (members.lookup key).isSome
  | .arr elements => .ok (elements.any fun | .str s => s == key | _ => false)
  | .str s => .ok (decide (key.toList <:+: s.toList))
  | .null | .bool _ | .int _ | .float .. => .error .typeError

def Json.item (key : String) : Json → Except PyError Json
  | .obj members => Dict.item members key
  | _ => .error .typeError

/-- `j.items()` -/
def Json.items : Json → Except PyError Dict
  | .obj members => .ok members
  | _ => .error (.attributeError "items")

/-- `s.lower()`, exact for the comparisons with ASCII words it is used in. -/
def lower (s : String) : String := String.ofList (s.toList.map Char.toLower)

-- ---------------------------------------------------------------------------
-- Decimal integers
-- ---------------------------------------------------------------------------

def digits : List Char → Option Nat → Option Nat
  | [], acc => acc
  | '_' :: c :: cs, some n => if c.isDigit then digits cs (some (10 * n + (c.toNat - 48))) else none
  | c :: cs, acc => if c.isDigit then digits cs (some (10 * acc.getD 0 + (c.toNat - 48))) else none

def isSpace (c : Char) : Bool := c = ' ' || ('\t' ≤ c && c ≤ '\r')

def strip (cs : List Char) : List Char :=
  ((cs.dropWhile isSpace).reverse.dropWhile isSpace).reverse

/-- `int(s)` for a string of ASCII characters. -/
def intOf (s : String) : Option Int :=
  match strip s.toList with
  | '-' :: cs => (digits cs none).map fun n => -n
  | '+' :: cs => (digits cs none).map fun n => n
  | cs => (digits cs none).map fun n => n

example : ["  -1_0 ", "1__0", "+", "07"].map intOf = [some (-10), none, none, some 7] := by decide

end Beeflow.Python
