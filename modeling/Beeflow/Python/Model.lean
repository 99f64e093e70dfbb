import Beeflow.Python.Json

/-!
# Pydantic models

The constructor of a pydantic (v1) model validates every declared field in
order and collects the errors. A field without a default takes what its type
coerces the argument to.
-/

namespace Beeflow.Python

inductive FieldType
  | str | int | bool | strs | dict
  deriving DecidableEq, Repr

inductive FieldValue
  | str (s : String)
  | int (n : Int)
  | bool (b : Bool)
  | strs (l : List String)
  | dict (d : Dict)

def strValidator : Json → Except String String
  | .str s => .ok s
  | .bool b => .ok (if b then "True" else "False")
  | .int n => .ok (toString n)
  | .float repr _ => .ok repr
  | .null => .error "none is not an allowed value"
  | .arr _ | .obj _ => .error "str type expected"

def intValidator : Json → Except String Int
  | .int n => .ok n
  | .bool b => .ok (if b then 1 else 0)
  | .float _ (some n) => .ok n
  | .str s => match intOf s with
    | some n => .ok n
    | none => .error "value is not a valid integer"
  | .null => .error "none is not an allowed value"
  | .float _ none | .arr _ | .obj _ => .error "value is not a valid integer"

def boolTrue : List String := ["1", "on", "t", "true", "y", "yes"]

def boolFalse : List String := ["0", "off", "f", "false", "n", "no"]

def boolValidator : Json → Except String Bool
  | .bool b => .ok b
  | .int 1 => .ok true
  | .int 0 => .ok false
  | .float "1.0" _ => .ok true
  | .float "0.0" _ | .float "-0.0" _ => .ok false
  | .str s =>
    if lower s ∈ boolTrue then .ok true
    else if lower s ∈ boolFalse then .ok false
    else .error "value could not be parsed to a boolean"
  | .null => .error "none is not an allowed value"
  | .int _ | .float .. | .arr _ | .obj _ => .error "value could not be parsed to a boolean"

def strsValidator : Json → Except String (List String)
  | .arr elements => elements.mapM strValidator
  | .null => .error "none is not an allowed value"
  | _ => .error "value is not a valid list"

/-- The key and the value that `dict` takes an element of a list for. -/
def pairOf : Json → Option (Json × Json)
  | .arr [.arr _, _] | .arr [.obj _, _] => none -- unhashable
  | .arr [key, value] => some (key, value)
  | .obj [key, value] => some (.str key.1, .str value.1)
  | .str s => match s.toList with
    | [key, value] => some (.str key.toString, .str value.toString)
    | _ => none
  | _ => none

/-- The keys are validated as strings. -/
def dictOf (pairs : List (Json × Json)) : Except String Dict :=
  (pairs.mapM fun pair => (strValidator pair.1).map (·, pair.2)).map Dict.ofPairs

def dictValidator : Json → Except String Dict
  | .obj members => .ok members
  | .str "" => .ok []
  | .arr elements => match elements.mapM pairOf with
    | some pairs => dictOf pairs
    | none => .error "value is not a valid dict"
  | .null => .error "none is not an allowed value"
  | _ => .error "value is not a valid dict"

def FieldType.validate : FieldType → Json → Except String FieldValue
  | .str, v => (strValidator v).map .str
  | .int, v => (intValidator v).map .int
  | .bool, v => (boolValidator v).map .bool
  | .strs, v => (strsValidator v).map .strs
  | .dict, v => (dictValidator v).map .dict

structure Field where
  name : String
  type : FieldType
  deriving DecidableEq, Repr

def Field.validate (f : Field) (kwargs : Dict) : Except String FieldValue :=
  match kwargs.lookup f.name with
  | some v => f.type.validate v
  | none => .error "field required"

/-- The values of the fields that validate, and the errors of the others. -/
def validateFields (kwargs : Dict) :
    List Field → List (String × FieldValue) × List (String × String)
  | [] => ([], [])
  | f :: fs =>
    let (values, errors) := validateFields kwargs fs
    match f.validate kwargs with
    | .ok v => ((f.name, v) :: values, errors)
    | .error message => (values, (f.name, message) :: errors)

theorem validateFields_errors (kwargs : Dict) (fs : List Field) :
    (validateFields kwargs fs).2 = [] ↔ ∀ f ∈ fs, ∃ v, f.validate kwargs = .ok v := by
  induction fs with
  | nil => simp [validateFields]
  | cons f fs ih =>
    rw [List.forall_mem_cons, ← ih]
    cases h : f.validate kwargs with
    | ok v => simp [validateFields, h]
    | error message => simp [validateFields, h]

/-- Every collected error names a field of the model that does not validate. -/
theorem mem_validateFields_errors {kwargs : Dict} {fs : List Field} {e : String × String}
    (h : e ∈ (validateFields kwargs fs).2) :
    ∃ f ∈ fs, f.name = e.1 ∧ f.validate kwargs = .error e.2 := by
  induction fs with
  | nil => simp [validateFields] at h
  | cons f fs ih =>
    cases hv : f.validate kwargs with
    | ok v =>
      simp only [validateFields, hv] at h
      obtain ⟨g, hg, he⟩ := ih h
      exact ⟨g, List.mem_cons_of_mem _ hg, he⟩
    | error message =>
      simp only [validateFields, hv, List.mem_cons] at h
      rcases h with rfl | h
      · exact ⟨f, List.mem_cons_self, rfl, hv⟩
      · obtain ⟨g, hg, he⟩ := ih h
        exact ⟨g, List.mem_cons_of_mem _ hg, he⟩

theorem validateFields_lookup {kwargs : Dict} {fs : List Field} (hn : (fs.map (·.name)).Nodup)
    {f : Field} (hf : f ∈ fs) {v : FieldValue} (hv : f.validate kwargs = .ok v) :
    (validateFields kwargs fs).1.lookup f.name = some v := by
  induction fs with
  | nil => exact nomatch hf
  | cons g gs ih =>
    rw [List.map_cons, List.nodup_cons] at hn
    rcases List.mem_cons.mp hf with rfl | hf
    · simp [validateFields, hv]
    · have hne : (f.name == g.name) = false :=
        beq_false_of_ne fun h => hn.1 (h ▸ List.mem_map_of_mem hf)
      have hvs := ih hn.2 hf
      cases hg : g.validate kwargs with
      | ok w => simp [validateFields, hg, List.lookup_cons, hne, hvs]
      | error message => simp [validateFields, hg, hvs]

end Beeflow.Python
