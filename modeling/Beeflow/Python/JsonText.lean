import Beeflow.Python.Json
import Mathlib.Data.List.Nodup

/-!
# JSON text

`json.dumps` writes ASCII only: every other character is escaped, the ones
beyond the basic plane as two surrogates. `json.loads` reads any JSON text.
-/

namespace Beeflow.Python

-- ---------------------------------------------------------------------------
-- Strings
-- ---------------------------------------------------------------------------

def hexDigits : List Char :=
  ['0', '1', '2', '3', '4', '5', '6', '7', '8', '9', 'a', 'b', 'c', 'd', 'e', 'f']

def hexDigit (n : Nat) : Char := hexDigits.getD n '0'

/-- `\uxxxx` -/
def escapeUnit (u : Nat) : List Char :=
  ['\\', 'u', hexDigit (u / 4096), hexDigit (u / 256 % 16), hexDigit (u / 16 % 16),
    hexDigit (u % 16)]

/-- The two surrogates of a code point beyond the basic plane. -/
def surrogates (n : Nat) : List Nat :=
  [0xd800 + (n - 0x10000) / 1024, 0xdc00 + (n - 0x10000) % 1024]

def codeUnits (c : Char) : List Nat :=
  if c.toNat < 0x10000 then [c.toNat] else surrogates c.toNat

def escape (c : Char) : List Char :=
  if c = '"' then ['\\', '"']
  else if c = '\\' then ['\\', '\\']
  else if c = '\n' then ['\\', 'n']
  else if c = '\r' then ['\\', 'r']
  else if c = '\t' then ['\\', 't']
  else if c = '\x08' then ['\\', 'b']
  else if c = '\x0c' then ['\\', 'f']
  else if 0x20 ≤ c.toNat ∧ c.toNat ≤ 0x7e then [c]
  else (codeUnits c).flatMap escapeUnit

def quoted (s : String) : List Char := '"' :: s.toList.flatMap escape ++ ['"']

def hexVal (c : Char) : Option Nat :=
  if c.isDigit then some (c.toNat - 48)
  else if 'a' ≤ c ∧ c ≤ 'f' then some (c.toNat - 87)
  else if 'A' ≤ c ∧ c ≤ 'F' then some (c.toNat - 55)
  else none

def hexUnit (a b c d : Char) : Option Nat := do
  some (4096 * (← hexVal a) + 256 * (← hexVal b) + 16 * (← hexVal c) + (← hexVal d))

def unescape (c : Char) : Option Char :=
  [('"', '"'), ('\\', '\\'), ('/', '/'), ('b', '\x08'), ('f', '\x0c'), ('n', '\n'), ('r', '\r'),
    ('t', '\t')].lookup c

/-- The code units up to the closing quote, and the text behind it. -/
def scanString : List Char → Option (List Nat × List Char)
  | [] => none
  | c :: rest =>
    if c = '"' then some ([], rest)
    else if c = '\\' then
      match rest with
      | 'u' :: a :: b :: c :: d :: rest => do
        let u ← hexUnit a b c d
        (scanString rest).map fun (us, rest) => (u :: us, rest)
      | e :: rest => do
        let c ← unescape e
        (scanString rest).map fun (us, rest) => (c.toNat :: us, rest)
      | [] => none
    else if c.toNat < 0x20 then none
    else (scanString rest).map fun (us, rest) => (c.toNat :: us, rest)

/-- A surrogate on its own has no character: strings that hold one are left out. -/
def joinSurrogates : List Nat → Option (List Char)
  | [] => some []
  | u :: us =>
    if 0xd800 ≤ u ∧ u < 0xdc00 then
      match us with
      | v :: us =>
        if 0xdc00 ≤ v ∧ v < 0xe000 then
          (joinSurrogates us).map (Char.ofNat (0x10000 + (u - 0xd800) * 1024 + (v - 0xdc00)) :: ·)
        else none
      | [] => none
    else if 0xdc00 ≤ u ∧ u < 0xe000 then none
    else (joinSurrogates us).map (Char.ofNat u :: ·)

def string (cs : List Char) : Option (String × List Char) := do
  let (us, rest) ← scanString cs
  let s ← joinSurrogates us
  some (String.ofList s, rest)

theorem hexVal_hexDigit : ∀ d < 16, hexVal (hexDigit d) = some d := by decide

theorem scanString_escapeUnit {u : Nat} (hu : u < 0x10000) (rest : List Char) :
    scanString (escapeUnit u ++ rest) =
      (scanString rest).map fun (us, rest) => (u :: us, rest) := by
  have hunit : hexUnit (hexDigit (u / 4096)) (hexDigit (u / 256 % 16)) (hexDigit (u / 16 % 16))
      (hexDigit (u % 16)) = some u := by
    simp only [hexUnit, hexVal_hexDigit (u / 4096) (by omega), hexVal_hexDigit (u / 256 % 16)
      (by omega), hexVal_hexDigit (u / 16 % 16) (by omega), hexVal_hexDigit (u % 16) (by omega)]
    exact congrArg some (by omega)
  simp [escapeUnit, scanString, hunit]

theorem toNat_valid (c : Char) : c.toNat < 0xd800 ∨ 0xdfff < c.toNat ∧ c.toNat < 0x110000 := c.valid

theorem codeUnits_lt {c : Char} {u : Nat} (h : u ∈ codeUnits c) : u < 0x10000 := by
  have hc := toNat_valid c
  unfold codeUnits at h
  split_ifs at h with hbmp
  · obtain rfl := List.mem_singleton.mp h
    exact hbmp
  · simp only [surrogates, List.mem_cons, List.not_mem_nil, or_false] at h
    omega

theorem scanString_escapeUnits {us : List Nat} (hus : ∀ u ∈ us, u < 0x10000) (rest : List Char) :
    scanString (us.flatMap escapeUnit ++ rest) =
      (scanString rest).map fun (vs, rest) => (us ++ vs, rest) := by
  induction us with
  | nil => simp
  | cons u us ih =>
    obtain ⟨hu, hus⟩ := List.forall_mem_cons.mp hus
    rw [List.flatMap_cons, List.append_assoc, scanString_escapeUnit hu, ih hus, Option.map_map]
    rfl

theorem scanString_escape (c : Char) (rest : List Char) :
    scanString (escape c ++ rest) =
      (scanString rest).map fun (us, rest) => (codeUnits c ++ us, rest) := by
  unfold escape
  by_cases hshort : c ∈ ['"', '\\', '\n', '\r', '\t', '\x08', '\x0c']
  · simp only [List.mem_cons, List.not_mem_nil, or_false] at hshort
    rcases hshort with rfl | rfl | rfl | rfl | rfl | rfl | rfl <;> rfl
  · simp only [List.mem_cons, List.not_mem_nil, or_false, not_or] at hshort
    obtain ⟨hquote, hbackslash, hn, hr, ht, hb, hf⟩ := hshort
    simp only [hquote, hbackslash, hn, hr, ht, hb, hf, if_false]
    split_ifs with hprintable
    · have hunits : codeUnits c = [c.toNat] := if_pos (by omega)
      rw [List.singleton_append, scanString.eq_def]
      simp [hquote, hbackslash, hprintable.1.not_gt, hunits]
    · exact scanString_escapeUnits (fun u => codeUnits_lt) rest

theorem scanString_flatMap (cs rest : List Char) :
    scanString (cs.flatMap escape ++ '"' :: rest) = some (cs.flatMap codeUnits, rest) := by
  induction cs with
  | nil =>
    rw [List.flatMap_nil, List.nil_append, scanString.eq_def]
    rfl
  | cons c cs ih =>
    rw [List.flatMap_cons, List.append_assoc, scanString_escape, ih]
    rfl

theorem joinSurrogates_codeUnits (c : Char) (us : List Nat) :
    joinSurrogates (codeUnits c ++ us) = (joinSurrogates us).map (c :: ·) := by
  have hc := toNat_valid c
  unfold codeUnits
  split_ifs with hbmp
  · rw [List.singleton_append, joinSurrogates.eq_def]
    simp only [Char.ofNat_toNat]
    rw [if_neg (by omega), if_neg (by omega)]
  · have hhigh : 0xd800 ≤ 0xd800 + (c.toNat - 0x10000) / 1024 ∧
        0xd800 + (c.toNat - 0x10000) / 1024 < 0xdc00 := by omega
    have hlow : 0xdc00 ≤ 0xdc00 + (c.toNat - 0x10000) % 1024 ∧
        0xdc00 + (c.toNat - 0x10000) % 1024 < 0xe000 := by omega
    have hjoin : 0x10000 + (0xd800 + (c.toNat - 0x10000) / 1024 - 0xd800) * 1024 +
        (0xdc00 + (c.toNat - 0x10000) % 1024 - 0xdc00) = c.toNat := by omega
    simp only [surrogates, List.cons_append, List.nil_append]
    rw [joinSurrogates.eq_def]
    simp only [hhigh, hlow, and_self, if_true, hjoin, Char.ofNat_toNat]

theorem joinSurrogates_flatMap (cs : List Char) :
    joinSurrogates (cs.flatMap codeUnits) = some cs := by
  induction cs with
  | nil => rfl
  | cons c cs ih =>
    rw [List.flatMap_cons, joinSurrogates_codeUnits, ih]
    rfl

/-- A string is read back from its escapes, whatever follows the closing quote. -/
theorem string_escape (s : String) (rest : List Char) :
    string (s.toList.flatMap escape ++ '"' :: rest) = some (s, rest) := by
  simp [string, scanString_flatMap, joinSurrogates_flatMap]

-- ---------------------------------------------------------------------------
-- Numbers
-- ---------------------------------------------------------------------------

def signPart : List Char → List Char × List Char
  | '-' :: rest => (['-'], rest)
  | cs => ([], cs)

def integerPart : List Char → Option (List Char × List Char)
  | '0' :: rest => some (['0'], rest)
  | c :: rest =>
    if c.isDigit then some (c :: rest.takeWhile Char.isDigit, rest.dropWhile Char.isDigit) else none
  | [] => none

def fractionPart : List Char → List Char × List Char
  | '.' :: c :: rest =>
    if c.isDigit then ('.' :: c :: rest.takeWhile Char.isDigit, rest.dropWhile Char.isDigit)
    else ([], '.' :: c :: rest)
  | cs => ([], cs)

def exponentPart : List Char → List Char × List Char
  | e :: rest =>
    if e = 'e' ∨ e = 'E' then
      let (sign, digits) := match rest with
        | c :: digits => if c = '+' ∨ c = '-' then ([c], digits) else ([], rest)
        | [] => ([], rest)
      match digits with
      | d :: digits =>
        if d.isDigit then
          (e :: sign ++ d :: digits.takeWhile Char.isDigit, digits.dropWhile Char.isDigit)
        else ([], e :: rest)
      | [] => ([], e :: rest)
    else ([], e :: rest)
  | [] => ([], [])

/-- Only a number with a fraction or an exponent is a float. -/
def number (parseFloat : List Char → Json) (cs : List Char) : Option (Json × List Char) := do
  let (sign, cs) := signPart cs
  let (integer, cs) ← integerPart cs
  let (frac, cs) := fractionPart cs
  let (exp, cs) := exponentPart cs
  if frac = [] ∧ exp = [] then
    let n := Nat.ofDigitChars 10 integer 0
    some (.int (if sign = [] then n else -n), cs)
  else some (parseFloat (sign ++ integer ++ frac ++ exp), cs)

/-- What stands behind a value: the end of the text, or the next part of an array or object. -/
def Follows (rest : List Char) : Prop := ∀ c ∈ rest.head?, c = ',' ∨ c = ']' ∨ c = '\x7d'

theorem Follows.digits {rest : List Char} (h : Follows rest) {ds : List Char}
    (hds : ∀ c ∈ ds, c.isDigit) :
    (ds ++ rest).takeWhile Char.isDigit = ds ∧ (ds ++ rest).dropWhile Char.isDigit = rest := by
  rw [List.takeWhile_append_of_pos hds, List.dropWhile_append_of_pos hds]
  cases rest with
  | nil => simp
  | cons c rest =>
    have hc : c.isDigit = false := by
      rcases h c rfl with rfl | rfl | rfl <;> rfl
    simp [hc]

theorem Follows.fractionPart {rest : List Char} (h : Follows rest) :
    fractionPart rest = ([], rest) := by
  cases rest with
  | nil => rfl
  | cons c rest =>
    rcases h c rfl with rfl | rfl | rfl <;> rfl

theorem Follows.exponentPart {rest : List Char} (h : Follows rest) :
    exponentPart rest = ([], rest) := by
  cases rest with
  | nil => rfl
  | cons c rest =>
    rcases h c rfl with rfl | rfl | rfl <;> rfl

/-- No number is written with a leading zero. -/
theorem toDigits_head {n : Nat} (hn : n ≠ 0) : ∃ c cs, Nat.toDigits 10 n = c :: cs ∧ c ≠ '0' := by
  induction n using Nat.strongRecOn with
  | ind n ih =>
    by_cases hlt : n < 10
    · exact ⟨_, _, Nat.toDigits_of_lt_base hlt, fun h => hn (Nat.digitChar_eq_zero.mp h)⟩
    · obtain ⟨c, cs, hcs, hc⟩ := ih (n / 10) (by omega) (by omega)
      exact ⟨c, _, by rw [Nat.toDigits_of_base_le (by decide) (by omega), hcs]; rfl, hc⟩

theorem integerPart_toDigits (n : Nat) {rest : List Char} (h : Follows rest) :
    integerPart (Nat.toDigits 10 n ++ rest) = some (Nat.toDigits 10 n, rest) := by
  by_cases hn : n = 0
  · subst hn
    rfl
  · have hdigits : ∀ c ∈ Nat.toDigits 10 n, c.isDigit :=
      fun c => Nat.isDigit_of_mem_toDigits (by decide) (by decide)
    obtain ⟨c, cs, hcs, hc⟩ := toDigits_head hn
    rw [hcs] at hdigits ⊢
    obtain ⟨hc', hcs'⟩ := List.forall_mem_cons.mp hdigits
    rw [List.cons_append, integerPart.eq_def]
    simp [hc', h.digits hcs']

theorem ne_of_isDigit {c d : Char} (hc : c.isDigit) (hd : d.isDigit = false) : c ≠ d := by
  rintro rfl
  rw [hc] at hd
  cases hd

theorem toDigits_isDigit (n : Nat) : ∃ c cs, Nat.toDigits 10 n = c :: cs ∧ c.isDigit := by
  cases hcs : Nat.toDigits 10 n with
  | nil => exact absurd hcs Nat.toDigits_ne_nil
  | cons c cs =>
    exact ⟨c, cs, rfl, Nat.isDigit_of_mem_toDigits (by decide) (by decide)
      (hcs ▸ List.mem_cons_self)⟩

theorem signPart_toDigits (n : Nat) (rest : List Char) :
    signPart (Nat.toDigits 10 n ++ rest) = ([], Nat.toDigits 10 n ++ rest) := by
  obtain ⟨c, cs, hcs, hc⟩ := toDigits_isDigit n
  rw [hcs, List.cons_append, signPart]
  exact fun _ h => ne_of_isDigit hc rfl (List.cons.inj h).1

theorem number_toString (parseFloat : List Char → Json) (n : Int) {rest : List Char}
    (h : Follows rest) : number parseFloat ((toString n).toList ++ rest) = some (.int n, rest) := by
  cases n with
  | ofNat m =>
    have htext : (toString (Int.ofNat m)).toList = Nat.toDigits 10 m := Nat.toList_repr
    rw [htext]
    simp [number, signPart_toDigits, integerPart_toDigits m h, h.fractionPart, h.exponentPart,
      Nat.ofDigitChars_ten_toDigits]
  | negSucc m =>
    have htext : (toString (Int.negSucc m)).toList = '-' :: Nat.toDigits 10 (m + 1) := by
      simp [Int.repr]
    rw [htext]
    simp [number, signPart, integerPart_toDigits (m + 1) h, h.fractionPart, h.exponentPart,
      Nat.ofDigitChars_ten_toDigits]
    omega

-- ---------------------------------------------------------------------------
-- Values
-- ---------------------------------------------------------------------------

def isJsonSpace (c : Char) : Bool := c = ' ' || c = '\t' || c = '\n' || c = '\r'

def skip (cs : List Char) : List Char := cs.dropWhile isJsonSpace

def keywords : List (List Char × Json) := [
  (['n', 'u', 'l', 'l'], .null),
  (['t', 'r', 'u', 'e'], .bool true),
  (['f', 'a', 'l', 's', 'e'], .bool false),
  (['N', 'a', 'N'], .float "nan" none),
  (['I', 'n', 'f', 'i', 'n', 'i', 't', 'y'], .float "inf" none),
  (['-', 'I', 'n', 'f', 'i', 'n', 'i', 't', 'y'], .float "-inf" none)]

section Values

variable (parseFloat : List Char → Json)

mutual

/-- The number bounds how deep the value goes and how many elements it has. -/
def value : Nat → List Char → Option (Json × List Char)
  | 0, _ => none
  | n + 1, cs =>
    match cs with
    | '"' :: rest => (string rest).map fun (s, rest) => (.str s, rest)
    | '\x7b' :: rest =>
      match skip rest with
      | '\x7d' :: rest => some (.obj [], rest)
      | rest => (members n rest).map fun (ms, rest) => (.obj (Dict.ofPairs ms), rest)
    | '[' :: rest =>
      match skip rest with
      | ']' :: rest => some (.arr [], rest)
      | rest => (elements n rest).map fun (js, rest) => (.arr js, rest)
    | cs =>
      match keywords.find? (·.1.isPrefixOf cs) with
      | some (word, j) => some (j, cs.drop word.length)
      | none => number parseFloat cs

def elements : Nat → List Char → Option (List Json × List Char)
  | 0, _ => none
  | n + 1, cs => do
    let (j, rest) ← value n cs
    match skip rest with
    | ',' :: rest => (elements n (skip rest)).map fun (js, rest) => (j :: js, rest)
    | ']' :: rest => some ([j], rest)
    | _ => none

def members : Nat → List Char → Option (List (String × Json) × List Char)
  | 0, _ => none
  | n + 1, cs =>
    match cs with
    | '"' :: rest => do
      let (key, rest) ← string rest
      match skip rest with
      | ':' :: rest =>
        let (j, rest) ← value n (skip rest)
        match skip rest with
        | ',' :: rest => (members n (skip rest)).map fun (ms, rest) => ((key, j) :: ms, rest)
        | '\x7d' :: rest => some ([(key, j)], rest)
        | _ => none
      | _ => none
    | _ => none

end

/-- `json.loads(s)` -/
def loads (s : String) : Except PyError Json :=
  match value parseFloat s.length (skip s.toList) with
  | some (j, rest) => if skip rest = [] then .ok j else .error .jsonDecodeError
  | none => .error .jsonDecodeError

end Values

-- ---------------------------------------------------------------------------
-- Writing
-- ---------------------------------------------------------------------------

def floatText (repr : String) : String :=
  if repr = "nan" then "NaN"
  else if repr = "inf" then "Infinity"
  else if repr = "-inf" then "-Infinity"
  else repr

mutual

def encode : Json → List Char
  | .null => ['n', 'u', 'l', 'l']
  | .bool true => ['t', 'r', 'u', 'e']
  | .bool false => ['f', 'a', 'l', 's', 'e']
  | .int n => (toString n).toList
  | .float repr _ => (floatText repr).toList
  | .str s => quoted s
  | .arr elements => '[' :: encodeElements elements ++ [']']
  | .obj members => '\x7b' :: encodeMembers members ++ ['\x7d']

def encodeElements : List Json → List Char
  | [] => []
  | j :: js => encode j ++ if js.isEmpty then [] else ',' :: ' ' :: encodeElements js

def encodeMembers : List (String × Json) → List Char
  | [] => []
  | (key, j) :: ms =>
    quoted key ++ ':' :: ' ' :: encode j ++
      if ms.isEmpty then [] else ',' :: ' ' :: encodeMembers ms

end

/-- `json.dumps(j)` -/
def dumps (j : Json) : String := String.ofList (encode j)

-- ---------------------------------------------------------------------------
-- Reading what was written
-- ---------------------------------------------------------------------------

/-- Without floats, and with each key of an object once. -/
inductive Json.Plain : Json → Prop
  | null : Plain .null
  | bool (b : Bool) : Plain (.bool b)
  | int (n : Int) : Plain (.int n)
  | str (s : String) : Plain (.str s)
  | arr {elements : List Json} (h : ∀ j ∈ elements, Plain j) : Plain (.arr elements)
  | obj {members : List (String × Json)} (hn : (members.map Prod.fst).Nodup)
    (h : ∀ m ∈ members, Plain m.2) : Plain (.obj members)

theorem Dict.foldl_set {d pairs : Dict} (h : ((d ++ pairs).map Prod.fst).Nodup) :
    pairs.foldl (fun d p => d.set p.1 p.2) d = d ++ pairs := by
  induction pairs generalizing d with
  | nil => simp
  | cons p pairs ih =>
    have hp : p.1 ∉ d.map Prod.fst := by
      intro hmem
      rw [List.map_append, List.nodup_append] at h
      exact h.2.2 _ hmem _ List.mem_cons_self rfl
    rw [List.foldl_cons, Dict.set, if_neg hp, ih (by simpa using h), List.append_assoc]
    rfl

theorem Dict.ofPairs_of_nodup {d : Dict} (h : (d.map Prod.fst).Nodup) : Dict.ofPairs d = d :=
  Dict.foldl_set (d := []) h

/-- How the text of an integer begins. -/
theorem toString_head (n : Int) :
    (∃ c cs, (toString n).toList = c :: cs ∧ c.isDigit) ∨
      ∃ c cs, (toString n).toList = '-' :: c :: cs ∧ c.isDigit := by
  cases n with
  | ofNat m =>
    have htext : (toString (Int.ofNat m)).toList = Nat.toDigits 10 m := Nat.toList_repr
    obtain ⟨c, cs, hcs, hc⟩ := toDigits_isDigit m
    exact .inl ⟨c, cs, htext.trans hcs, hc⟩
  | negSucc m =>
    obtain ⟨c, cs, hcs, hc⟩ := toDigits_isDigit (m + 1)
    exact .inr ⟨c, cs, by simp [Int.repr, hcs], hc⟩

/-- A written value does not begin like a space or like the end of an array or object. -/
theorem encode_head (j : Json) (hj : j.Plain) :
    ∃ c cs, encode j = c :: cs ∧ isJsonSpace c = false ∧ c ≠ ']' ∧ c ≠ '\x7d' := by
  cases hj with
  | null => exact ⟨_, _, by rw [encode], by decide, by decide, by decide⟩
  | bool b => cases b <;> exact ⟨_, _, by rw [encode], by decide, by decide, by decide⟩
  | int n =>
    rcases toString_head n with ⟨c, cs, hcs, hc⟩ | ⟨c, cs, hcs, -⟩
    · refine ⟨c, cs, by rw [encode, hcs], ?_, ne_of_isDigit hc rfl, ne_of_isDigit hc rfl⟩
      simp [isJsonSpace, ne_of_isDigit hc (d := ' ') rfl, ne_of_isDigit hc (d := '\t') rfl,
        ne_of_isDigit hc (d := '\n') rfl, ne_of_isDigit hc (d := '\r') rfl]
    · exact ⟨_, _, by rw [encode, hcs], by decide, by decide, by decide⟩
  | str s => exact ⟨_, _, by rw [encode, quoted]; rfl, by decide, by decide, by decide⟩
  | arr h => exact ⟨_, _, by rw [encode]; rfl, by decide, by decide, by decide⟩
  | obj hn h => exact ⟨_, _, by rw [encode]; rfl, by decide, by decide, by decide⟩

theorem skip_encode {j : Json} (hj : j.Plain) (rest : List Char) :
    skip (encode j ++ rest) = encode j ++ rest := by
  obtain ⟨c, cs, hcs, hc, -⟩ := encode_head j hj
  rw [hcs, List.cons_append, skip, List.dropWhile_cons_of_neg (by simp [hc])]

section RoundTrip

variable (parseFloat : List Char → Json)

/-- The value is read back from its text, whatever follows, if `n` bounds the text. -/
def ReadBack (j : Json) : Prop :=
  ∀ n rest, (encode j).length ≤ n → Follows rest →
    value parseFloat n (encode j ++ rest) = some (j, rest)

theorem keyword_digit {c : Char} (hc : c.isDigit) (cs : List Char) :
    keywords.find? (·.1.isPrefixOf (c :: cs)) = none := by
  simp only [keywords, List.find?_eq_none, List.forall_mem_cons, List.isPrefixOf_iff_prefix,
    List.cons_prefix_cons]
  refine ⟨?_, ?_, ?_, ?_, ?_, ?_, nofun⟩
  all_goals
    rintro ⟨rfl, -⟩
    exact absurd hc (by decide)

theorem keyword_negative {c : Char} (hc : c.isDigit) (cs : List Char) :
    keywords.find? (·.1.isPrefixOf ('-' :: c :: cs)) = none := by
  have hne : ¬['I', 'n', 'f', 'i', 'n', 'i', 't', 'y'] <+: c :: cs := by
    rintro ⟨t, ht⟩
    exact ne_of_isDigit hc (d := 'I') rfl (List.cons.inj ht).1.symm
  simpa [keywords] using hne

theorem readBack_int (n : Int) : ReadBack parseFloat (.int n) := by
  intro fuel rest hfuel hrest
  have hnumber := number_toString parseFloat n hrest
  rw [encode] at hfuel ⊢
  rcases toString_head n with ⟨c, cs, hcs, hc⟩ | ⟨c, cs, hcs, hc⟩
  all_goals
    rw [hcs] at hfuel hnumber ⊢
    obtain _ | fuel := fuel
    · cases hfuel
  · rw [List.cons_append] at hnumber ⊢
    rw [value, keyword_digit hc]
    · exact hnumber
    all_goals
      intro rest h
      exact ne_of_isDigit hc rfl (List.cons.inj h).1
  · rw [List.cons_append, List.cons_append] at hnumber ⊢
    rw [value, keyword_negative hc]
    · exact hnumber
    all_goals
      intro rest h
      exact absurd (List.cons.inj h).1 (by decide)

theorem follows_cons {c : Char} (h : c = ',' ∨ c = ']' ∨ c = '\x7d') (rest : List Char) :
    Follows (c :: rest) := by
  intro d hd
  obtain rfl := Option.some.inj hd
  exact h

theorem skip_cons {c : Char} (h : isJsonSpace c = false) (rest : List Char) :
    skip (c :: rest) = c :: rest := by
  rw [skip, List.dropWhile_cons_of_neg (by simp [h])]

variable {parseFloat}

theorem skip_comma (cs : List Char) : skip (' ' :: cs) = skip cs := by
  rw [skip, List.dropWhile_cons_of_pos rfl]
  rfl

theorem skip_encodeElements {j : Json} (hj : j.Plain) (js : List Json) (rest : List Char) :
    skip (encodeElements (j :: js) ++ rest) = encodeElements (j :: js) ++ rest := by
  rw [encodeElements, List.append_assoc, skip_encode hj]

/-- By induction on the elements, each of which is followed by a comma or the bracket. -/
theorem elements_encode {j : Json} {js : List Json}
    (hjs : ∀ i ∈ j :: js, i.Plain ∧ ReadBack parseFloat i) (n : Nat) (rest : List Char)
    (hn : (encodeElements (j :: js)).length < n) :
    elements parseFloat n (encodeElements (j :: js) ++ ']' :: rest) = some (j :: js, rest) := by
  induction js generalizing j n with
  | nil =>
    obtain _ | n := n
    · cases hn
    have hread := (hjs j List.mem_cons_self).2 n (']' :: rest)
      (by simp [encodeElements] at hn; omega) (follows_cons (by simp) _)
    simp [encodeElements, elements, hread, skip_cons (c := ']') rfl]
  | cons i js ih =>
    obtain _ | n := n
    · cases hn
    obtain ⟨⟨-, hj⟩, hjs⟩ := List.forall_mem_cons.mp hjs
    have hlen : (encode j).length + (encodeElements (i :: js)).length < n := by
      rw [encodeElements] at hn
      simp at hn
      omega
    have hread := hj n (',' :: ' ' :: (encodeElements (i :: js) ++ ']' :: rest)) (by omega)
      (follows_cons (by simp) _)
    have htail := ih hjs n (by omega)
    rw [encodeElements, elements]
    simp [hread, skip_cons (c := ',') rfl, skip_comma,
      skip_encodeElements (hjs i List.mem_cons_self).1, htail]

theorem readBack_arr {js : List Json} (h : ∀ j ∈ js, j.Plain ∧ ReadBack parseFloat j) :
    ReadBack parseFloat (.arr js) := by
  intro n rest hn hrest
  rw [encode] at hn ⊢
  simp only [List.length_cons, List.length_append] at hn
  obtain _ | n := n
  · cases hn
  cases js with
  | nil => simp [value, encodeElements, skip_cons (c := ']') rfl]
  | cons j js =>
    have hplain := (h j List.mem_cons_self).1
    have helements := elements_encode h n rest (by omega)
    obtain ⟨c, cs, hcs, -, hc, -⟩ := encode_head j hplain
    have htext : '[' :: encodeElements (j :: js) ++ [']'] ++ rest =
        '[' :: (encodeElements (j :: js) ++ ']' :: rest) := by simp
    rw [htext, value, skip_encodeElements hplain]
    split
    · rename_i tail hclose
      rw [encodeElements, hcs] at hclose
      exact absurd (List.cons.inj hclose).1 hc
    · simp [helements]

theorem encodeMembers_cons (m : String × Json) (ms : List (String × Json)) :
    encodeMembers (m :: ms) = '"' :: (m.1.toList.flatMap escape ++ '"' :: ':' :: ' ' ::
      (encode m.2 ++ if ms.isEmpty then [] else ',' :: ' ' :: encodeMembers ms)) := by
  obtain ⟨key, j⟩ := m
  simp [encodeMembers, quoted]

/-- By induction on the members, each of which is followed by a comma or the brace. -/
theorem members_encode {m : String × Json} {ms : List (String × Json)}
    (hms : ∀ k ∈ m :: ms, k.2.Plain ∧ ReadBack parseFloat k.2) (n : Nat) (rest : List Char)
    (hn : (encodeMembers (m :: ms)).length < n) :
    members parseFloat n (encodeMembers (m :: ms) ++ '\x7d' :: rest) = some (m :: ms, rest) := by
  induction ms generalizing m n with
  | nil =>
    obtain _ | n := n
    · cases hn
    obtain ⟨hplain, hj⟩ := hms m List.mem_cons_self
    have hread := hj n ('\x7d' :: rest) (by simp [encodeMembers] at hn; omega)
      (follows_cons (by simp) _)
    simp [encodeMembers_cons, members, string_escape, skip_cons (c := ':') rfl, skip_comma,
      skip_encode hplain, hread, skip_cons (c := '\x7d') rfl]
  | cons k ms ih =>
    obtain _ | n := n
    · cases hn
    obtain ⟨⟨hplain, hj⟩, hms⟩ := List.forall_mem_cons.mp hms
    have hlen : (encode m.2).length + (encodeMembers (k :: ms)).length < n := by
      rw [encodeMembers] at hn
      simp at hn
      omega
    have hread := hj n (',' :: ' ' :: (encodeMembers (k :: ms) ++ '\x7d' :: rest)) (by omega)
      (follows_cons (by simp) _)
    have htail := ih hms n (by omega)
    have hskip : skip (encodeMembers (k :: ms) ++ '\x7d' :: rest) =
        encodeMembers (k :: ms) ++ '\x7d' :: rest := by
      rw [encodeMembers_cons, List.cons_append, skip_cons rfl]
    rw [encodeMembers_cons, List.cons_append, members]
    simp [string_escape, skip_cons (c := ':') rfl, skip_comma, skip_encode hplain, hread,
      skip_cons (c := ',') rfl, hskip, htail]

theorem readBack_obj {ms : List (String × Json)} (hnodup : (ms.map Prod.fst).Nodup)
    (h : ∀ m ∈ ms, m.2.Plain ∧ ReadBack parseFloat m.2) : ReadBack parseFloat (.obj ms) := by
  intro n rest hn hrest
  rw [encode] at hn ⊢
  simp only [List.length_cons, List.length_append] at hn
  obtain _ | n := n
  · cases hn
  cases ms with
  | nil => simp [value, encodeMembers, skip_cons (c := '\x7d') rfl]
  | cons m ms =>
    have hmembers := members_encode h n rest (by omega)
    have htext : '\x7b' :: encodeMembers (m :: ms) ++ ['\x7d'] ++ rest =
        '\x7b' :: (encodeMembers (m :: ms) ++ '\x7d' :: rest) := by simp
    have hskip : skip (encodeMembers (m :: ms) ++ '\x7d' :: rest) =
        encodeMembers (m :: ms) ++ '\x7d' :: rest := by
      rw [encodeMembers_cons, List.cons_append, skip_cons rfl]
    rw [htext, value, hskip]
    split
    · rename_i tail hclose
      rw [encodeMembers_cons] at hclose
      exact absurd (List.cons.inj hclose).1 (by decide)
    · simp [hmembers, Dict.ofPairs_of_nodup hnodup]

variable (parseFloat) in
theorem readBack {j : Json} (hj : j.Plain) : ReadBack parseFloat j := by
  induction hj with
  | null =>
    intro n rest hn hrest
    obtain _ | n := n
    · simp [encode] at hn
    simp [value, encode, keywords]
  | bool b =>
    intro n rest hn hrest
    obtain _ | n := n
    · cases b <;> simp [encode] at hn
    cases b <;> simp [value, encode, keywords]
  | int n => exact readBack_int parseFloat n
  | str s =>
    intro n rest hn hrest
    obtain _ | n := n
    · simp [encode, quoted] at hn
    simp [value, encode, quoted, string_escape]
  | arr h ih => exact readBack_arr fun j hj => ⟨h j hj, ih j hj⟩
  | obj hn h ih => exact readBack_obj hn fun m hm => ⟨h m hm, ih m hm⟩

/-- `json.loads(json.dumps(j)) == j` -/
theorem loads_dumps {j : Json} (hj : j.Plain) : loads parseFloat (dumps j) = .ok j := by
  have hread := readBack parseFloat hj (encode j).length [] (Nat.le_refl _) (by simp [Follows])
  have hskip := skip_encode hj []
  rw [List.append_nil] at hread hskip
  rw [loads, dumps, String.length_ofList, String.toList_ofList, hskip, hread]
  rfl

end RoundTrip

example : dumps (.obj [("é\n😀", .arr [.int (-7), .null])]) =
    "\x7b\"\\u00e9\\n\\ud83d\\ude00\": [-7, null]\x7d" := by decide

-- ---------------------------------------------------------------------------
-- Integers in a text of their own
-- ---------------------------------------------------------------------------

theorem digits_some {ds : List Char} (h : ∀ c ∈ ds, c.isDigit) (n : Nat) :
    digits ds (some n) = some (Nat.ofDigitChars 10 ds n) := by
  induction ds generalizing n with
  | nil => rfl
  | cons c ds ih =>
    obtain ⟨hc, hds⟩ := List.forall_mem_cons.mp h
    have hunderscore : c ≠ '_' := ne_of_isDigit hc rfl
    rw [digits.eq_def]
    simp [hunderscore, hc, ih hds, Nat.ofDigitChars_cons]

theorem strip_eq {cs : List Char} (h : ∀ c ∈ cs, isSpace c = false) : strip cs = cs := by
  have hdrop : ∀ {cs : List Char}, (∀ c ∈ cs, isSpace c = false) → cs.dropWhile isSpace = cs := by
    intro cs h
    cases cs with
    | nil => rfl
    | cons c cs => rw [List.dropWhile_cons_of_neg (by simp [h c])]
  rw [strip, hdrop h, hdrop (fun c hc => h c (List.mem_reverse.mp hc)), List.reverse_reverse]

theorem digits_toDigits (n : Nat) : digits (Nat.toDigits 10 n) none = some n := by
  have hdigits : ∀ c ∈ Nat.toDigits 10 n, c.isDigit :=
    fun c => Nat.isDigit_of_mem_toDigits (by decide) (by decide)
  have hread := digits_some hdigits 0
  rw [Nat.ofDigitChars_ten_toDigits] at hread
  obtain ⟨c, cs, hcs, hc⟩ := toDigits_isDigit n
  rw [hcs] at hread ⊢
  have hunderscore : c ≠ '_' := ne_of_isDigit hc rfl
  rw [digits.eq_def] at hread ⊢
  simpa [hunderscore] using hread

theorem isSpace_of_all {cs : List Char} (h : cs.all (!isSpace ·) = true) :
    ∀ c ∈ cs, isSpace c = false := fun c hc => by simpa using List.all_eq_true.mp h c hc

theorem isSpace_of_isDigit {c : Char} (h : c.isDigit) : isSpace c = false := by
  have hc : 48 ≤ c.toNat := by
    simp only [Char.isDigit, Bool.and_eq_true, decide_eq_true_eq] at h
    exact h.1
  have hspace : c ≠ ' ' := ne_of_isDigit h rfl
  have hreturn : ¬c ≤ '\r' := by
    intro hle
    have hle : c.toNat ≤ 13 := hle
    omega
  simp [isSpace, hspace, hreturn]

theorem isSpace_toDigits (n : Nat) : ∀ c ∈ Nat.toDigits 10 n, isSpace c = false := fun _ hc =>
  isSpace_of_isDigit (Nat.isDigit_of_mem_toDigits (by decide) (by decide) hc)

/-- A number is one word. -/
theorem toString_word (n : Int) :
    (toString n).toList ≠ [] ∧ ∀ c ∈ (toString n).toList, isSpace c = false := by
  cases n with
  | ofNat m =>
    have htext : (toString (Int.ofNat m)).toList = Nat.toDigits 10 m := Nat.toList_repr
    rw [htext]
    exact ⟨Nat.toDigits_ne_nil, isSpace_toDigits m⟩
  | negSucc m =>
    have htext : (toString (Int.negSucc m)).toList = '-' :: Nat.toDigits 10 (m + 1) := by
      simp [Int.repr]
    rw [htext]
    exact ⟨List.cons_ne_nil _ _, List.forall_mem_cons.mpr ⟨rfl, isSpace_toDigits (m + 1)⟩⟩

/-- `int(str(n))` -/
theorem intOf_toString (n : Int) : intOf (toString n) = some n := by
  have hstrip := strip_eq (toString_word n).2
  cases n with
  | ofNat m =>
    have htext : (toString (Int.ofNat m)).toList = Nat.toDigits 10 m := Nat.toList_repr
    obtain ⟨c, cs, hcs, hc⟩ := toDigits_isDigit m
    have hread := digits_toDigits m
    have hminus : c ≠ '-' := ne_of_isDigit hc rfl
    have hplus : c ≠ '+' := ne_of_isDigit hc rfl
    rw [intOf, hstrip, htext]
    rw [hcs] at hread ⊢
    split
    · rename_i h
      exact absurd (List.cons.inj h).1 hminus
    · rename_i h
      exact absurd (List.cons.inj h).1 hplus
    · rw [hread]
      rfl
  | negSucc m =>
    have htext : (toString (Int.negSucc m)).toList = '-' :: Nat.toDigits 10 (m + 1) := by
      simp [Int.repr]
    rw [intOf, hstrip, htext]
    simp only [digits_toDigits]
    rfl
end Beeflow.Python
