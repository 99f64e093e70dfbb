import Mathlib.Data.List.Basic

/-!
# Command line arguments

A parser of `argparse` with flags, options and positional arguments of one word
each. Options are recognised by their exact names; any other word with a leading
dash is refused, unless it is the dash alone or a negative number.
-/

namespace Beeflow.CommandLine

inductive Arg
  /-- `valid` tells whether the type of the argument and its choices admit a word. -/
  | positional (dest : String) (valid : String → Bool)
  | option (flags : List String) (dest : String) (valid : String → Bool)
  /-- `action="store_true"` -/
  | flag (flags : List String) (dest : String)

/-- `dest` and the word, no word for a flag. -/
abbrev Namespace := List (String × Option String)

namespace Arg

def named (word : String) : Arg → Bool
  | positional _ _ => false
  | option flags _ _ => flags.contains word
  | flag flags _ => flags.contains word

def positional? : Arg → Option (String × (String → Bool))
  | positional dest valid => some (dest, valid)
  | option _ _ _ => none
  | flag _ _ => none

end Arg

/-- `^-\d+$|^-\d*\.\d+$` -/
def isNegativeNumber (word : List Char) : Bool :=
  match word with
  | '-' :: number =>
    match number.dropWhile Char.isDigit with
    | [] => !number.isEmpty
    | '.' :: decimals => !decimals.isEmpty && decimals.all Char.isDigit
    | _ => false
  | _ => false

/-- Whether a word that names no option is taken for an argument. -/
def isArgument (word : String) : Bool :=
  word.toList.head? != some '-' || word == "-" || isNegativeNumber word.toList

/-- `parse_args`, with the positional arguments that are still to come. -/
def parseWords (args : List Arg) :
    List String → List (String × (String → Bool)) → Namespace → Option Namespace
  | [], [], found => some found
  | [], _ :: _, _ => none
  | word :: words, positionals, found =>
    match args.find? (·.named word) with
    | some (.flag _ dest) => parseWords args words positionals ((dest, none) :: found)
    | some (.option _ dest valid) =>
      match words with
      | value :: words =>
        if !args.any (·.named value) && isArgument value && valid value then
          parseWords args words positionals ((dest, some value) :: found)
        else none
      | [] => none
    | _ =>
      match positionals with
      | (dest, valid) :: positionals =>
        if isArgument word && valid word then
          parseWords args words positionals ((dest, some word) :: found)
        else none
      | [] => none

def parse (args : List Arg) (words : List String) : Option Namespace :=
  parseWords args words (args.filterMap Arg.positional?) []

-- ---------------------------------------------------------------------------
-- One word after another
-- ---------------------------------------------------------------------------

variable {args : List Arg} {word value dest : String} {words : List String}
  {valid : String → Bool} {positionals : List (String × (String → Bool))} {found : Namespace}

/-- Every name of an option has a dash. -/
def Dashed (args : List Arg) : Prop :=
  ∀ word, args.any (·.named word) → word.toList.head? = some '-'

theorem any_named (hdashed : Dashed args) (h : word.toList.head? ≠ some '-') :
    args.any (·.named word) = false := Bool.eq_false_iff.mpr fun hany => h (hdashed word hany)

theorem find?_named (hdashed : Dashed args) (h : word.toList.head? ≠ some '-') :
    args.find? (·.named word) = none := by
  refine List.find?_eq_none.mpr fun arg harg hnamed => ?_
  exact Bool.eq_false_iff.mp (any_named hdashed h) (List.any_eq_true.mpr ⟨arg, harg, hnamed⟩)

theorem isArgument_of_head (h : word.toList.head? ≠ some '-') : isArgument word = true := by
  rw [isArgument, bne_iff_ne.mpr h, Bool.true_or, Bool.true_or]

theorem parseWords_positional (hnamed : args.find? (·.named word) = none)
    (hargument : isArgument word = true) (hvalid : valid word = true) :
    parseWords args (word :: words) ((dest, valid) :: positionals) found =
      parseWords args words positionals ((dest, some word) :: found) := by
  rw [parseWords.eq_def]
  simp [hnamed, hargument, hvalid]

theorem parseWords_flag {flags : List String}
    (h : args.find? (·.named word) = some (.flag flags dest)) :
    parseWords args (word :: words) positionals found =
      parseWords args words positionals ((dest, none) :: found) := by
  rw [parseWords.eq_def]
  simp [h]

theorem parseWords_option {flags : List String} (hdashed : Dashed args)
    (h : args.find? (·.named word) = some (.option flags dest valid))
    (hvalue : value.toList.head? ≠ some '-') (hvalid : valid value = true) :
    parseWords args (word :: value :: words) positionals found =
      parseWords args words positionals ((dest, some value) :: found) := by
  rw [parseWords.eq_def]
  simp [h, any_named hdashed hvalue, isArgument_of_head hvalue, hvalid]

end Beeflow.CommandLine
