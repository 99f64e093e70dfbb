import Beeflow.Lib.Fields
import Beeflow.DagSchedules.Cron

/-!
# The fields of a schedule

`from_airflow_schedule_to_aws_cron` splits at every single blank and counts at
least five parts. Where two blanks stand together, or a field ends with another
white space, the parts are not the fields of the schedule.
-/

namespace Beeflow.DagSchedules

open Python

-- ---------------------------------------------------------------------------
-- White space
-- ---------------------------------------------------------------------------

/-- `str.isspace` of one character -/
def isSpace (c : Char) : Bool :=
  let n := c.toNat
  (9 ≤ n && n ≤ 13) || (28 ≤ n && n ≤ 32) || n = 0x85 || n = 0xA0 || n = 0x1680 ||
    (0x2000 ≤ n && n ≤ 0x200A) || n = 0x2028 || n = 0x2029 || n = 0x202F || n = 0x205F ||
    n = 0x3000

def cleaned (schedule : String) : List Char :=
  removeChar '\\' (removeChar '"' schedule.toList)

/-- `split()`: the fields between runs of white space. -/
def fieldsOf (schedule : String) : List (List Char) := Fields.fields isSpace (cleaned schedule)

/-- `split(' ')`, as the code has it. -/
def partsOf (schedule : String) : List (List Char) := (cleaned schedule).splitOn ' '

def RaisesValueError (result : Except PyError String) : Prop :=
  ∃ before value behind, result = .error (.valueError before value behind)

/-- The schedule is parsed if it has five fields, and all of them are kept in their places. -/
structure ParsesFields (schedule : String) : Prop where
  raises : RaisesValueError (fromAirflowScheduleToAwsCron (.cron schedule)) ↔
    (fieldsOf schedule).length ≠ 5
  keeps : ∀ expression, fromAirflowScheduleToAwsCron (.cron schedule) = .ok expression →
    ∃ minutes hours dayMonth month dayWeek,
      fieldsOf schedule = [minutes, hours, dayMonth, month, dayWeek] ∧
      expression = awsExpression [minutes, hours, dayMonth, month, starsToMarks dayWeek, ['*']]

/-- The first five parts are the fields, or there are neither five parts nor five fields. -/
def CountsFields (schedule : String) : Prop :=
  if 5 ≤ (partsOf schedule).length then (partsOf schedule).take 5 = fieldsOf schedule
  else (fieldsOf schedule).length ≠ 5

instance (schedule : String) : Decidable (CountsFields schedule) :=
  inferInstanceAs (Decidable (if 5 ≤ (partsOf schedule).length then
    (partsOf schedule).take 5 = fieldsOf schedule else (fieldsOf schedule).length ≠ 5))

-- ---------------------------------------------------------------------------
-- Parts and fields
-- ---------------------------------------------------------------------------

section Convert

variable {schedule : String} {minutes hours dayMonth month dayWeek : List Char}

theorem converts_five {rest : List (List Char)}
    (h : partsOf schedule = minutes :: hours :: dayMonth :: month :: dayWeek :: rest) :
    fromAirflowScheduleToAwsCron (.cron schedule) =
      .ok (awsExpression [minutes, hours, dayMonth, month, starsToMarks dayWeek, ['*']]) := by
  rw [partsOf, cleaned] at h
  simp only [fromAirflowScheduleToAwsCron, h]

theorem exists_five {α : Type*} {l : List α} (h : 5 ≤ l.length) :
    ∃ a b c d e rest, l = a :: b :: c :: d :: e :: rest := by
  match l, h with
  | a :: b :: c :: d :: e :: rest, _ => exact ⟨a, b, c, d, e, rest, rfl⟩

theorem raises_of_few (h : ¬5 ≤ (partsOf schedule).length) :
    RaisesValueError (fromAirflowScheduleToAwsCron (.cron schedule)) := by
  unfold fromAirflowScheduleToAwsCron
  dsimp only
  split
  · rename_i hparts
    have hlength := congrArg List.length (show partsOf schedule = _ from hparts)
    simp only [List.length_cons] at hlength
    omega
  · exact ⟨_, _, _, rfl⟩

theorem awsExpression_inj {fs gs : List (List Char)} (hf : fs ≠ []) (hg : gs ≠ [])
    (hfs : ∀ f ∈ fs, ' ' ∉ f) (hgs : ∀ g ∈ gs, ' ' ∉ g)
    (h : awsExpression fs = awsExpression gs) : fs = gs := by
  have hlist := congrArg String.toList h
  simp only [awsExpression, String.toList_ofList, List.append_assoc] at hlist
  have hjoined := List.append_cancel_right (List.append_cancel_left hlist)
  rw [← List.splitOn_intercalate ' ' hfs hf, hjoined, List.splitOn_intercalate ' ' hgs hg]

theorem not_isSpace_starsToMarks {cs : List Char} :
    (∀ c ∈ starsToMarks cs, isSpace c = false) ↔ ∀ c ∈ cs, isSpace c = false := by
  have hmark : isSpace '?' = isSpace '*' := by decide
  simp only [starsToMarks, List.forall_mem_map]
  refine forall₂_congr fun c _ => ?_
  split_ifs with hstar
  · rw [hstar, hmark]
  · rfl

theorem not_mem_blank {f : List Char} (h : ∀ c ∈ f, isSpace c = false) : ' ' ∉ f :=
  fun hmem => absurd (h ' ' hmem) (by decide)

/-- Parts that hold no white space are fields, in front of those of the other parts. -/
theorem fieldsOf_of_parts {parts rest : List (List Char)}
    (hparts : partsOf schedule = parts ++ rest)
    (h : ∀ p ∈ parts, p ≠ [] ∧ ∀ c ∈ p, isSpace c = false) :
    fieldsOf schedule = parts ++ rest.flatMap (Fields.fields isSpace) := by
  have hsplit : (cleaned schedule).splitOn ' ' = parts ++ rest := hparts
  rw [fieldsOf, Fields.fields_splitOn (by decide : isSpace ' ' = true), hsplit,
    List.flatMap_append, Fields.flatMap_fields h]

/-- What is put out is made of the fields only if the parts are the fields. -/
theorem five_fields {rest : List (List Char)}
    {minutes' hours' dayMonth' month' dayWeek' : List Char}
    (hparts : partsOf schedule = minutes :: hours :: dayMonth :: month :: dayWeek :: rest)
    (hfields : fieldsOf schedule = [minutes', hours', dayMonth', month', dayWeek'])
    (he : awsExpression [minutes, hours, dayMonth, month, starsToMarks dayWeek, ['*']] =
      awsExpression [minutes', hours', dayMonth', month', starsToMarks dayWeek', ['*']]) :
    [minutes, hours, dayMonth, month, dayWeek] = fieldsOf schedule := by
  have hfield : ∀ f ∈ [minutes', hours', dayMonth', month', dayWeek'],
      f ≠ [] ∧ ∀ c ∈ f, isSpace c = false := by
    rw [← hfields]
    exact fun f hf => Fields.mem_fields hf
  have hpart : ∀ p ∈ minutes :: hours :: dayMonth :: month :: dayWeek :: rest, ' ' ∉ p := by
    rw [← hparts]
    exact fun p hp hmem => absurd (Fields.mem_splitOnP hp ' ' hmem) (by decide)
  simp only [List.forall_mem_cons] at hfield hpart
  obtain ⟨hmi, hho, hdm, hmo, hdw, -⟩ := hpart
  obtain ⟨⟨nmi, fmi⟩, ⟨nho, fho⟩, ⟨ndm, fdm⟩, ⟨nmo, fmo⟩, ⟨ndw, fdw⟩, -⟩ := hfield
  have hinj := awsExpression_inj (List.cons_ne_nil _ _) (List.cons_ne_nil _ _)
    (by simp only [List.forall_mem_cons]
        exact ⟨hmi, hho, hdm, hmo, space_not_mem_starsToMarks hdw, by decide, by simp⟩)
    (by simp only [List.forall_mem_cons]
        exact ⟨not_mem_blank fmi, not_mem_blank fho, not_mem_blank fdm, not_mem_blank fmo,
          space_not_mem_starsToMarks (not_mem_blank fdw), by decide, by simp⟩) he
  simp only [List.cons.injEq, and_true] at hinj
  obtain ⟨rfl, rfl, rfl, rfl, hdayWeek⟩ := hinj
  -- the marks change no white space, so the weekday part is a field as well
  have gdw : ∀ c ∈ dayWeek, isSpace c = false :=
    not_isSpace_starsToMarks.mp (hdayWeek ▸ not_isSpace_starsToMarks.mpr fdw)
  have mdw : dayWeek ≠ [] := by
    rintro rfl
    exact ndw (List.map_eq_nil_iff.mp hdayWeek.symm)
  have hflat : fieldsOf schedule =
      [minutes, hours, dayMonth, month, dayWeek] ++ rest.flatMap (Fields.fields isSpace) := by
    refine fieldsOf_of_parts hparts ?_
    simp only [List.forall_mem_cons]
    exact ⟨⟨nmi, fmi⟩, ⟨nho, fho⟩, ⟨ndm, fdm⟩, ⟨nmo, fmo⟩, ⟨mdw, gdw⟩, by simp⟩
  have hlength := congrArg List.length (hfields.symm.trans hflat)
  have hrest : rest.flatMap (Fields.fields isSpace) = [] := by
    refine List.eq_nil_of_length_eq_zero ?_
    simp only [List.length_append, List.length_cons, List.length_nil] at hlength
    omega
  rw [hflat, hrest, List.append_nil]

/-- The code parses a schedule by its fields where the parts it counts are the fields. -/
theorem parsesFields_iff_countsFields (schedule : String) :
    ParsesFields schedule ↔ CountsFields schedule := by
  unfold CountsFields
  split_ifs with hfive
  · obtain ⟨minutes, hours, dayMonth, month, dayWeek, rest, hparts⟩ := exists_five hfive
    have hconverts := converts_five hparts
    constructor
    · intro h
      obtain ⟨mi, ho, dm, mo, dw, hfields, he⟩ := h.keeps _ hconverts
      rw [hparts]
      exact five_fields hparts hfields he
    · intro h
      rw [hparts] at h
      refine ⟨?_, fun expression he => ?_⟩
      · rw [hconverts, ← h]
        refine iff_of_false ?_ (by simp)
        rintro ⟨_, _, _, he⟩
        cases he
      · obtain rfl := Except.ok.inj (hconverts.symm.trans he)
        exact ⟨_, _, _, _, _, h.symm, rfl⟩
  · have hraises := raises_of_few hfive
    refine ⟨fun h => h.raises.mp hraises, fun h => ⟨iff_of_true hraises h, fun expression he => ?_⟩⟩
    obtain ⟨_, _, _, hraises⟩ := hraises
    cases hraises.symm.trans he

def expressionOf : List (List Char) → Option String
  | [minutes, hours, dayMonth, month, dayWeek] =>
    some (awsExpression [minutes, hours, dayMonth, month, starsToMarks dayWeek, ['*']])
  | _ => none

theorem ParsesFields.expressionOf (h : ParsesFields schedule) :
    (fromAirflowScheduleToAwsCron (.cron schedule)).toOption =
      DagSchedules.expressionOf (fieldsOf schedule) := by
  by_cases hfive : 5 ≤ (partsOf schedule).length
  · obtain ⟨minutes, hours, dayMonth, month, dayWeek, rest, hparts⟩ := exists_five hfive
    have hconverts := converts_five hparts
    obtain ⟨_, _, _, _, _, hfields, he⟩ := h.keeps _ hconverts
    rw [hconverts, he, hfields]
    rfl
  · have hraises := raises_of_few hfive
    have hlength := h.raises.mp hraises
    obtain ⟨_, _, _, hraises⟩ := hraises
    rw [hraises, DagSchedules.expressionOf]
    · rfl
    · rintro _ _ _ _ _ hfields
      exact hlength (by rw [hfields]; rfl)

/-- The code parses a schedule by its fields exactly where the parts it counts are the fields,
and two such schedules with the same fields come to the same. -/
theorem parsesFields_iff (schedule : String) :
    (ParsesFields schedule ↔ CountsFields schedule) ∧
      ∀ schedule', CountsFields schedule → CountsFields schedule' →
        fieldsOf schedule = fieldsOf schedule' →
        (fromAirflowScheduleToAwsCron (.cron schedule)).toOption =
          (fromAirflowScheduleToAwsCron (.cron schedule')).toOption := by
  refine ⟨parsesFields_iff_countsFields schedule, fun schedule' h h' hfields => ?_⟩
  rw [((parsesFields_iff_countsFields _).mpr h).expressionOf,
    ((parsesFields_iff_countsFields _).mpr h').expressionOf, hfields]

end Convert

/-- With two blanks behind the minutes the last field is dropped. -/
theorem twoBlanks_not_parsed :
    fieldsOf "0  20 * * *" = fieldsOf "0 20 * * *" ∧ ¬ParsesFields "0  20 * * *" ∧
      fromAirflowScheduleToAwsCron (.cron "0  20 * * *") = .ok "cron(0  20 * ? *)" := by
  refine ⟨by decide, fun h => ?_, rfl⟩
  obtain ⟨mi, ho, dm, mo, dw, hfields, he⟩ := h.keeps _ rfl
  have hfive : fieldsOf "0  20 * * *" = [['0'], ['2', '0'], ['*'], ['*'], ['*']] := by decide
  rw [hfive] at hfields
  simp only [List.cons.injEq, and_true] at hfields
  obtain ⟨rfl, rfl, rfl, rfl, rfl⟩ := hfields
  exact absurd he (by decide)

end Beeflow.DagSchedules
