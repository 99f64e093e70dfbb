import Beeflow.Lib.Cron
import Beeflow.DagSchedules.Updater

/-!
# The meaning of a schedule and of its rule

Airflow's schedules and EventBridge's expressions share the fields up to the
month. They number the weekdays differently, and an expression restricts the
day of the month or the weekday, never both. The conversion keeps the meaning
exactly where the schedule leaves the weekday open.
-/

namespace Beeflow.DagSchedules

open Python

-- ---------------------------------------------------------------------------
-- Moments
-- ---------------------------------------------------------------------------

def isLeap (year : Nat) : Bool := year % 4 = 0 && (year % 100 ≠ 0 || year % 400 = 0)

def daysInMonth (year : Nat) : Nat → Nat
  | 2 => if isLeap year then 29 else 28
  | 4 | 6 | 9 | 11 => 30
  | _ => 31

/-- A minute of the calendar. -/
structure Moment where
  year : Nat
  month : Nat
  day : Nat
  hour : Nat
  minute : Nat
  month_valid : 1 ≤ month ∧ month ≤ 12
  day_valid : 1 ≤ day ∧ day ≤ daysInMonth year month
  hour_valid : hour < 24
  minute_valid : minute < 60

/-- The weekday in the Gregorian calendar; 0 is Sunday. -/
def Moment.weekday (m : Moment) : Nat :=
  let year := if m.month < 3 then m.year - 1 else m.year
  let shift := [0, 3, 2, 5, 0, 3, 5, 1, 4, 6, 2, 4].getD (m.month - 1) 0
  (year + year / 4 - year / 100 + year / 400 + shift + m.day) % 7

example :
    (Moment.mk 2022 12 18 19 28 (by decide) (by decide) (by decide) (by decide)).weekday = 0 := rfl

-- ---------------------------------------------------------------------------
-- Airflow's schedules
-- ---------------------------------------------------------------------------

/-- The weekdays run from 0, Sunday, to 6, and 7 is Sunday too. -/
def OnWeekday (dayWeek : Cron.Field) (weekday : Nat) : Prop :=
  dayWeek.Matches weekday ∨ weekday = 0 ∧ dayWeek.Matches 7

instance (dayWeek : Cron.Field) (weekday : Nat) : Decidable (OnWeekday dayWeek weekday) :=
  inferInstanceAs (Decidable (_ ∨ _ ∧ _))

/-- A five-field schedule. A day field that selects every day counts as `*`. -/
structure AirflowCron where
  minutes : Cron.Field
  hours : Cron.Field
  dayMonth : Cron.Field
  month : Cron.Field
  dayWeek : Cron.Field
  everyDayMonth : Bool
  everyDayWeek : Bool
  deriving DecidableEq, Repr

def AirflowCron.parse (schedule : String) : Option AirflowCron :=
  match schedule.toList.splitOn ' ' with
  | [minutes, hours, dayMonth, month, dayWeek] => do
    let minutes ← Cron.parse 0 59 minutes
    let hours ← Cron.parse 0 23 hours
    let dayMonth ← Cron.parse 1 31 dayMonth
    let month ← Cron.parse 1 12 month
    let dayWeek ← Cron.parse 0 7 dayWeek
    let everyDayMonth := (List.range' 1 31).all fun day => dayMonth.Matches day
    let everyDayWeek := (List.range 7).all fun weekday => OnWeekday dayWeek weekday
    return { minutes, hours, dayMonth, month, dayWeek, everyDayMonth, everyDayWeek }
  | _ => none

example : (AirflowCron.parse "0 20 1-31 * 1").map (·.everyDayMonth) = some true := by decide

/-- Where both day fields are restricted, one of them is enough. -/
def AirflowCron.OnDay (c : AirflowCron) (m : Moment) : Prop :=
  if c.everyDayMonth ∨ c.everyDayWeek then
    c.dayMonth.Matches m.day ∧ OnWeekday c.dayWeek m.weekday
  else c.dayMonth.Matches m.day ∨ OnWeekday c.dayWeek m.weekday

def AirflowCron.Fires (c : AirflowCron) (m : Moment) : Prop :=
  c.minutes.Matches m.minute ∧ c.hours.Matches m.hour ∧ c.month.Matches m.month ∧ c.OnDay m

-- ---------------------------------------------------------------------------
-- EventBridge's expressions
-- ---------------------------------------------------------------------------

/-- An expression without names of months and weekdays and without `L`, `W` and `#`. A day
field is missing where it is `?`, and the year where it is `*`. Weekdays run from 1, Sunday. -/
structure AwsCron where
  minutes : Cron.Field
  hours : Cron.Field
  dayMonth : Option Cron.Field
  month : Cron.Field
  dayWeek : Option Cron.Field
  year : Option Cron.Field
  oneDay : dayMonth.isNone ≠ dayWeek.isNone

/-- A field that is left out where it is the mark. -/
def parseUnless (mark : Char) (lo hi : Nat) (cs : List Char) : Option (Option Cron.Field) :=
  if cs = [mark] then some none else (Cron.parse lo hi cs).map some

def AwsCron.parseFields : List (List Char) → Option AwsCron
  | [minutes, hours, dayMonth, month, dayWeek, year] => do
    let minutes ← Cron.parse 0 59 minutes
    let hours ← Cron.parse 0 23 hours
    let dayMonth ← parseUnless '?' 1 31 dayMonth
    let month ← Cron.parse 1 12 month
    let dayWeek ← parseUnless '?' 1 7 dayWeek
    let year ← parseUnless '*' 1970 2199 year
    if h : dayMonth.isNone ≠ dayWeek.isNone then
      some ⟨minutes, hours, dayMonth, month, dayWeek, year, h⟩
    else none
  | _ => none

def AwsCron.parse (expression : String) : Option AwsCron :=
  if ['c', 'r', 'o', 'n', '('] <+: expression.toList ∧ expression.toList.getLast? = some ')' then
    AwsCron.parseFields ((expression.toList.drop 5).dropLast.splitOn ' ')
  else none

def AwsCron.Fires (c : AwsCron) (m : Moment) : Prop :=
  c.minutes.Matches m.minute ∧ c.hours.Matches m.hour ∧ c.month.Matches m.month ∧
    (∀ f ∈ c.dayMonth, f.Matches m.day) ∧ (∀ f ∈ c.dayWeek, f.Matches (m.weekday + 1)) ∧
      ∀ f ∈ c.year, f.Matches m.year

-- ---------------------------------------------------------------------------
-- Keeping the meaning
-- ---------------------------------------------------------------------------

def Equivalent (c : AwsCron) (a : AirflowCron) : Prop := ∀ m, c.Fires m ↔ a.Fires m

/-- The conversion gives an expression that EventBridge takes and that fires when the
schedule does, or raises where there is none. -/
def KeepsMeaning (schedule : String) (a : AirflowCron) : Prop :=
  match fromAirflowScheduleToAwsCron (.cron schedule) with
  | .ok expression => ∃ c, AwsCron.parse expression = some c ∧ Equivalent c a
  | .error e => (∃ before value after, e = .valueError before value after) ∧
      ¬∃ expression c, AwsCron.parse expression = some c ∧ Equivalent c a

-- ---------------------------------------------------------------------------
-- The fields of a schedule
-- ---------------------------------------------------------------------------

/-- The five fields of a schedule that parses, and what each parses to. -/
structure Split (schedule : String) (a : AirflowCron)
    (minutes hours dayMonth month dayWeek : List Char) : Prop where
  fields : schedule.toList.splitOn ' ' = [minutes, hours, dayMonth, month, dayWeek]
  parseMinutes : Cron.parse 0 59 minutes = some a.minutes
  parseHours : Cron.parse 0 23 hours = some a.hours
  parseDayMonth : Cron.parse 1 31 dayMonth = some a.dayMonth
  parseMonth : Cron.parse 1 12 month = some a.month
  parseDayWeek : Cron.parse 0 7 dayWeek = some a.dayWeek
  every : a.everyDayWeek = (List.range 7).all fun weekday => OnWeekday a.dayWeek weekday

theorem AirflowCron.split {schedule : String} {a : AirflowCron}
    (h : AirflowCron.parse schedule = some a) :
    ∃ minutes hours dayMonth month dayWeek,
      Split schedule a minutes hours dayMonth month dayWeek := by
  unfold AirflowCron.parse at h
  split at h
  · rename_i minutes hours dayMonth month dayWeek hfields
    obtain ⟨mi, hmi, h⟩ := Option.bind_eq_some_iff.mp h
    obtain ⟨ho, hho, h⟩ := Option.bind_eq_some_iff.mp h
    obtain ⟨dm, hdm, h⟩ := Option.bind_eq_some_iff.mp h
    obtain ⟨mo, hmo, h⟩ := Option.bind_eq_some_iff.mp h
    obtain ⟨dw, hdw, h⟩ := Option.bind_eq_some_iff.mp h
    obtain rfl := Option.some.inj h
    exact ⟨minutes, hours, dayMonth, month, dayWeek, hfields, hmi, hho, hdm, hmo, hdw, rfl⟩
  · cases h

theorem not_fieldChar {c : Char} (h : c ∈ [' ', '?', '"', '\\']) : ¬Cron.FieldChar c := by
  simp only [List.mem_cons, List.not_mem_nil, or_false] at h
  rcases h with rfl | rfl | rfl | rfl <;> simp [Cron.FieldChar]

section Converted

variable {schedule : String} {a : AirflowCron} {minutes hours dayMonth month dayWeek : List Char}

theorem Split.fieldChars (h : Split schedule a minutes hours dayMonth month dayWeek) :
    ∀ field ∈ [minutes, hours, dayMonth, month, dayWeek], ∀ c ∈ field, Cron.FieldChar c := by
  simp only [List.forall_mem_cons]
  exact ⟨Cron.parse_chars h.parseMinutes, Cron.parse_chars h.parseHours,
    Cron.parse_chars h.parseDayMonth, Cron.parse_chars h.parseMonth,
    Cron.parse_chars h.parseDayWeek, by simp⟩

theorem removeChar_of_not_mem {c : Char} {cs : List Char} (h : c ∉ cs) : removeChar c cs = cs :=
  List.filter_eq_self.mpr fun d hd => by simpa using fun he : d = c => h (he ▸ hd)

/-- Quotes and backslashes do not occur, so the code splits at the same places. -/
theorem Split.converted (h : Split schedule a minutes hours dayMonth month dayWeek) :
    fromAirflowScheduleToAwsCron (.cron schedule) =
      .ok (awsExpression [minutes, hours, dayMonth, month, starsToMarks dayWeek, ['*']]) := by
  have hchars : ∀ c ∈ schedule.toList, c = ' ' ∨ Cron.FieldChar c := by
    refine Cron.mem_of_splitOn (x := ' ') (.inl rfl) ?_
    rw [h.fields]
    exact fun field hfield c hc => .inr (h.fieldChars field hfield c hc)
  have hquote : '"' ∉ schedule.toList := fun hmem =>
    (hchars _ hmem).elim (by decide) (not_fieldChar (by simp))
  have hslash : '\\' ∉ schedule.toList := fun hmem =>
    (hchars _ hmem).elim (by decide) (not_fieldChar (by simp))
  simp only [fromAirflowScheduleToAwsCron, removeChar_of_not_mem hquote,
    removeChar_of_not_mem hslash, h.fields]

theorem AwsCron.parse_awsExpression {fields : List (List Char)} (hne : fields ≠ [])
    (hspace : ∀ field ∈ fields, ' ' ∉ field) :
    AwsCron.parse (awsExpression fields) = AwsCron.parseFields fields := by
  have hlist : (awsExpression fields).toList =
      ['c', 'r', 'o', 'n', '('] ++ ([' '].intercalate fields ++ [')']) := by
    rw [awsExpression, String.toList_ofList, List.append_assoc]
  have hlast : (['c', 'r', 'o', 'n', '('] ++ ([' '].intercalate fields ++ [')'])).getLast? =
      some ')' := by
    rw [← List.append_assoc, List.getLast?_concat]
  have hdrop : (['c', 'r', 'o', 'n', '('] ++ ([' '].intercalate fields ++ [')'])).drop 5 =
      [' '].intercalate fields ++ [')'] := rfl
  rw [AwsCron.parse, hlist, if_pos ⟨List.prefix_append _ _, hlast⟩, hdrop, List.dropLast_concat,
    List.splitOn_intercalate ' ' hspace hne]

theorem space_not_mem_starsToMarks {cs : List Char} (h : ' ' ∉ cs) : ' ' ∉ starsToMarks cs := by
  intro hmem
  obtain ⟨c, hc, he⟩ := List.mem_map.mp hmem
  split_ifs at he with hstar
  · cases he
  · exact h (he ▸ hc)

theorem starsToMarks_eq_mark {cs : List Char} (hchars : ∀ c ∈ cs, Cron.FieldChar c) :
    starsToMarks cs = ['?'] ↔ cs = ['*'] := by
  constructor
  · intro h
    obtain ⟨c, rfl, he⟩ := List.map_eq_singleton_iff.mp h
    split_ifs at he with hstar
    · rw [hstar]
    · exact absurd (hchars c List.mem_cons_self) (not_fieldChar (by simp [he]))
  · rintro rfl
    rfl

theorem Split.parse_converted (h : Split schedule a minutes hours dayMonth month dayWeek) :
    AwsCron.parse (awsExpression [minutes, hours, dayMonth, month, starsToMarks dayWeek, ['*']]) =
      AwsCron.parseFields [minutes, hours, dayMonth, month, starsToMarks dayWeek, ['*']] := by
  have hspace : ∀ field ∈ [minutes, hours, dayMonth, month, dayWeek], ' ' ∉ field :=
    fun field hfield hmem => not_fieldChar (by simp) (h.fieldChars field hfield _ hmem)
  refine AwsCron.parse_awsExpression (by simp) ?_
  simp only [List.forall_mem_cons] at hspace ⊢
  obtain ⟨hmi, hho, hdm, hmo, hdw, -⟩ := hspace
  exact ⟨hmi, hho, hdm, hmo, space_not_mem_starsToMarks hdw, by decide, by simp⟩

theorem Split.dayMonth_ne (h : Split schedule a minutes hours dayMonth month dayWeek) :
    dayMonth ≠ ['?'] := by
  rintro rfl
  exact not_fieldChar (by simp) (Cron.parse_chars h.parseDayMonth '?' (by simp))

/-- The expression with the same fields that leaves the weekday out. -/
def AirflowCron.withoutWeekday (a : AirflowCron) : AwsCron where
  minutes := a.minutes
  hours := a.hours
  dayMonth := some a.dayMonth
  month := a.month
  dayWeek := none
  year := none
  oneDay := by simp

theorem parseUnless_of_ne {mark : Char} {lo hi : Nat} {cs : List Char} (h : cs ≠ [mark]) :
    parseUnless mark lo hi cs = (Cron.parse lo hi cs).map some := if_neg h

/-- With the weekday open, the day of the month is the one day field. -/
theorem Split.parse_open (h : Split schedule a minutes hours dayMonth month dayWeek)
    (hopen : dayWeek = ['*']) :
    AwsCron.parseFields [minutes, hours, dayMonth, month, starsToMarks dayWeek, ['*']] =
      some a.withoutWeekday := by
  subst hopen
  simp [AwsCron.parseFields, h.parseMinutes, h.parseHours, h.parseMonth, h.parseDayMonth,
    h.dayMonth_ne, starsToMarks, parseUnless, AirflowCron.withoutWeekday]

/-- With the weekday restricted, neither day field is left out. -/
theorem Split.parse_restricted (h : Split schedule a minutes hours dayMonth month dayWeek)
    (hrestricted : dayWeek ≠ ['*']) :
    AwsCron.parseFields [minutes, hours, dayMonth, month, starsToMarks dayWeek, ['*']] = none := by
  have hmark : starsToMarks dayWeek ≠ ['?'] :=
    fun he => hrestricted ((starsToMarks_eq_mark (Cron.parse_chars h.parseDayWeek)).mp he)
  simp only [AwsCron.parseFields, h.parseMinutes, h.parseHours, h.parseMonth,
    parseUnless_of_ne h.dayMonth_ne, h.parseDayMonth, parseUnless_of_ne hmark]
  cases Cron.parse 1 7 (starsToMarks dayWeek) with
  | none => rfl
  | some f => simp [parseUnless]

theorem Moment.weekday_lt (m : Moment) : m.weekday < 7 := Nat.mod_lt _ (by decide)

theorem Split.everyWeekday (h : Split schedule a minutes hours dayMonth month dayWeek)
    (hopen : dayWeek = ['*']) {weekday : Nat} (hweekday : weekday < 7) :
    OnWeekday a.dayWeek weekday := by
  have hall : a.dayWeek = [⟨0, 7, 1⟩] := by
    have hparse := h.parseDayWeek
    rw [hopen] at hparse
    exact Option.some.inj (hparse.symm.trans (by decide))
  exact .inl ⟨_, hall ▸ List.mem_singleton_self _, Nat.zero_le _, hweekday.le, Nat.mod_one _⟩

theorem Split.equivalent (h : Split schedule a minutes hours dayMonth month dayWeek)
    (hopen : dayWeek = ['*']) : Equivalent a.withoutWeekday a := by
  intro m
  have hevery : a.everyDayWeek = true := by
    rw [h.every, List.all_eq_true]
    exact fun weekday hmem => decide_eq_true (h.everyWeekday hopen (List.mem_range.mp hmem))
  have hday : a.OnDay m ↔ a.dayMonth.Matches m.day := by
    rw [AirflowCron.OnDay, if_pos (.inr hevery),
      and_iff_left (h.everyWeekday hopen m.weekday_lt)]
  simp [AwsCron.Fires, AirflowCron.Fires, hday, AirflowCron.withoutWeekday]

end Converted

/-- The conversion keeps the meaning of the schedules that leave the weekday open. -/
theorem keepsMeaning_iff {schedule : String} {a : AirflowCron}
    (h : AirflowCron.parse schedule = some a) :
    KeepsMeaning schedule a ↔ (schedule.toList.splitOn ' ')[4]? = some ['*'] := by
  obtain ⟨minutes, hours, dayMonth, month, dayWeek, hsplit⟩ := AirflowCron.split h
  have hfield : (schedule.toList.splitOn ' ')[4]? = some dayWeek := by rw [hsplit.fields]; rfl
  rw [hfield, Option.some.injEq]
  unfold KeepsMeaning
  rw [hsplit.converted]
  constructor
  · rintro ⟨c, hc, -⟩
    by_contra hrestricted
    rw [hsplit.parse_converted, hsplit.parse_restricted hrestricted] at hc
    cases hc
  · intro hopen
    refine ⟨_, ?_, hsplit.equivalent hopen⟩
    rw [hsplit.parse_converted, hsplit.parse_open hopen]

theorem keepsMeaning_iff_evening :
    KeepsMeaning "0 20 * * *" ⟨[⟨0, 0, 1⟩], [⟨20, 20, 1⟩], [⟨1, 31, 1⟩], [⟨1, 12, 1⟩],
        [⟨0, 7, 1⟩], true, true⟩ ↔
      ("0 20 * * *".toList.splitOn ' ')[4]? = some ['*'] :=
  keepsMeaning_iff (by decide)

/-- Mondays at eight in the evening: neither day field of the expression is `?`. -/
theorem mondays_not_kept : AirflowCron.parse "0 20 * * 1" = some ⟨[⟨0, 0, 1⟩], [⟨20, 20, 1⟩],
      [⟨1, 31, 1⟩], [⟨1, 12, 1⟩], [⟨1, 1, 1⟩], true, false⟩ ∧
    ¬KeepsMeaning "0 20 * * 1" ⟨[⟨0, 0, 1⟩], [⟨20, 20, 1⟩], [⟨1, 31, 1⟩], [⟨1, 12, 1⟩],
      [⟨1, 1, 1⟩], true, false⟩ := by
  refine ⟨by decide, ?_⟩
  rintro ⟨c, hc, -⟩
  have hnone : (AwsCron.parse "cron(0 20 * * 1 *)").isNone := by decide
  have hc : AwsCron.parse "cron(0 20 * * 1 *)" = some c := hc
  simp [hc] at hnone

end Beeflow.DagSchedules
