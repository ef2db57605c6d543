import Almanac.Calendar.Iso
import Almanac.Phrase.Restatement
import Almanac.Proofs.Calendar.UtcText
import Almanac.Proofs.Phrase.Interpretation
import Almanac.Proofs.Phrase.PlainText

/-!
# Dates that are written out

A date and a time of day can be written in several ways that are all read back: the phrase names the
time that was written, without its seconds, whatever the reference.
-/

namespace Almanac.Calendar.Wall

/-- The time of day, in whole minutes. -/
def clock (w : Wall) : Clock :=
  ⟨w.hour, w.minute, w.clock_lt.1, w.clock_lt.2.1⟩

/-- The time without its seconds. -/
def toMinute (w : Wall) : Wall :=
  ⟨w.ticks - w.ticks % Calendar.minute, Nat.lt_of_le_of_lt (Nat.sub_le ..) w.inRange⟩

theorem on_clock (w : Wall) : on w.date w.clock.time w.clock.time_lt = w.toMinute := by
  ext
  have ht := w.ticks_eq
  have hc := w.time_eq
  have hlt := w.clock_lt
  rw [ticks_on, index_date, Clock.time]
  simp only [toMinute, clock, day, Calendar.hour, Calendar.minute, Calendar.second] at *
  omega

end Almanac.Calendar.Wall

namespace Almanac.Phrase

open Calendar Text Shape

variable {t v : List Char} {c : Captures} {n : Nat}

/-! ### Ways of writing -/

/-- The hour on a clock with twelve hours. -/
def hour12 (x : Wall) : Nat :=
  if x.hour % 12 = 0 then 12 else x.hour % 12

/-- The half of the day. -/
def halfText (x : Wall) : List Char :=
  if x.hour < 12 then ['a', 'm'] else ['p', 'm']

/-- The time of day on a clock with twelve hours, in small letters. -/
def halfClockText (x : Wall) : List Char :=
  decimal (hour12 x) ++ ':' :: zeroPadded 2 x.minute ++ ' ' :: halfText x

/-- The time of day on a clock with 24 hours. -/
def dayClockText (x : Wall) : List Char :=
  zeroPadded 2 x.hour ++ ':' :: zeroPadded 2 x.minute

/-- A date with its month first. -/
def slashText (d : Date) : List Char :=
  decimal d.month ++ '/' :: decimal d.day ++ '/' :: zeroPadded 4 d.year

/-- Ways of writing a date and a time of day, as in `2024-01-15 at 3:05 PM`, `2024-01-15T15:05`,
    `1/15/2024 3:05 PM` and `on 1/15/2024 at 15:05`. -/
inductive DateStyle where
  | isoAt | isoT | slash | onSlashAt
  deriving DecidableEq, Repr

namespace DateStyle

/-- A date and a time of day as they are written, without the seconds. -/
def write (x : Wall) : DateStyle → List Char
  | isoAt     => x.date.text ++ " at ".toList ++ (clockText x).toList
  | isoT      => x.date.text ++ 'T' :: dayClockText x
  | slash     => slashText x.date ++ ' ' :: (clockText x).toList
  | onSlashAt => "on ".toList ++ slashText x.date ++ " at ".toList ++ dayClockText x

/-- The row to which a way of writing belongs. -/
def row : DateStyle → Row
  | isoAt     => .isoDate
  | isoT      => .isoDate
  | slash     => .slashDate
  | onSlashAt => .slashDate

end DateStyle

/-! ### Normal forms -/

theorem hour12_mem (x : Wall) : 1 ≤ hour12 x ∧ hour12 x ≤ 12 := by
  rw [hour12]
  split <;> omega

theorem toList_clockText (x : Wall) :
    (clockText x).toList = decimal (hour12 x) ++ ':' :: zeroPadded 2 x.minute ++
      ' ' :: if x.hour < 12 then ['A', 'M'] else ['P', 'M'] := by
  rw [clockText, String.toList_append, String.toList_ofList, hour12]
  by_cases h : x.hour < 12
  · simp [h]
  · simp [h]

theorem isPlainWord_dateText (d : Date) : IsPlainWord d.text :=
  ((isPlainWord_zeroPadded 3 d.year).append_cons (by decide)
    (isPlainWord_zeroPadded 1 d.month)).append_cons (by decide) (isPlainWord_zeroPadded 1 d.day)

theorem isPlainWord_slashText (d : Date) : IsPlainWord (slashText d) :=
  ((isPlainWord_decimal d.month).append_cons (by decide)
    (isPlainWord_decimal d.day)).append_cons (by decide) (isPlainWord_zeroPadded 3 d.year)

theorem isPlainWord_dayClockText (x : Wall) : IsPlainWord (dayClockText x) :=
  (isPlainWord_zeroPadded 1 x.hour).append_cons (by decide) (isPlainWord_zeroPadded 1 x.minute)

/-- The words of what is written. -/
def DateStyle.words (x : Wall) : DateStyle → List (List Char)
  | isoAt     => [x.date.text, ['a', 't'], decimal (hour12 x) ++ ':' :: zeroPadded 2 x.minute,
      if x.hour < 12 then ['A', 'M'] else ['P', 'M']]
  | isoT      => [x.date.text ++ 'T' :: dayClockText x]
  | slash     => [slashText x.date, decimal (hour12 x) ++ ':' :: zeroPadded 2 x.minute,
      if x.hour < 12 then ['A', 'M'] else ['P', 'M']]
  | onSlashAt => [['o', 'n'], slashText x.date, ['a', 't'], dayClockText x]

theorem write_eq_spaced (style : DateStyle) (x : Wall) :
    style.write x = spaced (style.words x) := by
  cases style <;> simp [DateStyle.write, DateStyle.words, toList_clockText]

theorem isPlainWord_of_mem_words (style : DateStyle) (x : Wall) :
    ∀ w ∈ style.words x, IsPlainWord w := by
  have hdate := isPlainWord_dateText x.date
  have hslash := isPlainWord_slashText x.date
  have hclock := isPlainWord_dayClockText x
  have hhour : IsPlainWord (decimal (hour12 x) ++ ':' :: zeroPadded 2 x.minute) :=
    (isPlainWord_decimal _).append_cons (by decide) (isPlainWord_zeroPadded 1 _)
  have hhalf : IsPlainWord (if x.hour < 12 then ['A', 'M'] else ['P', 'M']) := by
    split <;> decide
  have hat : IsPlainWord ['a', 't'] := by decide
  have hon : IsPlainWord ['o', 'n'] := by decide
  cases style with
  | isoAt => simp [DateStyle.words, hdate, hat, hhour, hhalf]
  | isoT =>
    have hT := hdate.append_cons (by decide : isPlain 'T' = true) hclock
    simpa [DateStyle.words] using hT
  | slash => simp [DateStyle.words, hslash, hhour, hhalf]
  | onSlashAt => simp [DateStyle.words, hon, hslash, hat, hclock]

theorem normalize_write (style : DateStyle) (x : Wall) :
    normalize (style.write x) = (style.write x).map lowerChar := by
  rw [write_eq_spaced, normalize_spaced (isPlainWord_of_mem_words style x)]

theorem lowerChar_marks :
    lowerChar '-' = '-' ∧ lowerChar '/' = '/' ∧ lowerChar ':' = ':' ∧ lowerChar ' ' = ' ' ∧
      lowerChar 'a' = 'a' ∧ lowerChar 't' = 't' ∧ lowerChar 'o' = 'o' ∧ lowerChar 'n' = 'n' ∧
        lowerChar 'T' = 't' := by
  decide

theorem map_lowerChar_dateText (d : Date) : d.text.map lowerChar = d.text := by
  simp [Date.text, lowerChar_marks]

theorem map_lowerChar_slashText (d : Date) : (slashText d).map lowerChar = slashText d := by
  simp [slashText, lowerChar_marks]

theorem map_lowerChar_dayClockText (x : Wall) :
    (dayClockText x).map lowerChar = dayClockText x := by
  simp [dayClockText, lowerChar_marks]

theorem map_lowerChar_clockText (x : Wall) :
    (clockText x).toList.map lowerChar = halfClockText x := by
  have hhalf : (if x.hour < 12 then ['A', 'M'] else ['P', 'M']).map lowerChar = halfText x := by
    rw [halfText]
    split
    · decide
    · decide
  simp [toList_clockText, halfClockText, lowerChar_marks, hhalf]

/-! ### Reading what is written -/

/-- The parts of a date that starts with its year. -/
def isoCaptures (d : Date) : Captures :=
  [(.year, zeroPadded 4 d.year), (.month, zeroPadded 2 d.month), (.day, zeroPadded 2 d.day)]

/-- The parts of a date that starts with its month. -/
def slashCaptures (d : Date) : Captures :=
  [(.month, decimal d.month), (.day, decimal d.day), (.year, zeroPadded 4 d.year)]

/-- The parts of a time of day on a clock with twelve hours. -/
def halfClockCaptures (x : Wall) : Captures :=
  [(.hour, decimal (hour12 x)), (.minute, zeroPadded 2 x.minute), (.meridiem, halfText x)]

/-- The parts of a time of day on a clock with 24 hours. -/
def dayClockCaptures (x : Wall) : Captures :=
  [(.hour, zeroPadded 2 x.hour), (.minute, zeroPadded 2 x.minute)]

/-- The parts that are kept of what is written. -/
def DateStyle.captures (x : Wall) : DateStyle → Captures
  | isoAt     => isoCaptures x.date ++ halfClockCaptures x
  | isoT      => isoCaptures x.date ++ dayClockCaptures x
  | slash     => slashCaptures x.date ++ halfClockCaptures x
  | onSlashAt => slashCaptures x.date ++ dayClockCaptures x

theorem reads_digits (f : Field) {least most : Nat} (h : IsDecimal t) (hl : least ≤ t.length)
    (hm : t.length ≤ most) : (digits f least (some most)).Reads t [(f, t)] :=
  .digits (fun _ => h.isDigit) hl (by simpa using hm)

theorem reads_decimal (f : Field) (h : n < 100) :
    (digits f 1 (some 2)).Reads (decimal n) [(f, decimal n)] :=
  reads_digits f (isDecimal_decimal n) (length_decimal_pos n) (length_decimal_le_iff.mpr h)

theorem reads_zeroPadded (f : Field) (width n : Nat) {least : Nat} (hl : least ≤ width) :
    (digits f least (some width)).Reads (zeroPadded width n) [(f, zeroPadded width n)] :=
  reads_digits f (isDecimal_zeroPadded width n) (by simpa using hl) (by simp)

theorem reads_minute (x : Wall) :
    (word ":" ++ digits .minute 2 (some 2)).Reads (':' :: zeroPadded 2 x.minute)
      [(.minute, zeroPadded 2 x.minute)] := by
  have hcolon : (word ":").Reads [':'] [] := .word (by decide)
  exact hcolon.andThen (reads_zeroPadded .minute 2 x.minute (Nat.le_refl 2))

theorem reads_halfText (x : Wall) :
    (oneOf .meridiem ["am", "pm"]).Reads (halfText x) [(.meridiem, halfText x)] := by
  rw [halfText]
  split
  · exact .oneOf (w := "am") (by decide) (by decide)
  · exact .oneOf (w := "pm") (by decide) (by decide)

theorem reads_halfClock (x : Wall) : clockShape.Reads (halfClockText x) (halfClockCaptures x) := by
  have hlt : hour12 x < 100 := Nat.lt_of_le_of_lt (hour12_mem x).2 (by decide)
  have h := (((reads_decimal .hour hlt).andThen (.taken (reads_minute x))).andThen
    reads_space).andThen (.taken (reads_halfText x))
  simpa [clockShape, halfClockText, halfClockCaptures] using h

theorem reads_dayClock (x : Wall) : clockShape.Reads (dayClockText x) (dayClockCaptures x) := by
  have hhour := reads_zeroPadded .hour 2 x.hour (Nat.le_succ 1)
  have hspace : space.Reads [] [] := .space (by simp)
  have hhalf : (optional (oneOf .meridiem ["am", "pm"])).Reads [] [] := .skipped
  have h := ((hhour.andThen (.taken (reads_minute x))).andThen hspace).andThen hhalf
  simpa [clockShape, dayClockText, dayClockCaptures] using h

theorem reads_isoDate (d : Date)
    (h : (optional (either (word "t") atShape ++ clockShape)).Reads t c) :
    Row.isoDate.shape.Reads (d.text ++ t) (isoCaptures d ++ c) := by
  have hon : (optional (word "on" ++ gap)).Reads [] [] := .skipped
  have hdash : (word "-").Reads ['-'] [] := .word (by decide)
  have hyear := reads_zeroPadded .year 4 d.year (Nat.le_refl 4)
  have hmonth := reads_zeroPadded .month 2 d.month (Nat.le_refl 2)
  have hday := reads_zeroPadded .day 2 d.day (Nat.le_refl 2)
  have hall := (((((hon.andThen hyear).andThen hdash).andThen hmonth).andThen hdash).andThen
    hday).andThen h
  simpa [Row.shape, Date.text, isoCaptures] using hall

theorem reads_slashDate (d : Date) (hv : (optional (word "on" ++ gap)).Reads v [])
    (h : (optional (atShape ++ clockShape)).Reads t c) :
    Row.slashDate.shape.Reads (v ++ slashText d ++ t) (slashCaptures d ++ c) := by
  have hday := d.day_le
  have hlast := (daysInMonth_mem d.year d.month_pos d.month_le).2
  have hslash : (word "/").Reads ['/'] [] := .word (by decide)
  have hyear := reads_zeroPadded .year 4 d.year (Nat.le_refl 4)
  have hmonth := reads_decimal .month (Nat.lt_of_le_of_lt d.month_le (by decide))
  have hday := reads_decimal .day (by omega : d.day < 100)
  have hall := (((((hv.andThen hmonth).andThen hslash).andThen hday).andThen hslash).andThen
    hyear).andThen h
  simpa [Row.shape, slashText, slashCaptures] using hall

theorem reads_at : atShape.Reads " at ".toList [] := by
  have hword : (word "at").Reads ['a', 't'] [] := .word (by decide)
  exact reads_gap.andThen (.taken (hword.andThen reads_gap))

/-- What is written is read by the row of its way of writing. -/
theorem reads_write (style : DateStyle) (x : Wall) :
    style.row.shape.Reads (normalize (style.write x)) (style.captures x) := by
  rw [normalize_write]
  cases style with
  | isoAt =>
    have h := reads_isoDate x.date (.taken ((Reads.right reads_at).andThen (reads_halfClock x)))
    simpa [DateStyle.write, DateStyle.row, DateStyle.captures, map_lowerChar_dateText,
      map_lowerChar_clockText, lowerChar_marks] using h
  | isoT =>
    have hT : (word "t").Reads ['t'] [] := .word (by decide)
    have h := reads_isoDate x.date (.taken ((Reads.left hT).andThen (reads_dayClock x)))
    simpa [DateStyle.write, DateStyle.row, DateStyle.captures, map_lowerChar_dateText,
      map_lowerChar_dayClockText, lowerChar_marks] using h
  | slash =>
    have hjust : atShape.Reads [' '] [] := reads_gap.andThen .skipped
    have h := reads_slashDate x.date .skipped (.taken (hjust.andThen (reads_halfClock x)))
    simpa [DateStyle.write, DateStyle.row, DateStyle.captures, map_lowerChar_slashText,
      map_lowerChar_clockText, lowerChar_marks] using h
  | onSlashAt =>
    have hon : (word "on").Reads ['o', 'n'] [] := .word (by decide)
    have h := reads_slashDate x.date (.taken (hon.andThen reads_gap))
      (.taken (reads_at.andThen (reads_dayClock x)))
    simpa [DateStyle.write, DateStyle.row, DateStyle.captures, map_lowerChar_slashText,
      map_lowerChar_dayClockText, lowerChar_marks] using h

/-! ### What the parts denote -/

theorem readClock_dayClock (x : Wall) : readClock x.hour x.minute none = .ok x.clock := by
  obtain ⟨hh, hm, -⟩ := x.clock_lt
  rw [readClock, dif_neg (by omega)]
  dsimp only [Option.filter_none]
  rw [dif_neg (by omega)]
  rfl

theorem halfDayHour_hour12 (x : Wall) :
    halfDayHour (if x.hour < 12 then "am" else "pm") (hour12 x) = x.hour := by
  have hall : ∀ h < 24, halfDayHour (if h < 12 then "am" else "pm")
      (if h % 12 = 0 then 12 else h % 12) = h := by
    decide
  exact hall x.hour x.clock_lt.1

theorem readClock_halfClock (x : Wall) :
    readClock (hour12 x) x.minute (some (String.ofList (halfText x))) = .ok x.clock := by
  obtain ⟨-, hm, -⟩ := x.clock_lt
  have hh := hour12_mem x
  have hhalf : String.ofList (halfText x) = if x.hour < 12 then "am" else "pm" := by
    rw [halfText]
    split
    · rfl
    · rfl
  have hlower : lowerString (if x.hour < 12 then "am" else "pm") =
      if x.hour < 12 then "am" else "pm" := by
    split
    · decide
    · decide
  have hne : (if x.hour < 12 then "am" else "pm") ≠ "" := by
    split
    · decide
    · decide
  have hclock := halfDayHour_hour12 x
  rw [readClock, dif_neg (by omega), hhalf, Option.filter_some, if_pos (by simpa using hne)]
  simp only [hlower]
  rw [dif_neg (by omega)]
  simpa [Wall.clock] using hclock

theorem clock_halfClock {row : Row} {x : Wall} {otherwise : Option Clock} (hrow : row.HasClock)
    (hh : c.lookup .hour = some (decimal (hour12 x))) (hm : numberAt c .minute = x.minute)
    (hhalf : c.lookup .meridiem = some (halfText x)) :
    Reading.clock ⟨row, c⟩ otherwise = .ok x.clock := by
  rw [clock_of_lookup_eq_some hrow hh, hm, hhalf, digitsValue_decimal, Option.map_some,
    readClock_halfClock]
  rfl

theorem clock_dayClock {row : Row} {x : Wall} {otherwise : Option Clock} (hrow : row.HasClock)
    (hh : c.lookup .hour = some (zeroPadded 2 x.hour)) (hm : numberAt c .minute = x.minute)
    (hhalf : c.lookup .meridiem = none) : Reading.clock ⟨row, c⟩ otherwise = .ok x.clock := by
  have hlt : x.hour < 10 ^ 2 := Nat.lt_trans x.clock_lt.1 (by decide)
  rw [clock_of_lookup_eq_some hrow hh, hm, hhalf, digitsValue_zeroPadded hlt, Option.map_none,
    readClock_dayClock]
  rfl

theorem numberAt_captures (style : DateStyle) (x : Wall) :
    numberAt (style.captures x) .year = x.date.year ∧
      numberAt (style.captures x) .month = x.date.month ∧
        numberAt (style.captures x) .day = x.date.day ∧
          numberAt (style.captures x) .minute = x.minute := by
  obtain ⟨hy, hm, hd⟩ := x.date_lt
  have hmin : x.minute < 10 ^ 2 := Nat.lt_trans x.clock_lt.2.1 (by decide)
  have hyear : digitsValue (zeroPadded 4 x.date.year) = x.date.year := digitsValue_zeroPadded hy
  have hminute := digitsValue_zeroPadded hmin
  cases style with
  | isoAt => exact ⟨hyear, digitsValue_zeroPadded hm, digitsValue_zeroPadded hd, hminute⟩
  | isoT => exact ⟨hyear, digitsValue_zeroPadded hm, digitsValue_zeroPadded hd, hminute⟩
  | slash => exact ⟨hyear, digitsValue_decimal _, digitsValue_decimal _, hminute⟩
  | onSlashAt => exact ⟨hyear, digitsValue_decimal _, digitsValue_decimal _, hminute⟩

/-- The date and the time of day that are read are those that were written. -/
theorem resolve_write (style : DateStyle) (x : Wall) (now : Instant) :
    Reading.resolve ⟨style.row, style.captures x⟩ now = .ok ⟨x.toMinute, now.frame, false⟩ := by
  obtain ⟨hyear, hmonth, hday, hminute⟩ := numberAt_captures style x
  have hrow : style.row.shape.requires .year = true := by
    cases style <;> rfl
  have hrule : style.row.rule = .explicitDate := by
    cases style <;> rfl
  obtain ⟨hclock, hfm, hfd, -⟩ := Row.of_requires_year hrow
  have hk : Reading.clock ⟨style.row, style.captures x⟩ (some dayTime) = .ok x.clock := by
    cases style with
    | isoAt => exact clock_halfClock hclock rfl hminute rfl
    | isoT => exact clock_dayClock hclock rfl hminute rfl
    | slash => exact clock_halfClock hclock rfl hminute rfl
    | onSlashAt => exact clock_dayClock hclock rfl hminute rfl
  rw [Reading.resolve, hrule, Rule.resolve, Rule.explicitDateOf, hk,
    number_eq (mem_fields_of_requires hrow), number_eq hfm, number_eq hfd, hyear, hmonth, hday]
  simp only [bind, Except.bind, Date.make_self, x.on_clock]

/-- A date and a time of day that are written in any of these ways are understood for every
    reference, as the same time without its seconds in the frame of the reference. -/
theorem interpret_write (style : DateStyle) (x : Wall) (now : Instant) :
    ∃ words, interpret Row.all (style.write x) now =
      .ok (.resolved style.row.category ⟨x.toMinute, now.frame, false⟩ words) := by
  rw [interpret_of_reads (reads_write style x)]
  exact interpret_of_resolve (resolve_write style x now) rfl

end Almanac.Phrase
