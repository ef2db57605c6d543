import Almanac.Proofs.Phrase.DateText
import Almanac.Proofs.Phrase.Window

/-!
# What the words for an instant say

Words begin in one of three ways: for a time within a day, for one in the day after that, and for any
other with its date. The second is called tomorrow, whether or not midnight lies once in between.

The words leave out the year, the half of the day is two letters, and what is less than a minute is
dropped. Among the whole minutes that are acceptable they tell one time from another none the less:
within each of the first two ways the time of day is enough, and within a year the date is.
-/

namespace Almanac.Calendar.Wall

variable {v w : Wall}

/-- A time without seconds. -/
def IsWholeMinute (w : Wall) : Prop :=
  w.second = 0 ∧ w.microsecond = 0

instance (w : Wall) : Decidable w.IsWholeMinute := inferInstanceAs (Decidable (_ ∧ _))

theorem IsWholeMinute.time_eq (h : w.IsWholeMinute) : w.time = w.clock.time := by
  have htime := w.time_eq
  rw [h.1, h.2] at htime
  exact htime.symm

/-- Two times of one time of day that are less than a day apart are the same. -/
theorem eq_of_time_eq (h : v.time = w.time) (hv : v.ticks < w.ticks + day)
    (hw : w.ticks < v.ticks + day) : v = w := by
  have htv := v.ticks_eq
  have htw := w.ticks_eq
  ext
  rw [show day = 86400000000 from rfl] at *
  omega

theorem dayIndex_lt_of_dayAhead (h : w.ticks + day ≤ v.ticks) : w.dayIndex < v.dayIndex := by
  have htv := v.ticks_eq
  have htw := w.ticks_eq
  have hlv := v.time_lt
  rw [show day = 86400000000 from rfl] at *
  omega

/-- What lies a whole day ahead is on the next day, or on the day after that if its time of day is
    earlier. -/
theorem dayIndex_of_dayAhead (h : w.ticks + day ≤ v.ticks) (h' : v.ticks < w.ticks + 2 * day) :
    v.dayIndex = w.dayIndex + if w.time ≤ v.time then 1 else 2 := by
  have htv := v.ticks_eq
  have htw := w.ticks_eq
  have hlv := v.time_lt
  have hlw := w.time_lt
  rw [show day = 86400000000 from rfl] at *
  split <;> omega

end Almanac.Calendar.Wall

namespace Almanac.Phrase

open Calendar Text

variable {v w : Wall} {d e : Int} {text : List Char} {category : Category} {now i a b : Instant}
  {words : String}

/-! ### Parts of the words -/

/-- What stands before a mark and after it is told apart by the mark, if it does not occur before. -/
theorem append_cons_inj {x : Char} {s t s' t' : List Char} (hs : x ∉ s) (ht : x ∉ t)
    (h : s ++ x :: s' = t ++ x :: t') : s = t ∧ s' = t' := by
  induction s generalizing t with
  | nil =>
    cases t with
    | nil => exact ⟨rfl, (List.cons.inj h).2⟩
    | cons y t => exact absurd ((List.cons.inj h).1 ▸ List.mem_cons_self ..) ht
  | cons y s ih =>
    cases t with
    | nil => exact absurd ((List.cons.inj h).1 ▸ List.mem_cons_self ..) hs
    | cons z t =>
      obtain ⟨rfl, htail⟩ := List.cons.inj h
      obtain ⟨rfl, hrest⟩ := ih (fun hx => hs (List.mem_cons_of_mem y hx))
        (fun hx => ht (List.mem_cons_of_mem y hx)) htail
      exact ⟨rfl, hrest⟩

theorem not_mem_decimal {x : Char} (hx : isDigit x = false) (n : Nat) : x ∉ decimal n := by
  intro h
  rw [(isDecimal_decimal n).isDigit h] at hx
  cases hx

/-- The clock is told without loss, but for seconds. -/
theorem clock_eq_of_clockText_eq (h : clockText v = clockText w) : v.clock = w.clock := by
  have hlist := congrArg String.toList h
  rw [toList_clockText, toList_clockText, List.append_assoc, List.append_assoc, List.cons_append,
    List.cons_append] at hlist
  have hcolon (n : Nat) : ':' ∉ decimal n := not_mem_decimal (by decide) n
  obtain ⟨hhour, hlist⟩ := append_cons_inj (hcolon _) (hcolon _) hlist
  obtain ⟨hminute, hhalf⟩ := List.append_inj hlist (by simp)
  have hhour : hour12 v = hour12 w := by
    rw [← digitsValue_decimal (hour12 v), hhour, digitsValue_decimal]
  have hpm : v.hour < 12 ↔ w.hour < 12 := by
    by_cases hv : v.hour < 12 <;> by_cases hw : w.hour < 12 <;> simp [hv, hw] at hhalf ⊢
  have hhour : v.hour = w.hour := by
    rw [← halfDayHour_hour12 v, ← halfDayHour_hour12 w, hhour]
    simp only [hpm]
  have hlt (x : Wall) : x.minute < 10 ^ 2 := Nat.lt_trans x.clock_lt.2.1 (by decide)
  have hminute : v.minute = w.minute := by
    rw [← digitsValue_zeroPadded (hlt v), hminute, digitsValue_zeroPadded (hlt w)]
  simp only [Wall.clock, hhour, hminute]

/-- The words for a time with its date. -/
def datedText (w : Wall) : String :=
  longDateText w ++ " at " ++ clockText w

theorem toList_datedText (w : Wall) :
    (datedText w).toList = (longWeekdays.getD w.weekday "").toList ++ ',' :: ' ' ::
      ((shortMonths.getD (w.date.month - 1) "").toList ++ ' ' ::
        (decimal w.date.day ++ ' ' :: 'a' :: 't' :: ' ' :: (clockText w).toList)) := by
  simp [datedText, longDateText]

/-- The date is told without loss, but for the year. -/
theorem of_datedText_eq (h : datedText v = datedText w) :
    v.date.month = w.date.month ∧ v.date.day = w.date.day ∧ clockText v = clockText w := by
  have hlist := congrArg String.toList h
  rw [toList_datedText, toList_datedText] at hlist
  have hweekday : ∀ n < 7, ',' ∉ (longWeekdays.getD n "").toList := by decide
  have hspace : ∀ n < 12, ' ' ∉ (shortMonths.getD n "").toList := by decide
  have hmonths : ∀ m < 12, ∀ n < 12, (shortMonths.getD m "").toList = (shortMonths.getD n "").toList →
      m = n := by decide
  have hlt (x : Wall) : x.weekday < 7 := Nat.mod_lt _ (by decide)
  have hmonth (x : Wall) : x.date.month - 1 < 12 := by
    have := x.date.month_le
    omega
  have hdigit (n : Nat) : ' ' ∉ decimal n := not_mem_decimal (by decide) n
  obtain ⟨-, hlist⟩ := append_cons_inj (hweekday _ (hlt v)) (hweekday _ (hlt w)) hlist
  obtain ⟨hm, hlist⟩ := append_cons_inj (hspace _ (hmonth v)) (hspace _ (hmonth w))
    (List.cons.inj hlist).2
  obtain ⟨hd, hlist⟩ := append_cons_inj (hdigit _) (hdigit _) hlist
  refine ⟨?_, ?_, ?_⟩
  · have hm := hmonths _ (hmonth v) _ (hmonth w) hm
    have := v.date.month_pos
    have := w.date.month_pos
    omega
  · rw [← digitsValue_decimal v.date.day, hd, digitsValue_decimal]
  · exact String.toList_injective (by simpa using hlist)

/-! ### Ways of telling -/

theorem minutes_lt_iff : 0 ≤ d / minute ∧ d / minute < 60 ↔ 0 ≤ d ∧ d < hour := by
  rw [show (minute : Int) = 60000000 from rfl, show (hour : Int) = 3600000000 from rfl]
  omega

theorem hours_lt_iff : 0 ≤ d / minute / 60 ∧ d / minute / 60 < 24 ↔ 0 ≤ d ∧ d < day := by
  rw [show (minute : Int) = 60000000 from rfl, show (day : Int) = 86400000000 from rfl]
  omega

theorem days_eq_one_iff : d / minute / 60 / 24 = 1 ↔ day ≤ d ∧ d < 2 * day := by
  rw [show (minute : Int) = 60000000 from rfl, show (day : Int) = 86400000000 from rfl]
  omega

/-- What stands before the clock of a time within a day, which is in brackets. -/
def leadText (d : Int) : String :=
  if d < hour then s!"In {d / minute} minutes " else s!"In {d / minute / 60} hours "

theorem leadText_spec (h : 0 ≤ d) (h' : d < day) :
    '(' ∉ (leadText d).toList ∧ ['I', 'n'] <+: (leadText d).toList := by
  have hnumber : ∀ n < 60, '(' ∉ ((n : Nat) : Int).repr.toList := by decide
  have hlead (n : Nat) (hn : n < 60) (unit : String) (hunit : '(' ∉ unit.toList) :
      '(' ∉ s!"In {(n : Int)}{unit}".toList ∧ ['I', 'n'] <+: s!"In {(n : Int)}{unit}".toList := by
    have hin : (toString "In ").toList = ['I', 'n', ' '] := rfl
    have hunit : '(' ∉ (toString unit).toList := hunit
    constructor
    · simp [hin, hnumber n hn, hunit]
    · simp [hin]
  rw [leadText]
  split
  · next hd =>
    obtain ⟨h₁, h₂⟩ := minutes_lt_iff.mpr ⟨h, hd⟩
    obtain ⟨n, hn⟩ := Int.eq_ofNat_of_zero_le h₁
    rw [hn] at h₂ ⊢
    exact hlead n (by omega) " minutes " (by decide)
  · obtain ⟨h₁, h₂⟩ := hours_lt_iff.mpr ⟨h, h'⟩
    obtain ⟨n, hn⟩ := Int.eq_ofNat_of_zero_le h₁
    rw [hn] at h₂ ⊢
    exact hlead n (by omega) " hours " (by decide)

theorem toList_restateAt_of_lt_day (h : 0 ≤ d) (h' : d < day) :
    (restateAt w d).toList = (leadText d).toList ++ '(' :: ((clockText w).toList ++ [')']) := by
  simp only [restateAt, minutes_lt_iff, hours_lt_iff, leadText]
  by_cases hd : d < hour
  · rw [if_pos ⟨h, hd⟩, if_pos hd]
    simp
    rfl
  · rw [if_neg fun hn => hd hn.2, if_pos ⟨h, h'⟩, if_neg hd]
    simp
    rfl

theorem restateAt_of_dayAhead (h : day ≤ d) (h' : d < 2 * day) :
    restateAt w d = "Tomorrow at " ++ clockText w := by
  have hday : (hour : Int) < day := by decide
  simp only [restateAt, minutes_lt_iff, hours_lt_iff, days_eq_one_iff]
  rw [if_neg (by omega), if_neg (by omega), if_pos ⟨h, h'⟩]
  rfl

theorem restateAt_of_dated (h : d < 0 ∨ 2 * day ≤ d) : restateAt w d = datedText w := by
  have hday : (0 : Int) < hour ∧ (hour : Int) < day := by decide
  simp only [restateAt, minutes_lt_iff, hours_lt_iff, days_eq_one_iff]
  rw [if_neg (by omega), if_neg (by omega), if_neg (by omega)]
  rfl

/-- The first two letters of the words. -/
def opening (s : String) : List Char :=
  s.toList.take 2

theorem opening_datedText (w : Wall) :
    opening (datedText w) ≠ ['I', 'n'] ∧ opening (datedText w) ≠ ['T', 'o'] := by
  have hweekday : ∀ n < 7, 2 ≤ (longWeekdays.getD n "").toList.length ∧
      (longWeekdays.getD n "").toList.take 2 ≠ ['I', 'n'] ∧
        (longWeekdays.getD n "").toList.take 2 ≠ ['T', 'o'] := by decide
  obtain ⟨hlength, hopening⟩ := hweekday w.weekday (Nat.mod_lt _ (by decide))
  rwa [opening, toList_datedText, List.take_append_of_le_length hlength]

/-- The first two letters tell how far ahead a time is. -/
theorem opening_restateAt (w : Wall) (d : Int) :
    (opening (restateAt w d) = ['I', 'n'] ↔ 0 ≤ d ∧ d < day) ∧
      (opening (restateAt w d) = ['T', 'o'] ↔ day ≤ d ∧ d < 2 * day) := by
  have hday : (0 : Int) < day := by decide
  by_cases hsoon : 0 ≤ d ∧ d < day
  · have hlead : ['I', 'n'] <+: (restateAt w d).toList := by
      rw [toList_restateAt_of_lt_day hsoon.1 hsoon.2]
      exact (leadText_spec hsoon.1 hsoon.2).2.trans (List.prefix_append ..)
    have hopening : opening (restateAt w d) = ['I', 'n'] := (List.prefix_iff_eq_take.mp hlead).symm
    rw [hopening]
    exact ⟨iff_of_true rfl hsoon, iff_of_false (by decide) (by omega)⟩
  by_cases hnext : day ≤ d ∧ d < 2 * day
  · have hopening : opening (restateAt w d) = ['T', 'o'] := by
      simp [restateAt_of_dayAhead hnext.1 hnext.2, opening]
    rw [hopening]
    exact ⟨iff_of_false (by decide) hsoon, iff_of_true rfl hnext⟩
  · obtain ⟨h₁, h₂⟩ := opening_datedText w
    rw [restateAt_of_dated (by omega)]
    exact ⟨iff_of_false h₁ hsoon, iff_of_false h₂ hnext⟩

/-! ### Tomorrow -/

theorem tomorrow_prefix_iff :
    "Tomorrow at".toList <+: (restateAt w d).toList ↔ day ≤ d ∧ d < 2 * day := by
  constructor
  · intro h
    have hopening : ['T', 'o'] <+: (restateAt w d).toList := List.IsPrefix.trans (by decide) h
    exact (opening_restateAt w d).2.mp (List.prefix_iff_eq_take.mp hopening).symm
  · rintro ⟨h, h'⟩
    rw [restateAt_of_dayAhead h h', String.toList_append]
    exact List.IsPrefix.trans (by decide) (List.prefix_append ..)

/-- Words begin with tomorrow exactly if the instant is a whole day ahead on the wall clock, but not
    two. Its date is then the next one, or the one after that if its time of day is earlier than that
    of the reference. -/
theorem date_of_tomorrow (h : interpret Row.all text now = .ok (.resolved category i words)) :
    ("Tomorrow at".toList <+: words.toList ↔
        now.wall.ticks + day ≤ i.wall.ticks ∧ i.wall.ticks < now.wall.ticks + 2 * day) ∧
      ("Tomorrow at".toList <+: words.toList →
        i.wall.date.index =
          now.wall.date.index + if now.wall.time ≤ i.wall.time then 1 else 2) := by
  have hiff : "Tomorrow at".toList <+: words.toList ↔
      now.wall.ticks + day ≤ i.wall.ticks ∧ i.wall.ticks < now.wall.ticks + 2 * day := by
    rw [words_of_interpret h, tomorrow_prefix_iff]
    omega
  refine ⟨hiff, fun hw => ?_⟩
  obtain ⟨hle, hlt⟩ := hiff.mp hw
  rw [Wall.index_date, Wall.index_date]
  exact Wall.dayIndex_of_dayAhead hle hlt

/-- A day and two hours ahead of a Monday at ten is on Tuesday. -/
theorem tuesday_told_as_tomorrow :
    ∃ i, interpret Row.all "in 26 hours".toList mondayAtTen =
        .ok (.resolved .relativeOffset i "Tomorrow at 12:00 PM") ∧
      "Tomorrow at".toList <+: "Tomorrow at 12:00 PM".toList ∧
        i.wall.date.index = mondayAtTen.wall.date.index + 1 := by
  have hi : interpret Row.all "in 26 hours".toList mondayAtTen =
      .ok (.resolved .relativeOffset (floatingAt 2024 1 16 ⟨12, 0, by decide, by decide⟩ (by decide))
        "Tomorrow at 12:00 PM") := by
    decide +kernel
  have hw : "Tomorrow at".toList <+: "Tomorrow at 12:00 PM".toList := by decide
  have hdate := (date_of_tomorrow hi).2 hw
  rw [if_pos (by decide +kernel)] at hdate
  exact ⟨_, hi, hw, hdate⟩

/-- Less than two days ahead of it is nine on Wednesday, which is told as tomorrow as well. -/
theorem wednesday_told_as_tomorrow :
    interpret Row.all "wednesday at 9am".toList mondayAtTen =
        .ok (.resolved .weekdayClock (floatingAt 2024 1 17 dayTime (by decide))
          "Tomorrow at 9:00 AM") ∧
      "Tomorrow at".toList <+: "Tomorrow at 9:00 AM".toList ∧
      (floatingAt 2024 1 17 dayTime (by decide)).wall.date.index =
        mondayAtTen.wall.date.index + 2 := by
  refine ⟨by decide +kernel, by decide, by decide +kernel⟩

/-! ### Times told apart -/

/-- Times told in the same words are told in the same way. -/
theorem ahead_iff_of_restateAt_eq (h : restateAt v d = restateAt w e) :
    (0 ≤ d ∧ d < day ↔ 0 ≤ e ∧ e < day) ∧
      (day ≤ d ∧ d < 2 * day ↔ day ≤ e ∧ e < 2 * day) := by
  obtain ⟨hsoon, hnext⟩ := opening_restateAt v d
  obtain ⟨hsoon', hnext'⟩ := opening_restateAt w e
  rw [h] at hsoon hnext
  exact ⟨hsoon.symm.trans hsoon', hnext.symm.trans hnext'⟩

/-- Times told in the same words have the same clock, and if they are told with their dates, the same
    month and day. -/
theorem clockText_eq_of_restateAt_eq (h : restateAt v d = restateAt w e) :
    clockText v = clockText w ∧ (d < 0 ∨ 2 * day ≤ d →
      v.date.month = w.date.month ∧ v.date.day = w.date.day) := by
  obtain ⟨hsoon, hnext⟩ := ahead_iff_of_restateAt_eq h
  have hday : (0 : Int) < day := by decide
  by_cases hd : 0 ≤ d ∧ d < day
  · obtain ⟨he, he'⟩ := hsoon.mp hd
    have hlist := congrArg String.toList h
    rw [toList_restateAt_of_lt_day hd.1 hd.2, toList_restateAt_of_lt_day he he'] at hlist
    obtain ⟨-, hclock⟩ := append_cons_inj (leadText_spec hd.1 hd.2).1 (leadText_spec he he').1 hlist
    exact ⟨String.toList_injective (List.append_cancel_right hclock), by omega⟩
  by_cases hd' : day ≤ d ∧ d < 2 * day
  · obtain ⟨he, he'⟩ := hnext.mp hd'
    rw [restateAt_of_dayAhead hd'.1 hd'.2, restateAt_of_dayAhead he he'] at h
    have hlist := congrArg String.toList h
    rw [String.toList_append, String.toList_append] at hlist
    exact ⟨String.toList_injective (List.append_cancel_left hlist), by omega⟩
  · rw [restateAt_of_dated (by omega), restateAt_of_dated (by omega)] at h
    obtain ⟨hm, hdate, hclock⟩ := of_datedText_eq h
    exact ⟨hclock, fun _ => ⟨hm, hdate⟩⟩

/-- Up to a year ahead, whole minutes that are told in the same words are the same. -/
theorem eq_of_restateAt_eq {now limit : Wall} (hv : v.IsWholeMinute) (hw : w.IsWholeMinute)
    (hlimit : now.nextYear = .ok limit) (hnv : now < v) (hvl : v ≤ limit) (hnw : now < w)
    (hwl : w ≤ limit)
    (h : restateAt v (v.ticks - now.ticks) = restateAt w (w.ticks - now.ticks)) : v = w := by
  obtain ⟨hsoon, hnext⟩ := ahead_iff_of_restateAt_eq h
  obtain ⟨hclock, hdate⟩ := clockText_eq_of_restateAt_eq h
  have htime : v.time = w.time := by
    rw [hv.time_eq, hw.time_eq, clock_eq_of_clockText_eq hclock]
  rw [Wall.lt_def] at hnv hnw
  by_cases hdated : now.ticks + 2 * day ≤ v.ticks
  · -- told with their dates, which do not come twice within the year
    obtain ⟨hmonth, hday⟩ := hdate (by omega)
    obtain ⟨hagain, -⟩ := Wall.comesAgain_of_nextYear hlimit
    have hahead : now.ticks + 2 * day ≤ w.ticks := by omega
    have hdates : v.date = w.date := hagain.eq_of_within
      (Wall.dayIndex_lt_iff.mp (Wall.dayIndex_lt_of_dayAhead (by omega)))
      (fun hb => Nat.not_lt.mpr (Wall.dayIndex_le_of_le hvl) (Wall.dayIndex_lt_iff.mpr hb))
      (Wall.dayIndex_lt_iff.mp (Wall.dayIndex_lt_of_dayAhead (by omega)))
      (fun hb => Nat.not_lt.mpr (Wall.dayIndex_le_of_le hwl) (Wall.dayIndex_lt_iff.mpr hb))
      hmonth hday
    rw [← v.on_date, ← w.on_date]
    simp only [hdates, htime]
  · -- both within the same day ahead, where the time of day tells them apart
    exact Wall.eq_of_time_eq htime (by omega) (by omega)

/-- Acceptable times in whole minutes are told in the same words exactly if they are the same on the
    wall clock, although the words show no year, and only twelve hours. -/
theorem restate_eq_iff (ha : a.frame = now.frame) (hb : b.frame = now.frame)
    (hwa : a.wall.IsWholeMinute) (hwb : b.wall.IsWholeMinute) (hja : judge a now = .ok .accepted)
    (hjb : judge b now = .ok .accepted) : restate a now = restate b now ↔ a.wall = b.wall := by
  rw [judge_eq_judgeAt ha, judgeAt_eq_accepted_iff] at hja
  rw [judge_eq_judgeAt hb, judgeAt_eq_accepted_iff] at hjb
  obtain ⟨hna, limit, hlimit, hal⟩ := hja
  obtain ⟨hnb, limit', hlimit', hbl⟩ := hjb
  obtain rfl : limit = limit' := Except.ok.inj (hlimit.symm.trans hlimit')
  rw [restate_of_frame_eq ha, restate_of_frame_eq hb, Except.ok.injEq]
  constructor
  · exact eq_of_restateAt_eq hwa hwb hlimit hna hal hnb hbl
  · intro h
    rw [h]

/-- In the evening before a leap day, its morning and the morning a year later, when the leap day comes
    again, are told in different words. -/
theorem restate_ne_on_leapEve :
    leapMorning.frame = leapEve.frame ∧ morningAfterYear.frame = leapEve.frame ∧
      leapMorning.wall.IsWholeMinute ∧ morningAfterYear.wall.IsWholeMinute ∧
      judge leapMorning leapEve = .ok .accepted ∧ judge morningAfterYear leapEve = .ok .accepted ∧
      restate leapMorning leapEve ≠ restate morningAfterYear leapEve := by
  have hfm : leapMorning.frame = leapEve.frame := rfl
  have hfy : morningAfterYear.frame = leapEve.frame := rfl
  have hm : leapMorning.wall.IsWholeMinute := by decide +kernel
  have hy : morningAfterYear.wall.IsWholeMinute := by decide +kernel
  have hjm : judge leapMorning leapEve = .ok .accepted := by decide +kernel
  have hjy : judge morningAfterYear leapEve = .ok .accepted := by decide +kernel
  have hne : leapMorning.wall ≠ morningAfterYear.wall := by decide +kernel
  exact ⟨hfm, hfy, hm, hy, hjm, hjy, mt (restate_eq_iff hfm hfy hm hy hjm hjy).mp hne⟩

end Almanac.Phrase
