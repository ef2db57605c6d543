import Almanac.Proofs.Phrase.Offset
import Almanac.Proofs.Phrase.Overrun

/-!
# Amounts of any size

An amount is written in digits of any script, with any number of leading zeros. A number of units of
time from now is understood exactly if it has no more than 4300 digits, is not zero and does not lead
past the end of the calendar; otherwise it fails, and it never breaks off.
-/

namespace Almanac.Calendar

/-- The last moment of the calendar. -/
def Wall.latest : Wall :=
  ⟨span - 1, by decide⟩

example : Wall.latest = Wall.on (.ofNumbers 9999 12 31 (by decide)) (day - 1) (by decide) := by
  decide

theorem Wall.exists_ticks_eq_iff {n : Nat} :
    (∃ w : Wall, w.ticks = n) ↔ n ≤ Wall.latest.ticks := by
  have hlatest : Wall.latest.ticks + 1 = span := by decide
  constructor
  · rintro ⟨w, rfl⟩
    have hlt := w.inRange
    omega
  · intro hle
    exact ⟨⟨n, by omega⟩, rfl⟩

end Almanac.Calendar

namespace Almanac.Phrase

open Calendar Text Shape

variable {row : Row} {text : List Char} {c : Captures} {now : Instant} {ds : List Char}
  {m n u : Nat} {unit : String}

/-! ### Units -/

/-- The spellings of the units of time, with the number of minutes in the unit. -/
def unitMinutes : List (String × Nat) :=
  [("minutes", 1), ("minute", 1), ("mins", 1), ("min", 1),
    ("hours", 60), ("hour", 60), ("hrs", 60), ("hr", 60),
    ("days", 1440), ("day", 1440), ("weeks", 10080), ("week", 10080)]

/-- They are the spellings that rows read, and no others. -/
theorem mem_unitMinutes_iff :
    (unit, m) ∈ unitMinutes ↔
      ∃ row : Row, row.unit? = some (m * minute) ∧ unit ∈ row.units := by
  constructor
  · intro h
    have hall : ∀ e ∈ unitMinutes, ∃ row ∈ Row.all,
        row.unit? = some (e.2 * minute) ∧ e.1 ∈ row.units := by
      decide
    obtain ⟨row, -, hrow⟩ := hall _ h
    exact ⟨row, hrow⟩
  · rintro ⟨row, hrow, hmem⟩
    have hall : ∀ row ∈ Row.all, ∀ u ∈ row.unit?, ∀ w ∈ row.units,
        (w, u / minute) ∈ unitMinutes := by
      decide
    have h := hall row (Row.mem_all row) _ hrow unit hmem
    rwa [Nat.mul_div_cancel m (by decide)] at h

theorem mem_unitNames_of_mem_unitMinutes (h : (unit, m) ∈ unitMinutes) :
    (unit, m * minute) ∈ unitNames := by
  have hall : ∀ e ∈ unitMinutes, (e.1, e.2 * minute) ∈ unitNames := by decide
  exact hall _ h

/-! ### Outcomes -/

/-- A phrase for an offset never leads out of the calendar. -/
theorem not_isOverflow_of_unit? (h : row.shape.Reads (normalize text) c)
    (hu : row.unit? = some u) {e : Fault} (he : interpret Row.all text now = .error e) :
    ¬IsOverflow now e := by
  rintro ⟨-, why, rfl⟩
  rw [interpret_eq_error_iff h, resolve_eq_error_iff] at he
  have hahead : Reading.daysAhead ⟨row, c⟩ now = 0 := by
    cases row with
    | inMinutes => rfl
    | inHours => rfl
    | inDays => rfl
    | inWeeks => rfl
    | _ => cases hu
  have hlt := now.wall.dayIndex_lt
  omega

/-- A phrase for an offset with a known name is resolved exactly if its offset is real, to that much
    ahead of the reference on the wall clock, and fails otherwise. -/
theorem interpret_of_unit? (h : row.shape.Reads (normalize text) c) (hu : row.unit? = some u)
    (hs : ¬HasStrayName c) :
    (HasRealOffset row c now ∧ ∃ w words,
        w.ticks = now.wall.ticks + u * numberAt c .amount ∧
          interpret Row.all text now =
            .ok (.resolved row.category ⟨w, now.frame, false⟩ words)) ∨
      ¬HasRealOffset row c now ∧ ∃ why, interpret Row.all text now = .ok (.failed why) := by
  rcases interpret_cases now h hs with ⟨hd, i, words, hi, hf, -⟩ | ⟨hn, hw⟩ | ⟨e, he, ho⟩
  · obtain ⟨hlater, hticks⟩ := ticks_eq_of_interpret h hu hi
    obtain ⟨w, frame, later⟩ := i
    obtain rfl : frame = now.frame := hf
    obtain rfl : later = false := hlater
    exact .inl ⟨hd.offset, w, words, by exact_mod_cast hticks, hi⟩
  · have hr := (Row.of_unit? hu).1
    exact .inr ⟨fun hoff => hn (.of_hasRealOffset h hr hoff), hw⟩
  · exact absurd ho (not_isOverflow_of_unit? h hu he)

/-- Without digits there is no word between the two spaces. -/
theorem normalize_amountText_nil (hu : (unit, u) ∈ unitNames) :
    normalize (amountText [] unit) = spaced [['i', 'n'], unit.toList] := by
  obtain ⟨hplain, hunit, -⟩ := isPlainWord_of_mem_unitNames _ hu
  have hin : ['i', 'n'].all Char.isLower = true := by decide
  have hletters := all_space_or_isLower hunit
  have htwo : lower (amountText [] unit) = ['i', 'n'] ++ ' ' :: ' ' :: unit.toList :=
    lower_of_isLower (by simpa [amountText] using hletters)
  have hone : lower (spaced [['i', 'n'], unit.toList]) = ['i', 'n'] ++ ' ' :: unit.toList :=
    lower_of_isLower (by simpa using hletters)
  have hblank : isBlank ' ' = true := by decide
  have hsame : normalize (amountText [] unit) = normalize (spaced [['i', 'n'], unit.toList]) := by
    rw [normalize, normalize, htwo, hone, words_append_cons hblank, words_append_cons hblank,
      words_cons_of_isBlank hblank]
  have hwords : ∀ w ∈ [['i', 'n'], unit.toList], IsPlainWord w := by
    intro w hw
    simp only [List.mem_cons, List.not_mem_nil, or_false] at hw
    rcases hw with rfl | rfl
    · decide
    · exact hplain
  rw [hsame, normalize_spaced hwords, map_spaced lowerChar lowerChar_space]
  simp only [List.map_cons, List.map_nil, map_lowerChar_of_isLower hunit,
    map_lowerChar_of_isLower hin]

/-- Without digits there is no amount. -/
theorem not_reads_amountText_nil (hu : (unit, u) ∈ unitNames) :
    ¬row.shape.Reads (normalize (amountText [] unit)) c := by
  have hall : ∀ e ∈ unitNames, ∀ row ∈ Row.all,
      row.shape.readAll? (spaced [['i', 'n'], e.1.toList]) = none := by
    decide +kernel
  intro h
  rw [normalize_amountText_nil hu, ← Row.readAll?_eq_some_iff,
    hall _ hu row (Row.mem_all row)] at h
  cases h

/-- A name of a unit has no stray letter. -/
theorem not_hasStrayName_of_mem_unitNames (hu : (unit, u) ∈ unitNames) :
    ¬HasStrayName [(.amount, ds), (.unit, unit.toList)] := by
  rintro ⟨f, v, x, rfl | rfl, hv, hx, hstray⟩
  · obtain rfl : unit.toList = v := Option.some.inj hv
    exact not_isStray_of_mem_names (List.mem_append_right _ hu) hx hstray
  · cases hv

/-- A number of units of time from now, in digits of any script, is that much ahead on the wall clock,
    to the microsecond, if it has at most 4300 digits, is positive and leads to no later time than the
    last of the calendar. Any other number fails, and none breaks off. -/
theorem interpret_amountText (hunit : (unit, m) ∈ unitMinutes)
    (hdigits : ∀ x ∈ ds, isDigit x = true) (now : Instant) :
    if ds.length ≤ 4300 ∧ 0 < digitsValue ds ∧
        now.wall.ticks + m * minute * digitsValue ds ≤ Wall.latest.ticks then
      ∃ w words, w.ticks = now.wall.ticks + m * minute * digitsValue ds ∧
        interpret Row.all (amountText ds unit) now =
          .ok (.resolved .relativeOffset ⟨w, now.frame, false⟩ words)
    else ∃ why, interpret Row.all (amountText ds unit) now = .ok (.failed why) := by
  have hu := mem_unitNames_of_mem_unitMinutes hunit
  by_cases hne : ds = []
  · obtain rfl := hne
    rw [if_neg fun h => absurd h.2.1 (by decide)]
    exact interpret_of_not_reads now fun row c => not_reads_amountText_nil hu
  · obtain ⟨row, hrow, hreads⟩ := exists_reads_amountText hu hne hdigits
    have hoffset : HasRealOffset row [(.amount, ds), (.unit, unit.toList)] now ↔
        ds.length ≤ 4300 ∧ 0 < digitsValue ds ∧
          now.wall.ticks + m * minute * digitsValue ds ≤ Wall.latest.ticks := by
      rw [← Wall.exists_ticks_eq_iff]
      constructor
      · intro h
        exact h _ hrow
      · intro h u hu'
        obtain rfl := Option.some.inj (hrow.symm.trans hu')
        exact h
    rw [← (Row.of_unit? hrow).2.2]
    rcases interpret_of_unit? hreads hrow (not_hasStrayName_of_mem_unitNames hu) with
      ⟨hreal, hw⟩ | ⟨hreal, hw⟩
    · rw [if_pos (hoffset.mp hreal)]
      exact hw
    · rw [if_neg fun h => hreal (hoffset.mpr h)]
      exact hw

/-- Thirty-five minutes, with a zero in front, in digits of three scripts. -/
theorem interpret_amountText_mixed :
    ("mins", 1) ∈ unitMinutes ∧ (∀ x ∈ ['0', '٣', '５'], isDigit x = true) ∧
      ∃ w words, w.ticks = mondayAtTen.wall.ticks + 35 * minute ∧
        interpret Row.all "in 0٣５ mins".toList mondayAtTen =
          .ok (.resolved .relativeOffset ⟨w, .floating, false⟩ words) := by
  have hunit : ("mins", 1) ∈ unitMinutes := by decide
  have hdigits : ∀ x ∈ ['0', '٣', '５'], isDigit x = true :=
    List.all_eq_true.mp (by decide)
  have hamount := interpret_amountText hunit hdigits mondayAtTen
  rw [if_pos (by decide +kernel)] at hamount
  obtain ⟨w, words, hw, hi⟩ := hamount
  have hvalue : digitsValue ['0', '٣', '５'] = 35 := by decide
  have htext : amountText ['0', '٣', '５'] "mins" = "in 0٣５ mins".toList := by decide
  rw [hvalue] at hw
  rw [htext] at hi
  exact ⟨hunit, hdigits, w, words, by omega, hi⟩

end Almanac.Phrase
