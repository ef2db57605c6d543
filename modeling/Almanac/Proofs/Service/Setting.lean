import Almanac.Proofs.Service.Budget
import Almanac.Proofs.Text.Integer
import Almanac.Service.Setting

/-!
# What a setting may be

A setting is read exactly if it writes a positive whole number; otherwise it is refused, and what is
said tells whether no number is written at all or one that is not positive. So a limiter that is set
up has a positive budget and a positive duration for as long as it runs.
-/

namespace Almanac.Service

open Text

variable {settings : Settings} {raw name fallback : String} {n : Int} {now : Rat} {l : Limiter}

/-! ### Numbers -/

theorem readSetting_of_writes (h : Writes raw.toList n) :
    readSetting raw = if n ≤ 0 then .error .notPositive else .ok n := by
  rw [readSetting, readInteger_eq_ok_iff.mpr h]

theorem readSetting_of_not_writes (h : ¬∃ n, Writes raw.toList n) :
    readSetting raw = .error .notInteger := by
  obtain ⟨e, he⟩ := exists_readInteger_error_iff.mpr h
  rw [readSetting, he]

/-- A setting is read, or what it writes is not positive, or it writes nothing. -/
theorem number_cases (settings : Settings) (name fallback : String) :
    (∃ n, Writes ((settings name).getD fallback).toList n ∧ 0 < n ∧
      settings.number name fallback = .ok n) ∨
    (∃ n, Writes ((settings name).getD fallback).toList n ∧ n ≤ 0 ∧
      settings.number name fallback = .error (name ++ " must be > 0.")) ∨
    (¬∃ n, Writes ((settings name).getD fallback).toList n) ∧
      settings.number name fallback = .error ("Invalid " ++ name ++ "; must be an integer.") := by
  rw [Settings.number]
  by_cases hw : ∃ n, Writes ((settings name).getD fallback).toList n
  · obtain ⟨n, hn⟩ := hw
    rw [readSetting_of_writes hn]
    by_cases hpos : n ≤ 0
    · rw [if_pos hpos]
      exact .inr (.inl ⟨n, hn, hpos, rfl⟩)
    · rw [if_neg hpos]
      exact .inl ⟨n, hn, Int.not_le.mp hpos, rfl⟩
  · rw [readSetting_of_not_writes hw]
    exact .inr (.inr ⟨hw, rfl⟩)

theorem number_eq_ok_iff :
    settings.number name fallback = .ok n ↔
      Writes ((settings name).getD fallback).toList n ∧ 0 < n := by
  rcases number_cases settings name fallback with ⟨m, hm, hpos, h⟩ | ⟨m, hm, hpos, h⟩ | ⟨hnone, h⟩
  · rw [h, Except.ok.injEq]
    constructor
    · rintro rfl
      exact ⟨hm, hpos⟩
    · rintro ⟨hn, -⟩
      exact hm.unique hn
  · simp only [h, reduceCtorEq, false_iff]
    rintro ⟨hn, hpos'⟩
    exact absurd (hm.unique hn ▸ hpos) (Int.not_le.mpr hpos')
  · simp only [h, reduceCtorEq, false_iff]
    rintro ⟨hn, -⟩
    exact absurd ⟨n, hn⟩ hnone

theorem number_eq_error_iff {e : String} :
    settings.number name fallback = .error e ↔
      (¬∃ n, Writes ((settings name).getD fallback).toList n) ∧
          e = "Invalid " ++ name ++ "; must be an integer." ∨
        (∃ n ≤ 0, Writes ((settings name).getD fallback).toList n) ∧ e = name ++ " must be > 0." := by
  rcases number_cases settings name fallback with ⟨m, hm, hpos, h⟩ | ⟨m, hm, hpos, h⟩ | ⟨hnone, h⟩
  · simp only [h, reduceCtorEq, false_iff]
    rintro (⟨hnone, -⟩ | ⟨⟨k, hk, hw⟩, -⟩)
    · exact absurd ⟨m, hm⟩ hnone
    · exact absurd (hm.unique hw ▸ hk) (Int.not_le.mpr hpos)
  · rw [h, Except.error.injEq]
    constructor
    · rintro rfl
      exact .inr ⟨⟨m, hpos, hm⟩, rfl⟩
    · rintro (⟨hnone, -⟩ | ⟨-, rfl⟩)
      · exact absurd ⟨m, hm⟩ hnone
      · rfl
  · rw [h, Except.error.injEq]
    constructor
    · rintro rfl
      exact .inl ⟨hnone, rfl⟩
    · rintro (⟨-, rfl⟩ | ⟨⟨k, -, hw⟩, -⟩)
      · rfl
      · exact absurd ⟨k, hw⟩ hnone

/-! ### The limiter -/

theorem limiter_eq_ok_iff :
    settings.limiter now = .ok l ↔
      ∃ points duration, settings.number "RATE_LIMIT_POINTS" "100" = .ok points ∧
        settings.number "RATE_LIMIT_WINDOW_SEC" "900" = .ok duration ∧
          l = .new points duration now := by
  rw [Settings.limiter]
  cases settings.number "RATE_LIMIT_POINTS" "100" with
  | error e => simp [bind, Except.bind]
  | ok points =>
    cases settings.number "RATE_LIMIT_WINDOW_SEC" "900" with
    | error e => simp [bind, Except.bind]
    | ok duration => simp [bind, Except.bind, pure, Except.pure, eq_comm]

/-- A limiter that is set up counts up to a positive number of requests, for a positive time. -/
theorem pos_of_limiter (h : settings.limiter now = .ok l) : 0 < l.points ∧ 0 < l.duration := by
  obtain ⟨points, duration, hpoints, hduration, rfl⟩ := limiter_eq_ok_iff.mp h
  exact ⟨(number_eq_ok_iff.mp hpoints).2, (number_eq_ok_iff.mp hduration).2⟩

/-- **A setting is read exactly if it writes a positive whole number.** If it writes one that is not
    positive, or none, it is refused, and told apart by what is said. A positive number in decimal
    digits, with any leading zeros, is such a setting up to 4300 digits. A limiter that is set up from
    settings never runs with a budget or a duration that is not positive. -/
theorem number_is_read_exactly (settings : Settings) (name fallback : String) :
    (∀ n, settings.number name fallback = .ok n ↔
      Writes ((settings name).getD fallback).toList n ∧ 0 < n) ∧
    (∀ e, settings.number name fallback = .error e ↔
      (¬∃ n, Writes ((settings name).getD fallback).toList n) ∧
          e = "Invalid " ++ name ++ "; must be an integer." ∨
        (∃ n ≤ 0, Writes ((settings name).getD fallback).toList n) ∧ e = name ++ " must be > 0.") ∧
    (∀ zeros k : Nat, 0 < k → zeros + (decimal k).length ≤ 4300 →
      settings name = some (String.ofList (List.replicate zeros '0' ++ decimal k)) →
      settings.number name fallback = .ok k) ∧
    ∀ now l, settings.limiter now = .ok l → ∀ site rs,
      0 < (stateAfter site l rs).points ∧ 0 < (stateAfter site l rs).duration := by
  refine ⟨fun n => number_eq_ok_iff, fun e => number_eq_error_iff, ?_, ?_⟩
  · intro zeros k hpos hlength hset
    rw [number_eq_ok_iff, hset, Option.getD_some, String.toList_ofList]
    exact ⟨writes_zeros_decimal hlength, Int.natCast_pos.mpr hpos⟩
  · intro now l hl site rs
    rw [points_stateAfter, duration_stateAfter]
    exact pos_of_limiter hl

/-- Settings with a budget of thirty-five requests, written with two zeros in front. -/
def paddedBudget : Settings :=
  fun name => if name = "RATE_LIMIT_POINTS" then some "0035" else none

/-- The budget is read without the zeros, and kept while a request is answered. -/
theorem number_of_paddedBudget :
    (0 < 35 ∧ 2 + (decimal 35).length ≤ 4300 ∧
      paddedBudget "RATE_LIMIT_POINTS" =
        some (String.ofList (List.replicate 2 '0' ++ decimal 35)) ∧
      paddedBudget.number "RATE_LIMIT_POINTS" "100" = .ok 35) ∧
    paddedBudget.limiter 0 = .ok (.new 35 900 0) ∧
      0 < (stateAfter guarded (.new 35 900 0) [anonymous "" 0]).points ∧
      0 < (stateAfter guarded (.new 35 900 0) [anonymous "" 0]).duration := by
  have hdecimal : decimal 35 = ['3', '5'] := by
    rw [decimal_of_le (by decide), decimal_of_lt (by decide)]
    rfl
  have hlength : 2 + (decimal 35).length ≤ 4300 := by
    rw [hdecimal]
    decide
  have hset : paddedBudget "RATE_LIMIT_POINTS" =
      some (String.ofList (List.replicate 2 '0' ++ decimal 35)) := by
    rw [hdecimal]
    decide +kernel
  have hlimiter : paddedBudget.limiter 0 = .ok (.new 35 900 0) := by decide +kernel
  obtain ⟨-, -, hread, hruns⟩ := number_is_read_exactly paddedBudget "RATE_LIMIT_POINTS" "100"
  exact ⟨⟨by decide, hlength, hset, hread 2 35 (by decide) hlength hset⟩, hlimiter,
    hruns 0 _ hlimiter guarded [anonymous "" 0]⟩

/-- The information separators are blank, but they do not make a margin: with one in front, a number
    that could be read without it is none. -/
theorem separator_is_no_margin :
    trim "\x1c5".toList = "5".toList ∧ Writes "5".toList 5 ∧
      Settings.number (fun _ => some "\x1c5") "RATE_LIMIT_POINTS" "100" =
        .error "Invalid RATE_LIMIT_POINTS; must be an integer." := by
  exact ⟨by decide, readInteger_eq_ok_iff.mp (by decide), by decide +kernel⟩

end Almanac.Service
