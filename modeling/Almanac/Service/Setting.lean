import Almanac.Limiter
import Almanac.Text.Numeral

/-!
# Settings

A setting is a positive whole number given as text. The limiter is set up from two of them.
-/

namespace Almanac.Service

/-- Why a text is no setting. -/
inductive SettingError where
  | notInteger
  | notPositive
  deriving DecidableEq, Repr

/-- What is said of a setting that cannot be used. -/
def SettingError.message (name : String) : SettingError → String
  | .notInteger  => "Invalid " ++ name ++ "; must be an integer."
  | .notPositive => name ++ " must be > 0."

/-- The number that a setting gives. -/
def readSetting (raw : String) : Except SettingError Int :=
  match Text.readInteger raw.toList with
  | .error _ => .error .notInteger
  | .ok n    => if n ≤ 0 then .error .notPositive else .ok n

/-- What is set, by name. -/
abbrev Settings := String → Option String

/-- The number of a setting. One that is not set is read from its fallback. -/
def Settings.number (settings : Settings) (name fallback : String) : Except String Int :=
  (readSetting ((settings name).getD fallback)).mapError (SettingError.message name)

/-- The limiter that is set up: if nothing is set, for 100 requests in 15 minutes. -/
def Settings.limiter (settings : Settings) (now : Rat) : Except String Limiter := do
  let points ← settings.number "RATE_LIMIT_POINTS" "100"
  let duration ← settings.number "RATE_LIMIT_WINDOW_SEC" "900"
  return .new points duration now

end Almanac.Service
