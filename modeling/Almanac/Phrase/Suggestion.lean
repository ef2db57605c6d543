/-!
# Suggested phrases

Phrases that are offered to someone whose phrase is not understood.
-/

namespace Almanac.Phrase

/-- Phrases to try. -/
def suggestions : List String :=
  ["in 30 minutes", "in 2 hours", "tomorrow at 9am", "monday at 3pm", "this evening", "next week",
    "friday at 5:30pm", "2024-12-25 10:00"]

/-- A phrase with what it stands for. -/
structure Example where
  phrase  : String
  meaning : String
  deriving DecidableEq, Repr

/-- Phrases with what they stand for. -/
def examples : List Example :=
  [ ⟨"tomorrow at 3pm", "Schedule for tomorrow at 3 PM"⟩
  , ⟨"in 2 hours", "Schedule for 2 hours from now"⟩
  , ⟨"monday at 9:30am", "Schedule for next Monday at 9:30 AM"⟩
  , ⟨"this evening", "Schedule for this evening (7 PM)"⟩
  , ⟨"next week", "Schedule for one week from today at 9 AM"⟩ ]

end Almanac.Phrase
