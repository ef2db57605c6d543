import Almanac.Calendar.Iso
import Almanac.Decimal.Shortest
import Almanac.Json.Encoding
import Almanac.Json.Writer
import Almanac.Limiter
import Almanac.Phrase.Acceptance
import Almanac.Phrase.Interpretation
import Almanac.Phrase.Suggestion
import Almanac.Record.Report
import Almanac.Service.Endpoint
import Almanac.Service.Setting
import Almanac.Token.Access
import Almanac.Proofs.Calendar.Change
import Almanac.Proofs.Calendar.Moving
import Almanac.Proofs.Calendar.Shown
import Almanac.Proofs.Calendar.UtcText
import Almanac.Proofs.Limiter.Refinement
import Almanac.Proofs.Phrase.Captured
import Almanac.Proofs.Phrase.DateText
import Almanac.Proofs.Phrase.Grammar
import Almanac.Proofs.Phrase.Interpretation
import Almanac.Proofs.Phrase.Offset
import Almanac.Proofs.Phrase.Overrun
import Almanac.Proofs.Phrase.PlainText
import Almanac.Proofs.Service.Elapsed
import Almanac.Proofs.Service.Schedule
import Almanac.Proofs.Calendar.Skipped
import Almanac.Proofs.Service.LocalTime
import Almanac.Proofs.Text.CodePoint
import Almanac.Proofs.Json.Scalar
import Almanac.Proofs.Json.RoundTrip
import Almanac.Proofs.Token.Base64Url
import Almanac.Proofs.Token.Lifetime
import Almanac.Proofs.Service.Budget
import Almanac.Proofs.Service.Secrecy
import Almanac.Proofs.Calendar.Order
import Almanac.Proofs.Phrase.Window
import Almanac.Proofs.Phrase.WallClock
import Almanac.Proofs.Phrase.Ahead
import Almanac.Proofs.Limiter.Burst
import Almanac.Proofs.Phrase.Restatement
import Almanac.Proofs.Service.Answer
import Almanac.Proofs.Phrase.Occurrence
import Almanac.Proofs.Phrase.Amount
import Almanac.Proofs.Limiter.RetryAfter
import Almanac.Proofs.Limiter.Memory
import Almanac.Proofs.Phrase.Split
import Almanac.Proofs.Phrase.Spelling
import Almanac.Proofs.Phrase.Spacing
import Almanac.Proofs.Phrase.Suggested
import Almanac.Proofs.Service.Help
import Almanac.Proofs.Service.Client
import Almanac.Proofs.Service.Setting
