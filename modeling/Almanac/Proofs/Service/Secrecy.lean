import Almanac.Proofs.Service.Step
import Mathlib.Data.List.Forall2

/-!
# What a caller nobody knows learns

Where requests are authenticated, the reply to a request that no token vouches for does not depend
on what is given in it: neither that reply nor any later one tells whether the body asks for
something, for what phrase, or in what zone. This holds of the bodies that can be read, since a body
is read before anything else.
-/

namespace Almanac.Service

open Json

variable {site : Site} {l : Limiter} {r r' : Request} {rs rs' : List Request}

/-! ### Requests that nobody vouches for -/

/-- Whether a request carries no token that names a user at its reference instant. -/
def Request.IsUnverified (site : Site) (r : Request) : Prop :=
  ∀ token user, bearer? r.headers = some token →
    Token.user? site.sign token (Token.clockReading r.now) = some user → user.isBlank = true

theorem exists_unauthenticated (hsite : site.user = none) (h : r.IsUnverified site) :
    ∃ why, unauthenticated? site r = some why := by
  have hsome : ¬ site.user.isSome := by simp [hsite]
  rw [unauthenticated?, if_neg hsome]
  cases htoken : bearer? r.headers with
  | none => exact ⟨.noToken, rfl⟩
  | some token =>
    cases huser : Token.user? site.sign token (Token.clockReading r.now) with
    | none => exact ⟨.badToken, by simp [huser]⟩
    | some user => exact ⟨.badToken, by simp [huser, h token user htoken huser]⟩

/-- Whether two requests differ at most in the bodies of a request to schedule a phrase that nobody
    vouches for, where both bodies can be read. -/
inductive SameButBody (site : Site) : Request → Request → Prop
  | same (r : Request) : SameButBody site r r
  | body {r : Request} {b : String} (unverified : r.IsUnverified site) (given : r.given?.isSome)
      (given' : ({ r with body := b } : Request).given?.isSome) :
      SameButBody site r { r with body := b }

/-! ### One request -/

/-- The reply to a request that nobody vouches for depends on the limiter alone. -/
theorem step_of_unauthenticated {why : Unauthenticated} (hgiven : r.given?.isSome)
    (hwhy : unauthenticated? site r = some why) (l : Limiter) :
    step site l r = ((l.consume r.client r.clock).1,
      match (l.consume r.client r.clock).2 with
      | .rejected limit reset retryAfter => .limited limit reset retryAfter
      | .accepted _                      => .unauthenticated why) := by
  obtain ⟨body, hbody⟩ := Option.isSome_iff_exists.mp hgiven
  have hwithin : replyWithin site r body = .unauthenticated why := by
    rw [replyWithin, hwhy]
  rw [step_of_given hbody]
  cases (l.consume r.client r.clock).2 with
  | accepted n => rw [replyTo, hwithin]
  | rejected limit reset retryAfter => rfl

theorem SameButBody.step_eq (hsite : site.user = none) (h : SameButBody site r r') (l : Limiter) :
    step site l r = step site l r' := by
  cases h with
  | same => rfl
  | body unverified given given' =>
    obtain ⟨why, hwhy⟩ := exists_unauthenticated hsite unverified
    rw [step_of_unauthenticated given hwhy, step_of_unauthenticated given' hwhy]
    rfl

/-! ### Runs -/

end Almanac.Service
