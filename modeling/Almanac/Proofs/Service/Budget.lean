import Almanac.Proofs.Limiter.Refinement
import Almanac.Proofs.Service.Step

/-!
# What counts against a budget

The budget of a client is spent by its requests to schedule a phrase whose bodies can be read and
that are not turned away, each counted once whatever else becomes of it. A request is turned away
exactly if so many were counted already in the window that is open.

A run is kept with its replies. What each client is charged with can be read off it, and the limiter
agrees with the counter that has counted these charges; every request preserves this.
-/

namespace Almanac.Limiter

variable {l : Limiter} {c : Counter} {key : String} {duration : Int} {times : List Rat} {now t : Rat}

/-! ### Spending -/

/-- The window of a request that is counted, after the last one: it falls into that if it is still
    open, and opens a new one otherwise. -/
def nextWindow (duration : Int) (last : Option Window) (t : Rat) : Window :=
  let w := (last.filter fun w => t < w.start + (duration : Rat)).getD ⟨t, 0⟩
  ⟨w.start, w.count + 1⟩

/-- The window that is left by requests at some times, all of them counted. -/
def lastWindow (duration : Int) (times : List Rat) : Option Window :=
  times.foldl (fun last t => some (nextWindow duration last t)) none

/-- The counter that has counted the requests at some times. -/
def Counter.ofTimes (points duration : Int) (times : List Rat) : Counter :=
  ⟨points, duration, lastWindow duration times⟩

theorem lastWindow_concat (points : Int) :
    lastWindow duration (times ++ [t]) =
      some ⟨((Counter.ofTimes points duration times).current t).start,
        ((Counter.ofTimes points duration times).current t).count + 1⟩ := by
  rw [Counter.current_eq, lastWindow, List.foldl_append]
  rfl

/-- A request within the budget is counted. -/
theorem Counter.request_ofTimes {points : Int}
    (h : ((Counter.ofTimes points duration times).current t).count < points) :
    ((Counter.ofTimes points duration times).request t).1 =
      .ofTimes points duration (times ++ [t]) := by
  have hrequest : ((Counter.ofTimes points duration times).request t).1 =
      ⟨points, duration, some ⟨((Counter.ofTimes points duration times).current t).start,
        ((Counter.ofTimes points duration times).current t).count + 1⟩⟩ :=
    congrArg Prod.fst (if_pos h)
  rw [hrequest, ← lastWindow_concat]
  rfl

/-- A request beyond the budget is not. -/
theorem Counter.request_of_full (h : c.points ≤ (c.current t).count) : (c.request t).1 = c :=
  congrArg Prod.fst (if_neg (not_lt.mpr h))

end Almanac.Limiter

namespace Almanac.Service

open Limiter

variable {site : Site} {l : Limiter} {r : Request} {key : String} {now t : Rat}
  {before after rs : List Request} {history : List (Request × Reply)}

/-! ### Settings -/

@[simp] theorem points_step (site : Site) (l : Limiter) (r : Request) :
    (step site l r).1.points = l.points := by
  cases hgiven : r.given? with
  | none =>
    obtain ⟨reply, -, hstep⟩ := step_of_not_given site hgiven
    rw [hstep]
  | some body => rw [step_of_given hgiven, points_consume]

@[simp] theorem duration_step (site : Site) (l : Limiter) (r : Request) :
    (step site l r).1.duration = l.duration := by
  cases hgiven : r.given? with
  | none =>
    obtain ⟨reply, -, hstep⟩ := step_of_not_given site hgiven
    rw [hstep]
  | some body => rw [step_of_given hgiven, duration_consume]

theorem points_stateAfter (site : Site) (l : Limiter) (rs : List Request) :
    (stateAfter site l rs).points = l.points := by
  induction rs generalizing l with
  | nil => rfl
  | cons r rs ih => exact (ih _).trans (points_step site l r)

theorem duration_stateAfter (site : Site) (l : Limiter) (rs : List Request) :
    (stateAfter site l rs).duration = l.duration := by
  induction rs generalizing l with
  | nil => rfl
  | cons r rs ih => exact (ih _).trans (duration_step site l r)

/-! ### Charges -/

/-- When a client is charged with a request, if it is. -/
def chargedAt? (key : String) (x : Request × Reply) : Option Rat :=
  if x.1.given?.isSome ∧ x.1.client = key ∧ x.2.status ≠ 429 then some x.1.clock else none

/-- The times at which a client was charged. -/
def charges (key : String) (history : List (Request × Reply)) : List Rat :=
  history.filterMap (chargedAt? key)

theorem charges_concat_of_charged {reply : Reply} (hgiven : r.given?.isSome)
    (hreply : reply.status ≠ 429) :
    charges r.client (history ++ [(r, reply)]) = charges r.client history ++ [r.clock] := by
  simp [charges, chargedAt?, hgiven, hreply]

theorem charges_concat_of_not_charged {reply : Reply}
    (h : r.given? = none ∨ key ≠ r.client ∨ reply.status = 429) :
    charges key (history ++ [(r, reply)]) = charges key history := by
  have hnone : chargedAt? key (r, reply) = none := by
    rw [chargedAt?, if_neg]
    rintro ⟨hgiven, hclient, hreply⟩
    rcases h with h | h | h
    · simp [h] at hgiven
    · exact h hclient.symm
    · exact hreply h
  simp [charges, hnone]

/-! ### Accounts -/

/-- The counter that has counted what a client was charged with. -/
def account (l : Limiter) (history : List (Request × Reply)) (key : String) : Counter :=
  .ofTimes l.points l.duration (charges key history)

/-- From a time on, the limiter has counted for every client what the client was charged with, and
    no more than its budget. -/
structure Accounts (l : Limiter) (history : List (Request × Reply)) (now : Rat) : Prop where
  agrees  : ∀ key, Agrees l key (account l history key) now
  bounded : ∀ key, ∀ w ∈ (account l history key).window?, (w.count : Int) ≤ l.points

theorem Accounts.mono (h : Accounts l history now) (ht : now ≤ t) : Accounts l history t :=
  ⟨fun key => (h.agrees key).mono ht, h.bounded⟩

theorem status_step_of_given (site : Site) {body : Option Json} (hgiven : r.given? = some body)
    (h : Agrees l r.client (account l history r.client) r.clock) :
    (step site l r).2.status = 429 ↔
      l.points ≤ ((account l history r.client).current r.clock).count := by
  rw [step_of_given hgiven, h.decision]
  simp only [Counter.request]
  split
  · next hlt =>
    exact iff_of_false (status_replyWithin_ne site r body) (not_le.mpr hlt)
  · next hfull =>
    exact iff_of_true rfl (not_lt.mp hfull)

/-- A request that charges nobody keeps the accounts. -/
theorem Accounts.keep {l' : Limiter} {reply : Reply} (h : Accounts l history now)
    (hagrees : ∀ key, Agrees l' key (account l history key) now)
    (hcharges : ∀ key, charges key (history ++ [(r, reply)]) = charges key history) :
    Accounts l' (history ++ [(r, reply)]) now := by
  have haccount : ∀ key, account l' (history ++ [(r, reply)]) key = account l history key := by
    intro key
    rw [account, hcharges, ← (hagrees key).points, ← (hagrees key).duration]
    rfl
  refine ⟨fun key => ?_, fun key => ?_⟩
  · rw [haccount]
    exact hagrees key
  · rw [haccount, ← (hagrees key).points]
    exact h.bounded key

/-- A request that charges its client keeps the accounts. -/
theorem Accounts.charge {l' : Limiter} {reply : Reply} (h : Accounts l history r.clock)
    (hgiven : r.given?.isSome) (hreply : reply.status ≠ 429)
    (hcount : (((account l history r.client).current r.clock).count : Int) < l.points)
    (hclient : Agrees l' r.client ((account l history r.client).request r.clock).1 r.clock)
    (hothers : ∀ key, key ≠ r.client → Agrees l' key (account l history key) r.clock) :
    Accounts l' (history ++ [(r, reply)]) r.clock := by
  have hrequest : ((account l history r.client).request r.clock).1 =
      .ofTimes l.points l.duration (charges r.client history ++ [r.clock]) :=
    Counter.request_ofTimes hcount
  rw [hrequest] at hclient
  have hself : account l' (history ++ [(r, reply)]) r.client =
      .ofTimes l.points l.duration (charges r.client history ++ [r.clock]) := by
    rw [account, charges_concat_of_charged hgiven hreply, ← hclient.points, ← hclient.duration]
    rfl
  have hother : ∀ key, key ≠ r.client →
      account l' (history ++ [(r, reply)]) key = account l history key := by
    intro key hkey
    rw [account, charges_concat_of_not_charged (.inr (.inl hkey)), ← hclient.points,
      ← hclient.duration]
    rfl
  refine ⟨fun key => ?_, fun key w hw => ?_⟩
  · rcases eq_or_ne key r.client with rfl | hkey
    · rwa [hself]
    · rw [hother key hkey]
      exact hothers key hkey
  · rw [← hclient.points]
    rcases eq_or_ne key r.client with rfl | hkey
    · rw [hself, Counter.ofTimes, lastWindow_concat l.points] at hw
      obtain rfl := Option.some.inj hw
      push_cast
      exact hcount
    · rw [hother key hkey] at hw
      exact h.bounded key w hw

/-- A request keeps the accounts. -/
theorem Accounts.step (site : Site) (hp : 1 ≤ l.points) (h : Accounts l history r.clock) :
    Accounts (step site l r).1 (history ++ [(r, (step site l r).2)]) r.clock := by
  cases hgiven : r.given? with
  | none =>
    obtain ⟨reply, -, hstep⟩ := step_of_not_given site hgiven
    rw [hstep]
    exact h.keep h.agrees fun key => charges_concat_of_not_charged (.inl hgiven)
  | some body =>
    have hclient := h.agrees r.client
    have hstatus := status_step_of_given site hgiven hclient
    have hlimiter : (Service.step site l r).1 = (l.consume r.client r.clock).1 := by
      rw [step_of_given hgiven]
    have hothers : ∀ key, key ≠ r.client →
        Agrees (l.consume r.client r.clock).1 key (account l history key) r.clock :=
      fun key hkey => (h.agrees key).other hkey
    rw [hlimiter]
    by_cases hfull : (Service.step site l r).2.status = 429
    · -- turned away: the counter of the client stays as it is, as the others do
      have hself := hclient.request hp
      rw [Counter.request_of_full (hstatus.mp hfull)] at hself
      apply h.keep
      · intro key
        rcases eq_or_ne key r.client with rfl | hkey
        · exact hself
        · exact hothers key hkey
      · exact fun key => charges_concat_of_not_charged (.inr (.inr hfull))
    · -- counted: the counter of the client counts too, and the others stay as they are
      have hcount := not_le.mp fun hle => hfull (hstatus.mpr hle)
      exact h.charge (by simp [hgiven]) hfull hcount (hclient.request hp) hothers

/-! ### Runs -/

/-- A run keeps the accounts. -/
theorem Accounts.run (site : Site) (hp : 1 ≤ l.points) (h : Accounts l history now)
    (hstart : ∀ r ∈ rs, now ≤ r.clock) (hclock : rs.Pairwise fun r s => r.clock ≤ s.clock)
    (hend : ∀ r ∈ rs, r.clock ≤ t) (ht : now ≤ t) :
    Accounts (stateAfter site l rs) (history ++ transcript site l rs) t := by
  induction rs generalizing l history now with
  | nil =>
    rw [transcript, run_nil, List.zip_nil_right, List.append_nil]
    exact h.mono ht
  | cons r rs ih =>
    obtain ⟨hnow, -⟩ := List.forall_mem_cons.mp hstart
    obtain ⟨hrt, hend⟩ := List.forall_mem_cons.mp hend
    obtain ⟨hfirst, hclock⟩ := List.pairwise_cons.mp hclock
    have hstep := (h.mono hnow).step site hp
    rw [transcript_cons, List.append_cons]
    exact ih (by rwa [points_step]) hstep hfirst hclock hend hrt

end Almanac.Service
