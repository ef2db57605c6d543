import Almanac.Proofs.Limiter.Run

/-!
# A limiter is a counter for each client

The reference for a limiter is one counter for each client, which sees the client's own requests
and the resets and forgets nothing else: it has no sweeps. In every run whose clock does not go
back, the limiter answers each client as the client's counter does.

The two keep the same windows up to those that have run out, since a window that was swept away
and one that has run out lead to the same answer. This is the relation that every event preserves.
-/

namespace Almanac.Limiter

variable {l : Limiter} {key k : String} {now t : Rat}

/-! ### The reference counter -/

/-- The counter of one client, with the window that it has opened last. -/
structure Counter where
  points   : Int
  duration : Int
  window?  : Option Window
  deriving DecidableEq

namespace Counter

variable {c : Counter}

/-- A counter that has counted nothing. -/
def new (points duration : Int) : Counter :=
  ⟨points, duration, none⟩

/-- The window that a request falls into: a new one unless the last one is still open. -/
def current (c : Counter) (now : Rat) : Window :=
  match c.window? with
  | some w => if now < w.start + c.duration then w else ⟨now, 0⟩
  | none   => ⟨now, 0⟩

/-- Take a request. A request that is turned away leaves the counter as it was: it is not counted,
    and the window ends no later for it. -/
def request (c : Counter) (now : Rat) : Counter × Decision :=
  let w := c.current now
  if w.count < c.points then
    ({ c with window? := some ⟨w.start, w.count + 1⟩ }, .accepted (c.points - w.count - 1))
  else
    (c, .rejected c.points (w.start + c.duration).ceil (max (w.start + c.duration - now).ceil 1))

/-- Forget the window. -/
def reset (c : Counter) : Counter :=
  { c with window? := none }

/-- The answers to the requests of a run, whoever makes them. -/
def answers : Counter → List Event → List Decision
  | _, []                 => []
  | c, .request _ t :: es => (c.request t).2 :: answers (c.request t).1 es
  | c, .reset :: es       => answers c.reset es

@[simp] theorem answers_nil (c : Counter) : c.answers [] = [] := rfl

@[simp] theorem answers_request (c : Counter) (k : String) (t : Rat) (es : List Event) :
    c.answers (.request k t :: es) = (c.request t).2 :: (c.request t).1.answers es := rfl

@[simp] theorem answers_reset (c : Counter) (es : List Event) :
    c.answers (.reset :: es) = c.reset.answers es := rfl

/-- The window of a counter, if it is open at a time. -/
def open? (c : Counter) (t : Rat) : Option Window :=
  c.window?.filter fun w => t < w.start + c.duration

theorem current_eq : c.current now = (c.open? now).getD ⟨now, 0⟩ := by
  simp only [current, open?]
  cases c.window? with
  | none => rfl
  | some w => by_cases h : now < w.start + c.duration <;> simp [Option.filter, h]

/-- With a budget of at least one, a request is turned away only in a window that is open. -/
theorem window?_of_current_full (hp : 1 ≤ c.points) (h : c.points ≤ (c.current now).count) :
    c.window? = some (c.current now) := by
  simp only [current] at h ⊢
  split at h
  · next w hw =>
    split at h
    · next ho => rw [hw, if_pos ho]
    · simp at h
      omega
  · simp at h
    omega

end Counter

/-! ### The simulation -/

/-- From a time on, the counter has the client's open window. Windows that have run out, or that
    only one of the two keeps, do not matter. -/
structure Agrees (l : Limiter) (key : String) (c : Counter) (now : Rat) : Prop where
  isKeyed  : l.IsKeyed
  points   : c.points = l.points
  duration : c.duration = l.duration
  open?    : ∀ t, now ≤ t → c.open? t = l.open? key t

namespace Agrees

variable {c : Counter}

theorem new (points duration : Int) (start now : Rat) (key : String) :
    Agrees (new points duration start) key (.new points duration) now :=
  ⟨isKeyed_new points duration start, rfl, rfl, fun _ _ => rfl⟩

theorem mono (h : Agrees l key c now) (ht : now ≤ t) : Agrees l key c t :=
  ⟨h.isKeyed, h.points, h.duration, fun s hs => h.open? s (ht.trans hs)⟩

theorem reset (h : Agrees l key c now) : Agrees l.reset key c.reset now :=
  ⟨isKeyed_reset l, h.points, h.duration, fun _ _ => rfl⟩

theorem current (h : Agrees l key c now) :
    c.current now = (l.open? key now).getD ⟨now, 0⟩ := by
  rw [Counter.current_eq, h.open? now le_rfl]

/-- Both decide a request of the client alike. -/
theorem decision (h : Agrees l key c now) : (l.consume key now).2 = (c.request now).2 := by
  rw [consume_decision h.isKeyed, ← h.current]
  simp only [Limiter.decide, Counter.request, h.points, h.duration]
  split
  · next hle => rw [if_neg (not_lt.mpr hle)]
  · next hlt =>
    rw [if_pos (not_le.mp hlt)]
    simp only [Decision.accepted.injEq]
    omega

/-- The windows of both are open for equally long. -/
theorem open?_of_window? (hd : c.duration = l.duration)
    (hw : c.window? = l.window? key) : c.open? t = l.open? key t := by
  simp only [Counter.open?, Limiter.open?, hw, hasElapsed, hd]
  congr 1
  funext w
  rw [Bool.eq_iff_iff, Bool.not_eq_true', decide_eq_true_iff, decide_eq_false_iff_not, not_le,
    sub_lt_iff_lt_add']

/-- A request of the client keeps the two in agreement. -/
theorem request (hp : 1 ≤ c.points) (h : Agrees l key c now) :
    Agrees (l.consume key now).1 key (c.request now).1 now := by
  have hw := window?_consume_self h.isKeyed key now
  rw [← h.current] at hw
  by_cases hlt : (c.current now).count < c.points
  · -- counted: both keep the window with one request more
    have hc : (c.request now).1 = { c with window? := some ⟨(c.current now).start,
        (c.current now).count + 1⟩ } := by
      simp only [Counter.request, if_pos hlt]
    refine ⟨h.isKeyed.consume key now, ?_, ?_, fun t _ => open?_of_window? ?_ ?_⟩
    · rw [hc, points_consume, ← h.points]
    · rw [hc, duration_consume, ← h.duration]
    · rw [hc, duration_consume, ← h.duration]
    · rw [hc, hw, counted, if_neg (not_le.mpr (h.points ▸ hlt))]
  · -- turned away: the window was open, and the limiter writes it back as it was
    have hfull := not_lt.mp hlt
    have hc : (c.request now).1 = c := by
      simp only [Counter.request, if_neg hlt]
    rw [hc]
    refine ⟨h.isKeyed.consume key now, ?_, ?_, fun t _ => open?_of_window? ?_ ?_⟩
    · rw [points_consume, h.points]
    · rw [duration_consume, h.duration]
    · rw [duration_consume, h.duration]
    · rw [hw, counted, if_pos (h.points ▸ hfull), Counter.window?_of_current_full hp hfull]

/-- A request of another client keeps the two in agreement. -/
theorem other (h : Agrees l key c now) (hk : key ≠ k) :
    Agrees (l.consume k now).1 key c now := by
  refine ⟨h.isKeyed.consume k now, ?_, ?_, ?_⟩
  · rw [points_consume, h.points]
  · rw [duration_consume, h.duration]
  · intro t ht
    rw [open?_consume_of_ne h.isKeyed hk ht, h.open? t ht]

end Agrees

@[simp] theorem Counter.points_request (c : Counter) (now : Rat) :
    (c.request now).1.points = c.points := by
  simp only [Counter.request]
  split <;> rfl

/-- Two that agree answer the rest of a run alike. -/
theorem Agrees.answers {c : Counter} {es : List Event} (hp : 1 ≤ c.points)
    (h : Agrees l key c now) (hc : Chronological es)
    (hs : ∀ s ∈ es.filterMap Event.time?, now ≤ s) :
    l.answers key es = c.answers (es.filter (·.concerns key)) := by
  induction es generalizing l c now with
  | nil => rfl
  | cons e es ih =>
    cases e with
    | reset => exact ih hp h.reset hc.tail hs
    | request k t =>
      have ht : now ≤ t := hs t (List.mem_cons_self ..)
      rw [answers_request]
      rcases eq_or_ne k key with rfl | hk
      · rw [if_pos rfl, List.filter_cons_of_pos (Event.concerns_request_self k t),
          Counter.answers_request, (h.mono ht).decision]
        congr 1
        exact ih (by rwa [Counter.points_request]) ((h.mono ht).request hp) hc.tail hc.le_of_mem
      · rw [if_neg hk, List.filter_cons_of_neg (by simpa using hk)]
        exact ih hp ((h.mono ht).other hk.symm) hc.tail hc.le_of_mem

/-- **A limiter refines one counter for each client.** In every run of a new limiter during which
    the clock does not go back, the client is answered as by the client's own counter, which knows
    of no sweep and of no other client, and which a request that is turned away does not change. -/
theorem answers_eq_counter {points : Int} (hp : 1 ≤ points) (duration : Int) (start : Rat)
    (key : String) {es : List Event} (hc : Chronological es) :
    (new points duration start).answers key es =
      (Counter.new points duration).answers (es.filter (·.concerns key)) := by
  cases hes : es.filterMap Event.time? with
  | nil => exact (Agrees.new points duration start 0 key).answers hp hc (by simp [hes])
  | cons t ts =>
    apply (Agrees.new points duration start t key).answers hp hc
    intro s hs
    rw [hes] at hs
    rcases List.mem_cons.mp hs with rfl | hs
    · exact le_rfl
    · exact (List.pairwise_cons.mp (hes ▸ hc : (t :: ts).Pairwise (· ≤ ·))).1 s hs

/-- One request each ten seconds: a second one is turned away, a request of another client sweeps
    the window that ran out, and the client starts anew. -/
theorem answers_of_one_in_ten :
    let es : List Event := [.request "a" 0, .request "a" (19 / 4), .request "b" 10, .request "a" 10,
      .reset, .request "a" 11]
    (1 : Int) ≤ 1 ∧ Chronological es ∧
      (new 1 10 0).answers "a" es = (Counter.new 1 10).answers (es.filter (·.concerns "a")) ∧
      (new 1 10 0).answers "a" es =
        [.accepted 0, .rejected 1 10 6, .accepted 0, .accepted 0] := by
  intro es
  have hc : Chronological es := by decide +kernel
  exact ⟨le_rfl, hc, answers_eq_counter le_rfl 10 0 "a" hc, by decide +kernel⟩

end Almanac.Limiter
