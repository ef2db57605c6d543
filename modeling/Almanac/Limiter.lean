/-!
# Limiting requests

Every client has a budget of requests for a window of time, which opens with the first request.
A request beyond the budget is turned away and does not count. Windows that have run out are
swept away now and then; a client without a window opens a new one with the next request.
-/

namespace Almanac

/-- A client's window: when it opened, and how many requests it has counted. -/
structure Limiter.Window where
  start : Rat
  count : Nat
  deriving DecidableEq

/-- The state of the limiter. Every window counts up to `points` requests and stays open for
    `duration` seconds. -/
structure Limiter where
  points    : Int
  duration  : Int
  windows   : List (String × Limiter.Window)
  lastSweep : Rat
  deriving DecidableEq

/-- What the limiter says to a request. -/
inductive Limiter.Decision where
  /-- Counted, with so many requests left. -/
  | accepted (remaining : Int)
  /-- Turned away: the window ends at `reset`, which is `retryAfter` seconds ahead at most. -/
  | rejected (limit reset retryAfter : Int)
  deriving DecidableEq, Repr

namespace Limiter

/-! ### Windows by client -/

/-- Give a client a window in place of its present one. -/
def setWindow (key : String) (w : Window) : List (String × Window) → List (String × Window)
  | []           => [(key, w)]
  | (k, v) :: ws => if k = key then (key, w) :: ws else (k, v) :: setWindow key w ws

@[simp] theorem lookup_setWindow_self (key : String) (w : Window) (ws : List (String × Window)) :
    (setWindow key w ws).lookup key = some w := by
  induction ws with
  | nil => simp [setWindow]
  | cons p ws ih =>
    obtain ⟨k, v⟩ := p
    by_cases h : k = key
    · simp [setWindow, h]
    · have h' : (key == k) = false := by simpa using Ne.symm h
      simp [setWindow, h, List.lookup_cons, h', ih]

theorem lookup_setWindow_of_ne {key k : String} (h : k ≠ key) (w : Window)
    (ws : List (String × Window)) : (setWindow key w ws).lookup k = ws.lookup k := by
  have hk : (k == key) = false := by simpa using h
  induction ws with
  | nil => simp [setWindow, List.lookup_cons, hk]
  | cons p ws ih =>
    obtain ⟨k', v⟩ := p
    by_cases hk' : k' = key
    · subst hk'
      simp [setWindow, List.lookup_cons, hk]
    · simp only [setWindow, hk', if_false, List.lookup_cons, ih]

theorem keys_setWindow (key : String) (w : Window) (ws : List (String × Window)) :
    (setWindow key w ws).map Prod.fst =
      if key ∈ ws.map Prod.fst then ws.map Prod.fst else ws.map Prod.fst ++ [key] := by
  induction ws with
  | nil => simp [setWindow]
  | cons p ws ih =>
    by_cases h : p.1 = key
    · simp [setWindow, h]
    · by_cases hk : key ∈ ws.map Prod.fst <;> simp_all [setWindow, Ne.symm h]

/-! ### The limiter -/

/-- A limiter that has seen no request. -/
def new (points duration : Int) (now : Rat) : Limiter :=
  ⟨points, duration, [], now⟩

/-- Whether a window has run out. -/
def hasElapsed (l : Limiter) (w : Window) (now : Rat) : Bool :=
  (l.duration : Rat) ≤ now - w.start

/-- A client's window. -/
def window? (l : Limiter) (key : String) : Option Window :=
  l.windows.lookup key

/-- Drop the windows that have run out, if the last sweep lies a whole duration back. -/
def sweep (l : Limiter) (now : Rat) : Limiter :=
  if (l.duration : Rat) ≤ now - l.lastSweep then
    { l with windows := l.windows.filter fun p => !l.hasElapsed p.2 now, lastSweep := now }
  else l

/-- A client's window at the time of a request: a new one unless the present one is still open. -/
def current (l : Limiter) (key : String) (now : Rat) : Window :=
  match l.window? key with
  | some w => if l.hasElapsed w now then ⟨now, 0⟩ else w
  | none   => ⟨now, 0⟩

/-- Decide on a request that falls into a window. -/
def decide (l : Limiter) (w : Window) (now : Rat) : Decision :=
  if l.points ≤ w.count then
    let reset := w.start + l.duration
    .rejected l.points reset.ceil (max (reset - now).ceil 1)
  else .accepted (l.points - (w.count + 1 : Nat))

/-- The window after the decision on a request. -/
def counted (l : Limiter) (w : Window) : Window :=
  if l.points ≤ w.count then w else { w with count := w.count + 1 }

/-- Take a client's request. -/
def consume (l : Limiter) (key : String) (now : Rat) : Limiter × Decision :=
  let l := l.sweep now
  let w := l.current key now
  ({ l with windows := setWindow key (l.counted w) l.windows }, l.decide w now)

/-- Forget all windows. -/
def reset (l : Limiter) : Limiter :=
  { l with windows := [] }

/-- The number of windows kept. -/
def size (l : Limiter) : Nat :=
  l.windows.length

end Limiter

end Almanac
