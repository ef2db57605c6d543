import Almanac.Limiter
import Mathlib.Algebra.Order.Group.Unbundled.Basic
import Mathlib.Algebra.Order.Ring.Rat
import Mathlib.Data.List.Nodup

/-!
# Runs of the limiter

A run is a list of events: requests of clients, each at a reading of the clock, and resets. What
matters of a client's window is whether it is open and what it has counted, for a window that has
run out is as good as none: sweeping changes the windows that are kept, and no open one.
-/

namespace Almanac.Limiter

variable {l : Limiter} {w : Window} {key k : String} {now t : Rat}

/-! ### Events -/

/-- What happens to a limiter. -/
inductive Event where
  /-- A client's request at a reading of the clock. -/
  | request (key : String) (time : Rat)
  | reset
  deriving DecidableEq

/-- The reading of the clock at an event. A reset reads no clock. -/
def Event.time? : Event → Option Rat
  | .request _ t => some t
  | .reset       => none

/-- Whether an event touches a client: its own requests do, and the resets. -/
def Event.concerns (key : String) : Event → Bool
  | .request k _ => k == key
  | .reset       => true

@[simp] theorem Event.concerns_request (key k : String) (t : Rat) :
    (Event.request k t).concerns key = (k == key) := rfl

theorem Event.concerns_request_self (key : String) (t : Rat) :
    (Event.request key t).concerns key = true :=
  beq_self_eq_true key

/-- The clock never goes back during a run. -/
def Chronological (es : List Event) : Prop :=
  (es.filterMap Event.time?).Pairwise (· ≤ ·)

instance (es : List Event) : Decidable (Chronological es) :=
  inferInstanceAs (Decidable (List.Pairwise _ _))

/-- The answers to a client's requests in a run, in order. -/
def answers (key : String) : Limiter → List Event → List Decision
  | _, []                 => []
  | l, .request k t :: es =>
    let (l, d) := l.consume k t
    if k = key then d :: answers key l es else answers key l es
  | l, .reset :: es       => answers key l.reset es

@[simp] theorem answers_nil (key : String) (l : Limiter) : answers key l [] = [] := rfl

theorem answers_request (key k : String) (l : Limiter) (t : Rat) (es : List Event) :
    answers key l (.request k t :: es) =
      if k = key then (l.consume k t).2 :: answers key (l.consume k t).1 es
      else answers key (l.consume k t).1 es := rfl

@[simp] theorem answers_reset (key : String) (l : Limiter) (es : List Event) :
    answers key l (.reset :: es) = answers key l.reset es := rfl

theorem Chronological.tail {e : Event} {es : List Event} (h : Chronological (e :: es)) :
    Chronological es := by
  cases e with
  | request k t => exact (List.pairwise_cons.mp h).2
  | reset => exact h

theorem Chronological.le_of_mem {es : List Event} (h : Chronological (.request k t :: es)) :
    ∀ s ∈ es.filterMap Event.time?, t ≤ s :=
  (List.pairwise_cons.mp h).1

/-! ### Elapsed windows -/

theorem hasElapsed_iff : l.hasElapsed w now = true ↔ (l.duration : Rat) ≤ now - w.start := by
  simp [hasElapsed]

/-- A window that has run out stays so. -/
theorem hasElapsed_mono (h : now ≤ t) (hw : l.hasElapsed w now = true) :
    l.hasElapsed w t = true := by
  rw [hasElapsed_iff] at hw ⊢
  exact hw.trans (sub_le_sub_right h w.start)

/-- A client's window, if it is open at a time. -/
def open? (l : Limiter) (key : String) (t : Rat) : Option Window :=
  (l.window? key).filter fun w => !l.hasElapsed w t

theorem current_eq : l.current key now = (l.open? key now).getD ⟨now, 0⟩ := by
  simp only [current, open?]
  cases l.window? key with
  | none => rfl
  | some w => cases h : l.hasElapsed w now <;> simp [Option.filter, h]

/-! ### One window for each client -/

/-- Every client has at most one window. -/
def IsKeyed (l : Limiter) : Prop :=
  (l.windows.map Prod.fst).Nodup

theorem isKeyed_new (points duration : Int) (now : Rat) : (new points duration now).IsKeyed :=
  List.nodup_nil

theorem isKeyed_reset (l : Limiter) : l.reset.IsKeyed :=
  List.nodup_nil

theorem IsKeyed.sweep (h : l.IsKeyed) (now : Rat) : (l.sweep now).IsKeyed := by
  simp only [Limiter.sweep]
  split
  · exact h.sublist (List.filter_sublist.map _)
  · exact h

theorem IsKeyed.consume (h : l.IsKeyed) (k : String) (now : Rat) :
    (l.consume k now).1.IsKeyed := by
  simp only [IsKeyed, Limiter.consume, keys_setWindow]
  split
  · exact h.sweep now
  · next hk =>
    refine List.nodup_append.mpr ⟨h.sweep now, List.nodup_singleton k, ?_⟩
    intro a ha b hb hab
    obtain rfl := List.mem_singleton.mp hb
    exact hk (hab ▸ ha)

/-! ### Sweeping -/

@[simp] theorem duration_sweep : (l.sweep now).duration = l.duration := by
  simp only [sweep]
  split <;> rfl

@[simp] theorem points_sweep : (l.sweep now).points = l.points := by
  simp only [sweep]
  split <;> rfl

theorem hasElapsed_sweep : (l.sweep now).hasElapsed w t = l.hasElapsed w t := by
  simp [hasElapsed]

/-- In a list with one value for each key, looking up among the values that pass a test is testing
    the value that is found. -/
theorem lookup_filter {p : Window → Bool} {ws : List (String × Window)}
    (h : (ws.map Prod.fst).Nodup) (key : String) :
    (ws.filter fun x => p x.2).lookup key = (ws.lookup key).filter p := by
  induction ws with
  | nil => rfl
  | cons x ws ih =>
    obtain ⟨k, w⟩ := x
    rw [List.map_cons, List.nodup_cons] at h
    rcases eq_or_ne key k with rfl | hk
    · have hn : (ws.filter fun x => p x.2).lookup key = none := by
        rw [List.lookup_eq_none_iff]
        intro x hx
        have hmem := List.mem_map_of_mem (f := Prod.fst) (List.mem_filter.mp hx).1
        exact bne_iff_ne.mpr fun he => h.1 (he ▸ hmem)
      cases hp : p w <;> simp [Option.filter, hp, hn]
    · have hk' : (key == k) = false := by simpa using hk
      cases hp : p w <;> simp [List.lookup_cons, hp, hk', ih h.2]

/-- A sweep closes no window that is open then or later. -/
theorem open?_sweep (hl : l.IsKeyed) (h : now ≤ t) : (l.sweep now).open? key t = l.open? key t := by
  simp only [open?, hasElapsed_sweep, window?]
  simp only [sweep]
  split
  · rw [lookup_filter (p := fun w => !l.hasElapsed w now) hl, Option.filter_filter]
    congr 1
    funext w
    cases ht : l.hasElapsed w t with
    | true => exact Bool.and_false _
    | false =>
      -- a window that is open at `t` was open at `now`
      have hn : l.hasElapsed w now = false := by
        rw [Bool.eq_false_iff] at ht ⊢
        intro hw
        exact ht (hasElapsed_mono h hw)
      simp [hn]
  · rfl

/-! ### Requests -/

@[simp] theorem points_consume : (l.consume k now).1.points = l.points := by
  simp [consume]

@[simp] theorem duration_consume : (l.consume k now).1.duration = l.duration := by
  simp [consume]

theorem hasElapsed_consume : (l.consume k now).1.hasElapsed w t = l.hasElapsed w t := by
  simp [hasElapsed]

/-- A request is decided by the client's open window alone, or by a new one. -/
theorem consume_decision (hl : l.IsKeyed) :
    (l.consume key now).2 = l.decide ((l.open? key now).getD ⟨now, 0⟩) now := by
  simp only [consume, current_eq, open?_sweep hl le_rfl, decide, points_sweep, duration_sweep]

/-- After a request the client has the window that the request was counted in. -/
theorem window?_consume_self (hl : l.IsKeyed) (key : String) (now : Rat) :
    (l.consume key now).1.window? key =
      some (l.counted ((l.open? key now).getD ⟨now, 0⟩)) := by
  simp only [consume, window?, lookup_setWindow_self, current_eq, open?_sweep hl le_rfl, counted,
    points_sweep]

/-- A request of one client leaves the open windows of the others as they are. -/
theorem open?_consume_of_ne (hl : l.IsKeyed) (hk : key ≠ k) (h : now ≤ t) :
    (l.consume k now).1.open? key t = l.open? key t := by
  rw [← open?_sweep hl h]
  simp only [open?, hasElapsed_consume, hasElapsed_sweep]
  simp only [consume, window?, lookup_setWindow_of_ne hk]

end Almanac.Limiter
