import Almanac.Proofs.Limiter.Refinement
import Mathlib.Tactic.Linarith

/-!
# How many requests are accepted

A client's windows begin a whole duration apart, and each of them counts up to the budget. So in any
stretch of time as long as a window at most twice the budget is accepted, since it meets two windows
at most.

As a limiter refines one counter for each client, it is enough to follow that counter: what it has
counted in its window is what was accepted there, and earlier windows have run out before it began.
Every request preserves this.
-/

namespace Almanac.Limiter

variable {l : Limiter} {c : Counter} {w : Window} {key k : String} {now t : Rat} {es : List Event}

/-! ### Windows that are kept -/

/-- The limiter after an event. -/
def afterEvent (l : Limiter) : Event → Limiter
  | .request key t => (l.consume key t).1
  | .reset         => l.reset

/-- The limiter after a run. -/
def afterRun (l : Limiter) (es : List Event) : Limiter :=
  es.foldl afterEvent l

/-- Every window that is kept has counted a request, and no more than the budget. -/
def IsBounded (l : Limiter) : Prop :=
  ∀ x ∈ l.windows, 1 ≤ x.2.count ∧ (x.2.count : Int) ≤ l.points

theorem mem_setWindow {x : String × Window} {ws : List (String × Window)}
    (h : x ∈ setWindow key w ws) : x = (key, w) ∨ x ∈ ws := by
  induction ws with
  | nil => exact .inl (List.mem_singleton.mp h)
  | cons y ws ih =>
    rw [setWindow] at h
    split at h
    · rcases List.mem_cons.mp h with h | h
      · exact .inl h
      · exact .inr (List.mem_cons_of_mem y h)
    · rcases List.mem_cons.mp h with h | h
      · exact .inr (h ▸ List.mem_cons_self ..)
      · exact (ih h).imp_right (List.mem_cons_of_mem y)

/-- A request falls into a new window, or into one that is kept. -/
theorem current_eq_or_mem (l : Limiter) (key : String) (now : Rat) :
    l.current key now = ⟨now, 0⟩ ∨ (key, l.current key now) ∈ l.windows := by
  rw [current]
  split
  · next w hw =>
    split
    · exact .inl rfl
    · obtain ⟨before, after, hws, -⟩ := List.lookup_eq_some_iff.mp hw
      right
      rw [hws]
      exact List.mem_append_right before (List.mem_cons_self ..)
  · exact .inl rfl

theorem IsBounded.sweep (h : l.IsBounded) (now : Rat) : (l.sweep now).IsBounded := by
  intro x hx
  rw [points_sweep]
  rw [Limiter.sweep] at hx
  split at hx
  · exact h x (List.mem_filter.mp hx).1
  · exact h x hx

theorem IsBounded.counted (hp : 1 ≤ l.points) (h : l.IsBounded) (key : String) (now : Rat) :
    1 ≤ (l.counted (l.current key now)).count ∧
      ((l.counted (l.current key now)).count : Int) ≤ l.points := by
  rw [Limiter.counted]
  split
  · next hfull =>
    rcases l.current_eq_or_mem key now with hnew | hmem
    · rw [hnew] at hfull
      simp only [Int.natCast_zero] at hfull
      omega
    · exact h _ hmem
  · next hfree =>
    simp only
    omega

/-- A request keeps the windows bounded, whatever the clock shows. -/
theorem IsBounded.consume (hp : 1 ≤ l.points) (h : l.IsBounded) (key : String) (now : Rat) :
    (l.consume key now).1.IsBounded := by
  intro x hx
  have hpoints : (l.sweep now).points = l.points := points_sweep
  rw [points_consume, ← hpoints]
  rcases mem_setWindow hx with rfl | hx
  · exact (h.sweep now).counted (by rwa [points_sweep]) key now
  · exact h.sweep now x hx

theorem points_afterEvent (l : Limiter) (e : Event) : (l.afterEvent e).points = l.points := by
  cases e with
  | request k t => exact points_consume
  | reset => rfl

theorem IsBounded.afterRun (hp : 1 ≤ l.points) (h : l.IsBounded) (es : List Event) :
    (l.afterRun es).points = l.points ∧ (l.afterRun es).IsBounded := by
  induction es generalizing l with
  | nil => exact ⟨rfl, h⟩
  | cons e es ih =>
    have hpoints := l.points_afterEvent e
    have hstep : (l.afterEvent e).IsBounded := by
      cases e with
      | request k t => exact h.consume hp k t
      | reset => exact fun x hx => nomatch hx
    obtain ⟨hrest, hbounded⟩ := ih (hpoints ▸ hp) hstep
    exact ⟨hrest.trans hpoints, hbounded⟩

/-! ### Requests that are accepted -/

/-- An accepted request: when it was made, and when the window began in which it was counted. -/
structure Grant where
  time  : Rat
  start : Rat
  deriving DecidableEq

/-- Whether a request was accepted. -/
def Decision.isAccepted : Decision → Bool
  | .accepted _  => true
  | .rejected .. => false

/-- What an event grants a client: its request, if that is accepted, is counted in the window that
    the client has then. -/
def grant? (key : String) (l : Limiter) : Event → Option Grant
  | .request k t =>
    if k = key ∧ (l.consume k t).2.isAccepted then
      ((l.consume k t).1.window? k).map fun w => ⟨t, w.start⟩
    else none
  | .reset       => none

/-- The accepted requests of a client in a run, in order. -/
def grants (key : String) : Limiter → List Event → List Grant
  | _, []      => []
  | l, e :: es => (grant? key l e).toList ++ grants key (l.afterEvent e) es

@[simp] theorem grants_nil (key : String) (l : Limiter) : grants key l [] = [] := rfl

theorem grants_cons (key : String) (l : Limiter) (e : Event) (es : List Event) :
    grants key l (e :: es) = (grant? key l e).toList ++ grants key (l.afterEvent e) es := rfl

/-- The window in which a counter counts a request, if it accepts it. -/
def Counter.grant? (c : Counter) (t : Rat) : Option Grant :=
  if (c.current t).count < c.points then some ⟨t, (c.current t).start⟩ else none

theorem start_counted (l : Limiter) (w : Window) : (l.counted w).start = w.start := by
  rw [counted]
  split <;> rfl

/-- A client is granted as many requests as are answered with their acceptance. -/
theorem length_grants (hl : l.IsKeyed) (key : String) (es : List Event) :
    (grants key l es).length = (answers key l es).countP Decision.isAccepted := by
  induction es generalizing l with
  | nil => rfl
  | cons e es ih =>
    rw [grants_cons, List.length_append]
    cases e with
    | reset => exact (Nat.zero_add _).trans (ih (isKeyed_reset l))
    | request k t =>
      have hrest := ih (hl.consume k t)
      rw [answers_request]
      by_cases hk : k = key
      · rw [if_pos hk, List.countP_cons, afterEvent, hrest, grant?, window?_consume_self hl]
        cases (l.consume k t).2.isAccepted <;> simp [hk, Nat.add_comm]
      · rw [if_neg hk, grant?, if_neg fun h => hk h.1]
        exact (Nat.zero_add _).trans hrest

/-- A limiter grants its clients what their counters grant. -/
theorem Agrees.grant? (h : Agrees l key c t) :
    Limiter.grant? key l (.request key t) = c.grant? t := by
  rw [Limiter.grant?, Counter.grant?, h.decision, window?_consume_self h.isKeyed, ← h.current,
    Option.map_some, start_counted]
  by_cases hlt : (c.current t).count < c.points
  · simp [Counter.request, hlt, Decision.isAccepted]
  · simp [Counter.request, hlt, Decision.isAccepted]

/-! ### Counting in one window -/

theorem forall_mem_concat {p : Grant → Prop} {gs : List Grant} {g : Grant} :
    (∀ x ∈ gs ++ [g], p x) ↔ (∀ x ∈ gs, p x) ∧ p g := by
  rw [List.forall_mem_append, List.forall_mem_singleton]

theorem countP_le_add {p q r : Grant → Bool} {gs : List Grant} (h : ∀ g ∈ gs, p g → q g ∨ r g) :
    gs.countP p ≤ gs.countP q + gs.countP r := by
  induction gs with
  | nil => exact Nat.le_refl 0
  | cons g gs ih =>
    obtain ⟨hg, hgs⟩ := List.forall_mem_cons.mp h
    have hrest := ih hgs
    simp only [List.countP_cons]
    by_cases hp : p g
    · rcases hg hp with hq | hr
      · rw [if_pos hp, if_pos hq]
        omega
      · rw [if_pos hp, if_pos hr]
        omega
    · rw [if_neg hp]
      omega

/-- What a counter has granted up to a time: in its window as much as it has counted there, and
    otherwise in windows that had run out when that one began. -/
structure Tallies (c : Counter) (gs : List Grant) (now : Rat) : Prop where
  start_le : ∀ w ∈ c.window?, w.start ≤ now
  counts   : ∀ w ∈ c.window?, gs.countP (·.start = w.start) = w.count
  follows  : ∀ g ∈ gs, ∃ w ∈ c.window?, g.start = w.start ∨ g.start + c.duration ≤ w.start
  within   : ∀ g ∈ gs, g.start ≤ g.time ∧ g.time < g.start + c.duration
  apart    : ∀ g ∈ gs, ∀ h ∈ gs,
    g.start = h.start ∨ g.start + c.duration ≤ h.start ∨ h.start + c.duration ≤ g.start
  bounded  : ∀ s, (gs.countP (·.start = s) : Int) ≤ c.points

namespace Tallies

variable {gs : List Grant}

theorem new {points : Int} (hp : 1 ≤ points) (duration : Int) (now : Rat) :
    Tallies (.new points duration) [] now where
  start_le := fun _ hw => nomatch hw
  counts := fun _ hw => nomatch hw
  follows := fun _ hg => nomatch hg
  within := fun _ hg => nomatch hg
  apart := fun _ hg => nomatch hg
  bounded := fun _ => le_trans (Int.natCast_nonneg 0) (le_trans (by decide) hp)

theorem mono (h : Tallies c gs now) (ht : now ≤ t) : Tallies c gs t :=
  { h with start_le := fun w hw => (h.start_le w hw).trans ht }

/-- The window that a request falls into, which is open then: it has counted what was granted in it,
    and all other windows had run out when it began. -/
theorem current (hd : 1 ≤ c.duration) (h : Tallies c gs now) :
    ((c.current now).start ≤ now ∧ now < (c.current now).start + c.duration) ∧
      gs.countP (·.start = (c.current now).start) = (c.current now).count ∧
      ∀ g ∈ gs, g.start = (c.current now).start ∨ g.start + c.duration ≤ (c.current now).start := by
  have hpos : (0 : Rat) < c.duration := by exact_mod_cast hd
  -- a new window begins where all the others have run out
  have hnew (hover : ∀ g ∈ gs, g.start + c.duration ≤ now) :
      (now ≤ now ∧ now < now + c.duration) ∧ gs.countP (·.start = now) = 0 ∧
        ∀ g ∈ gs, g.start = now ∨ g.start + c.duration ≤ now := by
    refine ⟨⟨le_rfl, lt_add_of_pos_right now hpos⟩, ?_, fun g hg => .inr (hover g hg)⟩
    rw [List.countP_eq_zero]
    intro g hg hs
    have hs : g.start = now := of_decide_eq_true hs
    have := hover g hg
    linarith
  rw [Counter.current]
  split
  · next w hw =>
    split
    · next hopen =>
      refine ⟨⟨h.start_le w hw, hopen⟩, h.counts w hw, fun g hg => ?_⟩
      obtain ⟨w', hw', hg⟩ := h.follows g hg
      obtain rfl := Option.some.inj (hw.symm.trans hw')
      exact hg
    · next hover =>
      apply hnew
      intro g hg
      obtain ⟨w', hw', hg⟩ := h.follows g hg
      obtain rfl := Option.some.inj (hw.symm.trans hw')
      rcases hg with hg | hg
      · rw [hg]
        exact not_lt.mp hover
      · linarith [not_lt.mp hover]
  · next hnone =>
    apply hnew
    intro g hg
    obtain ⟨w, hw, -⟩ := h.follows g hg
    rw [hnone] at hw
    cases hw

/-- A grant in the window of its time keeps the tallies; the window has one more then. -/
theorem concat (h : Tallies c gs now) (hin : w.start ≤ now ∧ now < w.start + c.duration)
    (hcount : gs.countP (·.start = w.start) = w.count)
    (hothers : ∀ g ∈ gs, g.start = w.start ∨ g.start + c.duration ≤ w.start)
    (hlt : w.count < c.points) :
    Tallies { c with window? := some ⟨w.start, w.count + 1⟩ } (gs ++ [⟨now, w.start⟩]) now where
  start_le := by
    rintro _ ⟨⟩
    exact hin.1
  counts := by
    rintro _ ⟨⟩
    simp [List.countP_append, hcount]
  follows := forall_mem_concat.mpr
    ⟨fun g hg => ⟨_, rfl, hothers g hg⟩, _, rfl, .inl rfl⟩
  within := forall_mem_concat.mpr ⟨h.within, hin⟩
  apart := forall_mem_concat.mpr
    ⟨fun g hg => forall_mem_concat.mpr ⟨h.apart g hg, (hothers g hg).imp_right .inl⟩,
      forall_mem_concat.mpr ⟨fun g hg => (hothers g hg).imp Eq.symm .inr, .inl rfl⟩⟩
  bounded := by
    intro s
    rw [List.countP_append, List.countP_singleton]
    by_cases hs : w.start = s
    · subst hs
      rw [hcount, if_pos (decide_eq_true rfl)]
      exact hlt
    · rw [if_neg (by simpa using hs)]
      exact h.bounded s

/-- A request keeps the tallies, whether it is granted or not. -/
theorem request (hd : 1 ≤ c.duration) (h : Tallies c gs now) :
    Tallies (c.request now).1 (gs ++ (c.grant? now).toList) now := by
  obtain ⟨hin, hcount, hothers⟩ := h.current hd
  by_cases hlt : (c.current now).count < c.points
  · have hg : c.grant? now = some ⟨now, (c.current now).start⟩ := if_pos hlt
    simp only [Counter.request, if_pos hlt, hg, Option.toList_some]
    exact h.concat hin hcount hothers hlt
  · have hg : c.grant? now = none := if_neg hlt
    simp only [Counter.request, if_neg hlt, hg, Option.toList_none, List.append_nil]
    exact h

/-- Grants that are made within less than a duration of each other are counted in two windows at
    most. -/
theorem start_eq_or_eq (h : Tallies c gs now) {g x y : Grant} (hg : g ∈ gs) (hx : x ∈ gs)
    (hy : y ∈ gs) (hclose : ∀ a ∈ [g, x, y], ∀ b ∈ [g, x, y], a.time < b.time + c.duration)
    (hne : x.start ≠ g.start) : y.start = g.start ∨ y.start = x.start := by
  simp only [List.forall_mem_cons] at hclose
  have hwg := h.within g hg
  have hwx := h.within x hx
  have hwy := h.within y hy
  by_contra hn
  rw [not_or] at hn
  rcases h.apart x hx g hg with hgx | hgx
  · exact hne hgx
  rcases h.apart y hy g hg with hgy | hgy
  · exact hn.1 hgy
  rcases h.apart y hy x hx with hxy | hxy
  · exact hn.2 hxy
  -- of three windows, the last begins when the first has been over for a whole duration
  rcases hgx with hgx | hgx <;> rcases hgy with hgy | hgy <;> rcases hxy with hxy | hxy <;>
    linarith

/-- Of the grants that are made within less than a duration of each other, there are at most as many
    as two windows count. -/
theorem countP_le (hp : 1 ≤ c.points) (h : Tallies c gs now) {p : Grant → Bool}
    (hclose : ∀ g ∈ gs, ∀ x ∈ gs, p g → p x → g.time < x.time + c.duration) :
    (gs.countP p : Int) ≤ 2 * c.points := by
  by_cases hsome : ∃ g ∈ gs, p g
  · obtain ⟨g, hg, hpg⟩ := hsome
    have hboundg := h.bounded g.start
    by_cases hother : ∃ x ∈ gs, p x ∧ x.start ≠ g.start
    · obtain ⟨x, hx, hpx, hne⟩ := hother
      have hboundx := h.bounded x.start
      have hle : gs.countP p ≤ gs.countP (·.start = g.start) + gs.countP (·.start = x.start) := by
        apply countP_le_add
        intro y hy hpy
        rw [decide_eq_true_iff, decide_eq_true_iff]
        refine h.start_eq_or_eq hg hx hy ?_ hne
        intro a ha b hb
        have hall : ∀ z ∈ [g, x, y], z ∈ gs ∧ p z = true := by
          simp [hg, hpg, hx, hpx, hy, hpy]
        exact hclose a (hall a ha).1 b (hall b hb).1 (hall a ha).2 (hall b hb).2
      omega
    · have hle : gs.countP p ≤ gs.countP (·.start = g.start) := by
        apply List.countP_mono_left
        intro x hx hpx
        by_contra hne
        exact hother ⟨x, hx, hpx, fun he => hne (decide_eq_true he)⟩
      omega
  · have hzero : gs.countP p = 0 := by
      rw [List.countP_eq_zero]
      exact fun g hg hpg => hsome ⟨g, hg, hpg⟩
    omega

end Tallies

/-! ### Runs -/

theorem Counter.duration_request (c : Counter) (now : Rat) :
    (c.request now).1.duration = c.duration := by
  simp only [Counter.request]
  split <;> rfl

/-- A run keeps the tallies of every client. -/
theorem Tallies.run {gs : List Grant} (hp : 1 ≤ c.points) (hd : 1 ≤ c.duration)
    (ha : Agrees l key c now) (h : Tallies c gs now) (hc : Chronological es)
    (hs : ∀ s ∈ es.filterMap Event.time?, now ≤ s) (hreset : .reset ∉ es) :
    ∃ c' later, c'.points = c.points ∧ c'.duration = c.duration ∧
      Tallies c' (gs ++ grants key l es) later := by
  induction es generalizing l c gs now with
  | nil => exact ⟨c, now, rfl, rfl, by rwa [grants_nil, List.append_nil]⟩
  | cons e es ih =>
    rw [List.mem_cons, not_or] at hreset
    cases e with
    | reset => exact absurd rfl hreset.1
    | request k t =>
      have ht : now ≤ t := hs t (List.mem_cons_self ..)
      rw [grants_cons, ← List.append_assoc]
      rcases eq_or_ne k key with rfl | hk
      · rw [(ha.mono ht).grant?]
        have hpoints := c.points_request t
        have hduration := c.duration_request t
        obtain ⟨c', later, hp', hd', h'⟩ := ih (hpoints ▸ hp) (hduration ▸ hd)
          ((ha.mono ht).request hp) ((h.mono ht).request hd) hc.tail hc.le_of_mem hreset.2
        exact ⟨c', later, hp'.trans hpoints, hd'.trans hduration, h'⟩
      · have hnone : grant? key l (.request k t) = none := if_neg fun h => hk h.1
        rw [hnone, Option.toList_none, List.append_nil]
        exact ih hp hd ((ha.mono ht).other hk.symm) (h.mono ht) hc.tail hc.le_of_mem hreset.2

/-- There is a time before all events of a run. -/
theorem exists_le_of_chronological (hc : Chronological es) :
    ∃ now, ∀ s ∈ es.filterMap Event.time?, now ≤ s := by
  rw [Chronological] at hc
  cases hes : es.filterMap Event.time? with
  | nil => exact ⟨0, fun s hs => nomatch hs⟩
  | cons t ts =>
    rw [hes] at hc
    exact ⟨t, List.forall_mem_cons.mpr ⟨le_rfl, (List.pairwise_cons.mp hc).1⟩⟩

/-- What a client is granted in a run without resets is tallied. -/
theorem exists_tallies {points duration : Int} (hp : 1 ≤ points) (hd : 1 ≤ duration) (start : Rat)
    (key : String) (hc : Chronological es) (hreset : .reset ∉ es) :
    ∃ c now, c.points = points ∧ c.duration = duration ∧
      Tallies c (grants key (new points duration start) es) now := by
  obtain ⟨first, hfirst⟩ := exists_le_of_chronological hc
  exact (Tallies.new hp duration first).run hp hd (Agrees.new points duration start first key) hc
    hfirst hreset

/-- **How many requests are accepted.** In a run of a new limiter without resets, during which the
    clock does not go back, a client's windows begin a duration apart at least, and each request that
    is accepted falls into one of them. At most the budget is accepted in each window, and at most
    twice the budget in any stretch of time of that duration. After any run, whatever the clock does,
    every window that is kept has counted a request, and no more than the budget. -/
theorem accepted_le_two_mul {points duration : Int} (hp : 1 ≤ points) (hd : 1 ≤ duration)
    (start : Rat) :
    (∀ es, Chronological es → .reset ∉ es → ∀ key,
      let l := new points duration start
      let gs := grants key l es
      gs.length = (answers key l es).countP Decision.isAccepted ∧
      (∀ g ∈ gs, g.start ≤ g.time ∧ g.time < g.start + duration) ∧
      (∀ g ∈ gs, ∀ h ∈ gs,
        g.start = h.start ∨ g.start + duration ≤ h.start ∨ h.start + duration ≤ g.start) ∧
      (∀ s, (gs.countP (·.start = s) : Int) ≤ points) ∧
      ∀ a : Rat, (gs.countP (fun g => a ≤ g.time ∧ g.time < a + duration) : Int) ≤ 2 * points ∧
        (gs.countP (fun g => a < g.time ∧ g.time ≤ a + duration) : Int) ≤ 2 * points) ∧
    ∀ es, ∀ x ∈ ((new points duration start).afterRun es).windows,
      1 ≤ x.2.count ∧ (x.2.count : Int) ≤ points := by
  constructor
  · intro es hc hreset key
    obtain ⟨c, now, rfl, rfl, h⟩ := exists_tallies hp hd start key hc hreset
    refine ⟨length_grants (isKeyed_new ..) key es, h.within, h.apart, h.bounded, fun a => ⟨?_, ?_⟩⟩
    · apply h.countP_le hp
      intro g hg x hx hpg hpx
      obtain ⟨-, hg⟩ := of_decide_eq_true hpg
      obtain ⟨hx, -⟩ := of_decide_eq_true hpx
      linarith
    · apply h.countP_le hp
      intro g hg x hx hpg hpx
      obtain ⟨-, hg⟩ := of_decide_eq_true hpg
      obtain ⟨hx, -⟩ := of_decide_eq_true hpx
      linarith
  · intro es x hx
    have hnew : (new points duration start).IsBounded := fun x hx => nomatch hx
    obtain ⟨hpoints, hbounded⟩ := hnew.afterRun hp es
    have h := hbounded x hx
    rwa [hpoints] at h

/-- Two requests each ten seconds: three are accepted in the ten seconds from the ninth on, the first
    of them in an earlier window than the others. -/
theorem accepted_in_ten_seconds :
    let es : List Event := [.request "a" 0, .request "a" 9, .request "b" 10, .request "a" 10,
      .request "a" 11, .request "a" 12]
    (1 : Int) ≤ 2 ∧ (1 : Int) ≤ 10 ∧ Chronological es ∧ .reset ∉ es ∧
      grants "a" (new 2 10 0) es = [⟨0, 0⟩, ⟨9, 0⟩, ⟨10, 10⟩, ⟨11, 10⟩] ∧
      ((grants "a" (new 2 10 0) es).countP
        (fun g => 9 ≤ g.time ∧ g.time < 9 + ((10 : Int) : Rat)) : Int) ≤ 2 * 2 ∧
      ∀ x ∈ ((new 2 10 0).afterRun es).windows, 1 ≤ x.2.count ∧ (x.2.count : Int) ≤ 2 := by
  intro es
  have hc : Chronological es := by decide +kernel
  have hreset : .reset ∉ es := by decide
  have h := accepted_le_two_mul (by decide : (1 : Int) ≤ 2) (by decide : (1 : Int) ≤ 10) 0
  obtain ⟨-, -, -, -, hten⟩ := h.1 es hc hreset "a"
  exact ⟨by decide, by decide, hc, hreset, by decide +kernel, (hten 9).1, h.2 es⟩

end Almanac.Limiter
