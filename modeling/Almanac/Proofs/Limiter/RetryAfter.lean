import Almanac.Proofs.Limiter.Burst

/-!
# When to try again

A request that is turned away is told after how many seconds to try again. Up to a second before that
the client is still turned away, and from then on it is accepted, with a new window: the time is
rounded up to whole seconds, and nothing that other clients do changes it.

A limiter refines one counter for each client. Turning a request away leaves the client's counter as
it is, so what the counter says at the later time follows from the one window that it keeps.
-/

namespace Almanac.Limiter

variable {l : Limiter} {c : Counter} {w : Window} {key k : String} {now t u : Rat}
  {es : List Event} {limit reset retryAfter : Int}

/-! ### A counter without budget -/

namespace Counter

/-- A request that is not accepted leaves the counter as it was. -/
theorem request_eq_self (h : (c.request now).2.isAccepted = false) : (c.request now).1 = c := by
  rw [request] at h ⊢
  split
  · next hlt =>
    rw [if_pos hlt] at h
    cases h
  · rfl

/-- A request is turned away in an open window whose budget is spent, until that window ends. -/
theorem of_request_eq_rejected (hp : 1 ≤ c.points)
    (h : (c.request now).2 = .rejected limit reset retryAfter) :
    ∃ w, c.window? = some w ∧ c.points ≤ w.count ∧ now < w.start + c.duration ∧
      limit = c.points ∧ reset = (w.start + c.duration).ceil ∧
        retryAfter = max (w.start + c.duration - now).ceil 1 := by
  rw [request] at h
  split at h
  · cases h
  · next hlt =>
    obtain ⟨rfl, rfl, rfl⟩ := Decision.rejected.inj h
    have hfull := not_lt.mp hlt
    have hw := window?_of_current_full hp hfull
    refine ⟨c.current now, hw, hfull, ?_, rfl, rfl, rfl⟩
    by_contra hover
    have hnew : c.current now = ⟨now, 0⟩ := by
      rw [current, hw]
      exact if_neg hover
    rw [hnew] at hfull
    simp only [Int.natCast_zero] at hfull
    omega

theorem request_of_lt (hw : c.window? = some w) (hfull : c.points ≤ w.count)
    (h : now < w.start + c.duration) :
    (c.request now).2 = .rejected c.points (w.start + c.duration).ceil
      (max (w.start + c.duration - now).ceil 1) := by
  have hcurrent : c.current now = w := by
    rw [current, hw]
    exact if_pos h
  rw [request, hcurrent, if_neg (not_lt.mpr hfull)]

theorem request_of_le (hp : 1 ≤ c.points) (hw : c.window? = some w)
    (h : w.start + c.duration ≤ now) : (c.request now).2 = .accepted (c.points - 1) := by
  have hcurrent : c.current now = ⟨now, 0⟩ := by
    rw [current, hw]
    exact if_neg (not_lt.mpr h)
  have hlt : ((0 : Nat) : Int) < c.points := by omega
  rw [request, hcurrent, if_pos hlt, Int.natCast_zero, sub_zero]

/-- Whether the window of a counter has begun. -/
def HasBegun (c : Counter) (now : Rat) : Prop :=
  ∀ w ∈ c.window?, w.start ≤ now

theorem HasBegun.mono (h : c.HasBegun now) (ht : now ≤ t) : c.HasBegun t :=
  fun w hw => (h w hw).trans ht

theorem HasBegun.request (h : c.HasBegun now) : (c.request now).1.HasBegun now := by
  have hcurrent : (c.current now).start ≤ now := by
    rw [current]
    split
    · next w hw =>
      split
      · exact h w hw
      · exact le_rfl
    · exact le_rfl
  rw [Counter.request]
  split
  · rintro w ⟨⟩
    exact hcurrent
  · exact h

end Counter

/-! ### Runs -/

/-- A run leads to a limiter that still agrees with a counter, whose window has begun. -/
theorem Agrees.afterRun (hp : 1 ≤ c.points) (h : Agrees l key c now) (hb : c.HasBegun now)
    (hc : Chronological es) (hs : ∀ s ∈ es.filterMap Event.time?, now ≤ s)
    (hu : ∀ s ∈ es.filterMap Event.time?, s ≤ u) (hle : now ≤ u) :
    ∃ c', c'.points = c.points ∧ c'.duration = c.duration ∧ c'.HasBegun u ∧
      Agrees (l.afterRun es) key c' u := by
  induction es generalizing l c now with
  | nil => exact ⟨c, rfl, rfl, hb.mono hle, h.mono hle⟩
  | cons e es ih =>
    cases e with
    | reset =>
      have hbegun : c.reset.HasBegun now := fun w hw => nomatch hw
      exact ih (c := c.reset) hp h.reset hbegun hc.tail hs hu hle
    | request k t =>
      obtain ⟨ht, -⟩ := List.forall_mem_cons.mp hs
      obtain ⟨htu, hu⟩ := List.forall_mem_cons.mp hu
      rcases eq_or_ne k key with rfl | hk
      · obtain ⟨c', hpoints, hduration, hbegun, hagrees⟩ := ih (by rwa [Counter.points_request])
          ((h.mono ht).request hp) (hb.mono ht).request hc.tail hc.le_of_mem hu htu
        exact ⟨c', hpoints.trans (c.points_request t), hduration.trans (c.duration_request t),
          hbegun, hagrees⟩
      · exact ih hp ((h.mono ht).other hk.symm) (hb.mono ht) hc.tail hc.le_of_mem hu htu

/-- While a client is not accepted and nothing is reset, its counter stays as it is, whatever other
    clients do. -/
theorem Agrees.afterRun_of_not_isAccepted (hp : 1 ≤ c.points) (h : Agrees l key c now)
    (hc : Chronological es) (hs : ∀ s ∈ es.filterMap Event.time?, now ≤ s)
    (hu : ∀ s ∈ es.filterMap Event.time?, s ≤ u) (hle : now ≤ u) (hreset : .reset ∉ es)
    (hno : ∀ d ∈ l.answers key es, d.isAccepted = false) : Agrees (l.afterRun es) key c u := by
  induction es generalizing l now with
  | nil => exact h.mono hle
  | cons e es ih =>
    rw [List.mem_cons, not_or] at hreset
    cases e with
    | reset => exact absurd rfl hreset.1
    | request k t =>
      obtain ⟨ht, -⟩ := List.forall_mem_cons.mp hs
      obtain ⟨htu, hu⟩ := List.forall_mem_cons.mp hu
      rw [answers_request] at hno
      rcases eq_or_ne k key with rfl | hk
      · rw [if_pos rfl, List.forall_mem_cons, (h.mono ht).decision] at hno
        have hstep := (h.mono ht).request hp
        rw [Counter.request_eq_self hno.1] at hstep
        exact ih hstep hc.tail hc.le_of_mem hu htu hreset.2 hno.2
      · rw [if_neg hk] at hno
        exact ih ((h.mono ht).other hk.symm) hc.tail hc.le_of_mem hu htu hreset.2 hno

theorem Chronological.of_concat (hc : Chronological (es ++ [.request key t])) :
    Chronological es ∧ ∀ s ∈ es.filterMap Event.time?, s ≤ t := by
  rw [Chronological, List.filterMap_append, List.pairwise_append] at hc
  exact ⟨hc.1, fun s hs => hc.2.2 s hs t (List.mem_singleton_self t)⟩

theorem Chronological.of_cons_concat (hc : Chronological (.request key t :: es ++ [.request k u])) :
    Chronological es ∧ t ≤ u ∧ (∀ s ∈ es.filterMap Event.time?, t ≤ s) ∧
      ∀ s ∈ es.filterMap Event.time?, s ≤ u := by
  rw [List.cons_append] at hc
  have hle := hc.le_of_mem
  rw [List.filterMap_append, List.forall_mem_append] at hle
  obtain ⟨hes, hu⟩ := hc.tail.of_concat
  exact ⟨hes, hle.2 u (List.mem_singleton_self u), hle.1, hu⟩

theorem ceil_sub_pos {a b : Rat} (h : a < b) : 0 < (b - a).ceil := by
  rw [Rat.lt_ceil_iff]
  exact_mod_cast sub_pos.mpr h

/-- When a client is turned away, its window is open and spent, and the time to wait is what is left
    of it, in whole seconds. -/
theorem exists_window_of_rejected {points duration : Int} (hp : 1 ≤ points) (start : Rat)
    (hc : Chronological (es ++ [.request key t]))
    (h : (((new points duration start).afterRun es).consume key t).2 =
      .rejected limit reset retryAfter) :
    ∃ c w, c.points = points ∧ c.duration = duration ∧
      Agrees (((new points duration start).afterRun es).consume key t).1 key c t ∧
      c.window? = some w ∧ c.points ≤ w.count ∧ w.start ≤ t ∧ t < w.start + c.duration ∧
      limit = c.points ∧ reset = (w.start + c.duration).ceil ∧
        retryAfter = (w.start + c.duration - t).ceil := by
  obtain ⟨first, hfirst⟩ := exists_le_of_chronological hc
  rw [List.filterMap_append, List.forall_mem_append] at hfirst
  obtain ⟨hces, hle⟩ := hc.of_concat
  obtain ⟨c, rfl, rfl, hbegun, ha⟩ := (Agrees.new points duration start first key).afterRun hp
    (fun w hw => nomatch hw) hces hfirst.1 hle (hfirst.2 t (List.mem_singleton_self t))
  rw [ha.decision] at h
  obtain ⟨w, hw, hfull, hopen, rfl, rfl, rfl⟩ := Counter.of_request_eq_rejected hp h
  have hstep := ha.request hp
  rw [Counter.request_eq_self (by rw [h]; rfl)] at hstep
  exact ⟨c, w, rfl, rfl, hstep, hw, hfull, hbegun w hw, hopen, rfl, rfl,
    max_eq_left (ceil_sub_pos hopen)⟩

/-- **When to try again.** In a run of a new limiter during which the clock does not go back, a client
    that is turned away is told to wait for at least one second and no longer than a window. As long
    as it is not accepted and nothing is reset, whatever other clients do, it is still turned away up
    to a second before the time that it was told, with the same limit and the same end of its window;
    from that time on, and from that end on, it is accepted, with all but one request left. -/
theorem retryAfter_exact {points duration : Int} (hp : 1 ≤ points) (start : Rat)
    (hc : Chronological (es ++ [.request key t]))
    (h : (((new points duration start).afterRun es).consume key t).2 =
      .rejected limit reset retryAfter) :
    (1 ≤ retryAfter ∧ retryAfter ≤ duration) ∧
      ∀ (between : List Event) (u : Rat),
        let l := (((new points duration start).afterRun es).consume key t).1
        Chronological (.request key t :: between ++ [.request key u]) → .reset ∉ between →
        (∀ d ∈ answers key l between, d.isAccepted = false) →
        (u ≤ t + retryAfter - 1 → ∃ left,
          ((l.afterRun between).consume key u).2 = .rejected limit reset left) ∧
        (t + retryAfter ≤ u ∨ reset ≤ u →
          ((l.afterRun between).consume key u).2 = .accepted (points - 1)) := by
  obtain ⟨c, w, rfl, rfl, ha, hw, hfull, hbegun, hopen, rfl, rfl, rfl⟩ :=
    exists_window_of_rejected hp start hc h
  have hend : w.start + c.duration ≤ (w.start + c.duration).ceil := Rat.le_ceil
  have hleft : w.start + c.duration - t ≤ (w.start + c.duration - t).ceil := Rat.le_ceil
  have hround : (w.start + c.duration - t).ceil < w.start + c.duration - t + 1 := Rat.ceil_lt
  refine ⟨⟨ceil_sub_pos hopen, ?_⟩, ?_⟩
  · rw [Rat.ceil_le_iff]
    linarith
  · intro between u l hcu hreset hno
    obtain ⟨hbetween, htu, hs, hu⟩ := hcu.of_cons_concat
    have hlater := ha.afterRun_of_not_isAccepted hp hbetween hs hu htu hreset hno
    rw [hlater.decision]
    constructor
    · intro hearly
      exact ⟨_, Counter.request_of_lt hw hfull (by linarith)⟩
    · rintro (hlate | hlate)
      · exact Counter.request_of_le hp hw (by linarith)
      · exact Counter.request_of_le hp hw (by linarith)

/-- One request each ten seconds: a client that is told to wait for six seconds is turned away again
    five seconds later, although the request of another client has led to a sweep, and accepted after
    six. -/
theorem retryAfter_six :
    let es : List Event := [.request "a" (1 / 2)]
    let between : List Event := [.request "b" 10, .request "a" 10]
    let l := (((new 1 10 0).afterRun es).consume "a" (19 / 4)).1
    (1 : Int) ≤ 1 ∧ Chronological (es ++ [.request "a" (19 / 4)]) ∧
      (((new 1 10 0).afterRun es).consume "a" (19 / 4)).2 = .rejected 1 11 6 ∧
      Chronological (.request "a" (19 / 4) :: between ++ [.request "a" (43 / 4)]) ∧
      .reset ∉ between ∧ answers "a" l between = [.rejected 1 11 1] ∧
      ((l.afterRun between).consume "a" (43 / 4)).2 = .accepted (1 - 1) := by
  intro es between l
  have hc : Chronological (es ++ [.request "a" (19 / 4)]) := by decide +kernel
  have h : (((new 1 10 0).afterRun es).consume "a" (19 / 4)).2 = .rejected 1 11 6 := by
    decide +kernel
  have hcu : Chronological (.request "a" (19 / 4) :: between ++ [.request "a" (43 / 4)]) := by
    decide +kernel
  have hreset : .reset ∉ between := by decide
  have hanswers : answers "a" l between = [.rejected 1 11 1] := by decide +kernel
  have hno : ∀ d ∈ answers "a" l between, d.isAccepted = false := by
    rw [hanswers]
    exact List.forall_mem_singleton.mpr rfl
  have hlate : (19 / 4 : Rat) + (6 : Int) ≤ 43 / 4 := by decide +kernel
  have hwait := (retryAfter_exact le_rfl 0 hc h).2 between (43 / 4) hcu hreset hno
  exact ⟨le_rfl, hc, h, hcu, hreset, hanswers, hwait.2 (.inl hlate)⟩

end Almanac.Limiter
