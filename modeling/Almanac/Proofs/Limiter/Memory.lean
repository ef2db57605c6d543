import Almanac.Proofs.Limiter.RetryAfter
import Mathlib.Data.List.Dedup
import Mathlib.Data.List.Induction
import Mathlib.Data.List.Perm.Subperm

/-!
# What a limiter keeps

Windows that have run out are swept away only when a request finds that the last sweep lies a whole
duration back, and a reset does not count as a sweep. Still, after a request nothing is kept that
began two durations earlier, so there is a window only for clients that made a request since then. And
no window is dropped before it has run out, unless it is reset.

No window that is kept had run out at the last sweep. This is what every event preserves, and after a
request the last sweep lies less than a duration back.
-/

namespace Almanac.Limiter

variable {l : Limiter} {w : Window} {x : String × Window} {key k : String} {now t u : Rat}
  {es : List Event}

/-! ### Runs -/

theorem afterRun_concat (l : Limiter) (es : List Event) (e : Event) :
    l.afterRun (es ++ [e]) = (l.afterRun es).afterEvent e :=
  List.foldl_concat ..

theorem afterRun_append (l : Limiter) (es fs : List Event) :
    l.afterRun (es ++ fs) = (l.afterRun es).afterRun fs :=
  List.foldl_append

theorem duration_afterEvent (l : Limiter) (e : Event) : (l.afterEvent e).duration = l.duration := by
  cases e with
  | request k t => exact duration_consume
  | reset => rfl

theorem duration_afterRun (l : Limiter) (es : List Event) : (l.afterRun es).duration = l.duration := by
  induction es using List.reverseRecOn with
  | nil => rfl
  | append_singleton es e ih => rw [afterRun_concat, duration_afterEvent, ih]

theorem IsKeyed.afterRun (h : l.IsKeyed) (es : List Event) : (l.afterRun es).IsKeyed := by
  induction es using List.reverseRecOn with
  | nil => exact h
  | append_singleton es e ih =>
    rw [afterRun_concat]
    cases e with
    | request k t => exact ih.consume k t
    | reset => exact isKeyed_reset _

/-! ### Where windows come from -/

/-- A window that is kept after a request has begun with it, or was kept by the sweep before it. -/
theorem start_of_mem_consume (h : x ∈ (l.consume key t).1.windows) :
    x.1 = key ∧ x.2.start = t ∨ ∃ y ∈ (l.sweep t).windows, y.1 = x.1 ∧ y.2.start = x.2.start := by
  rcases mem_setWindow h with rfl | hx
  · rcases (l.sweep t).current_eq_or_mem key t with hnew | hold
    · exact .inl ⟨rfl, by rw [start_counted, hnew]⟩
    · exact .inr ⟨_, hold, rfl, (start_counted ..).symm⟩
  · exact .inr ⟨x, hx, rfl, rfl⟩

theorem mem_of_mem_sweep (h : x ∈ (l.sweep t).windows) : x ∈ l.windows := by
  rw [sweep] at h
  split at h
  · exact (List.mem_filter.mp h).1
  · exact h

/-- Every window that is kept has begun with a request of its client. -/
theorem request_mem_of_mem_afterRun {points duration : Int} {start : Rat}
    (h : x ∈ ((new points duration start).afterRun es).windows) :
    .request x.1 x.2.start ∈ es := by
  induction es using List.reverseRecOn generalizing x with
  | nil => cases h
  | append_singleton es e ih =>
    rw [afterRun_concat] at h
    cases e with
    | request k t =>
      rcases start_of_mem_consume h with ⟨rfl, rfl⟩ | ⟨y, hy, hkey, hstart⟩
      · exact List.mem_append_right es (List.mem_singleton_self _)
      · rw [← hkey, ← hstart]
        exact List.mem_append_left _ (ih (mem_of_mem_sweep hy))
    | reset => cases h

/-! ### The last sweep -/

/-- Whether no window that is kept had run out at the last sweep. -/
structure IsSwept (l : Limiter) (now : Rat) : Prop where
  lastSweep_le : l.lastSweep ≤ now
  open_then    : ∀ x ∈ l.windows, l.lastSweep < x.2.start + l.duration

theorem IsSwept.mono (h : l.IsSwept now) (ht : now ≤ t) : l.IsSwept t :=
  ⟨h.lastSweep_le.trans ht, h.open_then⟩

theorem isSwept_new (points duration : Int) (start : Rat) :
    (new points duration start).IsSwept start :=
  ⟨le_rfl, fun _ hx => nomatch hx⟩

theorem IsSwept.reset (h : l.IsSwept now) : l.reset.IsSwept now :=
  ⟨h.lastSweep_le, fun _ hx => nomatch hx⟩

theorem IsSwept.sweep (h : l.IsSwept t) : (l.sweep t).IsSwept t := by
  rw [Limiter.sweep]
  split
  · refine ⟨le_rfl, ?_⟩
    intro x hx
    have hopen : ¬l.hasElapsed x.2 t = true := by simpa using (List.mem_filter.mp hx).2
    rw [hasElapsed_iff] at hopen
    linarith
  · exact h

/-- A sweep that is not made is not due. -/
theorem lt_lastSweep_sweep (hd : 1 ≤ l.duration) : t < (l.sweep t).lastSweep + l.duration := by
  have hpos : (1 : Rat) ≤ l.duration := by exact_mod_cast hd
  rw [sweep]
  split
  · linarith
  · linarith

theorem lastSweep_consume : (l.consume key t).1.lastSweep = (l.sweep t).lastSweep := rfl

theorem IsSwept.consume (hd : 1 ≤ l.duration) (h : l.IsSwept t) (key : String) :
    (l.consume key t).1.IsSwept t := by
  have hpos : (1 : Rat) ≤ l.duration := by exact_mod_cast hd
  refine ⟨h.sweep.lastSweep_le, ?_⟩
  intro x hx
  rw [lastSweep_consume, duration_consume]
  rcases start_of_mem_consume hx with ⟨-, hnew⟩ | ⟨y, hy, -, hold⟩
  · have hle := h.sweep.lastSweep_le
    linarith
  · have hopen := h.sweep.open_then y hy
    rwa [duration_sweep, hold] at hopen

/-- In a run during which the clock does not go back, no window is kept that had run out at the last
    sweep. -/
theorem IsSwept.afterRun (hd : 1 ≤ l.duration) (h : l.IsSwept now) (hc : Chronological es)
    (hs : ∀ s ∈ es.filterMap Event.time?, now ≤ s) (hu : ∀ s ∈ es.filterMap Event.time?, s ≤ u)
    (hle : now ≤ u) : (l.afterRun es).IsSwept u := by
  induction es generalizing l now with
  | nil => exact h.mono hle
  | cons e es ih =>
    cases e with
    | reset => exact ih hd h.reset hc.tail hs hu hle
    | request k t =>
      obtain ⟨ht, -⟩ := List.forall_mem_cons.mp hs
      obtain ⟨htu, hu⟩ := List.forall_mem_cons.mp hu
      exact ih (by rwa [duration_afterEvent]) ((h.mono ht).consume hd k) hc.tail hc.le_of_mem hu htu

/-- After a request, every window that is kept began less than two durations earlier. -/
theorem IsSwept.lt_start (hd : 1 ≤ l.duration) (h : l.IsSwept t)
    (hx : x ∈ (l.consume key t).1.windows) : t - 2 * l.duration < x.2.start := by
  have hopen := (h.consume hd key).open_then x hx
  have hsweep := lt_lastSweep_sweep (t := t) hd
  rw [lastSweep_consume, duration_consume] at hopen
  linarith

/-- So it is in every run of a new limiter during which the clock does not go back. -/
theorem lt_start_of_mem_afterRun {points duration : Int} {start : Rat} (hd : 1 ≤ duration)
    (hc : Chronological (es ++ [.request key t]))
    (hs : ∀ s ∈ (es ++ [Event.request key t]).filterMap Event.time?, start ≤ s)
    (hx : x ∈ ((new points duration start).afterRun (es ++ [.request key t])).windows) :
    t - 2 * duration < x.2.start := by
  obtain ⟨hces, hle⟩ := hc.of_concat
  rw [List.filterMap_append, List.forall_mem_append] at hs
  have hduration := duration_afterRun (new points duration start) es
  have hswept : ((new points duration start).afterRun es).IsSwept t :=
    (isSwept_new points duration start).afterRun hd hces hs.1 hle
      (hs.2 t (List.mem_singleton_self t))
  rw [afterRun_concat] at hx
  have hlt := hswept.lt_start (hduration ▸ hd) hx
  rwa [hduration] at hlt

/-! ### Open windows -/

theorem open?_of_le (h : l.open? key t = some w) (hle : now ≤ t) : l.open? key now = some w := by
  rw [open?, Option.filter_eq_some_iff] at h ⊢
  refine ⟨h.1, ?_⟩
  rw [Bool.not_eq_true'] at h ⊢
  rw [Bool.eq_false_iff] at h ⊢
  exact fun hover => h.2 (hasElapsed_mono hle hover)

theorem count_le_counted (l : Limiter) (w : Window) : w.count ≤ (l.counted w).count := by
  rw [counted]
  split
  · exact Nat.le_refl _
  · exact Nat.le_succ _

/-- A client's request is counted in its window, if that is open, and the window stays open as long. -/
theorem open?_consume_self (hl : l.IsKeyed) (hle : now ≤ t) (h : l.open? key t = some w) :
    (l.consume key now).1.open? key t = some (l.counted w) := by
  have hopen := (Option.filter_eq_some_iff.mp h).2
  rw [open?, window?_consume_self hl, open?_of_le h hle, Option.getD_some,
    Option.filter_eq_some_iff]
  refine ⟨rfl, ?_⟩
  rwa [hasElapsed_consume, hasElapsed, start_counted]

/-- Without a reset, a window is kept as long as it is open: the same window, which may have counted
    more requests. -/
theorem IsKeyed.open?_afterRun (hl : l.IsKeyed) (hreset : .reset ∉ es)
    (hu : ∀ s ∈ es.filterMap Event.time?, s ≤ u) (h : l.open? key u = some w) :
    ∃ v, (l.afterRun es).open? key u = some v ∧ v.start = w.start ∧ w.count ≤ v.count := by
  induction es generalizing l w with
  | nil => exact ⟨w, h, rfl, Nat.le_refl _⟩
  | cons e es ih =>
    rw [List.mem_cons, not_or] at hreset
    cases e with
    | reset => exact absurd rfl hreset.1
    | request k t =>
      obtain ⟨ht, hrest⟩ := List.forall_mem_cons.mp hu
      rcases eq_or_ne key k with rfl | hk
      · obtain ⟨v, hv, hstart, hcount⟩ := ih (hl.consume key t) hreset.2 hrest
          (open?_consume_self hl ht h)
        exact ⟨v, hv, hstart.trans (start_counted l w), (l.count_le_counted w).trans hcount⟩
      · exact ih (hl.consume k t) hreset.2 hrest ((open?_consume_of_ne hl hk ht).trans h)

theorem IsKeyed.window?_afterRun (hl : l.IsKeyed) (hreset : .reset ∉ es)
    (hu : ∀ s ∈ es.filterMap Event.time?, s ≤ u) (h : l.window? key = some w)
    (hopen : u - w.start < l.duration) :
    ∃ v, (l.afterRun es).window? key = some v ∧ v.start = w.start ∧ w.count ≤ v.count := by
  have hw : l.open? key u = some w := by
    rw [open?, h, Option.filter_eq_some_iff, hasElapsed, Bool.not_eq_true',
      decide_eq_false_iff_not, not_le]
    exact ⟨rfl, hopen⟩
  obtain ⟨v, hv, hstart, hcount⟩ := hl.open?_afterRun hreset hu hw
  exact ⟨v, (Option.filter_eq_some_iff.mp hv).1, hstart, hcount⟩

/-! ### Clients -/

/-- The clients that made a request after a time, up to another one, without repetition. -/
def callers (es : List Event) (after upTo : Rat) : List String :=
  (es.filterMap fun
    | .request k t => if after < t ∧ t ≤ upTo then some k else none
    | .reset       => none).dedup

theorem mem_callers {after upTo : Rat} :
    k ∈ callers es after upTo ↔ ∃ t, .request k t ∈ es ∧ after < t ∧ t ≤ upTo := by
  rw [callers, List.mem_dedup, List.mem_filterMap]
  constructor
  · rintro ⟨e, he, hk⟩
    cases e with
    | request k' t =>
      obtain ⟨ht, hk⟩ := Option.ite_none_right_eq_some.mp hk
      exact ⟨t, Option.some.inj hk ▸ he, ht⟩
    | reset => cases hk
  · rintro ⟨t, he, ht⟩
    exact ⟨_, he, if_pos ht⟩

/-- There is a window for each of some clients at most, if all windows are theirs. -/
theorem IsKeyed.size_le (hl : l.IsKeyed) {ks : List String} (h : ∀ x ∈ l.windows, x.1 ∈ ks) :
    l.size ≤ ks.length := by
  have hsub : l.windows.map Prod.fst ⊆ ks := by
    intro k hk
    obtain ⟨x, hx, rfl⟩ := List.mem_map.mp hk
    exact h x hx
  have hle := (List.Nodup.subperm hl hsub).length_le
  rwa [List.length_map] at hle

/-- **What a limiter keeps.** In a run of a new limiter during which the clock does not go back, right
    after a request, whether accepted or turned away, every window that is kept began less than two
    durations earlier, so that there are no more windows than clients that made a request since then.
    A window that was there at some time of the run and has not run out is still there, if nothing was
    reset since. -/
theorem kept_after_request (points : Int) {duration : Int} (hd : 1 ≤ duration) {start : Rat}
    (hc : Chronological (es ++ [.request key t]))
    (hs : ∀ s ∈ (es ++ [Event.request key t]).filterMap Event.time?, start ≤ s) :
    let l := (new points duration start).afterRun (es ++ [.request key t])
    (∀ x ∈ l.windows, t - 2 * duration < x.2.start) ∧
      l.size ≤ (callers (es ++ [.request key t]) (t - 2 * duration) t).length ∧
      ∀ before after : List Event, before ++ after = es ++ [.request key t] → .reset ∉ after →
        ∀ k w, ((new points duration start).afterRun before).window? k = some w →
          t - w.start < duration →
            ∃ v, l.window? k = some v ∧ v.start = w.start ∧ w.count ≤ v.count := by
  intro l
  have hrecent : ∀ x ∈ l.windows, t - 2 * duration < x.2.start :=
    fun x hx => lt_start_of_mem_afterRun hd hc hs hx
  have hlast : ∀ s ∈ (es ++ [Event.request key t]).filterMap Event.time?, s ≤ t := by
    rw [List.filterMap_append, List.forall_mem_append]
    exact ⟨hc.of_concat.2, List.forall_mem_singleton.mpr le_rfl⟩
  have hkeyed (fs : List Event) : ((new points duration start).afterRun fs).IsKeyed :=
    (isKeyed_new points duration start).afterRun fs
  refine ⟨hrecent, ?_, ?_⟩
  · apply (hkeyed _).size_le
    intro x hx
    have hopened := request_mem_of_mem_afterRun hx
    exact mem_callers.mpr ⟨x.2.start, hopened, hrecent x hx,
      hlast _ (List.mem_filterMap.mpr ⟨_, hopened, rfl⟩)⟩
  · intro before after hsplit hreset k w hw hopen
    have hu : ∀ s ∈ after.filterMap Event.time?, s ≤ t := by
      rw [← hsplit, List.filterMap_append, List.forall_mem_append] at hlast
      exact hlast.2
    have hkept := (hkeyed before).window?_afterRun hreset hu hw (by rwa [duration_afterRun])
    rwa [← afterRun_append, hsplit] at hkept

/-- Windows of ten seconds: at nineteen the first window has run out, but the last sweep was at ten, so
    that it is kept as well; the second one is still open. -/
theorem kept_at_nineteen :
    let es : List Event := [.request "a" 1, .request "b" 10]
    let run := es ++ [.request "c" 19]
    let l := (new 1 10 0).afterRun run
    (1 : Int) ≤ 10 ∧ Chronological run ∧ (∀ s ∈ run.filterMap Event.time?, 0 ≤ s) ∧
      (∀ x ∈ l.windows, 19 - 2 * ((10 : Int) : Rat) < x.2.start) ∧ l.size = 3 ∧
      l.size ≤ (callers run (19 - 2 * (10 : Int)) 19).length ∧
      ∃ v, l.window? "b" = some v ∧ v.start = 10 ∧ 1 ≤ v.count := by
  intro es run l
  have hd : (1 : Int) ≤ 10 := by decide
  have hc : Chronological run := by decide +kernel
  have hs : ∀ s ∈ run.filterMap Event.time?, 0 ≤ s := by decide +kernel
  have hsize : l.size = 3 := by decide +kernel
  have hb : ((new 1 10 0).afterRun es).window? "b" = some ⟨10, 1⟩ := by decide +kernel
  obtain ⟨hrecent, hcallers, hkept⟩ := kept_after_request 1 hd hc hs
  exact ⟨hd, hc, hs, hrecent, hsize, hcallers,
    hkept es [.request "c" 19] rfl (by decide) "b" ⟨10, 1⟩ hb (by decide +kernel)⟩

end Almanac.Limiter
