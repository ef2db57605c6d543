import Almanac.Calendar.Iso
import Almanac.Proofs.Calendar.Change
import Almanac.Proofs.Calendar.Moving
import Almanac.Proofs.Text.Numeral
import Mathlib.Algebra.Order.Ring.Nat

/-!
# Reading back the UTC text

The text in which an instant is shown in UTC is read back as the same time in UTC. It is the ISO text
with `Z` in place of the offset, and has no other. So two instants have the same text exactly if they
are the same moment in UTC.
-/

namespace Almanac.Calendar

open Text (zeroPadded digitChar length_zeroPadded IsDecimal isDecimal_zeroPadded)

/-! ### Numbers of a fixed width -/

theorem digitChar_of_lt {n : Nat} (h : n < 10) :
    '0' ≤ digitChar n ∧ digitChar n ≤ '9' ∧ (digitChar n).toNat - 48 = n := by
  have hall : ∀ m < 10, '0' ≤ digitChar m ∧ digitChar m ≤ '9' ∧ (digitChar m).toNat - 48 = m := by
    decide
  exact hall n h

/-- One more digit is read after a number. -/
theorem takeNumber?_concat {s t : List Char} {width acc n d : Nat} (hd : d < 10)
    (hs : s.length = width) (h : ∀ t, takeNumber? width acc (s ++ t) = some (n, t)) :
    takeNumber? (width + 1) acc ((s ++ [digitChar d]) ++ t) = some (10 * n + d, t) := by
  obtain ⟨h₀, h₉, hv⟩ := digitChar_of_lt hd
  induction s generalizing width acc with
  | nil =>
    subst hs
    obtain rfl : acc = n := by simpa [takeNumber?] using h []
    simp only [List.nil_append, List.cons_append, List.length_nil, takeNumber?, h₀, h₉, and_self,
      if_true, hv]
  | cons c s ih =>
    subst hs
    have hc : '0' ≤ c ∧ c ≤ '9' := by
      by_contra hn
      have h' := h []
      rw [List.cons_append, List.length_cons, takeNumber?, if_neg hn] at h'
      cases h'
    rw [List.cons_append, List.cons_append, takeNumber?, if_pos hc]
    apply ih rfl
    intro t
    have h' := h t
    rwa [List.cons_append, List.length_cons, takeNumber?, if_pos hc] at h'

/-- A number that is written with enough digits is read back. -/
theorem takeNumber?_zeroPadded (width : Nat) {n : Nat} (h : n < 10 ^ width) (t : List Char) :
    takeNumber? width 0 (zeroPadded width n ++ t) = some (n, t) := by
  induction width generalizing n t with
  | zero =>
    obtain rfl : n = 0 := by simpa using h
    rfl
  | succ width ih =>
    have hn : n / 10 < 10 ^ width := by
      rw [Nat.div_lt_iff_lt_mul (by decide), ← pow_succ]
      exact h
    rw [zeroPadded, takeNumber?_concat (Nat.mod_lt n (by decide)) (length_zeroPadded ..) (ih hn),
      Nat.div_add_mod]

theorem takeMarked?_zeroPadded {n : Nat} (h : n < 100) (mark : Char) (t : List Char) :
    takeMarked? mark (mark :: zeroPadded 2 n ++ t) = some (n, t) := by
  rw [List.cons_append, takeMarked?, if_pos rfl]
  exact takeNumber?_zeroPadded 2 h t

theorem takeFraction?_fractionText {n : Nat} (h : n < 1000000) :
    takeFraction? (fractionText n ++ ['Z']) = some (n, ['Z']) := by
  rw [fractionText]
  split
  · next hn =>
    subst hn
    rfl
  · rw [List.cons_append, takeFraction?]
    exact takeNumber?_zeroPadded 6 h _

/-! ### Times -/

namespace Wall

theorem time_eq (w : Wall) :
    Calendar.hour * w.hour + Calendar.minute * w.minute + Calendar.second * w.second +
      w.microsecond = w.time := by
  simp only [hour, minute, second, microsecond, Calendar.hour, Calendar.minute, Calendar.second]
  omega

theorem on_date (w : Wall) : on w.date w.time w.time_lt = w := by
  ext
  rw [ticks_on, index_date, ← ticks_eq]

/-- The numbers that a clock shows are in their bounds. -/
theorem clock_lt (w : Wall) :
    w.hour < 24 ∧ w.minute < 60 ∧ w.second < 60 ∧ w.microsecond < 1000000 := by
  have h := w.time_lt
  simp only [hour, minute, second, microsecond, day, Calendar.hour, Calendar.minute,
    Calendar.second] at h ⊢
  omega

theorem date_lt (w : Wall) : w.date.year < 10000 ∧ w.date.month < 100 ∧ w.date.day < 100 := by
  have h₁ : w.date.year ≤ 9999 := w.date.year_le
  have h₂ := w.date.month_le
  have h₃ := w.date.day_le
  have h₄ := (daysInMonth_mem w.date.year w.date.month_pos h₂).2
  omega

theorem text_append_eq (w : Wall) :
    w.text ++ ['Z'] = zeroPadded 4 w.date.year ++ ('-' :: zeroPadded 2 w.date.month ++
      ('-' :: zeroPadded 2 w.date.day ++ ('T' :: zeroPadded 2 w.hour ++
        (':' :: zeroPadded 2 w.minute ++ (':' :: zeroPadded 2 w.second ++
          (fractionText w.microsecond ++ ['Z'])))))) := by
  simp only [text, Date.text, List.append_assoc, List.cons_append]

end Wall

/-- The UTC text of a time is read back as that time in UTC. -/
theorem Instant.read?_text (w : Wall) :
    read? (String.ofList (w.text ++ ['Z'])) = some ⟨w, .fixed 0, false⟩ := by
  obtain ⟨hy, hmo, hd⟩ := w.date_lt
  obtain ⟨hh, hmi, hs, hf⟩ := w.clock_lt
  have htime := w.time_lt
  rw [read?, String.toList_ofList, w.text_append_eq, takeNumber?_zeroPadded 4 hy]
  simp only [takeMarked?_zeroPadded hmo, takeMarked?_zeroPadded hd,
    takeMarked?_zeroPadded (Nat.lt_trans hh (by decide : 24 < 100)),
    takeMarked?_zeroPadded (Nat.lt_trans hmi (by decide : 60 < 100)),
    takeMarked?_zeroPadded (Nat.lt_trans hs (by decide : 60 < 100)), takeFraction?_fractionText hf,
    Option.bind_eq_bind, Option.bind_some, readFrame?, Date.make_self, Except.toOption, w.time_eq]
  rw [dif_pos ⟨hh, hmi, hs, htime⟩, Wall.on_date]

/-! ### The only offset -/

/-- Whether a text is a date, a time of day and `Z`: there is no sign of an offset in the time of day. -/
def EndsInZ (t : List Char) : Prop :=
  ∃ date clock, t = date ++ 'T' :: (clock ++ ['Z']) ∧ (∀ c ∈ date, c.isDigit ∨ c = '-') ∧
    ∀ c ∈ clock, c.isDigit ∨ c = ':' ∨ c = '.'

theorem isDigit_of_mem_zeroPadded {width n : Nat} {c : Char} (h : c ∈ zeroPadded width n) :
    c.isDigit := by
  have hall : ∀ m < 10, (digitChar m).isDigit := by decide
  obtain ⟨d, hd, rfl⟩ := isDecimal_zeroPadded width n c h
  exact hall d hd

theorem mem_fractionText {n : Nat} {c : Char} (h : c ∈ fractionText n) : c.isDigit ∨ c = '.' := by
  rw [fractionText] at h
  split at h
  · cases h
  · rcases List.mem_cons.mp h with rfl | h
    · exact .inr rfl
    · exact .inl (isDigit_of_mem_zeroPadded h)

theorem Date.mem_text {d : Date} {c : Char} (h : c ∈ d.text) : c.isDigit ∨ c = '-' := by
  simp only [text, List.mem_append, List.mem_cons] at h
  rcases h with (h | rfl | h) | rfl | h
  · exact .inl (isDigit_of_mem_zeroPadded h)
  · exact .inr rfl
  · exact .inl (isDigit_of_mem_zeroPadded h)
  · exact .inr rfl
  · exact .inl (isDigit_of_mem_zeroPadded h)

namespace Wall

/-- The time of day in the text of a time. -/
def clockText (w : Wall) : List Char :=
  zeroPadded 2 w.hour ++ ':' :: zeroPadded 2 w.minute ++ ':' :: zeroPadded 2 w.second ++
    fractionText w.microsecond

theorem text_eq (w : Wall) : w.text = w.date.text ++ 'T' :: w.clockText := by
  simp only [text, clockText, List.append_assoc, List.cons_append]

theorem mem_clockText {w : Wall} {c : Char} (h : c ∈ w.clockText) :
    c.isDigit ∨ c = ':' ∨ c = '.' := by
  simp only [clockText, List.mem_append, List.mem_cons] at h
  rcases h with ((h | rfl | h) | rfl | h) | h
  · exact .inl (isDigit_of_mem_zeroPadded h)
  · exact .inr (.inl rfl)
  · exact .inl (isDigit_of_mem_zeroPadded h)
  · exact .inr (.inl rfl)
  · exact .inl (isDigit_of_mem_zeroPadded h)
  · exact (mem_fractionText h).imp_right .inr

theorem endsInZ_text (w : Wall) : EndsInZ (w.text ++ ['Z']) :=
  ⟨w.date.text, w.clockText, by rw [text_eq, List.append_assoc, List.cons_append],
    fun _ => Date.mem_text, fun _ => mem_clockText⟩

end Wall

theorem EndsInZ.count_eq_one {t : List Char} (h : EndsInZ t) : t.count 'Z' = 1 := by
  obtain ⟨date, clock, rfl, hdate, hclock⟩ := h
  have h₁ : 'Z' ∉ date := fun h => absurd (hdate _ h) (by decide)
  have h₂ : 'Z' ∉ clock := fun h => absurd (hclock _ h) (by decide)
  rw [List.count_append, List.count_cons, List.count_append, List.count_eq_zero.mpr h₁,
    List.count_eq_zero.mpr h₂]
  decide

theorem EndsInZ.plus_not_mem {t : List Char} (h : EndsInZ t) : '+' ∉ t := by
  obtain ⟨date, clock, rfl, hdate, hclock⟩ := h
  intro hmem
  simp only [List.mem_append, List.mem_cons] at hmem
  rcases hmem with h | h | h | h | h
  · exact absurd (hdate _ h) (by decide)
  · exact absurd h (by decide)
  · exact absurd (hclock _ h) (by decide)
  · exact absurd h (by decide)
  · cases h

/-! ### Writing `Z` for the offset -/

/-- Write a text in place of another one wherever it stands, from left to right, past some characters
    that are passed over. -/
def replaceAfter (old new : List Char) : Nat → List Char → List Char
  | _,        []     => []
  | skip + 1, _ :: t => replaceAfter old new skip t
  | 0,        c :: t =>
    if old.isPrefixOf (c :: t) then new ++ replaceAfter old new (old.length - 1) t
    else c :: replaceAfter old new 0 t

/-- What stands before the first character of the text to be replaced is kept. -/
theorem replaceAfter_append {a : Char} {s : List Char} (h : a ∉ s) (old new t : List Char) :
    replaceAfter (a :: old) new 0 (s ++ t) = s ++ replaceAfter (a :: old) new 0 t := by
  induction s with
  | nil => rfl
  | cons c s ih =>
    rw [List.mem_cons, not_or] at h
    obtain ⟨hne, hs⟩ := h
    have hfirst : (a :: old).isPrefixOf (c :: (s ++ t)) ≠ true := by
      rw [List.isPrefixOf_cons_cons, beq_eq_false_iff_ne.mpr hne, Bool.false_and]
      exact Bool.false_ne_true
    rw [List.cons_append, replaceAfter, if_neg hfirst, ih hs, List.cons_append]

namespace Instant

variable {i : Instant} {w : Wall}

/-- The UTC text is the ISO text in UTC with `Z` in place of the offset. -/
theorem utcText_eq_replaced (i : Instant) :
    i.utcText = i.toUtc.map fun u =>
      String.ofList (replaceAfter "+00:00".toList ['Z'] 0 u.text.toList) := by
  cases hw : i.utcWall with
  | error e => rw [utcText, toUtc, hw, Except.map, Except.map, Except.map]
  | ok w =>
    have hplus : '+' ∉ w.text := fun h =>
      w.endsInZ_text.plus_not_mem (List.mem_append_left _ h)
    have htext : (Instant.mk w (.fixed 0) false).text.toList = w.text ++ "+00:00".toList := by
      rw [text, String.toList_ofList]
      rfl
    have hoffset : replaceAfter "+00:00".toList ['Z'] 0 "+00:00".toList = ['Z'] := by decide
    have hreplaced : replaceAfter "+00:00".toList ['Z'] 0 (w.text ++ "+00:00".toList) =
        w.text ++ ['Z'] := by
      rw [← hoffset]
      exact replaceAfter_append hplus _ _ _
    rw [utcText, toUtc, hw, Except.map, Except.map, Except.map, htext, hreplaced]

theorem utcText_eq_ok_iff {s : String} :
    i.utcText = .ok s ↔ ∃ w, i.utcWall = .ok w ∧ s = String.ofList (w.text ++ ['Z']) := by
  cases hw : i.utcWall with
  | error e => simp [utcText, hw, Except.map]
  | ok w => simp [utcText, hw, Except.map, eq_comm]

/-- Different times in UTC have different texts. -/
theorem text_injective : Function.Injective fun w : Wall => String.ofList (w.text ++ ['Z']) := by
  intro v w h
  have hread := congrArg read? h
  rw [read?_text, read?_text] at hread
  exact congrArg wall (Option.some.inj hread)

/-- The UTC text of an instant with an offset, if its time in UTC is in the calendar: its ISO text in
    UTC with `Z` in place of the offset, and no offset besides. It is read back as that time in UTC,
    and is the text of another instant exactly if they are the same moment in UTC. -/
theorem utcText_denotes_moment (h : i.utcTicks? = some (w.ticks : Int)) :
    ∃ t, i.utcText = .ok (String.ofList t) ∧ EndsInZ t ∧ t.count 'Z' = 1 ∧ '+' ∉ t ∧
      (∃ u, i.toUtc = .ok u ∧ u.wall = w ∧ t = replaceAfter "+00:00".toList ['Z'] 0 u.text.toList) ∧
      read? (String.ofList t) = some ⟨w, .fixed 0, false⟩ ∧
      ∀ (j : Instant) (v : Wall), j.utcTicks? = some (v.ticks : Int) →
        (j.utcText = i.utcText ↔ j.utcTicks? = i.utcTicks?) := by
  have hw : i.utcWall = .ok w := (utcWall_eq_ok_iff_of_utcTicks h).mpr rfl
  have htext : i.utcText = .ok (String.ofList (w.text ++ ['Z'])) :=
    utcText_eq_ok_iff.mpr ⟨w, hw, rfl⟩
  have hutc : i.toUtc = .ok ⟨w, .fixed 0, false⟩ := by rw [toUtc, hw, Except.map]
  have hends := w.endsInZ_text
  refine ⟨w.text ++ ['Z'], htext, hends, hends.count_eq_one, hends.plus_not_mem, ⟨_, hutc, rfl, ?_⟩,
    read?_text w, ?_⟩
  · have hreplaced := utcText_eq_replaced i
    rw [htext, hutc] at hreplaced
    exact String.ofList_injective (Except.ok.inj hreplaced)
  · intro j v hj
    have hv : j.utcText = .ok (String.ofList (v.text ++ ['Z'])) :=
      utcText_eq_ok_iff.mpr ⟨v, (utcWall_eq_ok_iff_of_utcTicks hj).mpr rfl, rfl⟩
    rw [hv, htext, hj, h]
    constructor
    · intro heq
      rw [text_injective (Except.ok.inj heq)]
    · intro heq
      have hticks : v.ticks = w.ticks := Int.ofNat.inj (Option.some.inj heq)
      rw [Wall.ext hticks]

/-- A time that is shown twice in Paris, in its later reading. -/
def repeatedInParis : Instant :=
  ⟨Wall.on (.ofNumbers 2022 10 30 (by decide)) (2 * hour + 15 * minute) (by decide),
    .zoned Zone.paris, true⟩

/-- The same moment where clocks are five hours and a half ahead of UTC. -/
def momentInKolkata : Instant :=
  ⟨Wall.on (.ofNumbers 2022 10 30 (by decide)) (6 * hour + 45 * minute) (by decide),
    .fixed (5 * hour + 30 * minute : Nat), false⟩

/-- The later reading in Paris and the morning in Kolkata have one text, as they are one moment. -/
theorem utcText_of_repeated :
    repeatedInParis.utcTicks? = some (Wall.ticks (.on (.ofNumbers 2022 10 30 (by decide))
        (hour + 15 * minute) (by decide)) : Int) ∧
      momentInKolkata.utcText = repeatedInParis.utcText ∧
      repeatedInParis.utcText = .ok "2022-10-30T01:15:00Z" := by
  have h : repeatedInParis.utcTicks? = some (Wall.ticks (.on (.ofNumbers 2022 10 30 (by decide))
      (hour + 15 * minute) (by decide)) : Int) := by decide +kernel
  obtain ⟨t, -, -, -, -, -, -, hsame⟩ := utcText_denotes_moment h
  have hkolkata : momentInKolkata.utcTicks? = repeatedInParis.utcTicks? := by decide +kernel
  exact ⟨h, (hsame _ _ (hkolkata.trans h)).mpr hkolkata, by decide +kernel⟩

end Instant

end Almanac.Calendar
