import Almanac.Phrase.Interpretation
import Almanac.Proofs.Phrase.Resolution
import Almanac.Proofs.Phrase.Table
import Almanac.Record.Report

/-!
# How interpreting ends

A phrase that belongs to a row is interpreted by it, and any other fails. The interpretation breaks
off with a fault of the table exactly if the name of a unit or a weekday is kept with a stray
letter. In ASCII there are no strays, and before the last year of the calendar a phrase is
understood exactly if it belongs to a row and its numbers denote real values.
-/

namespace Almanac.Phrase

open Calendar Record Text

variable {row : Row} {text : List Char} {c : Captures} {now : Instant}

/-! ### The reading of a phrase -/

/-- No row reads the empty text. -/
theorem not_reads_nil : ¬row.shape.Reads [] c := by
  intro h
  have hf := Reading.find?_all_eq_some_iff.mpr h
  have hn : Reading.find? Row.all [] = none := by decide
  rw [hn] at hf
  cases hf

theorem interpret_of_reads (h : row.shape.Reads (normalize text) c) :
    interpret Row.all text now = Reading.interpret ⟨row, c⟩ now := by
  have hne : normalize text ≠ [] := by
    intro hnil
    rw [hnil] at h
    exact not_reads_nil h
  simp only [interpret, if_neg hne, Reading.find?_all_eq_some_iff.mpr h]

theorem interpret_of_not_reads (now : Instant)
    (h : ∀ (row : Row) c, ¬row.shape.Reads (normalize text) c) :
    ∃ why, interpret Row.all text now = .ok (.failed why) := by
  have hf : Reading.find? Row.all (normalize text) = none := by
    rw [Option.eq_none_iff_forall_ne_some]
    rintro ⟨row, c⟩ hs
    exact h row c (Reading.find?_all_eq_some_iff.mp hs)
  simp only [interpret, hf]
  split
  · exact ⟨.empty, rfl⟩
  · exact ⟨.unmatched, rfl⟩

/-- An instant in the frame of the reference is told back by its distance on the wall clock. -/
theorem restate_of_frame_eq {i : Instant} (hf : i.frame = now.frame) :
    restate i now = .ok (restateAt i.wall (i.wall.ticks - now.wall.ticks)) := by
  rw [restate, Instant.since, Instant.since?_of_frame_eq hf]
  rfl

theorem interpret_eq_of_resolve {r : Reading} {i : Instant} (h : r.resolve now = .ok i)
    (hf : i.frame = now.frame) :
    r.interpret now = .ok (.resolved r.row.category i
      (restateAt i.wall (i.wall.ticks - now.wall.ticks))) := by
  simp only [Reading.interpret, h, restate_of_frame_eq hf, Except.map, onCalendar_ok]

/-- An instant in the frame of the reference can be told back. -/
theorem interpret_of_resolve {r : Reading} {i : Instant} (h : r.resolve now = .ok i)
    (hf : i.frame = now.frame) :
    ∃ words, r.interpret now = .ok (.resolved r.row.category i words) :=
  ⟨_, interpret_eq_of_resolve h hf⟩

/-- What a reading is interpreted as is what it is resolved to. -/
theorem resolve_of_interpret {r : Reading} {category : Category} {i : Instant} {words : String}
    (h : r.interpret now = .ok (.resolved category i words)) :
    r.row.category = category ∧ r.resolve now = .ok i ∧ restate i now = .ok words := by
  rw [Reading.interpret] at h
  split at h
  · next j hj =>
    cases hw : restate j now with
    | error e =>
      rw [hw] at h
      cases h
    | ok s =>
      rw [hw] at h
      cases h
      exact ⟨rfl, hj, hw⟩
  · cases h
  · cases h

/-- A phrase that names an instant belongs to a row, which names it. -/
theorem exists_reads_of_interpret {category : Category} {i : Instant} {words : String}
    (h : interpret Row.all text now = .ok (.resolved category i words)) :
    ∃ (row : Row) (c : Captures), row.shape.Reads (normalize text) c ∧ row.category = category ∧
      Reading.resolve ⟨row, c⟩ now = .ok i ∧ restate i now = .ok words := by
  by_cases hr : ∃ (row : Row) (c : Captures), row.shape.Reads (normalize text) c
  · obtain ⟨row, c, hc⟩ := hr
    rw [interpret_of_reads hc] at h
    exact ⟨row, c, hc, resolve_of_interpret h⟩
  · obtain ⟨why, hw⟩ := interpret_of_not_reads now fun row c hc => hr ⟨row, c, hc⟩
    rw [hw] at h
    cases h

/-- A phrase whose names are known is understood exactly if its numbers denote real values, unless
    there is no room left in the calendar. The instant is in the frame of the reference, and in the
    later of two readings only if the reference is, on the same day. -/
theorem interpret_cases (now : Instant) (h : row.shape.Reads (normalize text) c)
    (hs : ¬HasStrayName c) :
    (Denotes row c now ∧
        ∃ i words, interpret Row.all text now = .ok (.resolved row.category i words) ∧
          i.frame = now.frame ∧
            (i.later = true → now.later = true ∧ i.wall.date = now.wall.date)) ∨
      (¬Denotes row c now ∧ ∃ why, interpret Row.all text now = .ok (.failed why)) ∨
      ∃ e, interpret Row.all text now = .error e ∧ IsOverflow now e := by
  rw [interpret_of_reads h]
  have ho := outcome_resolve now h hs
  cases hr : Reading.resolve ⟨row, c⟩ now with
  | ok i =>
    rw [hr] at ho
    cases ho with
    | resolved hd hl =>
      obtain ⟨words, hw⟩ := interpret_of_resolve hr rfl
      exact .inl ⟨hd, _, words, hw, rfl, hl⟩
  | error e =>
    rw [hr] at ho
    cases ho with
    | @refused why hd =>
      exact .inr (.inl ⟨hd, .refused why, by rw [Reading.interpret, hr]⟩)
    | overflow he =>
      obtain ⟨-, why, rfl⟩ := id he
      exact .inr (.inr ⟨.calendar why, by rw [Reading.interpret, hr], he⟩)

/-! ### Faults of the table -/

/-- Whether a fault is a defect of the table: a name without a meaning, or no time of day where one
    is needed. -/
def Fault.isOfTable : Fault → Bool
  | .unknownWeekday _ => true
  | .unknownUnit _    => true
  | .noHour _         => true
  | _                 => false

theorem IsOverflow.isOfTable {e : Fault} (h : IsOverflow now e) : e.isOfTable = false := by
  obtain ⟨-, why, rfl⟩ := h
  rfl

/-- Whether a fault is a name without a meaning. -/
def Fault.IsUnknownName (e : Fault) : Prop :=
  ∃ name, e = .unknownUnit name ∨ e = .unknownWeekday name

theorem Fault.IsUnknownName.isOfTable {e : Fault} (h : e.IsUnknownName) : e.isOfTable = true := by
  obtain ⟨name, rfl | rfl⟩ := h
  · rfl
  · rfl

/-- A stray letter in a name makes the name unknown. -/
theorem exists_isUnknownName_of_hasStrayName (now : Instant) {t : List Char}
    (h : row.shape.Reads t c) (hs : HasStrayName c) :
    ∃ e, Reading.resolve ⟨row, c⟩ now = .error e ∧ e.IsUnknownName := by
  obtain ⟨f, v, x, hf, hv, hx, hstray⟩ := hs
  have hmem : f ∈ row.shape.fields := by
    by_contra hn
    rw [lookup_eq_none_of_not_mem h hn] at hv
    cases hv
  rw [Reading.resolve]
  rcases hf with rfl | rfl
  · have hrule : row.rule = .relativeOffset := by
      revert hmem
      cases row <;> decide
    refine ⟨.unknownUnit (String.ofList v), ?_, _, .inl rfl⟩
    simp only [hrule, Rule.resolve, Rule.relativeOffsetOf, field_eq hmem, hv, Option.getD_some,
      unitOf_of_isStray hx hstray, bind, Except.bind]
  · have hrule : row.rule = .weekday ∨ row.rule = .weekdayClock := by
      revert hmem
      cases row <;> decide
    have hday : Rule.weekdayOfReading ⟨row, c⟩ now =
        .error (.unknownWeekday (String.ofList v)) := by
      simp only [Rule.weekdayOfReading, field_eq hmem, hv, Option.getD_some,
        weekdayOf_of_isStray hx hstray, bind, Except.bind]
    refine ⟨.unknownWeekday (String.ofList v), ?_, _, .inr rfl⟩
    rcases hrule with hrule | hrule
    · simp only [hrule, Rule.resolve, hday]
    · simp only [hrule, Rule.resolve, hday, bind, Except.bind]

theorem interpret_of_hasStrayName (now : Instant) (h : row.shape.Reads (normalize text) c)
    (hs : HasStrayName c) :
    ∃ e, interpret Row.all text now = .error e ∧ e.IsUnknownName := by
  obtain ⟨e, he, hname⟩ := exists_isUnknownName_of_hasStrayName now h hs
  refine ⟨e, ?_, hname⟩
  rw [interpret_of_reads h, Reading.interpret, he]
  obtain ⟨name, rfl | rfl⟩ := hname
  · rfl
  · rfl

/-- Without a stray letter in the name of a unit or a weekday there is no fault of the table. -/
theorem isOfTable_eq_false_of_not_hasStrayName {e : Fault}
    (hs : ∀ (row : Row) (c : Captures), row.shape.Reads (normalize text) c → ¬HasStrayName c)
    (he : interpret Row.all text now = .error e) : e.isOfTable = false := by
  by_cases hr : ∃ (row : Row) (c : Captures), row.shape.Reads (normalize text) c
  · obtain ⟨row, c, h⟩ := hr
    rcases interpret_cases now h (hs row c h) with
      ⟨-, i, words, hw, -⟩ | ⟨-, why, hw⟩ | ⟨e', hw, ho⟩
    · rw [hw] at he
      cases he
    · rw [hw] at he
      cases he
    · rw [hw] at he
      obtain rfl := Except.error.inj he
      exact ho.isOfTable
  · obtain ⟨why, hw⟩ := interpret_of_not_reads now fun row c h => hr ⟨row, c, h⟩
    rw [hw] at he
    cases he

/-- Interpreting a phrase breaks off with a fault of the table exactly if the name of a unit or a
    weekday in its normal form has a stray letter, and then for want of that name: a time of day
    that a rule needs is never left out. -/
theorem interpret_isOfTable_iff (text : List Char) (now : Instant) :
    ((∃ e, interpret Row.all text now = .error e ∧ e.isOfTable = true) ↔
        ∃ (row : Row) (c : Captures), row.shape.Reads (normalize text) c ∧ HasStrayName c) ∧
      ∀ row, interpret Row.all text now ≠ .error (.noHour row) := by
  by_cases hs : ∃ (row : Row) (c : Captures), row.shape.Reads (normalize text) c ∧ HasStrayName c
  · obtain ⟨row, c, h, hstray⟩ := hs
    obtain ⟨e, he, hname⟩ := interpret_of_hasStrayName now h hstray
    refine ⟨⟨?_, ?_⟩, ?_⟩
    · intro _
      exact ⟨row, c, h, hstray⟩
    · intro _
      exact ⟨e, he, hname.isOfTable⟩
    · intro r hr
      rw [he] at hr
      obtain rfl := Except.error.inj hr
      obtain ⟨name, hn | hn⟩ := hname
      · cases hn
      · cases hn
  · have hfalse {e : Fault} (he : interpret Row.all text now = .error e) : e.isOfTable = false :=
      isOfTable_eq_false_of_not_hasStrayName (fun row c h hstray => hs ⟨row, c, h, hstray⟩) he
    refine ⟨⟨?_, ?_⟩, ?_⟩
    · rintro ⟨e, he, htable⟩
      rw [hfalse he] at htable
      cases htable
    · intro h
      exact absurd h hs
    · intro r hr
      cases hfalse hr

theorem not_hasStrayName_of_resolve {i : Instant} (h : row.shape.Reads (normalize text) c)
    (hr : Reading.resolve ⟨row, c⟩ now = .ok i) : ¬HasStrayName c := by
  intro hs
  obtain ⟨e, he, -⟩ := exists_isUnknownName_of_hasStrayName now h hs
  rw [hr] at he
  cases he

theorem later_of_resolve {i : Instant} (h : row.shape.Reads (normalize text) c)
    (hr : Reading.resolve ⟨row, c⟩ now = .ok i) :
    i.frame = now.frame ∧ (i.later = true → now.later = true ∧ i.wall.date = now.wall.date) := by
  have ho := outcome_resolve now h (not_hasStrayName_of_resolve h hr)
  rw [hr] at ho
  cases ho with
  | resolved hd hl => exact ⟨rfl, hl⟩

/-- The instant that a phrase names is in the frame of the reference, and in the later of two
    readings only if the reference is, on the same day. -/
theorem later_of_interpret {category : Category} {i : Instant} {words : String}
    (h : interpret Row.all text now = .ok (.resolved category i words)) :
    i.frame = now.frame ∧ (i.later = true → now.later = true ∧ i.wall.date = now.wall.date) := by
  obtain ⟨row, c, hc, -, hr, -⟩ := exists_reads_of_interpret h
  exact later_of_resolve hc hr

theorem frame_eq_of_interpret {category : Category} {i : Instant} {words : String}
    (h : interpret Row.all text now = .ok (.resolved category i words)) :
    i.frame = now.frame ∧ (i.later = true → now.later = true) := by
  obtain ⟨hf, hl⟩ := later_of_interpret h
  exact ⟨hf, fun hlater => (hl hlater).1⟩

/-- An instant is told back in the words for its wall-clock time, and for its distance from the
    reference on the wall clock. -/
theorem words_of_interpret {category : Category} {i : Instant} {words : String}
    (h : interpret Row.all text now = .ok (.resolved category i words)) :
    words = restateAt i.wall (i.wall.ticks - now.wall.ticks) := by
  obtain ⟨hf, -⟩ := frame_eq_of_interpret h
  obtain ⟨-, -, -, -, -, hw⟩ := exists_reads_of_interpret h
  rw [restate_of_frame_eq hf] at hw
  exact (Except.ok.inj hw).symm

/-- A Monday at ten, on a clock without offset. -/
def mondayAtTen : Instant :=
  ⟨Wall.on (.ofNumbers 2024 1 15 (by decide)) (10 * hour) (by decide), .floating, false⟩

/-- The long s of a unit is read for an s, but the unit with it has no meaning. -/
theorem interpret_long_s :
    interpret Row.all "in 5 minſ".toList mondayAtTen = .error (.unknownUnit "minſ") ∧
      (Fault.unknownUnit "minſ").isOfTable = true := by
  refine ⟨?_, rfl⟩
  decide +kernel

/-! ### Exact acceptance -/

theorem not_hasStrayName_of_ascii (htext : ∀ x ∈ text, x.toNat < 128)
    (h : row.shape.Reads (normalize text) c) : ¬HasStrayName c := by
  rintro ⟨f, v, x, -, hv, hx, hstray⟩
  exact not_isStray_of_mem_normalize htext (h.subset hv hx) hstray

theorem not_isOverflow_of_year_le (hyear : now.wall.date.year ≤ 9998) (e : Fault) :
    ¬IsOverflow now e := by
  rintro ⟨hy, -⟩
  exact absurd hyear (Nat.not_le.mpr hy)

/-- A phrase that belongs to a row and denotes real values is understood. -/
theorem exists_interpret_resolved (htext : ∀ x ∈ text, x.toNat < 128)
    (hyear : now.wall.date.year ≤ 9998) (h : row.shape.Reads (normalize text) c)
    (hd : Denotes row c now) :
    ∃ i words, interpret Row.all text now = .ok (.resolved row.category i words) := by
  rcases interpret_cases now h (not_hasStrayName_of_ascii htext h) with
    ⟨-, i, words, hw, -⟩ | ⟨hn, -⟩ | ⟨e, -, ho⟩
  · exact ⟨i, words, hw⟩
  · exact absurd hd hn
  · exact absurd ho (not_isOverflow_of_year_le hyear e)

/-- Any other phrase is refused. -/
theorem exists_interpret_failed (htext : ∀ x ∈ text, x.toNat < 128)
    (hyear : now.wall.date.year ≤ 9998)
    (hn : ∀ (row : Row) (c : Captures), row.shape.Reads (normalize text) c → ¬Denotes row c now) :
    ∃ why, interpret Row.all text now = .ok (.failed why) := by
  by_cases hr : ∃ (row : Row) (c : Captures), row.shape.Reads (normalize text) c
  · obtain ⟨row, c, h⟩ := hr
    rcases interpret_cases now h (not_hasStrayName_of_ascii htext h) with
      ⟨hd, -⟩ | ⟨-, hw⟩ | ⟨e, -, ho⟩
    · exact absurd hd (hn row c h)
    · exact hw
    · exact absurd ho (not_isOverflow_of_year_le hyear e)
  · exact interpret_of_not_reads now fun row c h => hr ⟨row, c, h⟩

/-- Before the last year of the calendar, interpreting an ASCII phrase never breaks off, and its
    report is sound. It succeeds exactly if the phrase belongs to a row and its numbers denote real
    values; it then has the category of the row and the trust in it, and otherwise no instant, an
    error, no trust, and the words for a phrase that is not understood. -/
theorem report_interpret_of_ascii (text : List Char) (now : Instant)
    (htext : ∀ x ∈ text, x.toNat < 128) (hyear : now.wall.date.year ≤ 9998) :
    ∃ i, interpret Row.all text now = .ok i ∧ (report i).fault? = none ∧
      ((report i).success = true ↔
        ∃ (row : Row) (c : Captures), row.shape.Reads (normalize text) c ∧ Denotes row c now) ∧
      (∀ (row : Row) (c : Captures), row.shape.Reads (normalize text) c → Denotes row c now →
        (report i).category = some row.category ∧
          (report i).confidence = hundredths row.category.confidence) ∧
      ((report i).success = false →
        (report i).instant = none ∧ (∃ why, (report i).error = some why ∧ why ≠ "") ∧
          (report i).confidence = .zero ∧ (report i).interpretation = "Unable to parse") := by
  by_cases hr : ∃ (row : Row) (c : Captures), row.shape.Reads (normalize text) c ∧ Denotes row c now
  · obtain ⟨row, c, h, hd⟩ := hr
    obtain ⟨i, words, hw⟩ := exists_interpret_resolved htext hyear h hd
    refine ⟨_, hw, fault?_report _, ?_, ?_, ?_⟩
    · constructor
      · intro _
        exact ⟨row, c, h, hd⟩
      · intro _
        rfl
    · intro row' c' h' _
      obtain rfl := Row.eq_of_reads h h'
      exact ⟨rfl, rfl⟩
    · intro hf
      cases hf
  · obtain ⟨why, hw⟩ := exists_interpret_failed htext hyear fun row c h hd => hr ⟨row, c, h, hd⟩
    have hzero : hundredths (confidence none) = .zero := by decide +kernel
    refine ⟨_, hw, fault?_report _, ?_, ?_, ?_⟩
    · constructor
      · intro hf
        cases hf
      · intro hs
        exact absurd hs hr
    · intro row c h hd
      exact absurd ⟨row, c, h, hd⟩ hr
    · intro _
      exact ⟨rfl, ⟨why.message, rfl, why.message_ne_empty⟩, hzero, rfl⟩

/-- Three in the afternoon on the day after is understood. -/
theorem report_interpret_tomorrow :
    (∀ x ∈ "tomorrow at 3pm".toList, x.toNat < 128) ∧ mondayAtTen.wall.date.year ≤ 9998 ∧
      ∃ i, interpret Row.all "tomorrow at 3pm".toList mondayAtTen = .ok i ∧
        (report i).success = true ∧ (report i).category = some .namedDayClock := by
  have hall : "tomorrow at 3pm".toList.all (decide <| ·.toNat < 128) = true := by decide
  have htext : ∀ x ∈ "tomorrow at 3pm".toList, x.toNat < 128 := by
    intro x hx
    exact of_decide_eq_true (List.all_eq_true.mp hall x hx)
  have hyear : mondayAtTen.wall.date.year ≤ 9998 := by decide
  have hreads : Row.tomorrowAtClock.shape.Reads (normalize "tomorrow at 3pm".toList)
      [(.hour, ['3']), (.meridiem, ['p', 'm'])] :=
    Row.readAll?_eq_some_iff.mp (by decide +kernel)
  have hclock : HasRealClock [(.hour, ['3']), (.meridiem, ['p', 'm'])] := by
    intro v hv
    obtain rfl : ['3'] = v := Option.some.inj hv
    exact ⟨by decide, by decide⟩
  have hdenotes : Denotes .tomorrowAtClock [(.hour, ['3']), (.meridiem, ['p', 'm'])]
      mondayAtTen := .of_hasRealClock hreads rfl hclock
  obtain ⟨i, hi, -, hs, hc, -⟩ :=
    report_interpret_of_ascii "tomorrow at 3pm".toList mondayAtTen htext hyear
  exact ⟨htext, hyear, i, hi, hs.mpr ⟨_, _, hreads, hdenotes⟩, (hc _ _ hreads hdenotes).1⟩

end Almanac.Phrase
