import Almanac.Json.Encoding
import Almanac.Proofs.Json.Scalar

/-!
# Reading JSON back

A value is read as it was written: its text alone, or inside an array or an object with more to
come. That is so of the values that hold no text that is broken and no number that need not be
whole, have no whole number of too many digits and no two members of one name, and are not nested
too deep.
-/

namespace Almanac.Json

open Text

/-- Whether a value, nested at most `depth` deep, is kept when it is written and read. -/
inductive IsKept : Nat → Json → Prop
  | null {depth} : IsKept depth .null
  | bool {depth} (b : Bool) : IsKept depth (.bool b)
  | int {depth} {n : Int} (h : (decimal n.natAbs).length ≤ maxDigits) : IsKept depth (.int n)
  | str {depth} (s : String) : IsKept depth (.str s)
  | arr {depth js} (h : ∀ j ∈ js, IsKept depth j) : IsKept (depth + 1) (.arr js)
  | obj {depth ms} (names : ∀ m ∈ ms, m.1.isSome) (distinct : (ms.map Prod.fst).Nodup)
      (h : ∀ m ∈ ms, IsKept depth m.2) : IsKept (depth + 1) (.obj ms)

variable {d depth fuel limit : Nat} {n : Int} {s : String} {name : Option String} {j : Json}
  {js : List Json} {ms before : List Member} {u v : List Char} {x : CodePoint}
  {r r' : List CodePoint}

theorem isPastValue_cons :
    IsPastValue (x :: r) ↔ x = .char ',' ∨ x = .char ']' ∨ x = .char '}' := by
  simp [IsPastValue]

/-! ### The start of a text -/

/-- Whether a text starts with a character that is not blank, and closes neither an array nor an
    object. -/
def Starts (t : List Char) : Prop :=
  ∃ c u, t = c :: u ∧ isSpace (.char c) = false ∧ c ≠ ']' ∧ c ≠ '}'

theorem starts_cons {c : Char} (h : isSpace (.char c) = false ∧ c ≠ ']' ∧ c ≠ '}') :
    Starts (c :: u) :=
  ⟨c, u, rfl, h⟩

theorem Starts.ne_nil (h : Starts u) : u ≠ [] := by
  obtain ⟨c, u, rfl, -⟩ := h
  exact List.cons_ne_nil c u

theorem Starts.append (h : Starts u) (v : List Char) : Starts (u ++ v) := by
  obtain ⟨c, u, rfl, hc⟩ := h
  exact starts_cons hc

theorem Starts.skip (h : Starts u) (r : List CodePoint) :
    skip (pointsOf u ++ r) = pointsOf u ++ r := by
  obtain ⟨c, u, rfl, hc, -⟩ := h
  rw [pointsOf_cons, List.cons_append, Json.skip, List.dropWhile_cons, hc]
  rfl

theorem intText_eq_cons (n : Int) :
    ∃ d < 10, (∃ t, intText n = digitChar d :: t) ∨ ∃ t, intText n = '-' :: digitChar d :: t := by
  obtain ⟨c, t, hct⟩ := List.exists_cons_of_length_pos (length_decimal_pos n.natAbs)
  obtain ⟨d, hd, rfl⟩ := isDecimal_decimal n.natAbs c (by simp [hct])
  refine ⟨d, hd, ?_⟩
  rw [intText, hct]
  split
  · exact .inr ⟨t, rfl⟩
  · exact .inl ⟨t, rfl⟩

theorem starts_intText (n : Int) : Starts (intText n) := by
  have hall : ∀ m < 10, isSpace (.char (digitChar m)) = false ∧ digitChar m ≠ ']' ∧
      digitChar m ≠ '}' := by decide
  obtain ⟨d, hd, ⟨t, ht⟩ | ⟨t, ht⟩⟩ := intText_eq_cons n
  · rw [ht]
    exact starts_cons (hall d hd)
  · rw [ht]
    exact starts_cons (by decide)

theorem IsKept.starts_text (h : IsKept depth j) : Starts (text j) := by
  cases h with
  | null => exact starts_cons (by decide)
  | bool b => cases b <;> exact starts_cons (by decide)
  | int _ => exact starts_intText _
  | str s => exact starts_cons (by decide)
  | arr _ => exact starts_cons (by decide)
  | obj _ _ _ => exact starts_cons (by decide)

theorem starts_itemsText (h : ∀ i ∈ j :: js, IsKept depth i) : Starts (itemsText (j :: js)) := by
  have hj := (h j (List.mem_cons_self ..)).starts_text
  cases js with
  | nil => exact hj
  | cons k js => exact hj.append _

theorem starts_membersText (m : Member) (ms : List Member) : Starts (membersText (m :: ms)) := by
  cases ms with
  | nil => exact starts_cons (by decide)
  | cons m' ms => exact starts_cons (by decide)

/-! ### Numbers, strings and constants -/

theorem constant?_intText (n : Int) (r : List CodePoint) :
    constant? (pointsOf (intText n) ++ r) = none := by
  have hall : ∀ m < 10, 'n' ≠ digitChar m ∧ 't' ≠ digitChar m ∧ 'f' ≠ digitChar m ∧
      'N' ≠ digitChar m ∧ 'I' ≠ digitChar m ∧ '-' ≠ digitChar m := by decide
  obtain ⟨d, hd, ⟨t, ht⟩ | ⟨t, ht⟩⟩ := intText_eq_cons n <;>
    simp [ht, constant?, constants, dropStart?, hall d hd]

theorem value_intText (n : Int) (fuel limit : Nat) (r : List CodePoint) :
    value (fuel + 1) limit (pointsOf (intText n) ++ r) = number (pointsOf (intText n) ++ r) := by
  have hall : ∀ m < 10, digitChar m ≠ '"' ∧ digitChar m ≠ '[' ∧ digitChar m ≠ '{' := by decide
  have hc := constant?_intText n r
  obtain ⟨d, hd, ⟨t, ht⟩ | ⟨t, ht⟩⟩ := intText_eq_cons n <;>
    simp only [ht, pointsOf_cons, List.cons_append] at hc ⊢ <;>
    simp [value, hc, hall d hd]

theorem value_stringText (s : String) (fuel limit : Nat) (r : List CodePoint) :
    value (fuel + 1) limit (pointsOf (stringText s) ++ r) = .ok (.str s, r) := by
  obtain ⟨t, ht, hs⟩ := string?_stringText s r
  rw [ht, value, hs]
  rfl

/-! ### Arrays -/

/-- Whether the text of a value nested at most `depth` deep is read as that value where it ends. -/
def IsRead (depth : Nat) (j : Json) : Prop :=
  ∀ ⦃fuel limit r⦄, (text j).length ≤ fuel → depth ≤ limit → IsPastValue r →
    value fuel limit (pointsOf (text j) ++ r) = .ok (j, r)

theorem items_last {t : List CodePoint} (h : value fuel limit t = .ok (j, .char ']' :: r)) :
    items (fuel + 1) limit t = .ok ([j], r) := by
  have hskip : skip (.char ']' :: r) = .char ']' :: r := rfl
  simp only [items, h, hskip, bind, Except.bind]

theorem items_more {t : List CodePoint} (h : value fuel limit t = .ok (j, .char ',' :: r))
    (hrest : items fuel limit (skip r) = .ok (js, r')) :
    items (fuel + 1) limit t = .ok (j :: js, r') := by
  have hskip : skip (.char ',' :: r) = .char ',' :: r := rfl
  simp only [items, h, hskip, bind, Except.bind, hrest, Except.map]

theorem items_itemsText (hne : js ≠ []) (hkept : ∀ j ∈ js, IsKept depth j)
    (hread : ∀ j ∈ js, IsRead depth j) (hfuel : (itemsText js).length < fuel)
    (hlimit : depth ≤ limit) (r : List CodePoint) :
    items fuel limit (pointsOf (itemsText js) ++ .char ']' :: r) = .ok (js, r) := by
  induction js generalizing fuel with
  | nil => exact absurd rfl hne
  | cons j js ih =>
    obtain ⟨fuel, rfl⟩ := Nat.exists_eq_succ_of_ne_zero (Nat.ne_zero_of_lt hfuel)
    obtain ⟨hj, hread⟩ := List.forall_mem_cons.mp hread
    have hkept' := (List.forall_mem_cons.mp hkept).2
    cases js with
    | nil =>
      exact items_last
        (hj (Nat.le_of_lt_succ hfuel) hlimit (isPastValue_cons.mpr (.inr (.inl rfl))))
    | cons k js =>
      simp only [itemsText, List.length_append, List.length_cons] at hfuel
      have hrest : items fuel limit (pointsOf (itemsText (k :: js)) ++ .char ']' :: r) =
          .ok (k :: js, r) := ih (List.cons_ne_nil k js) hkept' hread (by omega)
      rw [itemsText, pointsOf_append, pointsOf_cons, List.append_assoc, List.cons_append]
      refine items_more (hj (by omega) hlimit (isPastValue_cons.mpr (.inl rfl))) ?_
      rwa [(starts_itemsText hkept').skip]

/-! ### Objects -/

theorem insert_of_not_mem (h : name ∉ before.map Prod.fst) :
    insert name j before = before ++ [(name, j)] := by
  induction before with
  | nil => rfl
  | cons m before ih =>
    obtain ⟨k, w⟩ := m
    rw [List.map_cons, List.mem_cons, not_or] at h
    rw [insert, if_neg (Ne.symm h.1), ih h.2, List.cons_append]

/-- The text of a member. -/
def memberText (s : String) (j : Json) : List Char :=
  stringText s ++ ':' :: text j

theorem members_last (hj : Starts (text j))
    (hvalue : value fuel limit (pointsOf (text j) ++ .char '}' :: r) = .ok (j, .char '}' :: r)) :
    members (fuel + 1) limit before (pointsOf (memberText s j) ++ .char '}' :: r) =
      .ok (insert (some s) j before, r) := by
  obtain ⟨t, ht, hs⟩ :=
    string?_stringText s (.char ':' :: (pointsOf (text j) ++ .char '}' :: r))
  have hcolon : ∀ t, skip (.char ':' :: t) = .char ':' :: t := fun _ => rfl
  have hclose : skip (.char '}' :: r) = .char '}' :: r := rfl
  rw [memberText, pointsOf_append, pointsOf_cons, List.append_assoc, List.cons_append, ht]
  simp only [members, hs, hcolon, hj.skip, hvalue, hclose, bind, Except.bind]

theorem members_more (hj : Starts (text j))
    (hvalue : value fuel limit (pointsOf (text j) ++ .char ',' :: r) = .ok (j, .char ',' :: r))
    (hrest : members fuel limit (insert (some s) j before) (skip r) = .ok (ms, r')) :
    members (fuel + 1) limit before (pointsOf (memberText s j) ++ .char ',' :: r) =
      .ok (ms, r') := by
  obtain ⟨t, ht, hs⟩ :=
    string?_stringText s (.char ':' :: (pointsOf (text j) ++ .char ',' :: r))
  have hcolon : ∀ t, skip (.char ':' :: t) = .char ':' :: t := fun _ => rfl
  have hcomma : skip (.char ',' :: r) = .char ',' :: r := rfl
  rw [memberText, pointsOf_append, pointsOf_cons, List.append_assoc, List.cons_append, ht]
  simp only [members, hs, hcolon, hj.skip, hvalue, hcomma, bind, Except.bind, hrest]

theorem members_membersText (hne : ms ≠ []) (names : ∀ m ∈ ms, m.1.isSome)
    (distinct : ((before ++ ms).map Prod.fst).Nodup) (hkept : ∀ m ∈ ms, IsKept depth m.2)
    (hread : ∀ m ∈ ms, IsRead depth m.2) (hfuel : (membersText ms).length < fuel)
    (hlimit : depth ≤ limit) (r : List CodePoint) :
    members fuel limit before (pointsOf (membersText ms) ++ .char '}' :: r) =
      .ok (before ++ ms, r) := by
  induction ms generalizing fuel before with
  | nil => exact absurd rfl hne
  | cons m ms ih =>
    obtain ⟨fuel, rfl⟩ := Nat.exists_eq_succ_of_ne_zero (Nat.ne_zero_of_lt hfuel)
    obtain ⟨name, j⟩ := m
    obtain ⟨hm, hms⟩ := List.forall_mem_cons.mp names
    obtain ⟨hk, hks⟩ := List.forall_mem_cons.mp hkept
    obtain ⟨hj, hjs⟩ := List.forall_mem_cons.mp hread
    obtain ⟨s, rfl⟩ := Option.isSome_iff_exists.mp hm
    have hnew : some s ∉ before.map Prod.fst := by
      rw [List.map_append, List.nodup_append] at distinct
      exact fun h => distinct.2.2 _ h _ (List.mem_cons_self ..) rfl
    cases ms with
    | nil =>
      simp only [membersText, List.length_append, List.length_cons] at hfuel
      rw [← insert_of_not_mem hnew]
      exact members_last hk.starts_text
        (hj (by dsimp only; omega) hlimit (isPastValue_cons.mpr (.inr (.inr rfl))))
    | cons m' ms =>
      simp only [membersText, List.length_append, List.length_cons] at hfuel
      have hrest : members fuel limit (before ++ [(some s, j)])
          (pointsOf (membersText (m' :: ms)) ++ .char '}' :: r) =
            .ok ((before ++ [(some s, j)]) ++ m' :: ms, r) :=
        ih (List.cons_ne_nil m' ms) hms (by simpa using distinct) hks hjs (by omega)
      have htext : membersText ((some s, j) :: m' :: ms) =
          memberText s j ++ ',' :: membersText (m' :: ms) := by
        simp [membersText, memberText]
      rw [htext, pointsOf_append, pointsOf_cons, List.append_assoc, List.cons_append]
      refine members_more hk.starts_text
        (hj (by dsimp only; omega) hlimit (isPastValue_cons.mpr (.inl rfl))) ?_
      rw [(starts_membersText m' ms).skip, insert_of_not_mem hnew, hrest, List.append_assoc]
      rfl

/-! ### Values -/

theorem value_array (hu : Starts u)
    (h : items fuel limit (pointsOf u ++ .char ']' :: r) = .ok (js, r)) :
    value (fuel + 1) (limit + 1) (pointsOf ('[' :: u ++ [']']) ++ r) = .ok (.arr js, r) := by
  have hskip := hu.skip (.char ']' :: r)
  obtain ⟨c, u, rfl, -, hc, -⟩ := hu
  simp only [pointsOf_cons, List.cons_append] at h hskip
  simp [value, hskip, h, hc, Except.map]

theorem value_object (hu : Starts u)
    (h : members fuel limit [] (pointsOf u ++ .char '}' :: r) = .ok (ms, r)) :
    value (fuel + 1) (limit + 1) (pointsOf ('{' :: u ++ ['}']) ++ r) = .ok (.obj ms, r) := by
  have hskip := hu.skip (.char '}' :: r)
  obtain ⟨c, u, rfl, -, -, hc⟩ := hu
  simp only [pointsOf_cons, List.cons_append] at h hskip
  simp [value, hskip, h, hc, Except.map]

theorem isRead_of_starts (hj : Starts (text j))
    (h : ∀ fuel limit r, (text j).length ≤ fuel + 1 → depth ≤ limit → IsPastValue r →
      value (fuel + 1) limit (pointsOf (text j) ++ r) = .ok (j, r)) : IsRead depth j := by
  intro fuel limit r hfuel hlimit hr
  obtain ⟨c, u, hu, -⟩ := hj
  obtain ⟨fuel, rfl⟩ : ∃ m, fuel = m + 1 := by
    rw [hu, List.length_cons] at hfuel
    exact Nat.exists_eq_succ_of_ne_zero (Nat.ne_zero_of_lt hfuel)
  exact h fuel limit r hfuel hlimit hr

/-- A kept value is read where it ends. -/
theorem IsKept.isRead (h : IsKept depth j) : IsRead depth j := by
  apply isRead_of_starts h.starts_text
  induction h with
  | null => exact fun _ _ _ _ _ _ => rfl
  | bool b => cases b <;> exact fun _ _ _ _ _ _ => rfl
  | int hn =>
    intro fuel limit r _ _ hr
    rw [text, value_intText, number_intText _ hr, if_neg (Nat.not_lt.mpr hn)]
  | str s => exact fun fuel limit r _ _ _ => value_stringText s fuel limit r
  | @arr depth js hkept ih =>
    intro fuel limit r hfuel hlimit _
    obtain ⟨limit, rfl⟩ := Nat.exists_eq_succ_of_ne_zero (Nat.ne_zero_of_lt hlimit)
    cases js with
    | nil => rfl
    | cons j js =>
      have hread : ∀ i ∈ j :: js, IsRead depth i :=
        fun i hi => isRead_of_starts (hkept i hi).starts_text (ih i hi)
      apply value_array (starts_itemsText hkept)
      simp only [text, List.length_append, List.length_cons, List.length_nil] at hfuel
      exact items_itemsText (List.cons_ne_nil j js) hkept hread (by omega)
        (Nat.le_of_succ_le_succ hlimit) r
  | @obj depth ms names distinct hkept ih =>
    intro fuel limit r hfuel hlimit _
    obtain ⟨limit, rfl⟩ := Nat.exists_eq_succ_of_ne_zero (Nat.ne_zero_of_lt hlimit)
    cases ms with
    | nil => rfl
    | cons m ms =>
      have hread : ∀ i ∈ m :: ms, IsRead depth i.2 :=
        fun i hi => isRead_of_starts (hkept i hi).starts_text (ih i hi)
      apply value_object (starts_membersText m ms)
      simp only [text, List.length_append, List.length_cons, List.length_nil] at hfuel
      exact members_membersText (List.cons_ne_nil m ms) names distinct hkept hread (by omega)
        (Nat.le_of_succ_le_succ hlimit) r

/-! ### Whole texts -/

/-- A kept value is what its text alone is read as. -/
theorem read_text (h : IsKept nestingLimit j) : read (pointsOf (text j)) = .ok j := by
  have hskip := h.starts_text.skip []
  have hvalue : value (2 * (text j).length + 2) nestingLimit (pointsOf (text j) ++ []) =
      .ok (j, []) := h.isRead (by omega) le_rfl (by simp [IsPastValue])
  rw [List.append_nil] at hskip hvalue
  simp only [read, length_pointsOf, hskip, hvalue]
  rfl

theorem isGraphic_intText (n : Int) : IsGraphic (intText n) := by
  have hall : ∀ m < 10, 32 ≤ (digitChar m).toNat ∧ (digitChar m).toNat < 127 := by decide
  have hdigits : IsGraphic (decimal n.natAbs) := by
    intro c hc
    obtain ⟨d, hd, rfl⟩ := isDecimal_decimal n.natAbs c hc
    exact hall d hd
  rw [intText]
  split
  · exact hdigits.cons (by decide)
  · exact hdigits

theorem isGraphic_itemsText (h : ∀ j ∈ js, IsGraphic (text j)) : IsGraphic (itemsText js) := by
  induction js with
  | nil => exact List.forall_mem_nil _
  | cons j js ih =>
    obtain ⟨hj, hjs⟩ := List.forall_mem_cons.mp h
    cases js with
    | nil => exact hj
    | cons k js => exact hj.append ((ih hjs).cons (by decide))

theorem isGraphic_membersText (h : ∀ m ∈ ms, IsGraphic (text m.2)) :
    IsGraphic (membersText ms) := by
  induction ms with
  | nil => exact List.forall_mem_nil _
  | cons m ms ih =>
    obtain ⟨hm, hms⟩ := List.forall_mem_cons.mp h
    have hfirst : IsGraphic (stringText (m.1.getD lostText) ++ ':' :: text m.2) :=
      (isGraphic_stringText _).append (hm.cons (by decide))
    cases ms with
    | nil => exact hfirst
    | cons m' ms => exact hfirst.append ((ih hms).cons (by decide))

theorem IsKept.isGraphic_text (h : IsKept depth j) : IsGraphic (text j) := by
  induction h with
  | null => decide
  | bool b => cases b <;> decide
  | int _ => exact isGraphic_intText _
  | str s => exact isGraphic_stringText s
  | arr _ ih => exact ((isGraphic_itemsText ih).cons (by decide)).append (by decide)
  | obj _ _ _ ih => exact ((isGraphic_membersText ih).cons (by decide)).append (by decide)

/-- Every byte order mark starts with a zero byte or with one beyond ASCII. -/
theorem find?_byteOrderMarks {bs : List UInt8} (h : ∀ b ∈ bs, b ≠ 0 ∧ b.toNat < 127) :
    (byteOrderMarks.find? fun m => m.1.isPrefixOf bs) = none := by
  cases bs with
  | nil => rfl
  | cons b bs =>
    obtain ⟨hzero, hlt⟩ := h b (List.mem_cons_self ..)
    have hne : ∀ m : UInt8, m = 0 ∨ 127 ≤ m.toNat → (m == b) = false := by
      intro m hm
      rw [beq_eq_false_iff_ne]
      rintro rfl
      exact hm.elim hzero (Nat.not_le.mpr hlt)
    simp only [byteOrderMarks, List.find?, List.isPrefixOf, hne 0 (.inl rfl),
      hne 0xFF (.inr (by decide)), hne 0xFE (.inr (by decide)), hne 0xEF (.inr (by decide)),
      Bool.false_and]

theorem ofZeros_of_ne_zero {bs : List UInt8} (h : ∀ b ∈ bs, b ≠ 0) :
    Encoding.ofZeros bs = .utf8 := by
  unfold Encoding.ofZeros
  split
  · next a b c d t =>
    have hb : b ≠ 0 := h b (List.mem_cons_of_mem a (List.mem_cons_self ..))
    rw [if_neg (h a (List.mem_cons_self ..)), if_neg hb]
  · next a b =>
    have hb : b ≠ 0 := h b (List.mem_cons_of_mem a (List.mem_cons_self ..))
    rw [if_neg (h a (List.mem_cons_self ..)), if_neg hb]
  · rfl

theorem detect_map_asciiByte (h : IsGraphic u) :
    Encoding.detect (u.map asciiByte) = (.utf8, u.map asciiByte) := by
  have hmark := find?_byteOrderMarks fun _ hb => h.byte_bounds hb
  have hzeros := ofZeros_of_ne_zero fun _ hb => (h.byte_bounds hb).1
  simp only [Encoding.detect, hmark, hzeros]

theorem decode?_utf8 (h : IsGraphic u) : decode? (utf8 u) = some (pointsOf u) := by
  rw [decode?, utf8_of_isGraphic h, detect_map_asciiByte h]
  exact decodeUtf8?_map_asciiByte h

/-- The bytes of a kept value are read as that value. -/
theorem exists_decode?_text (h : IsKept nestingLimit j) :
    ∃ t, decode? (utf8 (text j)) = some t ∧ read t = .ok j :=
  ⟨pointsOf (text j), decode?_utf8 h.isGraphic_text, read_text h⟩

end Almanac.Json
