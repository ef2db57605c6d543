import Almanac.Proofs.Json.RoundTrip
import Almanac.Proofs.Token.Base64Url
import Almanac.Token.Access
import Mathlib.Tactic.NormNum

/-!
# The lifetime of a token

A token that was issued names its user from the second in which it was issued for a day, to the
last second and not beyond; before and after it is no valid token. The parts that were written are
read back whatever the user is called, and the signature is right whatever signs.
-/

namespace Almanac.Token

open Calendar Json Text

variable {j : Json} {user : String} {ends issued : Int} {s : Rat} {t u : List UInt8}
  {issuedAt : Instant}

/-! ### Parts -/

theorem cutAtPoint?_append (h : 46 ∉ t) (u : List UInt8) :
    cutAtPoint? (t ++ 46 :: u) = some (t, u) := by
  induction t with
  | nil => rfl
  | cons b t ih =>
    rw [List.mem_cons, not_or] at h
    rw [List.cons_append, cutAtPoint?, if_neg (Ne.symm h.1), ih h.2]
    rfl

theorem cutAtLastPoint?_append (t : List UInt8) (h : 46 ∉ u) :
    cutAtLastPoint? (t ++ 46 :: u) = some (t, u) := by
  have hreverse : (t ++ 46 :: u).reverse = u.reverse ++ 46 :: t.reverse := by simp
  rw [cutAtLastPoint?, hreverse, cutAtPoint?_append (by simpa using h)]
  simp

/-- A kept value is read from the part of a token that holds it. -/
theorem segmentJson?_segment (h : IsKept nestingLimit j) :
    segmentJson? ((segment j).map asciiByte) = some j := by
  obtain ⟨t, hdecode, hread⟩ := exists_decode?_text h
  simp [segmentJson?, segment, decode64?_encode64, hdecode, hread, Except.toOption]

/-! ### Signed texts -/

theorem isKept_header : IsKept nestingLimit header := by
  refine .obj (by decide) (by decide) ?_
  simp only [List.forall_mem_cons, List.not_mem_nil, false_imp_iff, implies_true, and_true]
  exact ⟨.str _, .str _⟩

theorem headerIsValid_header : headerIsValid header = true := by
  decide

theorem isGraphic_segment (j : Json) : IsGraphic (segment j) :=
  isGraphic_encode64 _

/-- The text of a header and a payload, which is signed. -/
def signedText (payload : Json) : List Char :=
  segment header ++ '.' :: segment payload

theorem isGraphic_signedText (payload : Json) : IsGraphic (signedText payload) :=
  (isGraphic_segment header).append ((isGraphic_segment payload).cons (by decide))

theorem utf8_append_point {v w : List Char} (hv : IsGraphic v) (hw : IsGraphic w) :
    utf8 (v ++ '.' :: w) = v.map asciiByte ++ 46 :: w.map asciiByte := by
  rw [utf8_of_isGraphic (hv.append (hw.cons (by decide))), List.map_append]
  rfl

theorem cutAtPoint?_signedText (payload : Json) :
    cutAtPoint? (utf8 (signedText payload)) =
      some ((segment header).map asciiByte, (segment payload).map asciiByte) := by
  rw [signedText, utf8_append_point (isGraphic_segment header) (isGraphic_segment payload)]
  exact cutAtPoint?_append (point_not_mem_encode64 _) _

theorem cutAtLastPoint?_signed (sign : Signer) (payload : Json) :
    cutAtLastPoint? (utf8 (signed sign payload).toList) =
      some (utf8 (signedText payload),
        (encode64 (sign (utf8 (signedText payload)))).map asciiByte) := by
  have htext := isGraphic_signedText payload
  have hsigned : (signed sign payload).toList =
      signedText payload ++ '.' :: encode64 (sign (utf8 (signedText payload))) :=
    String.toList_ofList
  rw [hsigned, utf8_append_point htext (isGraphic_encode64 _), ← utf8_of_isGraphic htext]
  exact cutAtLastPoint?_append _ (point_not_mem_encode64 _)

/-- A token with a payload that is kept is valid as long as its claims hold. -/
theorem verify?_signed (sign : Signer) {claims : List Member}
    (h : IsKept nestingLimit (.obj claims)) (s : Rat) :
    verify? sign (signed sign (.obj claims)) s =
      if claimsHold (.obj claims) s then some claims else none := by
  simp [verify?, cutAtLastPoint?_signed, cutAtPoint?_signedText, segmentJson?_segment isKept_header,
    decode64?_encode64, headerIsValid_header, segmentJson?_segment h]

/-! ### Claims -/

theorem isKept_payload (user : String) (hends : (decimal ends.natAbs).length ≤ maxDigits)
    (hissued : (decimal issued.natAbs).length ≤ maxDigits) :
    IsKept nestingLimit (payload user ends issued) := by
  refine .obj (by simp) (by simp) ?_
  simp only [List.forall_mem_cons, List.not_mem_nil, false_imp_iff, implies_true, and_true]
  exact ⟨.str _, .int hends, .int hissued⟩

theorem claimsHold_payload : claimsHold (payload user ends issued) s =
    (decide ((issued : Rat) ≤ s) && decide (s < (ends : Rat))) := by
  have hiat : (payload user ends issued).get? "iat" = some (.int issued) := rfl
  have hexp : (payload user ends issued).get? "exp" = some (.int ends) := rfl
  have hsub : (payload user ends issued).get? "sub" = some (.str user) := rfl
  have hnbf : (payload user ends issued).get? "nbf" = none := rfl
  have haud : (payload user ends issued).get? "aud" = none := rfl
  have hjti : (payload user ends issued).get? "jti" = none := rfl
  simp [claimsHold, timeHolds, isTextIfGiven, hiat, hexp, hsub, hnbf, haud, hjti, claimedTime?,
    Json.isBlank, Json.isString]

theorem verify?_payload (sign : Signer) (user : String)
    (hends : (decimal ends.natAbs).length ≤ maxDigits)
    (hissued : (decimal issued.natAbs).length ≤ maxDigits) (s : Rat) :
    verify? sign (signed sign (payload user ends issued)) s =
      if (issued : Rat) ≤ s ∧ s < (ends : Rat) then
        some [(some "sub", .str user), (some "exp", .int ends), (some "iat", .int issued)]
      else none := by
  have hverify := verify?_signed sign (isKept_payload user hends hissued) s
  rw [← payload, claimsHold_payload] at hverify
  simpa using hverify

/-! ### Seconds -/

/-- The time in UTC of an instant. A floating time is read as UTC. -/
def utcReading (i : Instant) : Int :=
  i.utcTicks?.getD i.wall.ticks

/-- The second, counted from the start of 1970, in which an instant lies. -/
def secondOf (i : Instant) : Int :=
  (utcReading i - epoch) / second

/-- Whether the calendar holds an instant in UTC, and the end of the lifetime of a token that is
    issued at it. -/
structure Fits (i : Instant) : Prop where
  wall  : i.wall.ticks + lifetime < span
  start : 0 ≤ utcReading i
  ends  : utcReading i + lifetime < span

theorem epochSeconds_eq_ok {i : Instant} (h : 0 ≤ utcReading i) (h' : utcReading i < span) :
    epochSeconds i = .ok (secondOf i) := by
  have hw : Wall.ofTicks? (utcReading i) = some ⟨(utcReading i).toNat, by omega⟩ := dif_pos ⟨h, h'⟩
  rw [epochSeconds, ← utcReading, hw]
  simp only [secondOf, Int.toNat_of_nonneg h]

/-- The offset stays as it is where it is fixed. -/
theorem exists_ends (hframe : ∀ z, issuedAt.frame ≠ .zoned z) (h : Fits issuedAt) :
    ∃ e, issuedAt.shift lifetime = .ok e ∧ utcReading e = utcReading issuedAt + lifetime := by
  have hshift : issuedAt.wall.shift lifetime = .ok ⟨issuedAt.wall.ticks + lifetime, h.wall⟩ :=
    Wall.shift_eq_ok_iff.mpr (by simp)
  refine ⟨_, by rw [Instant.shift, hshift]; rfl, ?_⟩
  obtain ⟨wall, frame, later⟩ := issuedAt
  cases frame with
  | floating => rfl
  | fixed o =>
    simp only [utcReading, Instant.utcTicks?, Instant.offset?, Option.map_some, Option.getD_some]
    push_cast
    omega
  | zoned z => exact absurd rfl (hframe z)

theorem secondOf_of_utcReading {i e : Instant} (h : utcReading e = utcReading i + lifetime) :
    secondOf e = secondOf i + 86400 := by
  simp only [secondOf, h, lifetime, epoch, second, minute, hour, day]
  omega

theorem length_decimal_secondOf {i : Instant} (h : 0 ≤ utcReading i) (h' : utcReading i < span) :
    (decimal (secondOf i).natAbs).length ≤ maxDigits := by
  have hbound : (secondOf i).natAbs < 10 ^ (11 + 1) := by
    simp only [secondOf, epoch, span, dayCount, second, minute, hour, day] at h' ⊢
    omega
  exact (length_decimal_le_iff.mpr hbound).trans (by decide)

/-! ### Issuing and verifying -/

/-- A token that is issued at a floating time, or at one of a fixed offset, is valid from the second
    in which it is issued until a day later, that moment excluded. It then says whom it names, when
    it ends and when it was issued. -/
theorem verifies_for_a_day (sign : Signer) (user : String)
    (hframe : ∀ z, issuedAt.frame ≠ .zoned z) (h : Fits issuedAt) :
    ∃ token, issue sign user issuedAt = .ok token ∧
      ∀ now : Rat,
        verify? sign token now =
          (if secondOf issuedAt ≤ now ∧ now < secondOf issuedAt + 86400 then
            some [(some "sub", .str user), (some "exp", .int (secondOf issuedAt + 86400)),
              (some "iat", .int (secondOf issuedAt))]
          else none) ∧
        user? sign token now =
          if secondOf issuedAt ≤ now ∧ now < secondOf issuedAt + 86400 then some (.str user)
          else none := by
  obtain ⟨e, hshift, he⟩ := exists_ends hframe h
  have hfirst : 0 ≤ utcReading e := by
    have := h.start
    omega
  have hlast : utcReading e < span := he ▸ h.ends
  have hstart : utcReading issuedAt < span := by omega
  have hends : secondOf e = secondOf issuedAt + 86400 := secondOf_of_utcReading he
  refine ⟨signed sign (payload user (secondOf e) (secondOf issuedAt)), ?_, fun now => ?_⟩
  · rw [issue, hshift]
    simp only [bind, Except.bind, epochSeconds_eq_ok hfirst hlast,
      epochSeconds_eq_ok h.start hstart]
  · have hverify := verify?_payload sign user (length_decimal_secondOf hfirst hlast)
      (length_decimal_secondOf h.start hstart) now
    have hcast : ((secondOf e : Int) : Rat) = secondOf issuedAt + 86400 := by
      rw [hends]
      push_cast
      rfl
    rw [hcast] at hverify
    rw [user?, hverify, hends]
    refine ⟨rfl, ?_⟩
    split <;> rfl

/-- Half a second before 1970. -/
def lateIn1969 : Instant :=
  ⟨⟨epoch - 500000, by decide⟩, .fixed 0, false⟩

/-- A token issued then is good for a day, from the start of the last second of 1969 on. -/
theorem verifies_late_in_1969 :
    (∀ z, lateIn1969.frame ≠ .zoned z) ∧ Fits lateIn1969 ∧
      ∃ token, issue (hmacSigner "secret") "zoë" lateIn1969 = .ok token ∧
        user? (hmacSigner "secret") token (-1) = some (.str "zoë") ∧
        user? (hmacSigner "secret") token 86398 = some (.str "zoë") ∧
        user? (hmacSigner "secret") token 86399 = none := by
  have hframe : ∀ z, lateIn1969.frame ≠ .zoned z := nofun
  have hfits : Fits lateIn1969 := ⟨by decide, by decide, by decide +kernel⟩
  have hsecond : secondOf lateIn1969 = -1 := by decide +kernel
  obtain ⟨token, hissue, hverify⟩ :=
    verifies_for_a_day (hmacSigner "secret") "zoë" hframe hfits
  rw [hsecond] at hverify
  refine ⟨hframe, hfits, token, hissue, ?_, ?_, ?_⟩
  · rw [(hverify _).2]
    norm_num
  · rw [(hverify _).2]
    norm_num
  · rw [(hverify _).2]
    norm_num

end Almanac.Token
