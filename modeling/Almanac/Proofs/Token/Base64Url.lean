import Almanac.Proofs.Text.CodePoint
import Almanac.Token.Base64Url

/-!
# Reading base64 back

Bytes are read from the text that was written for them, whatever number of them is left over for
the last group. The text is printable ASCII without a point.
-/

namespace Almanac.Token

open Text

variable {n w x y z : Nat} {a b c : UInt8}

/-! ### Six bits -/

/-- The byte of the character for six bits. -/
def sextetByte (n : Nat) : UInt8 :=
  asciiByte (sextetChar n)

theorem sextet?_sextetByte (h : n < 64) : sextet? (sextetByte n) = some n := by
  have hall : ∀ m < 64, sextet? (sextetByte m) = some m := by decide
  exact hall n h

theorem sextetByte_ne_padding (h : n < 64) : sextetByte n ≠ padding := by
  have hall : ∀ m < 64, sextetByte m ≠ padding := by decide
  exact hall n h

/-! ### Groups -/

theorem toUInt8_eq (h : n = a.toNat) : n.toUInt8 = a := by
  rw [h]
  exact UInt8.ofNat_toNat

theorem decodeOne?_sextetByte (hx : x < 64) (hy : y < 64) (ha : 4 * x + y / 16 = a.toNat)
    (hrest : y % 16 = 0) : decodeOne? (sextetByte x) (sextetByte y) = some [a] := by
  simp only [decodeOne?, sextet?_sextetByte hx, sextet?_sextetByte hy, Option.bind_eq_bind,
    Option.bind_some, if_pos hrest, toUInt8_eq ha]

theorem decodeTwo?_sextetByte (hx : x < 64) (hy : y < 64) (hz : z < 64)
    (ha : 4 * x + y / 16 = a.toNat) (hb : 16 * (y % 16) + z / 4 = b.toNat) (hrest : z % 4 = 0) :
    decodeTwo? (sextetByte x) (sextetByte y) (sextetByte z) = some [a, b] := by
  simp only [decodeTwo?, sextet?_sextetByte hx, sextet?_sextetByte hy, sextet?_sextetByte hz,
    Option.bind_eq_bind, Option.bind_some, if_pos hrest, toUInt8_eq ha, toUInt8_eq hb]

theorem decodeThree?_sextetByte (hw : w < 64) (hx : x < 64) (hy : y < 64) (hz : z < 64)
    (ha : 4 * w + x / 16 = a.toNat) (hb : 16 * (x % 16) + y / 4 = b.toNat)
    (hc : 64 * (y % 4) + z = c.toNat) :
    decodeThree? (sextetByte w) (sextetByte x) (sextetByte y) (sextetByte z) =
      some [a, b, c] := by
  simp only [decodeThree?, sextet?_sextetByte hw, sextet?_sextetByte hx, sextet?_sextetByte hy,
    sextet?_sextetByte hz, Option.bind_eq_bind, Option.bind_some, toUInt8_eq ha, toUInt8_eq hb,
    toUInt8_eq hc]

/-! ### Texts -/

/-- Bytes are read as they were written. -/
theorem decode64?_encode64 (bs : List UInt8) :
    decode64? ((encode64 bs).map asciiByte) = some bs := by
  induction bs using encode64.induct with
  | case1 => rfl
  | case2 a =>
    have ha := a.toNat_lt
    exact decodeOne?_sextetByte (by omega) (by omega) (by omega) (by omega)
  | case3 a b =>
    have ha := a.toNat_lt
    have hb := b.toNat_lt
    exact decodeTwo?_sextetByte (by omega) (by omega) (by omega) (by omega) (by omega) (by omega)
  | case4 a b c r ih =>
    have ha := a.toNat_lt
    have hb := b.toNat_lt
    have hc := c.toNat_lt
    generalize hn : 65536 * a.toNat + 256 * b.toNat + c.toNat = n
    have hthree : decodeThree? (sextetByte (n / 262144)) (sextetByte (n / 4096 % 64))
        (sextetByte (n / 64 % 64)) (sextetByte (n % 64)) = some [a, b, c] :=
      decodeThree?_sextetByte (by omega) (by omega) (by omega) (by omega) (by omega) (by omega)
        (by omega)
    have hlast : sextetByte (n % 64) ≠ padding :=
      sextetByte_ne_padding (Nat.mod_lt n (by decide))
    have htext : (encode64 (a :: b :: c :: r)).map asciiByte = sextetByte (n / 262144) ::
        sextetByte (n / 4096 % 64) :: sextetByte (n / 64 % 64) :: sextetByte (n % 64) ::
          (encode64 r).map asciiByte := by
      rw [← hn]
      rfl
    rw [htext, decode64?, if_neg fun h => hlast h.2, hthree, ih]
    rfl

/-- The characters of a text in base64 stand for six bits each. -/
theorem mem_encode64 {bs : List UInt8} {d : Char} (h : d ∈ encode64 bs) :
    ∃ n < 64, d = sextetChar n := by
  induction bs using encode64.induct with
  | case1 => cases h
  | case2 a =>
    have ha := a.toNat_lt
    simp only [encode64, List.mem_cons, List.not_mem_nil, or_false] at h
    rcases h with rfl | rfl <;> exact ⟨_, by omega, rfl⟩
  | case3 a b =>
    have ha := a.toNat_lt
    have hb := b.toNat_lt
    simp only [encode64, List.mem_cons, List.not_mem_nil, or_false] at h
    rcases h with rfl | rfl | rfl <;> exact ⟨_, by omega, rfl⟩
  | case4 a b c r ih =>
    have ha := a.toNat_lt
    have hb := b.toNat_lt
    have hc := c.toNat_lt
    simp only [encode64, List.mem_cons] at h
    rcases h with rfl | rfl | rfl | rfl | h
    · exact ⟨_, by omega, rfl⟩
    · exact ⟨_, by omega, rfl⟩
    · exact ⟨_, by omega, rfl⟩
    · exact ⟨_, by omega, rfl⟩
    · exact ih h

theorem isGraphic_encode64 (bs : List UInt8) : IsGraphic (encode64 bs) := by
  have hall : ∀ m < 64, 32 ≤ (sextetChar m).toNat ∧ (sextetChar m).toNat < 127 := by decide
  intro d hd
  obtain ⟨n, hn, rfl⟩ := mem_encode64 hd
  exact hall n hn

/-- No byte of a text in base64 is that of a point. -/
theorem point_not_mem_encode64 (bs : List UInt8) : 46 ∉ (encode64 bs).map asciiByte := by
  have hall : ∀ m < 64, sextetByte m ≠ 46 := by decide
  intro h
  obtain ⟨d, hd, hpoint⟩ := List.mem_map.mp h
  obtain ⟨n, hn, rfl⟩ := mem_encode64 hd
  exact hall n hn hpoint

end Almanac.Token
