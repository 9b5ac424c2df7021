import Extraction.Text.Base64

/-!
Octets come back from their Base64 text.
-/

namespace Extraction.Text.Base64

/-! ### Digits -/

theorem value?_digit {n : Nat} (h : n < 64) : value? (digit n) = some n :=
  (by decide : ∀ n < 64, value? (digit n) = some n) n h

/-- The padding character is no digit. -/
theorem digit_ne_padding {n : Nat} (h : n < 64) : digit n ≠ '=' := by
  intro hdigit
  have hvalue : value? (digit n) = none := by
    rw [hdigit]
    decide
  rw [value?_digit h] at hvalue
  cases hvalue

/-! ### Groups -/

theorem octet_eq {n : Nat} {a : UInt8} (h : n = a.toNat) : octet n = a := by
  rw [octet, h, UInt8.ofNat_toNat]

theorem oneOctet?_digits (a : UInt8) :
    oneOctet? (digit (a.toNat / 4)) (digit (a.toNat % 4 * 16)) = some [a] := by
  have ha := a.toNat_lt
  have hone : octet (a.toNat / 4 * 4 + a.toNat % 4 * 16 / 16) = a := octet_eq (by omega)
  simp (disch := omega) only [oneOctet?, value?_digit, hone, Option.bind_eq_bind, Option.bind_some]

theorem twoOctets?_digits (a b : UInt8) :
    twoOctets? (digit (a.toNat / 4)) (digit (a.toNat % 4 * 16 + b.toNat / 16))
      (digit (b.toNat % 16 * 4)) = some [a, b] := by
  have ha := a.toNat_lt
  have hb := b.toNat_lt
  have hone : octet (a.toNat / 4 * 4 + (a.toNat % 4 * 16 + b.toNat / 16) / 16) = a :=
    octet_eq (by omega)
  have htwo : octet ((a.toNat % 4 * 16 + b.toNat / 16) % 16 * 16 + b.toNat % 16 * 4 / 4) = b :=
    octet_eq (by omega)
  simp (disch := omega) only [twoOctets?, value?_digit, hone, htwo, Option.bind_eq_bind,
    Option.bind_some]

theorem threeOctets?_digits (a b c : UInt8) :
    threeOctets? (digit (a.toNat / 4)) (digit (a.toNat % 4 * 16 + b.toNat / 16))
      (digit (b.toNat % 16 * 4 + c.toNat / 64)) (digit (c.toNat % 64)) = some [a, b, c] := by
  have ha := a.toNat_lt
  have hb := b.toNat_lt
  have hc := c.toNat_lt
  have hone : octet (a.toNat / 4 * 4 + (a.toNat % 4 * 16 + b.toNat / 16) / 16) = a :=
    octet_eq (by omega)
  have htwo : octet ((a.toNat % 4 * 16 + b.toNat / 16) % 16 * 16 +
      (b.toNat % 16 * 4 + c.toNat / 64) / 4) = b := octet_eq (by omega)
  have hthree : octet ((b.toNat % 16 * 4 + c.toNat / 64) % 4 * 64 + c.toNat % 64) = c :=
    octet_eq (by omega)
  simp (disch := omega) only [threeOctets?, value?_digit, hone, htwo, hthree, Option.bind_eq_bind,
    Option.bind_some]

/-! ### Texts -/

theorem decodeGroups_cons {a b c d : Char} {rest : List Char} (ha : a ≠ '=') (hd : d ≠ '=') :
    decodeGroups (a :: b :: c :: d :: rest) =
      (threeOctets? a b c d).bind fun octets =>
        (decodeGroups rest).map fun others => octets ++ others := by
  cases rest with
  | nil =>
    simp only [decodeGroups, if_neg ha, if_neg hd]
    cases threeOctets? a b c d <;> simp
  | cons e rest =>
    simp only [decodeGroups, if_neg ha]
    cases threeOctets? a b c d <;> cases decodeGroups (e :: rest) <;> rfl

theorem decodeGroups_encodeChars (bs : Octets) : decodeGroups (encodeChars bs) = some bs := by
  fun_induction encodeChars bs with
  | case1 => rfl
  | case2 a =>
    have ha := a.toNat_lt
    have hfirst : digit (a.toNat / 4) ≠ '=' := digit_ne_padding (by omega)
    rw [decodeGroups, if_neg hfirst, if_pos rfl, if_pos rfl, oneOctet?_digits]
  | case3 a b =>
    have ha := a.toNat_lt
    have hfirst : digit (a.toNat / 4) ≠ '=' := digit_ne_padding (by omega)
    have hthird : digit (b.toNat % 16 * 4) ≠ '=' := digit_ne_padding (by omega)
    rw [decodeGroups, if_neg hfirst, if_pos rfl, if_neg hthird, twoOctets?_digits]
  | case4 a b c rest ih =>
    have ha := a.toNat_lt
    have hfirst : digit (a.toNat / 4) ≠ '=' := digit_ne_padding (by omega)
    have hfourth : digit (c.toNat % 64) ≠ '=' := digit_ne_padding (by omega)
    rw [decodeGroups_cons hfirst hfourth, threeOctets?_digits, ih]
    rfl

theorem head_encodeChars (bs : Octets) : (encodeChars bs).head? ≠ some '=' := by
  have hfirst : ∀ a : UInt8, digit (a.toNat / 4) ≠ '=' := by
    intro a
    have ha := a.toNat_lt
    exact digit_ne_padding (by omega)
  cases bs using encodeChars.fun_cases <;> simp [encodeChars, hfirst]

theorem decode?_encode (bs : Octets) : decode? (encode bs) = some bs := by
  rw [decode?, encode, String.toList_ofList, decodeChars, if_neg (head_encodeChars bs),
    decodeGroups_encodeChars]

end Extraction.Text.Base64
