import Extraction.Proofs.DoubleRange

/-!
How far a double lies from the ratio that it is nearest to: half a step of the doubles there at
most, and on the same side of every whole number that is a double.
-/

namespace Extraction.Number

/-- A rounded quotient is half a step away at most. -/
theorem divRound_near (n : Nat) {d : Nat} (hd : 0 < d) :
    2 * (divRound n d * d) ≤ 2 * n + d ∧ 2 * n ≤ 2 * (divRound n d * d) + d := by
  have hdivmod : n / d * d + n % d = n := Nat.div_add_mod' n d
  have hmod : n % d < d := Nat.mod_lt n hd
  have hnext : (n / d + 1) * d = n / d * d + d := by rw [Nat.add_mul, Nat.one_mul]
  unfold divRound
  dsimp only
  split_ifs <;> omega

theorem le_divRound {n d k : Nat} (hd : 0 < d) (h : k * d ≤ n) : k ≤ divRound n d :=
  ((Nat.le_div_iff_mul_le hd).2 h).trans (div_le_divRound n d)

theorem divRound_le {n d k : Nat} (hd : 0 < d) (h : n ≤ k * d) : divRound n d ≤ k := by
  have hnear := (divRound_near n hd).1
  by_contra hmore
  have hstep : (k + 1) * d ≤ divRound n d * d := Nat.mul_le_mul_right d (not_le.1 hmore)
  rw [Nat.add_mul, Nat.one_mul] at hstep
  omega

namespace Magnitude

variable {num den : Nat} {m : Magnitude}

theorem units_of_mk? {significand shift : Nat} (h : mk? significand shift = some m) :
    m.units = significand * 2 ^ shift := by
  unfold mk? at h
  split at h
  · cases h
    rfl
  · cases h

/-- The last binary digits of a ratio that are rounded off. -/
def roundedOff (num den : Nat) : Nat :=
  (num * unitsPerOne / den).log2 - 52

theorem units_of_round (h : round num den = some m) :
    m.units = divRound (num * unitsPerOne) (den * 2 ^ roundedOff num den) *
      2 ^ roundedOff num den := by
  unfold round at h
  simp only [twoPow_eq, ← roundedOff.eq_1] at h
  split at h
  · rename_i hcarry
    rw [units_of_mk? h, hcarry]
    ring
  · exact units_of_mk? h

theorem roundedOff_le (hden : 0 < den) {s : Nat} (h : num * unitsPerOne < 2 ^ (53 + s) * den) :
    roundedOff num den ≤ s := by
  have hquot : num * unitsPerOne / den < 2 ^ (53 + s) := (Nat.div_lt_iff_lt_mul hden).2 h
  unfold roundedOff
  by_cases hzero : num * unitsPerOne / den = 0
  · rw [hzero]
    exact Nat.zero_le s
  · have hlog := (Nat.log2_lt hzero).2 hquot
    omega

/-- The nearest double is half a step away at most. -/
theorem round_near (hden : 0 < den) (h : round num den = some m) {s : Nat}
    (hs : num * unitsPerOne < 2 ^ (53 + s) * den) :
    2 * (m.units * den) ≤ 2 * (num * unitsPerOne) + 2 ^ s * den ∧
      2 * (num * unitsPerOne) ≤ 2 * (m.units * den) + 2 ^ s * den := by
  have hstep : den * 2 ^ roundedOff num den ≤ 2 ^ s * den := by
    rw [Nat.mul_comm]
    exact Nat.mul_le_mul_right den (Nat.pow_le_pow_right (by decide) (roundedOff_le hden hs))
  have hnear := divRound_near (num * unitsPerOne)
    (Nat.mul_pos hden (Nat.two_pow_pos (roundedOff num den)))
  rw [units_of_round h, Nat.mul_assoc, Nat.mul_comm (2 ^ _) den]
  omega

theorem unitsPerOne_pos : 0 < unitsPerOne :=
  twoPow_pos 1074

/-- How many units make one matters little, as long as it is a large power of two. -/
theorem exists_unitsPerOne : ∃ e, 53 ≤ e ∧ unitsPerOne = 2 ^ e :=
  ⟨1074, by decide, twoPow_eq 1074⟩

/-- A ratio is not rounded below a whole number that it reaches. -/
theorem whole_le_units (hden : 0 < den) (h : round num den = some m) {k : Nat} (hk : k < 2 ^ 53)
    (hle : k * den ≤ num) : k * unitsPerOne ≤ m.units := by
  obtain ⟨e, -, he⟩ := exists_unitsPerOne
  have hpos := Nat.mul_pos hden (Nat.two_pow_pos (roundedOff num den))
  rw [units_of_round h]
  rcases Nat.lt_or_ge e (roundedOff num den) with hs | hs
  · -- beyond the whole numbers in question
    have hlarge := le_divRound hpos (shift_le _ hden (Nat.ne_of_gt (Nat.zero_lt_of_lt hs)))
    calc k * unitsPerOne ≤ 2 ^ 53 * 2 ^ e := he ▸ Nat.mul_le_mul_right _ hk.le
      _ = 2 ^ 52 * 2 ^ (e + 1) := by ring
      _ ≤ 2 ^ 52 * 2 ^ roundedOff num den :=
        Nat.mul_le_mul_left _ (Nat.pow_le_pow_right (by decide) hs)
      _ ≤ _ := Nat.mul_le_mul_right _ hlarge
  · have hsplit : unitsPerOne = 2 ^ (e - roundedOff num den) * 2 ^ roundedOff num den := by
      rw [he, ← Nat.pow_add, Nat.sub_add_cancel hs]
    have hscaled : k * 2 ^ (e - roundedOff num den) * (den * 2 ^ roundedOff num den) ≤
        num * unitsPerOne := by
      calc k * 2 ^ (e - roundedOff num den) * (den * 2 ^ roundedOff num den)
          = k * den * unitsPerOne := by rw [hsplit]; ring
        _ ≤ num * unitsPerOne := Nat.mul_le_mul_right _ hle
    calc k * unitsPerOne
        = k * 2 ^ (e - roundedOff num den) * 2 ^ roundedOff num den := by
          rw [Nat.mul_assoc, ← hsplit]
      _ ≤ _ := Nat.mul_le_mul_right _ (le_divRound hpos hscaled)

/-- A ratio is not rounded above a whole number that it does not exceed. -/
theorem units_le_whole (hden : 0 < den) (h : round num den = some m) {k : Nat} (hk : k < 2 ^ 53)
    (hle : num ≤ k * den) : m.units ≤ k * unitsPerOne := by
  obtain ⟨e, -, he⟩ := exists_unitsPerOne
  have hs : roundedOff num den ≤ e := by
    refine roundedOff_le hden ?_
    calc num * unitsPerOne ≤ k * den * unitsPerOne := Nat.mul_le_mul_right _ hle
      _ = k * (2 ^ e * den) := by rw [he]; ring
      _ < 2 ^ 53 * (2 ^ e * den) :=
        Nat.mul_lt_mul_of_pos_right hk (Nat.mul_pos (Nat.two_pow_pos e) hden)
      _ = 2 ^ (53 + e) * den := by rw [Nat.pow_add, Nat.mul_assoc]
  have hsplit : unitsPerOne = 2 ^ (e - roundedOff num den) * 2 ^ roundedOff num den := by
    rw [he, ← Nat.pow_add, Nat.sub_add_cancel hs]
  have hscaled : num * unitsPerOne ≤
      k * 2 ^ (e - roundedOff num den) * (den * 2 ^ roundedOff num den) := by
    calc num * unitsPerOne ≤ k * den * unitsPerOne := Nat.mul_le_mul_right _ hle
      _ = _ := by rw [hsplit]; ring
  calc m.units ≤ k * 2 ^ (e - roundedOff num den) * 2 ^ roundedOff num den := by
        rw [units_of_round h]
        exact Nat.mul_le_mul_right _ (divRound_le (Nat.mul_pos hden (Nat.two_pow_pos _)) hscaled)
    _ = k * unitsPerOne := by rw [Nat.mul_assoc, ← hsplit]

end Magnitude

namespace Binary64

variable {num den : Nat}

theorem ofRatio_of_some (negative : Bool) {m : Magnitude} (h : Magnitude.round num den = some m) :
    ofRatio negative num den = .finite negative m := by
  rw [ofRatio, h, Option.elim_some]

theorem ofRatio_of_none (negative : Bool) (h : Magnitude.round num den = none) :
    ofRatio negative num den = .infinite negative := by
  rw [ofRatio, h, Option.elim_none]

end Binary64

end Extraction.Number
