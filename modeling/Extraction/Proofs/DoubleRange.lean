import Extraction.Number.Binary64
import Extraction.Number.Decimal
import Extraction.Proofs.DecimalText
import Mathlib.Algebra.Order.Field.Rat
import Mathlib.Algebra.Order.Field.Power
import Mathlib.Tactic.Positivity
import Mathlib.Tactic.Ring

/-!
The range of doubles. A number is rounded to a finite double exactly if it lies below the number
halfway between the largest double and the power of two behind it.
-/

namespace Extraction.Number

theorem twoPow_eq (n : Nat) : twoPow n = 2 ^ n := rfl

theorem twoPow_pos (n : Nat) : 0 < twoPow n :=
  Nat.two_pow_pos n

/-! ### Quotients that are rounded up -/

theorem div_le_divRound (n d : Nat) : n / d ≤ divRound n d := by
  unfold divRound
  dsimp only
  split_ifs <;> omega

theorem divRound_le_succ (n d : Nat) : divRound n d ≤ n / d + 1 := by
  unfold divRound
  dsimp only
  split_ifs <;> omega

/-- Below an even number a quotient is rounded up to it from half a step on. -/
theorem divRound_eq_succ_iff {n d m : Nat} (hm : m % 2 = 1) (hn : n < (m + 1) * d) :
    divRound n d = m + 1 ↔ (2 * m + 1) * d ≤ 2 * n := by
  have hd : 0 < d := Nat.pos_of_ne_zero (by rintro rfl; simp at hn)
  have hdivmod : n / d * d + n % d = n := Nat.div_add_mod' n d
  have hmod : n % d < d := Nat.mod_lt _ hd
  have hquot : n / d < m + 1 := (Nat.div_lt_iff_lt_mul hd).2 hn
  have hsteps : (2 * m + 1) * d = 2 * (m * d) + d := by rw [Nat.add_mul, Nat.mul_assoc, Nat.one_mul]
  rcases Nat.lt_or_ge (n / d) m with hlow | hhigh
  · -- the quotient ends more than a step below
    have hround := divRound_le_succ n d
    have hstep : (n / d + 1) * d ≤ m * d := Nat.mul_le_mul_right d hlow
    rw [Nat.add_mul] at hstep
    omega
  · have hfloor : n / d = m := by omega
    rw [hfloor] at hdivmod
    have hhalf : (2 * m + 1) * d ≤ 2 * n ↔ d ≤ 2 * (n % d) := by omega
    rw [hhalf]
    unfold divRound
    dsimp only
    rw [hfloor]
    split_ifs <;> omega

/-! ### The magnitude nearest to a ratio -/

namespace Magnitude

theorem mk?_eq_none_iff {significand shift : Nat} (hhigh : significand < twoPow 53)
    (hlow : shift ≠ 0 → twoPow 52 ≤ significand) :
    mk? significand shift = none ↔ 2045 < shift := by
  unfold mk?
  split
  · rename_i h
    simpa using h.2.2
  · rename_i h
    simp only [Canonical, not_and] at h
    have hshift : twoPow 52 ≤ significand ∨ shift = 0 := by
      by_cases hzero : shift = 0
      · exact .inr hzero
      · exact .inl (hlow hzero)
    simpa using h hhigh hshift

/-- Where a quotient between two powers of two, counted in steps of `2 ^ shift`, exceeds a bound. -/
theorem beyond_iff {scaled den shift bound : Nat}
    (hhigh : scaled < 2 ^ 53 * (den * 2 ^ shift))
    (hlow : shift ≠ 0 → 2 ^ 52 * (den * 2 ^ shift) ≤ scaled) :
    (bound + 1 < shift ∨ (shift = bound + 1 ∧ divRound scaled (den * 2 ^ shift) = 2 ^ 53)) ↔
      (2 ^ 54 - 1) * (den * 2 ^ bound) ≤ scaled := by
  rcases Nat.lt_trichotomy shift (bound + 1) with hless | rfl | hmore
  · -- the quotient lies below the power of two at the bound
    have hpow : 2 ^ shift ≤ 2 ^ bound := Nat.pow_le_pow_right (by decide) (Nat.le_of_lt_succ hless)
    have hden : den * 2 ^ shift ≤ den * 2 ^ bound := Nat.mul_le_mul_left den hpow
    omega
  · have hround := divRound_eq_succ_iff (m := 2 ^ 53 - 1) (by decide) hhigh
    have hdouble : den * 2 ^ (bound + 1) = 2 * (den * 2 ^ bound) := by
      rw [Nat.pow_succ, ← Nat.mul_assoc, Nat.mul_comm]
    rw [hdouble] at hround ⊢
    simp only [Nat.lt_irrefl, false_or, true_and]
    refine Iff.trans hround ?_
    omega
  · have hpow : 2 ^ (bound + 2) ≤ 2 ^ shift := Nat.pow_le_pow_right (by decide) hmore
    have hden : den * 2 ^ (bound + 2) ≤ den * 2 ^ shift := Nat.mul_le_mul_left den hpow
    have hfour : den * 2 ^ (bound + 2) = 4 * (den * 2 ^ bound) := by
      rw [Nat.pow_add, ← Nat.mul_assoc, Nat.mul_comm]
    have hscaled := hlow (by omega)
    omega

/-- The number halfway between the largest double and the power of two behind it. From here on
numbers are rounded to infinity. -/
def overflow : Nat :=
  (2 ^ 54 - 1) * 2 ^ 970

theorem overflow_mul_unitsPerOne (den : Nat) :
    overflow * den * unitsPerOne = (2 ^ 54 - 1) * (den * 2 ^ (970 + 1074)) := by
  have hpow : ∀ a b : Nat, (2 ^ 54 - 1) * 2 ^ a * den * twoPow b =
      (2 ^ 54 - 1) * (den * 2 ^ (a + b)) := by
    intro a b
    rw [twoPow_eq, Nat.pow_add]
    ring
  exact hpow 970 1074

/-- A ratio has at most 53 binary digits above its shift. -/
theorem lt_shift (scaled : Nat) {den : Nat} (hden : 0 < den) :
    scaled < 2 ^ 53 * (den * 2 ^ ((scaled / den).log2 - 52)) := by
  have hlog : scaled / den < 2 ^ (53 + ((scaled / den).log2 - 52)) :=
    Nat.lt_log2_self.trans_le (Nat.pow_le_pow_right (by decide) (by omega))
  rw [Nat.div_lt_iff_lt_mul hden, Nat.pow_add, Nat.mul_assoc, Nat.mul_comm _ den] at hlog
  exact hlog

/-- A ratio that is shifted has 53 binary digits above its shift. -/
theorem shift_le (scaled : Nat) {den : Nat} (hden : 0 < den)
    (h : (scaled / den).log2 - 52 ≠ 0) :
    2 ^ 52 * (den * 2 ^ ((scaled / den).log2 - 52)) ≤ scaled := by
  have hquot : scaled / den ≠ 0 := by
    intro hzero
    rw [hzero] at h
    exact h rfl
  have hexact : 52 + ((scaled / den).log2 - 52) = (scaled / den).log2 := by omega
  have hlog : 2 ^ (52 + ((scaled / den).log2 - 52)) ≤ scaled / den := by
    rw [hexact]
    exact Nat.log2_self_le hquot
  rw [Nat.le_div_iff_mul_le hden, Nat.pow_add, Nat.mul_assoc, Nat.mul_comm _ den] at hlog
  exact hlog

/-- A ratio has no nearest double from the overflow on. -/
theorem round_eq_none_iff {num den : Nat} (hden : 0 < den) :
    round num den = none ↔ overflow * den ≤ num := by
  have hpos : 0 < unitsPerOne := twoPow_pos 1074
  rw [← Nat.mul_le_mul_right_iff hpos, overflow_mul_unitsPerOne]
  unfold round
  dsimp only
  generalize num * unitsPerOne = scaled
  have hhigh := lt_shift scaled hden
  have hlow := shift_le scaled hden
  generalize (scaled / den).log2 - 52 = shift at hhigh hlow ⊢
  rw [← beyond_iff hhigh hlow, twoPow_eq]
  have hdenShift : 0 < den * 2 ^ shift := Nat.mul_pos hden (Nat.two_pow_pos shift)
  have hceil : divRound scaled (den * 2 ^ shift) ≤ 2 ^ 53 :=
    (divRound_le_succ _ _).trans (Nat.div_lt_of_lt_mul (Nat.mul_comm _ _ ▸ hhigh))
  have hfloor : shift ≠ 0 → twoPow 52 ≤ divRound scaled (den * 2 ^ shift) := fun hne =>
    ((Nat.le_div_iff_mul_le hdenShift).2 (hlow hne)).trans (div_le_divRound _ _)
  split
  · rename_i hcarry
    rw [mk?_eq_none_iff (by decide) fun _ => Nat.le_refl _]
    have hcarry' : divRound scaled (den * 2 ^ shift) = 2 ^ 53 := hcarry
    simp only [hcarry', and_true]
    omega
  · rename_i hcarry
    have hcarry' : divRound scaled (den * 2 ^ shift) ≠ 2 ^ 53 := hcarry
    rw [mk?_eq_none_iff (lt_of_le_of_ne hceil hcarry') hfloor]
    simp only [hcarry', and_false, or_false]

end Magnitude

namespace Binary64

open Magnitude (overflow)

theorem ofRatio_isFinite {num den : Nat} (negative : Bool) (hden : 0 < den) :
    (ofRatio negative num den).isFinite = true ↔ num < overflow * den := by
  have hround : (ofRatio negative num den).isFinite = (Magnitude.round num den).isSome := by
    rw [ofRatio]
    cases Magnitude.round num den <;> rfl
  rw [hround, Option.isSome_iff_ne_none, Ne, Magnitude.round_eq_none_iff hden, Nat.not_le]

theorem tenPow_pos (n : Nat) : 0 < tenPow n :=
  Nat.pow_pos (by decide)

theorem tenPow_cast (n : Nat) : ((tenPow n : Nat) : ℚ) = 10 ^ n := by
  simp [tenPow]

/-- A number lies between two powers of ten with as many zeros as it has digits. -/
theorem digits_bounds {n : Nat} (hn : n ≠ 0) :
    10 ^ (digitCount n - 1) ≤ n ∧ n < 10 ^ digitCount n := by
  have hpos : 0 < digitCount n := List.length_pos_iff.2 (digits_ne_nil n)
  refine ⟨?_, (digitCount_le_iff hpos).1 (Nat.le_refl _)⟩
  rcases Nat.eq_or_lt_of_le hpos with hone | hmore
  · rw [← hone]
    exact Nat.pos_of_ne_zero hn
  · rw [← Nat.not_lt, ← digitCount_le_iff (by omega)]
    omega

theorem overflow_le_tenPow : overflow ≤ 10 ^ 310 := by
  decide +kernel

/-- The first digit tells between which powers of ten a decimal number lies. -/
theorem zpow_bounds {n : Nat} (hn : n ≠ 0) (exponent : Int) :
    (10 : ℚ) ^ (digitCount n + exponent - 1) ≤ n * 10 ^ exponent ∧
      (n : ℚ) * 10 ^ exponent < 10 ^ (digitCount n + exponent) := by
  obtain ⟨hlow, hhigh⟩ := digits_bounds hn
  have hpos : 0 < digitCount n := List.length_pos_iff.2 (digits_ne_nil n)
  have hten : (0 : ℚ) < 10 ^ exponent := by positivity
  have hlow' : (10 : ℚ) ^ (digitCount n - 1) ≤ n := by exact_mod_cast hlow
  have hhigh' : (n : ℚ) < 10 ^ digitCount n := by exact_mod_cast hhigh
  constructor
  · have hsum : (digitCount n : Int) + exponent - 1 = (digitCount n - 1 : Nat) + exponent := by
      omega
    rw [hsum, zpow_add₀ (by norm_num), zpow_natCast]
    exact mul_le_mul_of_nonneg_right hlow' hten.le
  · rw [zpow_add₀ (by norm_num), zpow_natCast]
    exact mul_lt_mul_of_pos_right hhigh' hten

/-- A decimal number is rounded to a finite double exactly if it lies below the overflow. -/
theorem ofDecimal_isFinite (negative : Bool) (n : Nat) (exponent : Int) :
    (ofDecimal negative n exponent).isFinite = true ↔ (n : ℚ) * 10 ^ exponent < overflow := by
  have hoverflow : (1 : ℚ) ≤ (overflow : Nat) := by
    exact_mod_cast (by decide +kernel : 1 ≤ overflow)
  have hlimit : ((overflow : Nat) : ℚ) ≤ 10 ^ (310 : Int) := by
    exact_mod_cast overflow_le_tenPow
  have hten : (1 : ℚ) ≤ 10 := by norm_num
  unfold ofDecimal
  dsimp only
  split_ifs with hsmall hlarge hnegative
  · -- nearer to zero than to the smallest double
    refine iff_of_true rfl (lt_of_lt_of_le ?_ hoverflow)
    simp only [Bool.or_eq_true, decide_eq_true_eq] at hsmall
    by_cases hzero : n = 0
    · simp [hzero]
    · have hfirst : (digitCount n : Int) + exponent ≤ 0 := by
        have := hsmall.resolve_left hzero
        unfold digitCount digits
        omega
      calc (n : ℚ) * 10 ^ exponent < 10 ^ (digitCount n + exponent) := (zpow_bounds hzero _).2
        _ ≤ 10 ^ (0 : Int) := zpow_le_zpow_right₀ hten hfirst
        _ = 1 := zpow_zero _
  · simp only [Bool.or_eq_true, decide_eq_true_eq, not_or] at hsmall
    refine iff_of_false nofun (not_lt.2 ?_)
    calc ((overflow : Nat) : ℚ) ≤ 10 ^ (310 : Int) := hlimit
      _ ≤ 10 ^ (digitCount n + exponent - 1) := by
        refine zpow_le_zpow_right₀ hten ?_
        unfold digitCount digits
        omega
      _ ≤ n * 10 ^ exponent := (zpow_bounds hsmall.1 _).1
  · have hpos : (0 : ℚ) < 10 ^ exponent.natAbs := by positivity
    have hexponent : exponent = -(exponent.natAbs : Int) := by omega
    rw [ofRatio_isFinite negative (tenPow_pos _), hexponent, zpow_neg, zpow_natCast,
      ← div_eq_mul_inv, div_lt_iff₀ hpos, Int.natAbs_neg, Int.natAbs_natCast, ← tenPow_cast]
    exact_mod_cast Iff.rfl
  · have hexponent : exponent = (exponent.natAbs : Int) := by omega
    rw [ofRatio_isFinite negative Nat.one_pos, hexponent, zpow_natCast, Int.natAbs_natCast,
      ← tenPow_cast, Nat.mul_one]
    exact_mod_cast Iff.rfl

end Binary64

end Extraction.Number
