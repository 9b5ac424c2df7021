import Extraction.Proofs.NumberRoundTrip
import Mathlib.Data.List.DropRight

/-!
The text of a double. Whatever its style, it is a numeral with a fraction or an exponent, so it is
read to its end as a double.
-/

namespace Extraction.Number

open Json (IsWhole Numeral AllDigits Exponent)

/-! ### The shortest digits -/

namespace RoundingInterval

variable {i : RoundingInterval} {d : Nat} {k : Int}

/-- An interval of positive numbers. -/
structure Positive (i : RoundingInterval) : Prop where
  low : 0 < i.low
  value : 0 < i.value
  denominator : 0 < i.denominator

theorem pos_of_contains (h : i.Positive) (hd : i.contains d k = true) : 0 < d := by
  refine Nat.pos_of_ne_zero ?_
  rintro rfl
  have hscale : 0 < (i.scaled 0 k).2 := by
    unfold scaled
    split
    · exact Binary64.tenPow_pos _
    · exact Nat.one_pos
  have hzero : (i.scaled 0 k).1 = 0 := by
    unfold scaled
    split <;> simp
  have hlow : 0 < i.low * (i.scaled 0 k).2 := Nat.mul_pos h.low hscale
  simp only [contains, hzero] at hd
  split at hd <;> simp only [Bool.and_eq_true, decide_eq_true_eq] at hd <;> omega

theorem pos_of_onGrid (h : i.Positive) {x : Decimal} (hx : i.onGrid k = some x) :
    0 < x.significand := by
  unfold onGrid at hx
  dsimp only at hx
  split at hx
  · rename_i hfloor _
    cases hx
    have hpos := pos_of_contains h hfloor
    dsimp only [nearer]
    split_ifs <;> omega
  · rename_i hfloor _
    cases hx
    exact pos_of_contains h hfloor
  · cases hx
    exact Nat.succ_pos _
  · cases hx

/-- On the grid of its first digit and on every finer grid a number has a neighbour below. -/
theorem gridFloor_pos (h : i.Positive) (hk : k ≤ i.leading) : 0 < i.gridFloor k := by
  unfold leading at hk
  unfold gridFloor
  split at hk
  · rename_i hlarge
    have hq : 0 < i.value / i.denominator := Nat.div_pos hlarge h.denominator
    split
    · refine Nat.div_pos ?_ h.denominator
      exact Nat.le_trans hlarge (Nat.le_mul_of_pos_right _ (Binary64.tenPow_pos _))
    · have hexponent : k.natAbs ≤ digitCount (i.value / i.denominator) - 1 := by omega
      have hpower : tenPow k.natAbs ≤ i.value / i.denominator :=
        Nat.le_trans (Nat.pow_le_pow_right (by decide) hexponent)
          (Binary64.digits_bounds (Nat.ne_of_gt hq)).1
      refine Nat.div_pos ?_ (Nat.mul_pos h.denominator (Binary64.tenPow_pos _))
      exact Nat.le_trans (Nat.mul_le_mul_left _ hpower) (Nat.mul_div_le _ _)
  · rename_i hsmall
    have hq : 0 < (i.denominator - 1) / i.value := Nat.div_pos (by omega) h.value
    have hbounds := (Binary64.digits_bounds (Nat.ne_of_gt hq)).2
    have hcount : 0 < digitCount ((i.denominator - 1) / i.value) :=
      List.length_pos_iff.2 (digits_ne_nil _)
    rw [if_pos (by omega)]
    have hpower : (i.denominator - 1) / i.value < tenPow k.natAbs :=
      Nat.lt_of_lt_of_le hbounds (Nat.pow_le_pow_right (by decide) (by omega))
    rw [Nat.div_lt_iff_lt_mul h.value, Nat.mul_comm] at hpower
    exact Nat.div_pos (by omega) h.denominator

theorem pos_of_search (h : i.Positive) (count : Nat) (hk : k ≤ i.leading) :
    0 < (i.search count k).significand := by
  induction count generalizing k with
  | zero => exact gridFloor_pos h hk
  | succ count ih =>
    rw [search]
    cases hx : i.onGrid k with
    | none => exact ih (by omega)
    | some x => exact pos_of_onGrid h hx

end RoundingInterval

namespace Magnitude

variable {x : Magnitude}

theorem interval_positive (hx : x.significand ≠ 0) : x.interval.Positive := by
  have hulp := twoPow_pos x.shift
  have hunits : twoPow x.shift ≤ x.units :=
    Nat.le_mul_of_pos_left _ (Nat.pos_of_ne_zero hx)
  have hone : 0 < unitsPerOne := twoPow_pos _
  refine ⟨?_, ?_, ?_⟩
  · simp only [interval]
    split <;> omega
  · simp only [interval]
    omega
  · simp only [interval]
    omega

/-- The digits of a double start with none that is zero. -/
theorem shortest_pos (hx : x.significand ≠ 0) : 0 < x.shortest.significand := by
  rw [shortest, if_neg hx]
  exact RoundingInterval.pos_of_search (interval_positive hx) 17 (Int.le_refl _)

end Magnitude

/-! ### Layouts of digits -/

/-- Digits that start with none that is zero. -/
structure Leading (ds : List Char) : Prop where
  allDigits : AllDigits ds
  head : ∃ c rest, ds = c :: rest ∧ c ≠ '0'

theorem leading_digits {n : Nat} (hn : 0 < n) : Leading (digits n) := by
  obtain ⟨c, ds, hcons⟩ := List.exists_cons_of_ne_nil (digits_ne_nil n)
  refine ⟨fun _ => isDigit_of_mem_digits, c, ds, hcons, ?_⟩
  rintro rfl
  exact head_digits_ne_zero hn (by rw [hcons]; rfl)

theorem Leading.dropTrailingZeros {ds : List Char} (h : Leading ds) :
    Leading (dropTrailingZeros ds) := by
  obtain ⟨hdigits, c, rest, rfl, hc⟩ := h
  have hfront : Number.dropTrailingZeros (c :: rest) <+: c :: rest := List.rdropWhile_prefix _ _
  have hne : Number.dropTrailingZeros (c :: rest) ≠ [] := by
    intro hnil
    have hzeros := List.rdropWhile_eq_nil_iff.1 hnil c List.mem_cons_self
    exact hc (by simpa using hzeros)
  obtain ⟨d, more, hcons⟩ := List.exists_cons_of_ne_nil hne
  refine ⟨fun d hd => hdigits d (hfront.subset hd), d, more, hcons, ?_⟩
  obtain ⟨rfl, -⟩ := List.cons_prefix_cons.1 (hcons ▸ hfront)
  exact hc

theorem allDigits_zeros (k : Nat) : AllDigits (List.replicate k '0') := by
  intro d hd
  rw [List.eq_of_mem_replicate hd]
  decide

theorem exists_numeral_positional {ds : List Char} (h : Leading ds) (negative : Bool)
    (first : Int) :
    ∃ n : Numeral, n.IsDouble ∧ n.negative = negative ∧ n.body = positional ds first := by
  obtain ⟨hdigits, c, rest, rfl, hc⟩ := h
  unfold positional
  split
  · have hzeros : AllDigits ('0' :: (List.replicate (first.natAbs - 1) '0' ++ c :: rest)) := by
      rw [AllDigits, List.forall_mem_cons, List.forall_mem_append]
      exact ⟨by decide, allDigits_zeros _, hdigits⟩
    refine ⟨⟨negative, ['0'], _, none, hzeros⟩, ⟨.inl rfl, ?_, ?_⟩, rfl, ?_⟩
    · rintro _ ⟨⟩
    · intro hnil
      simp at hnil
    · simp [Numeral.body, Numeral.fractionChars]
  · dsimp only
    generalize hwhole : (c :: rest).take (first.natAbs + 1) ++
      List.replicate (first.natAbs + 1 - ((c :: rest).take (first.natAbs + 1)).length) '0' = whole
    generalize hfraction : (if ((c :: rest).drop (first.natAbs + 1)).isEmpty then ['0']
      else (c :: rest).drop (first.natAbs + 1)) = fraction
    have hwholeDigits : AllDigits whole := by
      rw [← hwhole, AllDigits, List.forall_mem_append]
      exact ⟨fun d hd => hdigits d (List.mem_of_mem_take hd), allDigits_zeros _⟩
    have hfractionDigits : AllDigits fraction := by
      rw [← hfraction]
      split
      · simp [AllDigits]
      · exact fun d hd => hdigits d (List.mem_of_mem_drop hd)
    have hfractionCons : fraction.isEmpty = false := by
      rw [← hfraction]
      split <;> simp_all
    have hwholeHead : IsWhole whole := by
      rw [← hwhole, List.take_succ_cons]
      exact .inr ⟨c, _, rfl, hc⟩
    refine ⟨⟨negative, whole, fraction, none, List.forall_mem_append.2
      ⟨hwholeDigits, hfractionDigits⟩⟩, ⟨hwholeHead, ?_, ?_⟩, rfl, ?_⟩
    · rintro _ ⟨⟩
    · rintro rfl
      cases hfractionCons
    · simp [Numeral.body, Numeral.fractionChars, hfractionCons]

theorem exists_numeral_scientific (style : FloatStyle) {ds : List Char} (h : Leading ds)
    (negative : Bool) (first : Int) :
    ∃ n : Numeral, n.IsDouble ∧ n.negative = negative ∧ n.body = scientific style ds first := by
  obtain ⟨hdigits, c, rest, rfl, hc⟩ := h
  let exponent : Exponent := ⟨false, some (decide (first < 0)),
    padded style.exponentWidth first.natAbs, fun _ => isDigit_of_mem_padded⟩
  refine ⟨⟨negative, [c], rest, some exponent, hdigits⟩,
    ⟨.inr ⟨c, [], rfl, hc⟩, ?_, nofun⟩, rfl, ?_⟩
  · rintro _ ⟨⟩ hnil
    exact digits_ne_nil _ (List.append_eq_nil_iff.1 hnil).2
  · by_cases hfirst : first < 0 <;> cases rest <;>
      simp [Numeral.body, Numeral.fractionChars, Exponent.chars, Exponent.signChars, exponent,
        scientific, pointAfterFirst, hfirst]

theorem exists_numeral_chars (style : FloatStyle) (negative : Bool) (x : Magnitude) :
    ∃ n : Numeral, n.IsDouble ∧ n.negative = negative ∧ n.body = x.chars style := by
  unfold Magnitude.chars
  split
  · exact ⟨⟨negative, ['0'], ['0'], none, by simp [AllDigits]⟩, ⟨.inl rfl, nofun, nofun⟩, rfl, rfl⟩
  · rename_i hx
    have hleading := (leading_digits (Magnitude.shortest_pos hx)).dropTrailingZeros
    dsimp only
    split
    · exact exists_numeral_positional hleading negative _
    · exact exists_numeral_scientific style hleading negative _

/-- The text of a finite double is a numeral with a fraction or an exponent. -/
theorem exists_numeral (style : FloatStyle) {x : Binary64} (hx : x.isFinite = true) :
    ∃ n : Numeral, n.IsDouble ∧ (x.text style).toList = n.chars := by
  cases x with
  | finite negative m =>
    obtain ⟨n, hdouble, rfl, hbody⟩ := exists_numeral_chars style negative m
    exact ⟨n, hdouble, by rw [Binary64.text, String.toList_ofList, Numeral.chars, hbody]⟩
  | infinite | nan => cases hx

end Extraction.Number
