import Extraction.Proofs.DecimalText
import Extraction.Proofs.DoubleRange
import Extraction.Proofs.Numerals

/-!
Numbers read back. The text of an integer is read as that integer, and the text of a finite double
is a numeral, which is read to its end as a double.
-/

namespace Extraction.Json

open Number

/-! ### Ends of numbers -/

/-- A text with which a row of digits before it ends. -/
def EndsDigits (rest : List Char) : Prop :=
  ∀ c ∈ rest.head?, c.isDigit = false

/-- A text with which a number before it ends. -/
def EndsNumber (rest : List Char) : Prop :=
  ∀ c ∈ rest.head?, c.isDigit = false ∧ c ≠ '.' ∧ c ≠ 'e' ∧ c ≠ 'E'

theorem EndsNumber.endsDigits {rest : List Char} (h : EndsNumber rest) : EndsDigits rest :=
  fun c hc => (h c hc).1

theorem endsNumber_cons {c : Char} (h : c.isDigit = false ∧ c ≠ '.' ∧ c ≠ 'e' ∧ c ≠ 'E')
    (rest : List Char) : EndsNumber (c :: rest) := by
  intro d hd
  obtain rfl : c = d := by simpa using hd
  exact h

theorem endsDigits_cons {c : Char} (h : c.isDigit = false) (rest : List Char) :
    EndsDigits (c :: rest) := by
  intro d hd
  obtain rfl : c = d := by simpa using hd
  exact h

theorem takeWhile_digits {ds rest : List Char} (hds : AllDigits ds) (hrest : EndsDigits rest) :
    (ds ++ rest).takeWhile Char.isDigit = ds := by
  rw [List.takeWhile_append_of_pos hds]
  cases rest with
  | nil => simp
  | cons c rest => simp [hrest c rfl]

theorem dropWhile_digits {ds rest : List Char} (hds : AllDigits ds) (hrest : EndsDigits rest) :
    (ds ++ rest).dropWhile Char.isDigit = rest := by
  rw [List.dropWhile_append_of_pos hds]
  cases rest with
  | nil => simp
  | cons c rest => simp [hrest c rfl]

/-! ### Parts of numbers -/

/-- Digits that stand before a point: a zero alone, or some without a zero at their start. -/
def IsWhole (ds : List Char) : Prop :=
  ds = ['0'] ∨ ∃ c rest, ds = c :: rest ∧ c ≠ '0'

theorem isWhole_digits (n : Nat) : IsWhole (digits n) := by
  rcases Nat.eq_zero_or_pos n with rfl | hn
  · exact .inl rfl
  · obtain ⟨c, ds, hcons⟩ := List.exists_cons_of_ne_nil (digits_ne_nil n)
    refine .inr ⟨c, ds, hcons, fun h => head_digits_ne_zero hn ?_⟩
    rw [hcons, h]
    rfl

theorem readWhole_append_digits {whole rest : List Char} (h : IsWhole whole)
    (hdigits : AllDigits whole) (hrest : EndsDigits rest) :
    readWhole (whole ++ rest) = some (whole, rest) := by
  obtain rfl | ⟨c, ds, rfl, hc⟩ := h
  · rfl
  · rw [AllDigits, List.forall_mem_cons] at hdigits
    rw [List.cons_append, readWhole, if_pos hdigits.1, takeWhile_digits hdigits.2 hrest,
      dropWhile_digits hdigits.2 hrest]
    exact hc

theorem readFraction_of_end {rest : List Char} (h : ∀ c ∈ rest.head?, c ≠ '.') :
    readFraction rest = ([], rest) := by
  unfold readFraction
  split
  · exact absurd rfl (h '.' rfl)
  · rfl

theorem readFraction_fractionChars {fraction rest : List Char} (hdigits : AllDigits fraction)
    (hrest : EndsDigits rest) (hpoint : ∀ c ∈ rest.head?, c ≠ '.') :
    readFraction (Numeral.fractionChars fraction ++ rest) = (fraction, rest) := by
  cases fraction with
  | nil => exact readFraction_of_end hpoint
  | cons d ds =>
    simp only [Numeral.fractionChars, List.isEmpty_cons, Bool.false_eq_true, if_false,
      List.cons_append, readFraction]
    rw [← List.cons_append, takeWhile_digits hdigits hrest, dropWhile_digits hdigits hrest]
    rfl

theorem readExponent_of_end {rest : List Char} (h : EndsNumber rest) :
    readExponent rest = (none, rest) := by
  cases rest with
  | nil => rfl
  | cons c rest =>
    obtain ⟨-, -, he, hE⟩ := h c rfl
    simp [readExponent, he, hE]

/-- An exponent without a sign. -/
theorem readExponent_unsigned {mark : Char} (hmark : (mark == 'e' || mark == 'E') = true)
    {d : Char} (hd : d.isDigit = true) (body : List Char) :
    readExponent (mark :: d :: body) =
      (some (ofDigits (d :: body.takeWhile Char.isDigit) : Int), body.dropWhile Char.isDigit) := by
  have htake : (d :: body).takeWhile Char.isDigit = d :: body.takeWhile Char.isDigit :=
    List.takeWhile_cons_of_pos hd
  have hdrop : (d :: body).dropWhile Char.isDigit = body.dropWhile Char.isDigit :=
    List.dropWhile_cons_of_pos hd
  generalize hcs : d :: body = cs at htake hdrop
  simp only [readExponent, hmark, if_true]
  split
  · cases hcs
    exact absurd hd (by decide)
  · cases hcs
    exact absurd hd (by decide)
  · simp only [htake, hdrop]
    rfl

theorem readExponent_chars {e : Exponent} (he : e.digits ≠ []) {rest : List Char}
    (hrest : EndsDigits rest) : readExponent (e.chars ++ rest) = (some e.value, rest) := by
  obtain ⟨upperCase, sign, ds, hdigits⟩ := e
  obtain ⟨d, ds, rfl⟩ := List.exists_cons_of_ne_nil he
  have hmark : ((if upperCase then 'E' else 'e') == 'e' ||
      (if upperCase then 'E' else 'e') == 'E') = true := by
    cases upperCase <;> rfl
  have htake := takeWhile_digits hdigits hrest
  have hdrop := dropWhile_digits hdigits hrest
  match sign with
  | some true | some false =>
    simp only [Exponent.chars, Exponent.signChars, List.cons_append, List.nil_append, readExponent,
      hmark, if_true] at htake hdrop ⊢
    simp only [htake, hdrop]
    rfl
  | none =>
    have hrow := List.forall_mem_cons.1 hdigits
    simp only [Exponent.chars, Exponent.signChars, List.cons_append, List.nil_append,
      readExponent_unsigned hmark hrow.1, takeWhile_digits hrow.2 hrest,
      dropWhile_digits hrow.2 hrest]
    rfl

/-! ### Integers -/

theorem readMagnitude_digits {n : Nat} (hn : digitCount n ≤ digitLimit) (start : List Char)
    (negative : Bool) {rest : List Char} (hrest : EndsNumber rest) :
    readMagnitude start negative (digits n ++ rest) =
      .ok (.int (if negative then -(n : Int) else n), rest) := by
  have hwhole : readWhole (digits n ++ rest) = some (digits n, rest) :=
    readWhole_append_digits (isWhole_digits n) (fun _ => isDigit_of_mem_digits) hrest.endsDigits
  have hfraction : readFraction rest = ([], rest) :=
    readFraction_of_end fun c hc => (hrest c hc).2.1
  simp only [readMagnitude, hwhole, hfraction, readExponent_of_end hrest, ofDigits_digits,
    List.isEmpty_nil, Option.isNone_none, Bool.and_self, if_true]
  exact if_neg (Nat.not_lt.2 hn)

/-- A number that starts with a digit has no sign. -/
theorem readNumber_unsigned {c : Char} (hc : c.isDigit = true) (cs : List Char) :
    readNumber (c :: cs) = readMagnitude (c :: cs) false (c :: cs) := by
  rw [readNumber]
  rintro _ heq
  obtain ⟨rfl, -⟩ := List.cons.inj heq
  exact absurd hc (by decide)

theorem readNumber_intChars {n : Int} (hn : digitCount n.natAbs ≤ digitLimit) {rest : List Char}
    (hrest : EndsNumber rest) : readNumber (intChars n ++ rest) = .ok (.int n, rest) := by
  unfold intChars
  by_cases hneg : n < 0
  · have habs : -(n.natAbs : Int) = n := by omega
    rw [if_pos hneg, List.cons_append, readNumber, readMagnitude_digits hn _ _ hrest, if_pos rfl,
      habs]
  · have habs : (n.natAbs : Int) = n := by omega
    have h := readMagnitude_digits hn (digits n.natAbs ++ rest) false hrest
    obtain ⟨c, ds, hcons⟩ := List.exists_cons_of_ne_nil (digits_ne_nil n.natAbs)
    have hc : c.isDigit = true := isDigit_of_mem_digits (n := n.natAbs) (by simp [hcons])
    rw [hcons, List.cons_append] at h
    rw [if_neg hneg, hcons, List.cons_append, readNumber_unsigned hc, h, if_neg Bool.false_ne_true,
      habs]

/-! ### Numerals -/

namespace Numeral

/-- A numeral as JSON has it, with a fraction or an exponent. -/
structure IsDouble (n : Numeral) : Prop where
  whole : IsWhole n.whole
  exponent : ∀ e ∈ n.exponent, e.digits ≠ []
  marked : n.fraction = [] → n.exponent ≠ none

/-- The fraction, the exponent and whatever follows start with no digit. -/
theorem endsDigits_exponent (n : Numeral) {rest : List Char} (hrest : EndsNumber rest) :
    EndsDigits ((n.exponent.map Exponent.chars).getD [] ++ rest) ∧
      ∀ c ∈ ((n.exponent.map Exponent.chars).getD [] ++ rest).head?, c ≠ '.' := by
  cases n.exponent with
  | none => exact ⟨hrest.endsDigits, fun c hc => (hrest c hc).2.1⟩
  | some e =>
    have hmark : (if e.upperCase then 'E' else 'e').isDigit = false ∧
        (if e.upperCase then 'E' else 'e') ≠ '.' := by
      cases e.upperCase <;> decide
    refine ⟨endsDigits_cons hmark.1 _, fun c hc => ?_⟩
    rw [← Option.some.inj hc]
    exact hmark.2

theorem readMagnitude_body {n : Numeral} (h : n.IsDouble) (start : List Char) {rest : List Char}
    (hrest : EndsNumber rest) :
    readMagnitude start n.negative (n.body ++ rest) = .ok (.float n.double, rest) := by
  obtain ⟨hwholeDigits, hfractionDigits⟩ := List.forall_mem_append.1 n.allDigits
  obtain ⟨hends, hpoint⟩ := n.endsDigits_exponent hrest
  generalize hbehind : (n.exponent.map Exponent.chars).getD [] ++ rest = behind at hends hpoint
  have hfractionEnds : EndsDigits (fractionChars n.fraction ++ behind) := by
    cases n.fraction with
    | nil => exact hends
    | cons d ds => exact endsDigits_cons (by decide) _
  have hwhole := readWhole_append_digits h.whole hwholeDigits hfractionEnds
  have hfraction := readFraction_fractionChars hfractionDigits hends hpoint
  have hexponent : readExponent behind = (n.exponent.map Exponent.value, rest) := by
    rw [← hbehind]
    cases hexponent : n.exponent with
    | none => exact readExponent_of_end hrest
    | some e => exact readExponent_chars (h.exponent e hexponent) hrest.endsDigits
  have hmarked : (n.fraction.isEmpty && (n.exponent.map Exponent.value).isNone) = false := by
    cases hnone : n.exponent with
    | some e => exact Bool.and_false _
    | none =>
      have hne : n.fraction ≠ [] := fun hnil => h.marked hnil hnone
      rw [List.isEmpty_eq_false_iff.2 hne]
      rfl
  rw [body, List.append_assoc, List.append_assoc, hbehind]
  simp only [readMagnitude, hwhole, hfraction, hexponent, hmarked, Bool.false_eq_true, if_false]
  rfl

theorem IsDouble.exists_digit {n : Numeral} (h : n.IsDouble) :
    ∃ c ds, n.body = c :: ds ∧ c.isDigit = true := by
  have hdigits := (List.forall_mem_append.1 n.allDigits).1
  obtain ⟨c, ds, hcons⟩ : ∃ c ds, n.whole = c :: ds := by
    obtain hzero | ⟨c, ds, hcons, -⟩ := h.whole
    · exact ⟨'0', [], hzero⟩
    · exact ⟨c, ds, hcons⟩
  refine ⟨c, _, by rw [body, hcons]; rfl, hdigits c ?_⟩
  rw [hcons]
  exact List.mem_cons_self

/-- A numeral with a fraction or an exponent is read to its end as a double. -/
theorem readNumber_chars {n : Numeral} (h : n.IsDouble) {rest : List Char}
    (hrest : EndsNumber rest) : readNumber (n.chars ++ rest) = .ok (.float n.double, rest) := by
  unfold chars
  cases hnegative : n.negative with
  | true =>
    rw [if_pos rfl, List.cons_append, readNumber, ← hnegative, readMagnitude_body h _ hrest]
  | false =>
    have hbody := readMagnitude_body h (n.body ++ rest) hrest
    obtain ⟨c, ds, hcons, hc⟩ := h.exists_digit
    rw [hcons, List.cons_append, hnegative] at hbody
    rw [if_neg Bool.false_ne_true, hcons, List.cons_append, readNumber_unsigned hc, hbody]

end Numeral

end Extraction.Json
