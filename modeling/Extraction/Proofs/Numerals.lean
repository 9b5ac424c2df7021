import Extraction.Json.Numeral
import Extraction.Proofs.DecimalText

/-!
Numerals: decimal numbers as JSON texts write them. The double that is read from a text is the one
nearest to the numeral that stands there.
-/

namespace Extraction.Json

open Number

/-- Characters that are all digits. -/
def AllDigits (ds : List Char) : Prop :=
  ∀ d ∈ ds, d.isDigit = true

theorem allDigits_takeWhile (cs : List Char) : AllDigits (cs.takeWhile Char.isDigit) := by
  intro d hd
  exact List.all_eq_true.1 List.all_takeWhile d hd

/-- An exponent as it is written. -/
structure Exponent where
  upperCase : Bool
  /-- The sign, if one is written; a minus is true. -/
  sign : Option Bool
  digits : List Char
  allDigits : AllDigits digits

namespace Exponent

def signChars : Option Bool → List Char
  | none => []
  | some true => ['-']
  | some false => ['+']

def chars (e : Exponent) : List Char :=
  (if e.upperCase then 'E' else 'e') :: signChars e.sign ++ e.digits

def value (e : Exponent) : Int :=
  if e.sign = some true then -(ofDigits e.digits : Int) else ofDigits e.digits

end Exponent

/-- A number as it is written. -/
structure Numeral where
  negative : Bool
  whole : List Char
  fraction : List Char
  exponent : Option Exponent
  allDigits : AllDigits (whole ++ fraction)

namespace Numeral

/-- The point and what follows it; without digits there is no point. -/
def fractionChars (fraction : List Char) : List Char :=
  if fraction.isEmpty then [] else '.' :: fraction

/-- The number without its sign. -/
def body (n : Numeral) : List Char :=
  n.whole ++ fractionChars n.fraction ++ (n.exponent.map Exponent.chars).getD []

def chars (n : Numeral) : List Char :=
  if n.negative then '-' :: n.body else n.body

/-- All digits as one whole number. -/
def digits (n : Numeral) : Nat :=
  ofDigits (n.whole ++ n.fraction)

/-- The power of ten that the last digit counts. -/
def power (n : Numeral) : Int :=
  (n.exponent.map Exponent.value).getD 0 - n.fraction.length

/-- The double that is read. -/
def double (n : Numeral) : Binary64 :=
  .ofDecimal n.negative n.digits n.power

end Numeral

/-! ### Reading -/

variable {cs rest : List Char}

theorem readWhole_append {whole : List Char} (h : readWhole cs = some (whole, rest)) :
    AllDigits whole ∧ cs = whole ++ rest := by
  unfold readWhole at h
  split at h
  · cases h
    exact ⟨by simp [AllDigits], rfl⟩
  · rename_i c behind _
    split at h
    · rename_i hdigit
      cases h
      refine ⟨List.forall_mem_cons.2 ⟨hdigit, allDigits_takeWhile behind⟩, ?_⟩
      rw [List.cons_append, List.takeWhile_append_dropWhile]
    · cases h
  · cases h

theorem readFraction_append (cs : List Char) :
    AllDigits (readFraction cs).1 ∧
      cs = Numeral.fractionChars (readFraction cs).1 ++ (readFraction cs).2 := by
  unfold readFraction
  split
  · rename_i behind
    dsimp only
    split
    · exact ⟨nofun, rfl⟩
    · rename_i hdigits
      refine ⟨allDigits_takeWhile behind, ?_⟩
      simp only [Numeral.fractionChars, hdigits, Bool.false_eq_true, if_false]
      rw [List.cons_append, List.takeWhile_append_dropWhile]
  · exact ⟨nofun, rfl⟩

/-- What is read behind the mark and the sign of an exponent. -/
theorem exponentDigits_append {mark : Char} (hmark : (mark == 'e' || mark == 'E') = true)
    {sign : Option Bool} {negative : Bool} (hsign : negative = decide (sign = some true))
    (body : List Char) :
    let text := mark :: (Exponent.signChars sign ++ body)
    let ds := body.takeWhile Char.isDigit
    let found : Option Int × List Char := if ds.isEmpty then (none, text) else
      (some (if negative then -(ofDigits ds : Int) else ofDigits ds), body.dropWhile Char.isDigit)
    ∃ e : Option Exponent, found.1 = e.map Exponent.value ∧
      text = (e.map Exponent.chars).getD [] ++ found.2 := by
  intro text ds found
  by_cases hds : ds.isEmpty
  · exact ⟨none, by simp [found, hds], by simp [found, hds]⟩
  · have hcase : (if (mark == 'E') = true then 'E' else 'e') = mark := by
      rw [Bool.or_eq_true] at hmark
      rcases hmark with h | h <;> simp_all
    refine ⟨some ⟨mark == 'E', sign, ds, allDigits_takeWhile body⟩,
      by simp [found, hds, hsign, Exponent.value], ?_⟩
    simp only [Option.map_some, Option.getD_some, Exponent.chars, hcase]
    simp [text, found, hds, ds]

theorem readExponent_append (cs : List Char) :
    ∃ e : Option Exponent, (readExponent cs).1 = e.map Exponent.value ∧
      cs = (e.map Exponent.chars).getD [] ++ (readExponent cs).2 := by
  unfold readExponent
  split
  · exact ⟨none, rfl, rfl⟩
  · split
    · rename_i hmark
      dsimp only
      split
      · exact exponentDigits_append hmark (by decide : true = decide (some true = some true)) _
      · exact exponentDigits_append hmark (by decide : false = decide (some false = some true)) _
      · exact exponentDigits_append hmark (by decide : false = decide (none = some true)) _
    · exact ⟨none, rfl, rfl⟩

/-- A number is read as an integer that is short enough to be written, or as the double nearest to
its numeral. -/
theorem readMagnitude_cases {start : List Char} {negative : Bool} {v : Value}
    (h : readMagnitude start negative cs = .ok (v, rest)) :
    rest <:+ cs ∧ ((∃ k : Int, digitCount k.natAbs ≤ digitLimit ∧ v = .int k) ∨
      ∃ n : Numeral, n.negative = negative ∧ cs = n.body ++ rest ∧ v = .float n.double) := by
  unfold readMagnitude at h
  split at h
  · cases h
  · rename_i whole behind hread
    obtain ⟨hwhole, hbehind⟩ := readWhole_append hread
    obtain ⟨hdigits, hfraction⟩ := readFraction_append behind
    obtain ⟨e, hvalue, hexponent⟩ := readExponent_append (readFraction behind).2
    have hall : AllDigits (whole ++ (readFraction behind).1) :=
      List.forall_mem_append.2 ⟨hwhole, hdigits⟩
    have hcs : cs = (Numeral.mk negative whole (readFraction behind).1 e hall).body ++
        (readExponent (readFraction behind).2).2 := by
      rw [Numeral.body, List.append_assoc, ← hexponent, List.append_assoc, ← hfraction]
      exact hbehind
    dsimp only at h
    split at h
    · split at h
      · cases h
      · rename_i hlength
        cases h
        refine ⟨⟨_, hcs.symm⟩, .inl ⟨_, ?_, rfl⟩⟩
        have habs : (if negative then -(ofDigits whole : Int) else ofDigits whole).natAbs =
            ofDigits whole := by
          cases negative <;> simp
        rw [habs]
        exact digitCount_ofDigits_le hwhole (by decide) (Nat.le_of_not_lt hlength)
    · cases h
      exact ⟨⟨_, hcs.symm⟩, .inr ⟨_, rfl, hcs, by rw [hvalue]; rfl⟩⟩

theorem readNumber_cases {v : Value} (h : readNumber cs = .ok (v, rest)) :
    rest <:+ cs ∧ ((∃ k : Int, digitCount k.natAbs ≤ digitLimit ∧ v = .int k) ∨
      ∃ n : Numeral, cs = n.chars ++ rest ∧ v = .float n.double) := by
  unfold readNumber at h
  split at h
  · obtain ⟨hrest, hint | ⟨n, hnegative, hbody, hv⟩⟩ := readMagnitude_cases h
    · exact ⟨hrest.trans (List.suffix_cons _ _), .inl hint⟩
    · refine ⟨hrest.trans (List.suffix_cons _ _), .inr ⟨n, ?_, hv⟩⟩
      simp [Numeral.chars, hnegative, hbody]
  · obtain ⟨hrest, hint | ⟨n, hnegative, hbody, hv⟩⟩ := readMagnitude_cases h
    · exact ⟨hrest, .inl hint⟩
    · exact ⟨hrest, .inr ⟨n, by simp [Numeral.chars, hnegative, hbody], hv⟩⟩

end Extraction.Json
