import Extraction.Calendar.IsoReader
import Extraction.Number.Decimal
import Mathlib.Algebra.Group.Nat.Defs
import Mathlib.Data.List.Induction

/-!
Decimal text reads back: the digits of a number stand for that number, also behind a filling of
zeros, and a reader of digits that meets them returns the number and what follows.
-/

namespace Extraction.Number

theorem isDigit_of_mem_digits {n : Nat} {c : Char} (h : c ∈ digits n) : c.isDigit = true :=
  Nat.isDigit_of_mem_toDigits (by decide) (by decide) h

theorem digits_ne_nil (n : Nat) : digits n ≠ [] :=
  Nat.toDigits_ne_nil

theorem ofDigits_eq_ofDigitChars (ds : List Char) : ofDigits ds = Nat.ofDigitChars 10 ds 0 := rfl

theorem ofDigits_digits (n : Nat) : ofDigits (digits n) = n :=
  Nat.ofDigitChars_ten_toDigits

theorem digits_injective {m n : Nat} (h : digits m = digits n) : m = n := by
  rw [← ofDigits_digits m, h, ofDigits_digits n]

theorem digitCount_le_iff {n width : Nat} (h : 0 < width) :
    digitCount n ≤ width ↔ n < 10 ^ width :=
  Nat.length_toDigits_le_iff (by decide) h

theorem ofDigits_lt {ds : List Char} (h : ∀ d ∈ ds, d.isDigit = true) :
    ofDigits ds < 10 ^ ds.length := by
  induction ds using List.reverseRecOn with
  | nil => decide
  | append_singleton ds d ih =>
    rw [List.forall_mem_append] at h
    have hds := ih h.1
    have hd : d.toNat ≤ 57 := by
      have hdigit := h.2 d List.mem_cons_self
      simp only [Char.isDigit, Bool.and_eq_true, decide_eq_true_eq] at hdigit
      exact hdigit.2
    have hlast : ofDigits (ds ++ [d]) = 10 * ofDigits ds + (d.toNat - 48) := by
      simp [ofDigits, List.foldl_append]
    rw [hlast, List.length_append, List.length_singleton, Nat.pow_succ]
    omega

/-- A number has no more digits than were read. -/
theorem digitCount_ofDigits_le {ds : List Char} (h : ∀ d ∈ ds, d.isDigit = true) {width : Nat}
    (hpos : 0 < width) (hwidth : ds.length ≤ width) : digitCount (ofDigits ds) ≤ width :=
  (digitCount_le_iff hpos).2
    (Nat.lt_of_lt_of_le (ofDigits_lt h) (Nat.pow_le_pow_right (by decide) hwidth))

/-- Only zero has a leading zero. -/
theorem head_digits_ne_zero {n : Nat} (hn : 0 < n) : (digits n).head? ≠ some '0' := by
  induction n using Nat.strongRecOn with
  | ind n ih =>
    -- the first digit of a longer number is that of a tenth of it
    by_cases hten : n < 10
    · have hdigit : ∀ m < 10, 0 < m → m.digitChar ≠ '0' := by decide
      rw [digits, Nat.toDigits_of_lt_base hten]
      simpa using hdigit n hten hn
    · have hbig : 10 ≤ n := Nat.le_of_not_lt hten
      have hhead := ih (n / 10) (by omega) (by omega)
      obtain ⟨c, ds, hcons⟩ := List.exists_cons_of_ne_nil (digits_ne_nil (n / 10))
      rw [hcons] at hhead
      rw [digits] at hcons ⊢
      rw [Nat.toDigits_of_base_le (by decide) hbig, hcons]
      exact hhead

theorem isDigit_of_mem_padded {width n : Nat} {c : Char} (h : c ∈ padded width n) :
    c.isDigit = true := by
  rcases List.mem_append.1 h with hzero | hdigit
  · rw [List.eq_of_mem_replicate hzero]
    rfl
  · exact isDigit_of_mem_digits hdigit

theorem length_padded {width n : Nat} (hw : 0 < width) (hn : n < 10 ^ width) :
    (padded width n).length = width := by
  have hcount := (digitCount_le_iff hw).2 hn
  rw [padded, List.length_append, List.length_replicate]
  unfold digitCount at hcount ⊢
  omega

theorem ofDigits_padded (width n : Nat) : ofDigits (padded width n) = n := by
  rw [ofDigits_eq_ofDigitChars, padded, Nat.ofDigitChars_append, Nat.ofDigitChars_replicate_zero,
    Nat.mul_zero, ← ofDigits_eq_ofDigitChars, ofDigits_digits]

end Extraction.Number

namespace Extraction.Calendar.Iso

open Number

/-- A reader of as many digits as there are takes them all. -/
theorem readDigits_append {ds : List Char} (h : ∀ c ∈ ds, c.isDigit = true) (acc : Nat)
    (rest : List Char) :
    readDigits acc ds.length (ds ++ rest) = some (Nat.ofDigitChars 10 ds acc, rest) := by
  induction ds generalizing acc with
  | nil => simp [readDigits]
  | cons d ds ih =>
    rw [List.forall_mem_cons] at h
    rw [List.length_cons, List.cons_append, readDigits, if_pos h.1, ih h.2]
    rfl

/-- The digits of a number, filled up to the width that is read, read as the number. -/
theorem readDigits_padded {width n : Nat} (hw : 0 < width) (hn : n < 10 ^ width)
    (rest : List Char) : readDigits 0 width (padded width n ++ rest) = some (n, rest) := by
  have hdigits : ∀ c ∈ padded width n, c.isDigit = true := fun c hc => isDigit_of_mem_padded hc
  have h := readDigits_append hdigits 0 rest
  rwa [length_padded hw hn, ← ofDigits_eq_ofDigitChars, ofDigits_padded] at h

end Extraction.Calendar.Iso
