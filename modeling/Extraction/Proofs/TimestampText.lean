import Extraction.Calendar.Timestamp
import Extraction.Proofs.IsoChars

/-!
Timestamps read back: the text of an instant in UTC is read as that instant.
-/

namespace Extraction.Calendar

open Number

/-! ### Dates and times -/

theorem Timestamp.readYmd_isoChars (d : Date) (rest : List Char) :
    readYmd (d.isoChars ++ rest) = some (⟨d.year, d.month, d.day⟩, rest) := by
  obtain ⟨-, hmonth, hday⟩ := d.widths
  have hdate : Ymd.isDate ⟨d.year, d.month, d.day⟩ = true := by
    obtain ⟨-, ⟨hfirst, hlast⟩, hfirstDay, hlastDay⟩ := d.valid
    simp [Ymd.isDate, hfirst, hlast, hfirstDay, hlastDay]
  simp only [readYmd, Date.isoChars, List.append_assoc, List.cons_append, Iso.readYear,
    Iso.readTwo hmonth, Iso.readTwo hday, Iso.hyphen, if_true, bind, Option.bind, hdate]

namespace Timestamp

theorem fractionMicroseconds_padded {n : Nat} (hn : n < 1000000) :
    fractionMicroseconds (padded 6 n) = n := by
  have hlength : (padded 6 n).length = 6 := length_padded (by decide) hn
  have htake : (padded 6 n).take 6 = padded 6 n := List.take_of_length_le (by omega)
  simp [fractionMicroseconds, htake, hlength, ofDigits_padded, tenPow]

theorem takeWhile_padded {width n : Nat} {c : Char} (hc : c.isDigit = false) (rest : List Char) :
    (padded width n ++ c :: rest).takeWhile Char.isDigit = padded width n := by
  rw [List.takeWhile_append_of_pos fun _ hd => isDigit_of_mem_padded hd, List.takeWhile_cons, hc]
  simp

theorem dropWhile_padded {width n : Nat} {c : Char} (hc : c.isDigit = false) (rest : List Char) :
    (padded width n ++ c :: rest).dropWhile Char.isDigit = c :: rest := by
  rw [List.dropWhile_append_of_pos fun _ hd => isDigit_of_mem_padded hd, List.dropWhile_cons, hc]
  simp

theorem readSeconds_chars {second micro : Nat} (hsecond : second ≤ 59) (hmicro : micro ≤ 999999)
    (rest : List Char) :
    readSeconds (':' :: (padded 2 second ++ (Time.fractionChars micro ++ 'Z' :: rest))) =
      some (second, micro, 'Z' :: rest) := by
  have hs := Iso.readTwo (show second < 100 by omega)
  have hZ : 'Z'.isDigit = false := by decide
  unfold Time.fractionChars
  -- a fraction is written only if it is not zero, and without one the reader takes it for zero
  by_cases hzero : micro = 0
  · simp [readSeconds, hs, hzero]
  · have hlength : (padded 6 micro).length = 6 := length_padded (by decide) (by omega)
    have hne : (padded 6 micro).isEmpty = false := by
      rw [List.isEmpty_eq_false_iff, ← List.length_pos_iff]
      omega
    have hfraction : fractionMicroseconds (padded 6 micro) = micro :=
      fractionMicroseconds_padded (by omega)
    simp only [readSeconds, hs, if_neg hzero, List.cons_append, bind, Option.bind,
      takeWhile_padded hZ, dropWhile_padded hZ, hne, hfraction]
    rfl

theorem readTime_isoChars (t : Time) (rest : List Char) :
    readTime (t.isoChars ++ 'Z' :: rest) = some (t, 'Z' :: rest) := by
  obtain ⟨hhour, hminute, hsecond, hmicro⟩ := t.valid
  have hh := Iso.readTwo (show t.hour < 100 by omega)
  have hm := Iso.readTwo (show t.minute < 100 by omega)
  have ht : Time.of? t.hour t.minute t.second t.microsecond = some t := dif_pos t.valid
  simp only [readTime, Time.isoChars, List.append_assoc, List.cons_append, hh, hm,
    readSeconds_chars hsecond hmicro, ht, bind, Option.bind]

theorem ofText_chars {t : DateTime} (ht : t.offset = some .utc) : ofText (chars t) = .ok t := by
  have hdate : Date.ofYmd? t.date.year t.date.month t.date.day = some t.date := dif_pos t.date.valid
  have htext : chars t = t.date.isoChars ++ 'T' :: (t.time.isoChars ++ 'Z' :: []) := by
    simp [chars, ht, offsetChars]
  have hread : readText (chars t) =
      some (⟨t.date.year, t.date.month, t.date.day⟩, t.time, some .utc) := by
    simp only [htext, readText, readYmd_isoChars, readTime_isoChars, bind, Option.bind]
    rfl
  simp only [ofText, hread, keep, hdate]
  rw [← ht]

/-! ### Timestamps as values -/

theorem isWhole_text {t : DateTime} (ht : t.offset = some .utc) : Text.isWhole (text t) = true := by
  have hdate := all_not_isHalf (isIso_date t.date)
  have htime := all_not_isHalf (isIso_time t.time)
  have hT : Text.isHalf 'T' = false := by decide
  simp only [Text.isWhole, text, String.toList_ofList, chars, ht, offsetChars, List.all_append,
    List.all_cons, hdate, htime, hT]
  rfl

/-- An instant in UTC comes back from its text. -/
theorem ofValue_text {t : DateTime} (ht : t.offset = some .utc) :
    ofValue (.string (text t)) = .ok t := by
  rw [ofValue, if_pos (isWhole_text ht), text, String.toList_ofList, ofText_chars ht]

end Timestamp

end Extraction.Calendar
