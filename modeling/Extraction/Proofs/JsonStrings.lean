import Extraction.Json.Text
import Mathlib.Tactic.SplitIfs

/-!
Strings in JSON text read back: each character through its own escape, and the text of a string
through its closing quote.
-/

namespace Extraction.Json

theorem hexValue_hexDigit : ∀ n < 16, Text.hexValue? (Text.hexDigit n) = some n := by
  decide

/-- The escape of a control character by its number. -/
theorem readUnit_control {n : Nat} (hn : n < 0x20) (c : Char) (rest : List Char) :
    readUnit ('0' :: '0' :: Text.hexDigit (n / 16) :: Text.hexDigit (n % 16) :: c :: rest) =
      .ok (Char.ofNat n, c :: rest) := by
  have hzero : Text.hexValue? '0' = some 0 := hexValue_hexDigit 0 (by decide)
  have hhigh := hexValue_hexDigit (n / 16) (by omega)
  have hlow := hexValue_hexDigit (n % 16) (by omega)
  have hnumber : ((0 * 16 + 0) * 16 + n / 16) * 16 + n % 16 = n := by omega
  have hhalf : Text.isHighSurrogate n = false := by
    simp only [Text.isHighSurrogate, Bool.and_eq_false_imp, decide_eq_true_eq]
    omega
  have hhalf' : Text.isLowSurrogate n = false := by
    simp only [Text.isLowSurrogate, Bool.and_eq_false_imp, decide_eq_true_eq]
    omega
  simp only [readUnit, readHex4, hzero, hhigh, hlow, Option.bind_eq_bind, Option.bind_some, hnumber,
    hhalf, Bool.false_eq_true, if_false]
  simp [Text.unitChar, hhalf, hhalf']

theorem readString_simple {e c : Char} (he : simpleEscape? e = some c) (hu : e ≠ 'u')
    (opening fuel : Nat) (rest : List Char) :
    readString opening (fuel + 1) ('\\' :: e :: rest) =
      (readString opening fuel rest).map fun p => (c :: p.1, p.2) := by
  rw [readString]
  · rw [he]
    cases readString opening fuel rest <;> rfl
  · exact hu

theorem readString_control {n : Nat} (hn : n < 0x20) (opening fuel : Nat) (d : Char)
    (rest : List Char) :
    readString opening (fuel + 1)
        ('\\' :: 'u' :: '0' :: '0' ::
          Text.hexDigit (n / 16) :: Text.hexDigit (n % 16) :: d :: rest) =
      (readString opening fuel (d :: rest)).map fun p => (Char.ofNat n :: p.1, p.2) := by
  rw [readString, readUnit_control hn]
  simp only [bind, Except.bind]
  cases readString opening fuel (d :: rest) <;> rfl

theorem readString_plain {c : Char} (hquote : c ≠ '"') (hslash : c ≠ '\\')
    (hcontrol : ¬c.toNat < 0x20) (opening fuel : Nat) (rest : List Char) :
    readString opening (fuel + 1) (c :: rest) =
      (readString opening fuel rest).map fun p => (c :: p.1, p.2) := by
  rw [readString]
  · rw [if_neg hcontrol]
    cases readString opening fuel rest <;> rfl
  all_goals simp_all

/-- A character comes back from behind its escape. -/
theorem readString_escapeChar (opening fuel : Nat) (c d : Char) (rest : List Char) :
    readString opening (fuel + 1) (escapeChar c ++ d :: rest) =
      (readString opening fuel (d :: rest)).map fun p => (c :: p.1, p.2) := by
  unfold escapeChar
  split_ifs with hquote hslash hline hreturn htab hback hform hcontrol
  · exact readString_simple (by rw [hquote]; rfl) (by decide) opening fuel _
  · exact readString_simple (by rw [hslash]; rfl) (by decide) opening fuel _
  · exact readString_simple (by rw [hline]; rfl) (by decide) opening fuel _
  · exact readString_simple (by rw [hreturn]; rfl) (by decide) opening fuel _
  · exact readString_simple (by rw [htab]; rfl) (by decide) opening fuel _
  · exact readString_simple (by rw [hback]; rfl) (by decide) opening fuel _
  · exact readString_simple (by rw [hform]; rfl) (by decide) opening fuel _
  · have h := readString_control hcontrol opening fuel d rest
    rwa [Char.ofNat_toNat] at h
  · exact readString_plain hquote hslash hcontrol opening fuel _

theorem readString_escaped (opening : Nat) (cs : List Char) {fuel : Nat} (h : cs.length < fuel)
    (rest : List Char) :
    readString opening fuel (cs.flatMap escapeChar ++ '"' :: rest) = .ok (cs, rest) := by
  induction cs generalizing fuel with
  | nil =>
    obtain ⟨fuel, rfl⟩ := Nat.exists_eq_add_one.2 h
    rfl
  | cons c cs ih =>
    obtain ⟨fuel, rfl⟩ := Nat.exists_eq_add_one.2 (Nat.zero_lt_of_lt h)
    have hfuel : cs.length < fuel := Nat.lt_of_succ_lt_succ h
    -- an escape by number is read only if one more character follows, so the rest is not empty
    obtain ⟨d, tail, htail⟩ : ∃ d tail, cs.flatMap escapeChar ++ '"' :: rest = d :: tail :=
      List.exists_cons_of_ne_nil (by simp)
    rw [List.flatMap_cons, List.append_assoc, htail, readString_escapeChar, ← htail, ih hfuel]
    rfl

theorem escapeChar_ne_nil (c : Char) : escapeChar c ≠ [] := by
  unfold escapeChar
  split_ifs <;> simp

theorem length_le_escaped (cs : List Char) : cs.length ≤ (cs.flatMap escapeChar).length := by
  induction cs with
  | nil => simp
  | cons c cs ih =>
    have hc := List.length_pos_iff.2 (escapeChar_ne_nil c)
    rw [List.flatMap_cons, List.length_append, List.length_cons]
    omega

/-- A string comes back from behind its opening quote. -/
theorem readText_escaped (s : String) (rest : List Char) :
    readText (s.toList.flatMap escapeChar ++ '"' :: rest) = .ok (s, rest) := by
  have hlength := length_le_escaped s.toList
  have hfuel : s.toList.length < (s.toList.flatMap escapeChar ++ '"' :: rest).length + 1 := by
    rw [List.length_append]
    omega
  rw [readText, readString_escaped _ _ hfuel]
  simp [Except.map]

end Extraction.Json
