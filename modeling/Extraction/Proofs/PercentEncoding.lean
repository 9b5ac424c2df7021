import Extraction.Proofs.Utf8Reading
import Extraction.Service.Address
import Mathlib.Data.List.SplitBy
import Mathlib.Data.List.TakeWhile

/-!
Percent-encoding. A text that was encoded is decoded to itself, characters in front of the first
percent sign are left as they are, and decoding never makes a text longer.
-/

namespace Extraction.Service

open Text (Octets readUtf8)

/-- Letters, digits and four signs stand for themselves. -/
def isUnreserved (c : Char) : Bool :=
  c.isAlphanum || c = '-' || c = '.' || c = '_' || c = '~'

def upperHexDigit (n : Nat) : Char :=
  if n < 10 then Char.ofNat (48 + n) else Char.ofNat (55 + n)

def encodeOctet (b : UInt8) : List Char :=
  ['%', upperHexDigit (b.toNat / 16), upperHexDigit (b.toNat % 16)]

def encodeChar (c : Char) : List Char :=
  if isUnreserved c then [c] else (String.utf8EncodeChar c).flatMap encodeOctet

/-- Encodes all characters but those that stand for themselves. -/
def percentEncode (cs : List Char) : List Char :=
  cs.flatMap encodeChar

variable {cs rest : List Char} {c : Char}

/-! ### Octets -/

theorem percentOctets_cons (h : c ≠ '%') (rest : List Char) :
    percentOctets (c :: rest) = UInt8.ofNat c.toNat :: percentOctets rest := by
  rw [percentOctets]
  intro a b tail heq
  exact absurd heq h

theorem hexValue?_upperHexDigit {n : Nat} (h : n < 16) :
    Text.hexValue? (upperHexDigit n) = some n := by
  have hdigits : ∀ n < 16, Text.hexValue? (upperHexDigit n) = some n := by decide
  exact hdigits n h

theorem percentOctets_encodeOctet (b : UInt8) (rest : List Char) :
    percentOctets (encodeOctet b ++ rest) = b :: percentOctets rest := by
  have hb : b.toNat < 256 := b.toNat_lt
  have hhigh := hexValue?_upperHexDigit (n := b.toNat / 16) (by omega)
  have hlow := hexValue?_upperHexDigit (n := b.toNat % 16) (by omega)
  have hvalue : 16 * (b.toNat / 16) + b.toNat % 16 = b.toNat := Nat.div_add_mod _ _
  simp only [encodeOctet, List.cons_append, List.nil_append, percentOctets, hhigh, hlow, hvalue,
    UInt8.ofNat_toNat]

theorem percentOctets_flatMap (bs : Octets) (rest : List Char) :
    percentOctets (bs.flatMap encodeOctet ++ rest) = bs ++ percentOctets rest := by
  induction bs with
  | nil => rfl
  | cons b bs ih =>
    rw [List.flatMap_cons, List.append_assoc, percentOctets_encodeOctet, ih, List.cons_append]

theorem toNat_of_isUpper (h : c.isUpper = true) : 65 ≤ c.toNat ∧ c.toNat ≤ 90 :=
  of_decide_eq_true h

theorem toNat_of_isLower (h : c.isLower = true) : 97 ≤ c.toNat ∧ c.toNat ≤ 122 :=
  ((Bool.and_eq_true _ _).mp h).imp of_decide_eq_true of_decide_eq_true

theorem toNat_of_isDigit (h : c.isDigit = true) : 48 ≤ c.toNat ∧ c.toNat ≤ 57 :=
  Char.isDigit_iff_toNat.1 h

theorem toNat_of_isAlphanum (h : c.isAlphanum = true) : 48 ≤ c.toNat ∧ c.toNat ≤ 122 := by
  rcases (Bool.or_eq_true _ _).mp h with hletter | hdigit
  · rcases (Bool.or_eq_true _ _).mp hletter with hupper | hlower
    · have hrange := toNat_of_isUpper hupper
      omega
    · have hrange := toNat_of_isLower hlower
      omega
  · have hrange := toNat_of_isDigit hdigit
    omega

theorem toNat_of_isUnreserved (h : isUnreserved c = true) : 45 ≤ c.toNat ∧ c.toNat ≤ 126 := by
  rw [isUnreserved] at h
  simp only [Bool.or_eq_true, decide_eq_true_eq] at h
  rcases h with (((halphanum | rfl) | rfl) | rfl) | rfl
  · have hrange := toNat_of_isAlphanum halphanum
    omega
  all_goals decide

theorem ne_percent_of_isUnreserved (h : isUnreserved c = true) : c ≠ '%' := by
  rintro rfl
  cases h

/-- An encoded text is made of percent signs and characters that stand for themselves. -/
theorem mem_percentEncode {a : Char} (h : a ∈ percentEncode cs) :
    isUnreserved a = true ∨ a = '%' := by
  obtain ⟨c, -, ha⟩ := List.mem_flatMap.1 h
  unfold encodeChar at ha
  split at ha
  · rename_i hc
    exact .inl (List.mem_singleton.1 ha ▸ hc)
  · obtain ⟨b, -, ha⟩ := List.mem_flatMap.1 ha
    have hb : b.toNat < 256 := b.toNat_lt
    have hdigits : ∀ n < 16, isUnreserved (upperHexDigit n) = true := by decide
    rcases List.mem_cons.1 ha with rfl | ha
    · exact .inr rfl
    rcases List.mem_pair.1 ha with rfl | rfl
    · exact .inl (hdigits _ (by omega))
    · exact .inl (hdigits _ (by omega))

theorem percentOctets_percentEncode (cs rest : List Char) :
    percentOctets (percentEncode cs ++ rest) =
      cs.flatMap String.utf8EncodeChar ++ percentOctets rest := by
  induction cs with
  | nil => rfl
  | cons c cs ih =>
    rw [percentEncode, List.flatMap_cons, List.append_assoc, ← percentEncode, encodeChar,
      List.flatMap_cons, List.append_assoc]
    split
    · rename_i h
      have hoctet : String.utf8EncodeChar c = [UInt8.ofNat c.toNat] :=
        if_pos (by have := toNat_of_isUnreserved h; change c.toNat ≤ _; omega)
      rw [hoctet, List.cons_append, List.nil_append,
        percentOctets_cons (ne_percent_of_isUnreserved h), ih]
      rfl
    · rw [percentOctets_flatMap, ih]

theorem length_percentOctets_le (cs : List Char) : (percentOctets cs).length ≤ cs.length := by
  fun_induction percentOctets cs with
  | case1 a b rest x y hx hy ih => simp only [List.length_cons]; omega
  | case2 a b rest hnone ih => simpa using ih
  | case3 c rest hc ih => simpa using ih
  | case4 => rfl

/-! ### Runs of characters -/

theorem splitBy_uniform {kind : Bool} (h : ∀ c ∈ cs, isAscii c = kind) (hne : cs ≠ []) :
    cs.splitBy (fun a b => isAscii a == isAscii b) = [cs] := by
  refine List.splitBy_of_isChain hne (List.Pairwise.isChain ?_)
  rw [List.pairwise_iff_getElem]
  intro i j hi hj _
  simp [h _ (List.getElem_mem hi), h _ (List.getElem_mem hj)]

/-- Characters that are all ASCII are decoded together. -/
theorem percentDecode_ascii (h : ∀ c ∈ cs, isAscii c = true) :
    percentDecode cs = readUtf8 none (percentOctets cs) := by
  cases cs with
  | nil => rfl
  | cons c cs =>
    rw [percentDecode, splitBy_uniform h (List.cons_ne_nil c cs), List.flatMap_singleton,
      if_pos (List.all_eq_true.2 h)]

theorem percentDecode_foreign (h : ∀ c ∈ cs, isAscii c = false) : percentDecode cs = cs := by
  cases cs with
  | nil => rfl
  | cons c cs =>
    have hfirst := h c List.mem_cons_self
    rw [percentDecode, splitBy_uniform h (List.cons_ne_nil c cs), List.flatMap_singleton, if_neg]
    simp [hfirst]

/-- What stands on the two sides of a change between ASCII and other characters is decoded apart. -/
theorem percentDecode_append
    (h : ∀ a ∈ cs.getLast?, ∀ b ∈ rest.head?, isAscii a ≠ isAscii b) :
    percentDecode (cs ++ rest) = percentDecode cs ++ percentDecode rest := by
  rw [percentDecode, List.splitBy_append fun a ha b hb => beq_eq_false_iff_ne.2 (h a ha b hb),
    List.flatMap_append]
  rfl

theorem percentDecode_uniform_cons (hc : c ≠ '%') (h : ∀ a ∈ cs, isAscii a = isAscii c) :
    percentDecode (c :: cs) = c :: percentDecode cs := by
  cases hascii : isAscii c with
  | true =>
    rw [hascii] at h
    have hn : c.toNat < 0x80 := of_decide_eq_true hascii
    rw [percentDecode_ascii (List.forall_mem_cons.2 ⟨hascii, h⟩), percentDecode_ascii h,
      percentOctets_cons hc, Text.readUtf8_ascii hn, Char.ofNat_toNat]
  | false =>
    rw [hascii] at h
    rw [percentDecode_foreign (List.forall_mem_cons.2 ⟨hascii, h⟩), percentDecode_foreign h]

/-- A text starts with a longest run of one kind. -/
theorem exists_run (kind : Bool) (cs : List Char) :
    ∃ run rest, cs = run ++ rest ∧ (∀ a ∈ run, isAscii a = kind) ∧
      ∀ b ∈ rest.head?, isAscii b ≠ kind := by
  refine ⟨cs.takeWhile (isAscii · = kind), cs.dropWhile (isAscii · = kind),
    List.takeWhile_append_dropWhile.symm, fun a ha => ?_, fun b hb => ?_⟩
  · exact of_decide_eq_true (List.mem_takeWhile_imp (p := fun a => isAscii a = kind) ha)
  · have hdrop := List.head?_dropWhile_not (isAscii · = kind) cs
    rw [Option.mem_def.1 hb] at hdrop
    exact of_decide_eq_false hdrop

/-- A character other than the percent sign stands for itself. -/
theorem percentDecode_cons (hc : c ≠ '%') (cs : List Char) :
    percentDecode (c :: cs) = c :: percentDecode cs := by
  obtain ⟨run, rest, rfl, hrun, hrest⟩ := exists_run (isAscii c) cs
  have hrun' : ∀ a ∈ c :: run, isAscii a = isAscii c := List.forall_mem_cons.2 ⟨rfl, hrun⟩
  have hapart : ∀ cs' : List Char, (∀ a ∈ cs', isAscii a = isAscii c) →
      ∀ a ∈ cs'.getLast?, ∀ b ∈ rest.head?, isAscii a ≠ isAscii b :=
    fun _ hsame a ha b hb => hsame a (List.mem_of_mem_getLast? ha) ▸ (hrest b hb).symm
  rw [percentDecode_append (hapart _ hrun), ← List.cons_append,
    percentDecode_append (hapart _ hrun'), percentDecode_uniform_cons hc hrun, List.cons_append]

/-- What stands in front of the first percent sign is left as it is. -/
theorem percentDecode_plain_append (h : '%' ∉ cs) (rest : List Char) :
    percentDecode (cs ++ rest) = cs ++ percentDecode rest := by
  induction cs with
  | nil => rfl
  | cons c cs ih =>
    rw [List.mem_cons, not_or] at h
    rw [List.cons_append, percentDecode_cons (Ne.symm h.1), ih h.2, List.cons_append]

theorem percentDecode_plain (h : '%' ∉ cs) : percentDecode cs = cs := by
  have hnil : percentDecode [] = [] := rfl
  have happend := percentDecode_plain_append h []
  rwa [hnil, List.append_nil] at happend

/-- A text that was encoded is decoded to itself. -/
theorem percentDecode_percentEncode (cs : List Char) : percentDecode (percentEncode cs) = cs := by
  have hascii : ∀ c ∈ percentEncode cs, isAscii c = true := by
    intro c hc
    rcases mem_percentEncode hc with hc | rfl
    · have hn := toNat_of_isUnreserved hc
      exact decide_eq_true (by omega)
    · rfl
  have hoctets := percentOctets_percentEncode cs []
  have hread := Text.readUtf8_flatMap cs []
  rw [List.append_nil] at hoctets
  rw [percentDecode_ascii hascii, hoctets, percentOctets, hread, readUtf8, List.append_nil]

theorem length_percentDecode_le (cs : List Char) : (percentDecode cs).length ≤ cs.length := by
  have hrun : ∀ run : List Char, (if run.all isAscii then readUtf8 none (percentOctets run)
      else run).length ≤ run.length := by
    intro run
    split
    · exact (Text.length_readUtf8_le none _).trans (length_percentOctets_le run)
    · exact le_rfl
  have hruns : ∀ runs : List (List Char), (runs.flatMap fun run =>
      if run.all isAscii then readUtf8 none (percentOctets run) else run).length ≤
        runs.flatten.length := by
    intro runs
    induction runs with
    | nil => exact le_rfl
    | cons run runs ih =>
      rw [List.flatMap_cons, List.flatten_cons, List.length_append, List.length_append]
      exact Nat.add_le_add (hrun run) ih
  have hall := hruns (cs.splitBy fun a b => isAscii a == isAscii b)
  rwa [List.flatten_splitBy] at hall

end Extraction.Service
