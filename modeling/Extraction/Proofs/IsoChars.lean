import Extraction.Proofs.DecimalText
import Extraction.Text.Blank
import Mathlib.Data.List.Basic
import Mathlib.Tactic.SplitIfs

/-!
The characters of dates and times in ISO text: digits in fields of a fixed width, and marks between
them, none of which is a blank or half of a surrogate pair.
-/

namespace Extraction.Calendar

open Number

/-! ### Characters -/

/-- A digit, or a mark between digits. -/
def IsIsoChar (c : Char) : Prop :=
  c.isDigit = true ∨ c ∈ ['-', ':', '.', '+', 'T']

instance (c : Char) : Decidable (IsIsoChar c) :=
  inferInstanceAs (Decidable (c.isDigit = true ∨ c ∈ ['-', ':', '.', '+', 'T']))

theorem IsIsoChar.toNat_bounds {c : Char} (h : IsIsoChar c) : 32 < c.toNat ∧ c.toNat < 128 := by
  rcases h with hdigit | hmark
  · simp only [Char.isDigit, Bool.and_eq_true, decide_eq_true_eq, UInt32.le_iff_toNat_le] at hdigit
    have hlow : 48 ≤ c.toNat := hdigit.1
    have hhigh : c.toNat ≤ 57 := hdigit.2
    omega
  · simp only [List.mem_cons, List.not_mem_nil, or_false] at hmark
    rcases hmark with rfl | rfl | rfl | rfl | rfl <;> decide

theorem isHalf_eq_false_of_ascii {c : Char} (h : c.toNat < 128) : Text.isHalf c = false := by
  simp only [Text.isHalf, Bool.and_eq_false_imp, decide_eq_true_eq]
  omega

theorem IsIsoChar.isHalf_eq_false {c : Char} (h : IsIsoChar c) : Text.isHalf c = false :=
  isHalf_eq_false_of_ascii h.toNat_bounds.2

theorem IsIsoChar.isBlank_eq_false {c : Char} (h : IsIsoChar c) : Text.isBlank c = false := by
  have hbounds := h.toNat_bounds
  rw [Bool.eq_false_iff]
  simp only [Text.isBlank, Ne, Bool.or_eq_true, Bool.and_eq_true, decide_eq_true_eq, beq_iff_eq]
  omega

theorem utf8Size_eq_one_of_ascii {c : Char} (h : c.toNat < 128) : c.utf8Size = 1 := by
  rw [Char.utf8Size_eq_one_iff, UInt32.le_iff_toNat_le]
  exact Nat.le_of_lt_succ h

theorem isIso_padded (width n : Nat) : ∀ c ∈ padded width n, IsIsoChar c :=
  fun _ hc => .inl (isDigit_of_mem_padded hc)

theorem isIso_fraction (micro : Nat) : ∀ c ∈ Time.fractionChars micro, IsIsoChar c := by
  unfold Time.fractionChars
  split_ifs
  · simp
  · exact List.forall_mem_cons.2 ⟨by decide, isIso_padded _ _⟩

theorem isIso_date (d : Date) : ∀ c ∈ d.isoChars, IsIsoChar c := by
  have hhyphen : IsIsoChar '-' := by decide
  simp only [Date.isoChars, List.forall_mem_append, List.forall_mem_cons]
  exact ⟨⟨isIso_padded _ _, hhyphen, isIso_padded _ _⟩, hhyphen, isIso_padded _ _⟩

theorem isIso_time (t : Time) : ∀ c ∈ t.isoChars, IsIsoChar c := by
  have hcolon : IsIsoChar ':' := by decide
  simp only [Time.isoChars, List.forall_mem_append, List.forall_mem_cons]
  exact ⟨⟨⟨isIso_padded _ _, hcolon, isIso_padded _ _⟩, hcolon, isIso_padded _ _⟩,
    isIso_fraction _⟩

theorem isIso_offset (o : Offset) : ∀ c ∈ o.isoChars, IsIsoChar c := by
  have hcolon : IsIsoChar ':' := by decide
  have hsign : IsIsoChar (if o.negative then '-' else '+') := by split_ifs <;> decide
  have htail : ∀ c ∈ (if o.time.second = 0 && o.time.microsecond = 0 then []
      else ':' :: padded 2 o.time.second ++ Time.fractionChars o.time.microsecond),
      IsIsoChar c := by
    split_ifs
    · simp
    · simp only [List.forall_mem_append, List.forall_mem_cons]
      exact ⟨⟨hcolon, isIso_padded _ _⟩, isIso_fraction _⟩
  simp only [Offset.isoChars, List.forall_mem_append, List.forall_mem_cons]
  exact ⟨⟨⟨hsign, isIso_padded _ _⟩, hcolon, isIso_padded _ _⟩, htail⟩

theorem isIso_offsetChars (t : DateTime) : ∀ c ∈ t.offsetChars, IsIsoChar c := by
  unfold DateTime.offsetChars
  split
  · exact isIso_offset _
  · simp

theorem isIso_dateTime (t : DateTime) : ∀ c ∈ t.charsWith 'T', IsIsoChar c := by
  simp only [DateTime.charsWith, List.forall_mem_append, List.forall_mem_cons]
  exact ⟨⟨isIso_date _, by decide, isIso_time _⟩, isIso_offsetChars _⟩

theorem any_isHalf_of_ascii {cs : List Char} (h : ∀ c ∈ cs, c.toNat < 128) :
    cs.any Text.isHalf = false := by
  rw [List.any_eq_false]
  intro c hc
  rw [isHalf_eq_false_of_ascii (h c hc)]
  exact Bool.false_ne_true

theorem any_isHalf_eq_false {cs : List Char} (h : ∀ c ∈ cs, IsIsoChar c) :
    cs.any Text.isHalf = false :=
  any_isHalf_of_ascii fun c hc => (h c hc).toNat_bounds.2

theorem all_not_isHalf {cs : List Char} (h : ∀ c ∈ cs, IsIsoChar c) :
    cs.all (fun c => !Text.isHalf c) = true := by
  rw [List.all_eq_true]
  intro c hc
  rw [(h c hc).isHalf_eq_false]
  rfl

namespace Iso

theorem foldl_utf8Size (n : Nat) (cs : List Char) :
    cs.foldl (fun n c => n + c.utf8Size) n = n + octetCount cs := by
  induction cs generalizing n with
  | nil => rfl
  | cons c cs ih =>
    rw [octetCount, List.foldl_cons, List.foldl_cons, ih, ih (0 + c.utf8Size)]
    omega

theorem octetCount_cons (c : Char) (cs : List Char) :
    octetCount (c :: cs) = c.utf8Size + octetCount cs := by
  rw [octetCount, List.foldl_cons, foldl_utf8Size, Nat.zero_add]

theorem octetCount_append (cs rest : List Char) :
    octetCount (cs ++ rest) = octetCount cs + octetCount rest := by
  rw [octetCount, List.foldl_append, foldl_utf8Size]
  rfl

theorem octetCount_of_ascii {cs : List Char} (h : ∀ c ∈ cs, c.toNat < 128) :
    octetCount cs = cs.length := by
  induction cs with
  | nil => rfl
  | cons c cs ih =>
    rw [List.forall_mem_cons] at h
    rw [octetCount_cons, utf8Size_eq_one_of_ascii h.1, ih h.2, List.length_cons, Nat.add_comm]

theorem octetCount_eq_length {cs : List Char} (h : ∀ c ∈ cs, IsIsoChar c) :
    octetCount cs = cs.length :=
  octetCount_of_ascii fun c hc => (h c hc).toNat_bounds.2

end Iso

/-! ### Fields -/

/-- The numbers of a date fit their digits. -/
theorem Date.widths (d : Date) : d.year < 10000 ∧ d.month < 100 ∧ d.day < 100 := by
  obtain ⟨⟨-, hyear⟩, ⟨-, hmonth⟩, -, hday⟩ := d.valid
  have hdays : daysInMonth d.year d.month < 100 := by
    unfold daysInMonth
    split_ifs <;> decide
  omega

theorem Date.length_isoChars (d : Date) : d.isoChars.length = 10 := by
  obtain ⟨hyear, hmonth, hday⟩ := d.widths
  have hy : (padded 4 d.year).length = 4 := length_padded (by decide) hyear
  have hm : (padded 2 d.month).length = 2 := length_padded (by decide) hmonth
  have hd : (padded 2 d.day).length = 2 := length_padded (by decide) hday
  simp [Date.isoChars, hy, hm, hd]

/-- The digits of a month, or of anything else below a hundred. -/
theorem padded_two {n : Nat} (h : n < 100) :
    ∃ a b, padded 2 n = [a, b] ∧ a.isDigit = true ∧ b.isDigit = true := by
  obtain ⟨a, b, hab⟩ := List.length_eq_two.1 (length_padded (by decide) h : (padded 2 n).length = 2)
  have hdigit : ∀ c ∈ [a, b], c.isDigit = true := fun c hc => isDigit_of_mem_padded (hab ▸ hc)
  exact ⟨a, b, hab, hdigit a (by simp), hdigit b (by simp)⟩

namespace Iso

theorem readTwo {n : Nat} (h : n < 100) (rest : List Char) :
    readDigits 0 2 (padded 2 n ++ rest) = some (n, rest) :=
  readDigits_padded (by decide) h rest

theorem readYear (d : Date) (rest : List Char) :
    readDigits 0 4 (padded 4 d.year ++ rest) = some (d.year, rest) :=
  readDigits_padded (by decide) d.widths.1 rest

end Iso

end Extraction.Calendar
