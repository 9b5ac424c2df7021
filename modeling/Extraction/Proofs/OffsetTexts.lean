import Extraction.Proofs.DateShapes
import Mathlib.Data.List.TakeWhile

/-!
Clocks and offsets in front of a `+` that does not belong to them. A sign ends no clock, so one that
is read there without anything left over ends before, at a NUL behind a fraction of six digits or
more, and what stands in front of the NUL is read to the same values.
-/

namespace Extraction.Calendar.Iso

open Number

variable {cs more : List Char} {micro : Nat} {values : List Nat} {o : Offset}

/-- A text of a clock with a NUL right behind it, and without a `T`, which is what half of a
surrogate pair between a date and a time is read as. -/
structure EndsAtNul (w cs : List Char) : Prop where
  stop : w ++ ['\x00'] <+: cs
  long : 2 ≤ w.length
  clean : 'T' ∉ w

/-! ### Fractions -/

theorem dropWhile_append_mark {p : Char → Bool} {mark : Char} (hmark : p mark = false)
    (cs more : List Char) :
    (cs ++ mark :: more).dropWhile p = cs.dropWhile p ++ mark :: more := by
  rw [List.dropWhile_append]
  split_ifs with hempty
  · rw [List.isEmpty_iff.1 hempty, List.dropWhile_cons, hmark]
    rfl
  · rfl

theorem readFraction_digits {ds digits : List Char} (hds : IsField 6 ds)
    (hdigits : ∀ c ∈ digits, c.isDigit = true) :
    readFraction (ds ++ digits) = some (Nat.ofDigitChars 10 ds 0, false) := by
  have hcount : min 6 (ds ++ digits).length = 6 := by
    rw [List.length_append, hds.1]
    omega
  have hdrop : digits.dropWhile Char.isDigit = [] := List.dropWhile_eq_nil_iff.2 hdigits
  rw [readFraction, hcount, hds.readDigits]
  simp [hdrop, tenPow]

/-- The fraction of a clock in front of a `+` ends at a NUL. -/
theorem readFraction_before (h : readFraction (cs ++ '+' :: more) = some (micro, false)) :
    ∃ w, EndsAtNul w cs ∧ readFraction w = some (micro, false) := by
  rw [readFraction, bind_readDigits_eq_some_iff] at h
  obtain ⟨ds, rest, hsplit, hds, h⟩ := h
  have hstart : ds <+: cs := prefix_of_prefix_append ⟨rest, hsplit.symm⟩ (hds.not_mem rfl)
  obtain ⟨cs, rfl⟩ := hstart
  rw [List.append_assoc, List.append_cancel_left_eq] at hsplit
  subst hsplit
  have hcount : min 6 (ds ++ cs ++ '+' :: more).length = 6 := by
    have hlength := hds.1
    simp only [List.length_append, List.length_cons] at hlength ⊢
    omega
  rw [hcount] at hds h
  simp only [dropWhile_append_mark (show Char.isDigit '+' = false from rfl), Option.some.injEq,
    Prod.mk.injEq, Bool.not_eq_false', Bool.or_eq_true, beq_iff_eq] at h
  obtain ⟨rfl, hend⟩ := h
  have hsplit := List.takeWhile_append_dropWhile (p := Char.isDigit) (l := cs)
  rcases hrest : cs.dropWhile Char.isDigit with _ | ⟨c, rest⟩
  · rw [hrest] at hend
    cases hend with
    | inl hempty => cases hempty
    | inr hhead => cases hhead
  · rw [hrest] at hend hsplit
    obtain rfl : c = '\x00' := by
      cases hend with
      | inl hempty => cases hempty
      | inr hhead => exact Option.some.inj hhead
    have hdigits : ∀ c ∈ cs.takeWhile Char.isDigit, c.isDigit = true :=
      fun c hc => List.mem_takeWhile_imp hc
    refine ⟨ds ++ cs.takeWhile Char.isDigit, ⟨⟨rest, by simp [hsplit]⟩, ?_, ?_⟩, ?_⟩
    · rw [List.length_append, hds.1]
      omega
    · rw [List.mem_append, not_or]
      exact ⟨hds.not_mem rfl, fun hmem => Bool.false_ne_true (hdigits _ hmem)⟩
    · simpa [tenPow] using readFraction_digits hds hdigits

/-! ### Fields -/

/-- What is read behind a field and its mark: a fraction, or more fields. -/
def readNext : (fields : Nat) → (colons : Bool) → List Char → Option (List Nat × Nat × Bool)
  | 0, _, cs => (readFraction cs).map fun found => ([], found)
  | fields + 1, colons, cs => readFields fields (some colons) cs

/-- What is read behind a field, from the character that follows it. -/
def readBehind (fields : Nat) (colons : Bool) (c : Char) (rest : List Char) :
    Option (List Nat × Nat × Bool) :=
  if (c == '.' || c == ',') && !(colons && c == ':') then readNext 0 colons rest
  else if colons && c != ':' then none
  else readNext fields colons (if colons then rest else c :: rest)

theorem readFields_field {ds : List Char} (hds : IsField 2 ds) (fields : Nat)
    (colons : Option Bool) (c : Char) {rest : List Char} (hrest : rest ≠ []) :
    readFields fields colons (ds ++ c :: rest) =
      (readBehind fields (colons.getD (c == ':')) c rest).map
        fun found => (Nat.ofDigitChars 10 ds 0 :: found.1, found.2) := by
  have hempty : rest.isEmpty = false := List.isEmpty_eq_false_iff.2 hrest
  unfold readFields readBehind
  rw [hds.readDigits]
  simp only [Option.bind_eq_bind, Option.bind_some, hempty, Bool.false_and, Bool.false_eq_true,
    if_false]
  generalize colons.getD (c == ':') = colons
  generalize (if colons then rest else c :: rest) = next
  split_ifs with hpoint hnone
  · rw [readNext]
    cases readFraction rest <;> rfl
  · rfl
  · cases fields with
    | zero =>
      rw [readNext]
      cases readFraction next <;> rfl
    | succ fields =>
      rw [readNext]
      dsimp only
      cases readFields fields (some colons) next <;> rfl

theorem readNext_plus (fields : Nat) (colons : Bool) (more : List Char) :
    readNext fields colons ('+' :: more) = none := by
  cases fields with
  | zero =>
    have hcount : min 6 ('+' :: more).length = min 5 more.length + 1 := by
      rw [List.length_cons]
      omega
    rw [readNext, readFraction, hcount]
    rfl
  | succ fields =>
    unfold readNext readFields
    rfl

theorem readBehind_plus (fields : Nat) (colons : Bool) (more : List Char) :
    readBehind fields colons '+' more = none := by
  cases colons with
  | true => rfl
  | false => exact readNext_plus fields false more

/-- The first field in front of a `+` has more behind it. -/
theorem readFields_split {fields : Nat} {colons : Option Bool} (hmore : more ≠ [])
    (h : readFields fields colons (cs ++ '+' :: more) = some (values, micro, false)) :
    ∃ ds c rest found, cs = ds ++ c :: rest ∧ IsField 2 ds ∧
      values = Nat.ofDigitChars 10 ds 0 :: found ∧
      readBehind fields (colons.getD (c == ':')) c (rest ++ '+' :: more) =
        some (found, micro, false) := by
  have hfield : ∃ ds, ds <+: cs ∧ IsField 2 ds := by
    unfold readFields at h
    rw [bind_readDigits_eq_some_iff] at h
    obtain ⟨ds, rest, hsplit, hds, -⟩ := h
    exact ⟨ds, prefix_of_prefix_append ⟨rest, hsplit.symm⟩ (hds.not_mem rfl), hds⟩
  obtain ⟨ds, ⟨cs, rfl⟩, hds⟩ := hfield
  cases cs with
  | nil =>
    rw [List.append_nil, readFields_field hds fields colons '+' hmore, readBehind_plus] at h
    cases h
  | cons c rest =>
    rw [List.append_assoc, List.cons_append, readFields_field hds fields colons c (by simp),
      Option.map_eq_some_iff] at h
    obtain ⟨⟨found, tail⟩, hfound, h⟩ := h
    cases h
    exact ⟨ds, c, rest, found, rfl, hds, rfl, hfound⟩

theorem EndsAtNul.ne_nil {w : List Char} (h : EndsAtNul w cs) : w ≠ [] :=
  List.ne_nil_of_length_pos (Nat.lt_of_lt_of_le Nat.zero_lt_two h.long)

theorem EndsAtNul.exists_cons {c : Char} {w : List Char} (h : EndsAtNul w (c :: cs)) :
    ∃ v, w = c :: v ∧ v ++ ['\x00'] <+: cs ∧ v ≠ [] := by
  obtain ⟨hstop, hlong, -⟩ := h
  cases w with
  | nil => cases hlong
  | cons b v =>
    rw [List.cons_append, List.cons_prefix_cons] at hstop
    refine ⟨v, by rw [hstop.1], hstop.2, ?_⟩
    rintro rfl
    exact Nat.not_succ_le_self 1 hlong

theorem readNext_zero_before (colons : Bool)
    (h : readNext 0 colons (cs ++ '+' :: more) = some (values, micro, false)) :
    ∃ w, EndsAtNul w cs ∧ readNext 0 colons w = some (values, micro, false) := by
  obtain ⟨⟨m, leftover⟩, hfraction, hvalues⟩ := Option.map_eq_some_iff.1 h
  cases hvalues
  obtain ⟨w, hw, hread⟩ := readFraction_before hfraction
  exact ⟨w, hw, congrArg (Option.map _) hread⟩

section

variable (fields : Nat) (hnext : ∀ (colons : Bool) {cs : List Char} {values : List Nat},
  readNext fields colons (cs ++ '+' :: more) = some (values, micro, false) →
    ∃ w, EndsAtNul w cs ∧ readNext fields colons w = some (values, micro, false))
include hnext

theorem readBehind_before {colons : Bool} {c : Char}
    (h : readBehind fields colons c (cs ++ '+' :: more) = some (values, micro, false)) :
    ∃ w, w ++ ['\x00'] <+: cs ∧ w ≠ [] ∧ 'T' ∉ c :: w ∧
      readBehind fields colons c w = some (values, micro, false) := by
  have hmark : c ≠ 'T' → ∀ {w : List Char}, EndsAtNul w cs → 'T' ∉ c :: w := by
    intro hc w hw
    rw [List.mem_cons, not_or]
    exact ⟨hc.symm, hw.clean⟩
  unfold readBehind at h ⊢
  split_ifs at h ⊢ with hpoint hnone hcolons
  · obtain ⟨w, hw, hread⟩ := readNext_zero_before colons h
    have hc : c ≠ 'T' := by
      rintro rfl
      cases hpoint
    exact ⟨w, hw.stop, hw.ne_nil, hmark hc hw, hread⟩
  · obtain ⟨w, hw, hread⟩ := hnext colons h
    have hc : c ≠ 'T' := by
      rintro rfl
      rw [hcolons] at hnone
      exact hnone rfl
    exact ⟨w, hw.stop, hw.ne_nil, hmark hc hw, hread⟩
  · have hcons : readNext fields colons (c :: cs ++ '+' :: more) = some (values, micro, false) := h
    obtain ⟨w, hw, hread⟩ := hnext colons hcons
    obtain ⟨v, rfl, hstop, hv⟩ := hw.exists_cons
    exact ⟨v, hstop, hv, hw.clean, hread⟩

/-- If what follows a field ends at a NUL, so do the fields from that one on. -/
theorem readFields_step (hmore : more ≠ []) {colons : Option Bool}
    (h : readFields fields colons (cs ++ '+' :: more) = some (values, micro, false)) :
    ∃ w, EndsAtNul w cs ∧ readFields fields colons w = some (values, micro, false) := by
  obtain ⟨ds, c, rest, found, rfl, hds, rfl, hbehind⟩ := readFields_split hmore h
  obtain ⟨w, hstop, hw, hclean, hread⟩ := readBehind_before fields hnext hbehind
  refine ⟨ds ++ c :: w, ⟨?_, ?_, ?_⟩, ?_⟩
  · rw [List.append_assoc, List.cons_append, List.prefix_append_right_inj, List.cons_prefix_cons]
    exact ⟨rfl, hstop⟩
  · rw [List.length_append, hds.1]
    omega
  · rw [List.mem_append, not_or]
    exact ⟨hds.not_mem rfl, hclean⟩
  · rw [readFields_field hds fields colons c hw, hread]
    rfl

end

theorem readNext_before (hmore : more ≠ []) (fields : Nat) (colons : Bool)
    (h : readNext fields colons (cs ++ '+' :: more) = some (values, micro, false)) :
    ∃ w, EndsAtNul w cs ∧ readNext fields colons w = some (values, micro, false) := by
  induction fields generalizing colons cs values with
  | zero => exact readNext_zero_before colons h
  | succ fields ih => exact readFields_step fields (fun colons => ih colons) hmore h

/-! ### Clocks and offsets -/

theorem readClock_before (hmore : more ≠ []) {clock : Clock} (hleftover : clock.leftover = false)
    (h : readClock (cs ++ '+' :: more) = some clock) :
    ∃ w, EndsAtNul w cs ∧ readClock w = some clock := by
  obtain ⟨⟨values, micro, leftover⟩, hfields, hclock⟩ := Option.bind_eq_some_iff.1 h
  cases hclock
  obtain rfl : leftover = false := hleftover
  obtain ⟨w, hw, hread⟩ :=
    readFields_step 2 (fun colons => readNext_before hmore 2 colons) hmore hfields
  refine ⟨w, hw, ?_⟩
  rw [readClock, hread]
  rfl

/-- An offset in front of a `+` is UTC, or it ends at a NUL. -/
theorem readOffset_before (hmore : more ≠ []) {sign : Char}
    (h : readOffset (sign :: (cs ++ '+' :: more)) = some o) :
    o = .utc ∨ ∃ w, EndsAtNul w cs ∧ readOffset (sign :: w) = some o := by
  unfold readOffset at h
  split at h
  · split_ifs at h
    exact .inl (Option.some.inj h).symm
  · rename_i hsign hcons
    cases hcons
    have hzulu : sign ≠ 'Z' := hsign
    obtain ⟨clock, hclock, h⟩ := Option.bind_eq_some_iff.1 h
    dsimp only at h
    split_ifs at h with hleftover hzero
    · exact .inl (Option.some.inj h).symm
    · obtain ⟨w, hw, hread⟩ := readClock_before hmore (eq_false_of_ne_true hleftover) hclock
      refine .inr ⟨w, hw, ?_⟩
      rw [readOffset]
      · simp only [hread, Option.bind_eq_bind, Option.bind_some, if_neg hleftover, if_neg hzero]
        exact h
      · exact hzulu
  · cases h

end Extraction.Calendar.Iso
