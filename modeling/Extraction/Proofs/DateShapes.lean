import Extraction.Proofs.IsoChars

/-!
The shapes of dates in text. A date is read from fields of digits, with a `W` before a week and with
hyphens between the fields or without; nothing behind them matters. Where a date in front of a time
ends follows from its shape.
-/

namespace Extraction.Calendar.Iso

open Number

/-- A field of so many digits. -/
def IsField (count : Nat) (ds : List Char) : Prop :=
  ds.length = count ∧ ∀ c ∈ ds, c.isDigit = true

/-- Digits are read exactly if they stand there. -/
theorem readDigits_eq_some_iff {acc count v : Nat} {cs rest : List Char} :
    readDigits acc count cs = some (v, rest) ↔
      ∃ ds, cs = ds ++ rest ∧ IsField count ds ∧ v = Nat.ofDigitChars 10 ds acc := by
  constructor
  · intro h
    induction count generalizing acc cs with
    | zero =>
      cases h
      exact ⟨[], rfl, ⟨rfl, List.forall_mem_nil _⟩, rfl⟩
    | succ count ih =>
      cases cs with
      | nil => cases h
      | cons c cs =>
        rw [readDigits] at h
        split at h
        · rename_i hc
          obtain ⟨ds, rfl, ⟨rfl, hds⟩, rfl⟩ := ih h
          exact ⟨c :: ds, rfl, ⟨rfl, List.forall_mem_cons.2 ⟨hc, hds⟩⟩, rfl⟩
        · cases h
  · rintro ⟨ds, rfl, ⟨rfl, hds⟩, rfl⟩
    exact readDigits_append hds acc rest

theorem IsField.readDigits {count : Nat} {ds : List Char} (h : IsField count ds) (acc : Nat)
    (rest : List Char) :
    readDigits acc count (ds ++ rest) = some (Nat.ofDigitChars 10 ds acc, rest) :=
  readDigits_eq_some_iff.2 ⟨ds, rfl, h, rfl⟩

theorem ne_of_isDigit {c mark : Char} (hc : c.isDigit = true) (hmark : mark.isDigit = false) :
    c ≠ mark := by
  rintro rfl
  rw [hc] at hmark
  cases hmark

theorem IsField.not_mem {count : Nat} {ds : List Char} {mark : Char} (h : IsField count ds)
    (hmark : mark.isDigit = false) : mark ∉ ds := fun hmem =>
  ne_of_isDigit (h.2 mark hmem) hmark rfl

/-- A month does not begin like a hyphen or a week. -/
theorem IsField.exists_two {ds : List Char} (h : IsField 2 ds) :
    ∃ a b, ds = [a, b] ∧ a ≠ '-' ∧ a ≠ 'W' := by
  obtain ⟨a, b, rfl⟩ := List.length_eq_two.1 h.1
  have ha : a.isDigit = true := h.2 a List.mem_cons_self
  exact ⟨a, b, rfl, ne_of_isDigit ha rfl, ne_of_isDigit ha rfl⟩

theorem bind_readDigits_eq_some_iff {α : Type} {acc count : Nat} {cs : List Char}
    {next : Nat × List Char → Option α} {a : α} :
    (readDigits acc count cs >>= next) = some a ↔ ∃ ds rest, cs = ds ++ rest ∧ IsField count ds ∧
      next (Nat.ofDigitChars 10 ds acc, rest) = some a := by
  constructor
  · intro h
    obtain ⟨⟨v, rest⟩, hread, hnext⟩ := Option.bind_eq_some_iff.1 h
    obtain ⟨ds, hcs, hds, rfl⟩ := readDigits_eq_some_iff.1 hread
    exact ⟨ds, rest, hcs, hds, hnext⟩
  · rintro ⟨ds, rest, rfl, hds, hnext⟩
    rw [hds.readDigits]
    exact hnext

/-- What stands between the fields of a date: a hyphen in the extended forms. -/
def joint (extended : Bool) : List Char :=
  if extended then ['-'] else []

theorem hyphen_joint (extended : Bool) (rest : List Char) :
    hyphen extended (joint extended ++ rest) = some rest := by
  cases extended <;> rfl

theorem bind_hyphen_eq_some_iff {α : Type} {extended : Bool} {cs : List Char}
    {next : List Char → Option α} {a : α} :
    (hyphen extended cs >>= next) = some a ↔
      ∃ rest, cs = joint extended ++ rest ∧ next rest = some a := by
  constructor
  · intro h
    obtain ⟨rest, hrest, hnext⟩ := Option.bind_eq_some_iff.1 h
    refine ⟨rest, ?_, hnext⟩
    unfold hyphen at hrest
    split at hrest
    · rename_i hextended
      rw [hextended]
      split at hrest
      · cases hrest
        rfl
      · cases hrest
    · rename_i hextended
      rw [eq_false_of_ne_true hextended]
      cases hrest
      rfl
  · rintro ⟨rest, rfl, hnext⟩
    rw [hyphen_joint]
    exact hnext

/-- The characters that a date of some length is read from. The length matters for weeks only. -/
inductive DateShape (length : Nat) : List Char → Prop
  | calendar (extended : Bool) {year month day : List Char} (hyear : IsField 4 year)
    (hmonth : IsField 2 month) (hday : IsField 2 day) :
    DateShape length (year ++ joint extended ++ month ++ joint extended ++ day)
  | week (extended : Bool) {year week : List Char} (hyear : IsField 4 year) (hweek : IsField 2 week)
    (hlength : ¬(if extended then 8 else 7) < length) :
    DateShape length (year ++ joint extended ++ 'W' :: week)
  | weekday (extended : Bool) {year week day : List Char} (hyear : IsField 4 year)
    (hweek : IsField 2 week) (hday : IsField 1 day)
    (hlength : (if extended then 8 else 7) < length) :
    DateShape length (year ++ joint extended ++ 'W' :: (week ++ joint extended ++ day))

variable {length : Nat} {cs w rest : List Char} {d : Date}

/-- A date is read from a text that starts with one of the shapes. -/
theorem readDate_eq_some (hread : readDate length cs = some d) :
    ∃ w, w <+: cs ∧ DateShape length w := by
  obtain ⟨year, rest, rfl, hyear, h⟩ := bind_readDigits_eq_some_iff.1 hread
  dsimp only at h
  generalize (rest.head? == some '-') = extended at h
  rw [bind_hyphen_eq_some_iff] at h
  obtain ⟨rest, rfl, h⟩ := h
  split at h
  · rw [bind_readDigits_eq_some_iff] at h
    obtain ⟨week, rest, rfl, hweek, h⟩ := h
    by_cases hlength : (if extended then 8 else 7) < length
    · rw [if_pos hlength, bind_hyphen_eq_some_iff] at h
      obtain ⟨rest, rfl, h⟩ := h
      rw [bind_readDigits_eq_some_iff] at h
      obtain ⟨day, rest, rfl, hday, h⟩ := h
      exact ⟨_, ⟨rest, by simp⟩, .weekday extended hyear hweek hday hlength⟩
    · exact ⟨_, ⟨rest, by simp⟩, .week extended hyear hweek hlength⟩
  · rw [bind_readDigits_eq_some_iff] at h
    obtain ⟨month, rest, rfl, hmonth, h⟩ := h
    rw [bind_hyphen_eq_some_iff] at h
    obtain ⟨rest, rfl, h⟩ := h
    rw [bind_readDigits_eq_some_iff] at h
    obtain ⟨day, rest, rfl, hday, h⟩ := h
    exact ⟨_, ⟨rest, by simp⟩, .calendar extended hyear hmonth hday⟩

theorem head_joint {c : Char} (hc : c ≠ '-') (extended : Bool) (rest : List Char) :
    ((joint extended ++ c :: rest).head? == some '-') = extended := by
  cases extended <;> simp [joint, hc]

/-- What stands behind a date does not matter to it. -/
theorem DateShape.readDate_append (h : DateShape length w) (rest : List Char) :
    readDate length (w ++ rest) = readDate length w := by
  suffices hread : ∃ r, ∀ rest, readDate length (w ++ rest) = r by
    obtain ⟨r, hr⟩ := hread
    rw [hr, ← hr [], List.append_nil]
  cases h with
  | calendar extended hyear hmonth hday =>
    rename_i year month day
    refine ⟨Date.ofYmd? (Nat.ofDigitChars 10 year 0) (Nat.ofDigitChars 10 month 0)
      (Nat.ofDigitChars 10 day 0), fun rest => ?_⟩
    obtain ⟨a, b, rfl, hhyphen, hweek⟩ := hmonth.exists_two
    have hmonth := hmonth.readDigits 0 (joint extended ++ (day ++ rest))
    simp only [List.cons_append, List.nil_append] at hmonth
    simp only [readDate, List.append_assoc, List.cons_append, List.nil_append, hyear.readDigits,
      head_joint hhyphen, hyphen_joint, Option.bind_eq_bind, Option.bind_some]
    split
    · rename_i hcons
      cases hcons
      exact absurd rfl hweek
    · simp only [hmonth, hyphen_joint, hday.readDigits, Option.bind_some]
  | week extended hyear hweek hlength =>
    rename_i year week
    refine ⟨Date.ofWeek? (Nat.ofDigitChars 10 year 0) (Nat.ofDigitChars 10 week 0) 1,
      fun rest => ?_⟩
    have hhead := head_joint (show 'W' ≠ '-' by decide) extended (week ++ rest)
    simp only [readDate, List.append_assoc, List.cons_append, hyear.readDigits, hhead, hyphen_joint,
      hweek.readDigits, if_neg hlength, Option.bind_eq_bind, Option.bind_some]
  | weekday extended hyear hweek hday hlength =>
    rename_i year week day
    refine ⟨Date.ofWeek? (Nat.ofDigitChars 10 year 0) (Nat.ofDigitChars 10 week 0)
      (Nat.ofDigitChars 10 day 0), fun rest => ?_⟩
    have hhead := head_joint (show 'W' ≠ '-' by decide) extended
      (week ++ (joint extended ++ (day ++ rest)))
    simp only [readDate, List.append_assoc, List.cons_append, hyear.readDigits, hhead, hyphen_joint,
      hweek.readDigits, if_pos hlength, hday.readDigits, Option.bind_eq_bind, Option.bind_some]

/-! ### The characters of a date -/

/-- The characters of a date are digits, hyphens and the letter of the week. -/
theorem DateShape.mem_cases (h : DateShape length w) :
    ∀ c ∈ w, c.isDigit = true ∨ c = '-' ∨ c = 'W' := by
  have hjoint : ∀ extended, ∀ c ∈ joint extended, c.isDigit = true ∨ c = '-' ∨ c = 'W' := by
    intro extended
    cases extended <;> simp [joint]
  have hfield : ∀ {count : Nat} {ds : List Char}, IsField count ds →
      ∀ c ∈ ds, c.isDigit = true ∨ c = '-' ∨ c = 'W' := fun hds c hc => .inl (hds.2 c hc)
  cases h with
  | calendar extended hyear hmonth hday =>
    simp only [List.forall_mem_append]
    exact ⟨⟨⟨⟨hfield hyear, hjoint _⟩, hfield hmonth⟩, hjoint _⟩, hfield hday⟩
  | week extended hyear hweek hlength =>
    simp only [List.forall_mem_append, List.forall_mem_cons]
    exact ⟨⟨hfield hyear, hjoint _⟩, .inr (.inr trivial), hfield hweek⟩
  | weekday extended hyear hweek hday hlength =>
    simp only [List.forall_mem_append, List.forall_mem_cons]
    exact ⟨⟨hfield hyear, hjoint _⟩, .inr (.inr trivial), ⟨hfield hweek, hjoint _⟩, hfield hday⟩

/-- A mark that no date holds. -/
def Outside (mark : Char) : Prop :=
  mark.isDigit = false ∧ mark ≠ '-' ∧ mark ≠ 'W'

instance (mark : Char) : Decidable (Outside mark) :=
  inferInstanceAs (Decidable (_ ∧ _))

theorem outside_plus : Outside '+' := by decide

theorem DateShape.not_mem {mark : Char} (h : DateShape length w) (hmark : Outside mark) :
    mark ∉ w := by
  intro hmem
  rcases h.mem_cases mark hmem with hdigit | hhyphen | hweek
  · exact ne_of_isDigit hdigit hmark.1 rfl
  · exact hmark.2.1 hhyphen
  · exact hmark.2.2 hweek

theorem prefix_of_prefix_append {mark : Char} (h : w <+: cs ++ mark :: rest) (hmark : mark ∉ w) :
    w <+: cs := by
  have hcs : cs ++ [mark] <+: cs ++ mark :: rest := ⟨rest, by simp⟩
  rcases Nat.lt_or_ge cs.length w.length with hlong | hshort
  · have hmem : cs ++ [mark] <+: w :=
      List.prefix_of_prefix_length_le hcs h (by simpa using Nat.succ_le_of_lt hlong)
    exact absurd (hmem.subset (by simp)) hmark
  · exact List.prefix_of_prefix_length_le h (List.prefix_append cs _) hshort

/-- A date in front of a mark is read from there alone. -/
theorem readDate_before {mark : Char} (hmark : Outside mark)
    (hread : readDate length (cs ++ mark :: rest) = some d) :
    ∃ w, w <+: cs ∧ DateShape length w ∧ readDate length w = some d := by
  obtain ⟨w, hstart, hshape⟩ := readDate_eq_some hread
  refine ⟨w, prefix_of_prefix_append hstart (hshape.not_mem hmark), hshape, ?_⟩
  obtain ⟨rest', hrest⟩ := hstart
  rwa [← hrest, hshape.readDate_append] at hread

/-! ### Where a date ends -/

theorem length_le_octetCount (cs : List Char) : cs.length ≤ octetCount cs := by
  induction cs with
  | nil => exact Nat.le_refl 0
  | cons c cs ih =>
    have hone := Char.utf8Size_pos c
    rw [octetCount_cons, List.length_cons]
    omega

theorem dateLength_cases (h : dateLength cs = some length) :
    octetCount cs = 7 ∧ length = 7 ∨
    cs[4]? = some '-' ∧ cs[5]? ≠ some 'W' ∧ length = 10 ∨
    cs[4]? = some '-' ∧ cs[5]? = some 'W' ∧ (length = 8 ∨ length = 10) ∨
    cs[4]? = some 'W' ∧ (length = 7 ∨ length = 8) ∨
    cs[4]? ≠ some '-' ∧ cs[4]? ≠ some 'W' ∧ length = 8 := by
  simp only [dateLength, beq_iff_eq, bne_iff_ne] at h
  split_ifs at h <;> simp_all
  omega

/-- A date takes the place that is made for it in front of a time. -/
theorem DateShape.length_eq (h : DateShape length w) (hstart : w <+: cs)
    (hplace : dateLength cs = some length) : w.length = length := by
  have hoctets := Nat.le_trans hstart.length_le (length_le_octetCount cs)
  obtain ⟨rest, rfl⟩ := hstart
  have hcases := dateLength_cases hplace
  cases h with
  | calendar extended hyear hmonth hday =>
    obtain ⟨a, b, rfl, hhyphen, hweek⟩ := hmonth.exists_two
    cases extended <;>
      simp [joint, List.getElem?_append_right, hyear.1, hday.1, hhyphen, hweek] at hoctets hcases ⊢
    all_goals omega
  | week extended hyear hweek hlength =>
    cases extended <;>
      simp [joint, List.getElem?_append_right, hyear.1, hweek.1] at hoctets hcases hlength ⊢
    all_goals omega
  | weekday extended hyear hweek hday hlength =>
    cases extended <;>
      simp [joint, List.getElem?_append_right, hyear.1, hweek.1, hday.1] at hoctets hcases hlength ⊢
    all_goals omega

theorem drop_basicWeek {year week : List Char} (hyear : IsField 4 year) (hweek : IsField 2 week)
    (rest : List Char) : (year ++ 'W' :: (week ++ rest)).drop 7 = rest := by
  have hlength : (year ++ 'W' :: week).length = 7 := by simp [hyear.1, hweek.1]
  have hsplit : year ++ 'W' :: (week ++ rest) = (year ++ 'W' :: week) ++ rest := by simp
  rw [hsplit, List.drop_left' hlength]

/-- The end of a date is found unless a digit or a hyphen follows. -/
theorem DateShape.dateLength_append (h : DateShape w.length w)
    (hrest : ∀ c ∈ rest.head?, c.isDigit = false ∧ c ≠ '-') :
    dateLength (w ++ rest) = some w.length := by
  have hoctets := length_le_octetCount (w ++ rest)
  obtain ⟨hhyphen, hdigit, hrun⟩ : rest[0]? ≠ some '-' ∧ rest[0]?.any Char.isDigit = false ∧
      rest.takeWhile Char.isDigit = [] := by
    cases rest with
    | nil => exact ⟨by simp, rfl, rfl⟩
    | cons c rest =>
      obtain ⟨hdigit, hhyphen⟩ := hrest c rfl
      exact ⟨fun hc => hhyphen (Option.some.inj hc), hdigit,
        List.takeWhile_cons_of_neg (ne_true_of_eq_false hdigit)⟩
  generalize hw : w.length = length at *
  cases h with
  | calendar extended hyear hmonth hday =>
    obtain ⟨a, b, rfl, hne⟩ := hmonth.exists_two
    cases extended <;>
      simp [dateLength, joint, List.getElem?_append_right, hyear.1, hday.1, hne] at hoctets hw ⊢ <;>
      rw [if_neg (by omega), hw]
  | week extended hyear hweek hlength =>
    cases extended with
    | true =>
      simp [dateLength, joint, List.getElem?_append_right, hyear.1, hweek.1, hhyphen]
        at hoctets hw ⊢
      rw [if_neg (by omega), hw]
    | false =>
      simp [dateLength, joint, hyear.1, hweek.1, drop_basicWeek hyear hweek, hrun] at hw ⊢
      rw [hw]
  | weekday extended hyear hweek hday hlength =>
    cases extended with
    | true =>
      simp [dateLength, joint, List.getElem?_append_right, hyear.1, hweek.1, hday.1, hdigit]
        at hoctets hw ⊢
      rw [if_neg (by omega), if_neg (by omega), hw]
    | false =>
      obtain ⟨day, rfl⟩ := List.length_eq_one_iff.1 hday.1
      have hdrop := drop_basicWeek hyear hweek (day :: rest)
      have hday : day.isDigit = true := hday.2 day List.mem_cons_self
      simp [dateLength, joint, hyear.1, hweek.1, hdrop, hday, hrun] at hoctets hw ⊢
      rw [if_neg (by omega), hw]

/-- So is that of a date of eight characters without hyphens, even behind one digit more. -/
theorem DateShape.dateLength_basic {x c : Char} (h : DateShape 8 w) (hw : w.length = 8)
    (hhyphen : '-' ∉ w) (hdigit : c.isDigit = false) (rest : List Char) :
    dateLength (w ++ x :: c :: rest) = some 8 := by
  have hoctets := length_le_octetCount (w ++ x :: c :: rest)
  cases h with
  | calendar extended hyear hmonth hday =>
    cases extended with
    | true => exact absurd (by simp [joint]) hhyphen
    | false =>
      obtain ⟨a, b, rfl, hne⟩ := hmonth.exists_two
      simp [dateLength, joint, hyear.1, hday.1, hne] at hoctets ⊢
      omega
  | week extended hyear hweek hlength =>
    cases extended with
    | true => exact absurd (by simp [joint]) hhyphen
    | false => exact absurd hlength (by decide)
  | weekday extended hyear hweek hday hlength =>
    cases extended with
    | true => exact absurd (by simp [joint]) hhyphen
    | false =>
      obtain ⟨day, rfl⟩ := List.length_eq_one_iff.1 hday.1
      have hdrop := drop_basicWeek hyear hweek (day :: x :: c :: rest)
      have hday : day.isDigit = true := hday.2 day List.mem_cons_self
      -- the run of digits behind the week is the weekday alone, or the weekday and one more
      cases hx : x.isDigit <;>
        simp [dateLength, joint, hyear.1, hweek.1, hdrop, hday, hx, hdigit] at hoctets ⊢ <;>
        omega

/-- Without hyphens, any length beyond that of a week reads the same. -/
theorem readDate_eq_of_basic {m n : Nat} (hm : 7 < m) (hn : 7 < n) (hhyphen : '-' ∉ cs) :
    readDate m cs = readDate n cs := by
  refine Option.bind_congr ?_
  rintro ⟨year, rest⟩ hread
  obtain ⟨ds, rfl, -, -⟩ := readDigits_eq_some_iff.1 hread
  have hhead : (rest.head? == some '-') = false := by
    rw [beq_eq_false_iff_ne]
    intro hrest
    exact hhyphen (List.mem_append_right _ (List.mem_of_head? hrest))
  simp only [hhead, Bool.false_eq_true, if_false, hm, hn, if_true]

theorem DateShape.length_cases (h : DateShape length w) :
    w.length = 7 ∧ length ≤ 7 ∨ w.length = 8 ∧ ('-' ∈ w → length ≤ 8) ∨ w.length = 10 := by
  have hno : ∀ {count : Nat} {ds : List Char}, IsField count ds → '-' ∉ ds :=
    fun hds => hds.not_mem rfl
  cases h with
  | calendar extended hyear hmonth hday =>
    cases extended <;>
      simp [joint, hyear.1, hmonth.1, hday.1, hno hyear, hno hmonth, hno hday]
  | week extended hyear hweek hlength =>
    cases extended <;> simp [joint, hyear.1, hweek.1] at hlength ⊢ <;> simp [hlength]
  | weekday extended hyear hweek hday hlength =>
    cases extended <;> simp [joint, hyear.1, hweek.1, hday.1, hno hyear, hno hweek, hno hday]

end Extraction.Calendar.Iso
