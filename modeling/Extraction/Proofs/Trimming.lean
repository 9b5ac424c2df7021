import Extraction.Text.Blank
import Mathlib.Data.List.Basic
import Mathlib.Data.List.TakeWhile

/-!
Trimming. What is left of a text has no blank at either end, so nothing more is taken from it, and
blanks around a text do not change what is left.
-/

namespace Extraction.Text

/-- Neither the first nor the last character, if there is one, is a blank. -/
structure Trimmed (cs : List Char) : Prop where
  first : ∀ c ∈ cs.head?, isBlank c = false
  last : ∀ c ∈ cs.getLast?, isBlank c = false

variable {cs : List Char}

theorem dropWhile_isBlank_eq_self (h : ∀ c ∈ cs.head?, isBlank c = false) :
    cs.dropWhile isBlank = cs := by
  cases cs with
  | nil => rfl
  | cons c cs => rw [List.dropWhile_cons, h c rfl]; rfl

theorem trimRightChars_eq_self (h : ∀ c ∈ cs.getLast?, isBlank c = false) :
    trimRightChars cs = cs := by
  rw [trimRightChars, dropWhile_isBlank_eq_self, List.reverse_reverse]
  rwa [List.head?_reverse]

theorem Trimmed.trimChars_eq (h : Trimmed cs) : trimChars cs = cs := by
  rw [trimChars, dropWhile_isBlank_eq_self h.first, trimRightChars_eq_self h.last]

/-- Text without blanks is trimmed already. -/
theorem trimChars_eq_self (h : ∀ c ∈ cs, isBlank c = false) : trimChars cs = cs :=
  Trimmed.trimChars_eq ⟨fun c hc => h c (List.mem_of_mem_head? hc),
    fun c hc => h c (List.mem_of_mem_getLast? hc)⟩

/-! ### Blanks at the ends -/

theorem trimRightChars_append {blanks : List Char} (h : ∀ c ∈ blanks, isBlank c = true) :
    trimRightChars (cs ++ blanks) = trimRightChars cs := by
  have hreverse : ∀ c ∈ blanks.reverse, isBlank c = true := fun c hc => h c (List.mem_reverse.1 hc)
  rw [trimRightChars, List.reverse_append, List.dropWhile_append_of_pos hreverse, trimRightChars]

theorem trimChars_cons_of_blank {c : Char} (h : isBlank c = true) (cs : List Char) :
    trimChars (c :: cs) = trimChars cs := by
  rw [trimChars, List.dropWhile_cons_of_pos h, trimChars]

theorem trimChars_append {blanks : List Char} (h : ∀ c ∈ blanks, isBlank c = true) :
    trimChars (cs ++ blanks) = trimChars cs := by
  induction cs with
  | nil =>
    rw [List.nil_append, ← List.append_nil blanks, trimChars, List.dropWhile_append_of_pos h]
    rfl
  | cons c cs ih =>
    rw [List.cons_append]
    by_cases hc : isBlank c = true
    · rw [trimChars_cons_of_blank hc, trimChars_cons_of_blank hc, ih]
    · rw [trimChars, List.dropWhile_cons_of_neg hc, ← List.cons_append, trimRightChars_append h,
        trimChars, List.dropWhile_cons_of_neg hc]

/-- Of a text between blanks the text is left. -/
theorem Trimmed.trimChars_between (h : Trimmed cs) {before after : List Char}
    (hbefore : ∀ c ∈ before, isBlank c = true) (hafter : ∀ c ∈ after, isBlank c = true)
    (hne : cs ≠ []) : trimChars (before ++ cs ++ after) = cs := by
  have hfirst : ∀ c ∈ (cs ++ after).head?, isBlank c = false := by
    rw [List.head?_append_of_ne_nil _ hne]
    exact h.first
  rw [trimChars, List.append_assoc, List.dropWhile_append_of_pos hbefore,
    dropWhile_isBlank_eq_self hfirst, trimRightChars_append hafter, trimRightChars_eq_self h.last]

/-! ### What is left -/

theorem trimRightChars_isPrefix (cs : List Char) : trimRightChars cs <+: cs := by
  have h : trimRightChars cs <+: cs.reverse.reverse :=
    List.reverse_prefix.2 (List.dropWhile_suffix _)
  rwa [List.reverse_reverse] at h

theorem trimChars_isInfix (cs : List Char) : trimChars cs <:+: cs :=
  (trimRightChars_isPrefix _).isInfix.trans (List.dropWhile_suffix _).isInfix

theorem isBlank_head_dropWhile (cs : List Char) :
    ∀ c ∈ (cs.dropWhile isBlank).head?, isBlank c = false := by
  intro c hc
  have h := List.head?_dropWhile_not isBlank cs
  rw [Option.mem_def.1 hc] at h
  simpa using h

theorem trimmed_trimChars (cs : List Char) : Trimmed (trimChars cs) where
  first c hc := by
    -- the first character that is left was there before the right end was trimmed
    obtain ⟨rest, hrest⟩ := trimRightChars_isPrefix (cs.dropWhile isBlank)
    refine isBlank_head_dropWhile cs c ?_
    rw [← hrest, ← trimChars, Option.mem_def, List.head?_append, Option.mem_def.1 hc]
    rfl
  last c hc := by
    rw [trimChars, trimRightChars, List.getLast?_reverse] at hc
    exact isBlank_head_dropWhile _ c hc

/-- Nothing is left of blanks only, and of nothing else. -/
theorem trimChars_eq_nil_iff : trimChars cs = [] ↔ ∀ c ∈ cs, isBlank c = true := by
  constructor
  · intro h
    have hreverse : (cs.dropWhile isBlank).reverse.dropWhile isBlank = [] :=
      List.reverse_eq_nil_iff.1 h
    have hrest : cs.dropWhile isBlank = [] := by
      -- what the first trimming leaves starts with ink, which the second one would keep
      cases hcs : cs.dropWhile isBlank with
      | nil => rfl
      | cons c rest =>
        have hc : isBlank c = false := isBlank_head_dropWhile cs c (by rw [hcs]; rfl)
        rw [hcs, List.dropWhile_eq_nil_iff] at hreverse
        exact absurd (hreverse c (by simp)) (by simp [hc])
    exact List.dropWhile_eq_nil_iff.1 hrest
  · intro h
    rw [trimChars, List.dropWhile_eq_nil_iff.2 h]
    rfl

theorem isEmpty_trim (s : String) : (trim s).isEmpty = isBlankText s := by
  rw [Bool.eq_iff_iff, String.isEmpty_iff, isBlankText, List.all_eq_true, ← trimChars_eq_nil_iff,
    trim, String.ofList_eq_empty_iff]

theorem trim_trim (s : String) : trim (trim s) = trim s := by
  rw [trim, trim, String.toList_ofList, (trimmed_trimChars s.toList).trimChars_eq]

/-- Trimming that does not shorten a text leaves it as it is. -/
theorem trim_eq_self_of_length {s : String} (h : s.length ≤ (trim s).length) : trim s = s := by
  have hinfix := trimChars_isInfix s.toList
  rw [trim, String.length_ofList, ← String.length_toList] at h
  rw [trim, hinfix.sublist.eq_of_length_le h, String.ofList_toList]

end Extraction.Text
