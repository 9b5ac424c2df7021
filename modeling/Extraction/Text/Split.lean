/-!
Cutting texts: at every occurrence of one character, or behind a part that they start with.
-/

namespace Extraction.Text

/-- The pieces between the occurrences of `sep`: always one more than there are occurrences. -/
def splitChars (sep : Char) : List Char → List (List Char)
  | [] => [[]]
  | c :: cs =>
    if c = sep then [] :: splitChars sep cs
    else
      match splitChars sep cs with
      | [] => [[c]]
      | piece :: pieces => (c :: piece) :: pieces

theorem splitChars_ne_nil (sep : Char) (cs : List Char) : splitChars sep cs ≠ [] := by
  cases cs with
  | nil => simp [splitChars]
  | cons c cs =>
    simp only [splitChars]
    split
    · simp
    · split <;> simp

theorem splitChars_self {sep : Char} {cs : List Char} (h : sep ∉ cs) :
    splitChars sep cs = [cs] := by
  induction cs with
  | nil => rfl
  | cons c cs ih =>
    rw [List.mem_cons, not_or] at h
    rw [splitChars, if_neg (Ne.symm h.1), ih h.2]

theorem splitChars_append {sep : Char} {cs : List Char} (h : sep ∉ cs) (rest : List Char) :
    splitChars sep (cs ++ sep :: rest) = cs :: splitChars sep rest := by
  induction cs with
  | nil => rw [List.nil_append, splitChars, if_pos rfl]
  | cons c cs ih =>
    rw [List.mem_cons, not_or] at h
    rw [List.cons_append, splitChars, if_neg (Ne.symm h.1), ih h.2]

/-- The first piece takes up a character in front that does not separate. -/
theorem exists_splitChars_cons {sep c : Char} (h : c ≠ sep) (cs : List Char) :
    ∃ piece pieces, splitChars sep cs = piece :: pieces ∧
      splitChars sep (c :: cs) = (c :: piece) :: pieces := by
  obtain ⟨piece, pieces, hcs⟩ := List.exists_cons_of_ne_nil (splitChars_ne_nil sep cs)
  exact ⟨piece, pieces, hcs, by rw [splitChars, if_neg h, hcs]⟩

theorem not_mem_of_mem_splitChars {sep : Char} {cs piece : List Char}
    (h : piece ∈ splitChars sep cs) : sep ∉ piece := by
  induction cs generalizing piece with
  | nil =>
    rw [List.mem_singleton.1 h]
    exact List.not_mem_nil
  | cons c cs ih =>
    by_cases hc : c = sep
    · rw [splitChars, if_pos hc, List.mem_cons] at h
      rcases h with rfl | h
      · exact List.not_mem_nil
      · exact ih h
    · obtain ⟨first, pieces, hcs, hsplit⟩ := exists_splitChars_cons hc cs
      rw [hcs] at ih
      rw [hsplit, List.mem_cons] at h
      rcases h with rfl | h
      · rw [List.mem_cons, not_or]
        exact ⟨Ne.symm hc, ih List.mem_cons_self⟩
      · exact ih (List.mem_cons_of_mem _ h)

/-- The pieces with the separator between them are the text. -/
theorem intercalate_splitChars (sep : Char) (cs : List Char) :
    [sep].intercalate (splitChars sep cs) = cs := by
  induction cs with
  | nil => rfl
  | cons c cs ih =>
    by_cases hc : c = sep
    · rw [splitChars, if_pos hc, List.intercalate_cons_of_ne_nil (splitChars_ne_nil sep cs), ih, hc]
      rfl
    · obtain ⟨piece, pieces, hcs, hsplit⟩ := exists_splitChars_cons hc cs
      rw [hcs] at ih
      rw [hsplit, ← ih]
      cases pieces <;> simp

def splitAt (sep : Char) (s : String) : List String :=
  (splitChars sep s.toList).map String.ofList

/-- The text behind a part that it starts with. -/
def after? : (part : List Char) → List Char → Option (List Char)
  | [], cs => some cs
  | p :: part, c :: cs => if p = c then after? part cs else none
  | _ :: _, [] => none

theorem after?_append (part rest : List Char) : after? part (part ++ rest) = some rest := by
  induction part with
  | nil => rfl
  | cons c part ih => rw [List.cons_append, after?, if_pos rfl, ih]

theorem eq_append_of_after? {part cs rest : List Char} (h : after? part cs = some rest) :
    cs = part ++ rest := by
  induction part generalizing cs with
  | nil => exact Option.some.inj h
  | cons c part ih =>
    cases cs with
    | nil => cases h
    | cons d cs =>
      rw [after?] at h
      split at h
      · rename_i hcd
        rw [hcd, ih h, List.cons_append]
      · cases h

/-- Does `part` occur in the text, at any place? -/
def containsChars (part : List Char) : List Char → Bool
  | [] => part.isEmpty
  | c :: cs => part.isPrefixOf (c :: cs) || containsChars part cs

theorem containsChars_iff {part cs : List Char} : containsChars part cs = true ↔ part <:+: cs := by
  induction cs with
  | nil => rw [containsChars, List.isEmpty_iff, List.infix_nil]
  | cons c cs ih =>
    rw [containsChars, Bool.or_eq_true, List.isPrefixOf_iff_prefix, ih, List.infix_cons_iff]

end Extraction.Text
