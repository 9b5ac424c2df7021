import Extraction.Verdict

/-!
Error maps group the messages of notes by path. Each path stands in the map once, and under it stand
the messages of exactly the notes with that path, in their order.
-/

namespace Extraction

/-- Of two beginnings of a text one is a beginning of the other. -/
theorem not_isPrefix_append {start opening : String} (hlong : ¬start.toList <+: opening.toList)
    (hshort : ¬opening.toList <+: start.toList) (rest : String) :
    ¬start.toList <+: (opening ++ rest).toList := by
  intro hstart
  rw [String.toList_append] at hstart
  rcases List.prefix_or_prefix_of_prefix hstart (List.prefix_append _ _) with h | h
  · exact hlong h
  · exact hshort h

namespace Violation

/-- How the message of a violation begins. -/
def opening : Violation → String
  | .expected _ _ => "Expected "
  | .notListed _ _ => "Invalid enum value. Expected "
  | .invalidDate => "Invalid date"
  | .unrecognizedKey _ => "Unrecognized key '"

theorem exists_message (x : Violation) : ∃ rest, x.message = x.opening ++ rest := by
  cases x with
  | expected label received =>
    refine ⟨label ++ (", received " ++ received), ?_⟩
    rw [← String.append_assoc, ← String.append_assoc]
    rfl
  | notListed label received =>
    refine ⟨label ++ (", received '" ++ (received ++ "'")), ?_⟩
    rw [← String.append_assoc, ← String.append_assoc, ← String.append_assoc]
    rfl
  | invalidDate =>
    refine ⟨"", ?_⟩
    rw [String.append_empty]
    rfl
  | unrecognizedKey name =>
    refine ⟨name ++ "'", ?_⟩
    rw [← String.append_assoc]
    rfl

theorem opening_isPrefix (x : Violation) : x.opening.toList <+: x.message.toList := by
  obtain ⟨rest, hrest⟩ := x.exists_message
  rw [hrest, String.toList_append]
  exact List.prefix_append _ _

theorem not_isPrefix_message {start : String} {x : Violation}
    (hlong : ¬start.toList <+: x.opening.toList) (hshort : ¬x.opening.toList <+: start.toList) :
    ¬start.toList <+: x.message.toList := by
  obtain ⟨rest, hrest⟩ := x.exists_message
  rw [hrest]
  exact not_isPrefix_append hlong hshort rest

end Violation

namespace ErrorMap

/-- The messages under a path; none if the path is not in the map. -/
def messagesAt (path : String) : ErrorMap → List String
  | [] => []
  | (p, messages) :: rest => if p = path then messages else messagesAt path rest

/-- The messages of the notes whose location has a path. -/
def messagesOf (path : String) (notes : List Note) : List String :=
  (notes.filter fun n => n.location.path = path).map fun n => n.violation.message

theorem messagesOf_cons (path : String) (n : Note) (rest : List Note) :
    messagesOf path (n :: rest) =
      (if n.location.path = path then [n.violation.message] else []) ++ messagesOf path rest := by
  by_cases h : n.location.path = path <;> simp [messagesOf, h]

/-- Paths are different, and under each of them is a message. -/
structure Grouped (errors : ErrorMap) : Prop where
  nodup : (errors.map Prod.fst).Nodup
  nonempty : ∀ entry ∈ errors, entry.2 ≠ []

theorem messagesAt_add (path p message : String) (errors : ErrorMap) :
    (errors.add p message).messagesAt path =
      errors.messagesAt path ++ if p = path then [message] else [] := by
  induction errors with
  | nil => by_cases h : p = path <;> simp [add, messagesAt, h]
  | cons entry rest ih =>
    obtain ⟨q, messages⟩ := entry
    by_cases hq : q = p
    · subst hq
      by_cases h : q = path <;> simp [add, messagesAt, h]
    · by_cases h : q = path
      · have hp : p ≠ path := fun hp => hq (h.trans hp.symm)
        simp only [add, if_neg hq, messagesAt, if_pos h, if_neg hp, List.append_nil]
      · simp [add, messagesAt, hq, h, ih]

theorem mem_keys_add {path p message : String} {errors : ErrorMap} :
    p ∈ (errors.add path message).map Prod.fst ↔ p = path ∨ p ∈ errors.map Prod.fst := by
  induction errors with
  | nil => simp [add]
  | cons entry rest ih =>
    obtain ⟨q, messages⟩ := entry
    by_cases hq : q = path
    · simp [add, hq]
    · simp only [add, if_neg hq, List.map_cons, List.mem_cons, ih]
      grind

theorem Grouped.add {errors : ErrorMap} (h : errors.Grouped) (path message : String) :
    (errors.add path message).Grouped := by
  obtain ⟨nodup, nonempty⟩ := h
  induction errors with
  | nil => exact ⟨by simp [ErrorMap.add], by simp [ErrorMap.add]⟩
  | cons entry rest ih =>
    obtain ⟨q, messages⟩ := entry
    simp only [List.map_cons, List.nodup_cons, List.forall_mem_cons] at nodup nonempty
    obtain ⟨hq, hrest⟩ := nodup
    obtain ⟨hmessages, hnonempty⟩ := nonempty
    by_cases hqp : q = path
    · simp only [ErrorMap.add, if_pos hqp]
      exact ⟨by simp [hq, hrest], by simpa using hnonempty⟩
    · obtain ⟨nodup', nonempty'⟩ := ih hrest hnonempty
      simp only [ErrorMap.add, if_neg hqp]
      constructor
      · rw [List.map_cons, List.nodup_cons, mem_keys_add, not_or]
        exact ⟨⟨hqp, hq⟩, nodup'⟩
      · rw [List.forall_mem_cons]
        exact ⟨hmessages, nonempty'⟩

theorem Grouped.mem_iff {errors : ErrorMap} (h : errors.Grouped) {path : String}
    {messages : List String} :
    (path, messages) ∈ errors ↔ messages ≠ [] ∧ messages = errors.messagesAt path := by
  obtain ⟨nodup, nonempty⟩ := h
  induction errors with
  | nil => simp [messagesAt]
  | cons entry rest ih =>
    obtain ⟨q, ms⟩ := entry
    simp only [List.map_cons, List.nodup_cons, List.forall_mem_cons] at nodup nonempty
    rw [List.mem_cons, ih nodup.2 nonempty.2, messagesAt]
    by_cases hq : q = path
    · subst hq
      -- the path stands in the map once, so only the first entry can hold its messages
      have habsent : ∀ messages, (q, messages) ∉ rest := fun messages hmem =>
        nodup.1 (List.mem_map_of_mem (f := Prod.fst) hmem)
      have hnone : ¬(messages ≠ [] ∧ messages = messagesAt q rest) := fun hrest =>
        habsent messages ((ih nodup.2 nonempty.2).2 hrest)
      rw [if_pos rfl, Prod.mk.injEq]
      constructor
      · rintro (⟨-, rfl⟩ | hrest)
        · exact ⟨nonempty.1, rfl⟩
        · exact absurd hrest hnone
      · rintro ⟨-, rfl⟩
        exact Or.inl ⟨rfl, rfl⟩
    · have hne : (path, messages) ≠ (q, ms) := fun h => hq (Prod.mk.inj h).1.symm
      rw [if_neg hq, or_iff_right hne]

theorem ofNotes_invariant (errors : ErrorMap) (h : errors.Grouped) (notes : List Note) :
    let added := notes.foldl (fun errors n => add n.location.path n.violation.message errors) errors
    added.Grouped ∧
      ∀ path, added.messagesAt path = errors.messagesAt path ++ messagesOf path notes := by
  induction notes generalizing errors with
  | nil => simpa [messagesOf] using h
  | cons n rest ih =>
    -- the induction is over the map as well: the first note changes it before the others are read
    obtain ⟨hgrouped, hmessages⟩ := ih _ (h.add n.location.path n.violation.message)
    refine ⟨hgrouped, fun path => ?_⟩
    rw [List.foldl_cons, hmessages path, messagesAt_add, List.append_assoc, messagesOf_cons]

theorem ofNotes_grouped (notes : List Note) : (ofNotes notes).Grouped :=
  (ofNotes_invariant [] ⟨by simp, by simp⟩ notes).1

theorem messagesAt_ofNotes (path : String) (notes : List Note) :
    (ofNotes notes).messagesAt path = messagesOf path notes :=
  (ofNotes_invariant [] ⟨by simp, by simp⟩ notes).2 path

/-- An entry of the map holds the messages of all notes with its path. -/
theorem mem_ofNotes_iff {notes : List Note} {path : String} {messages : List String} :
    (path, messages) ∈ ofNotes notes ↔ messages ≠ [] ∧ messages = messagesOf path notes := by
  rw [(ofNotes_grouped notes).mem_iff, messagesAt_ofNotes]

theorem ofNotes_eq_nil_iff {notes : List Note} : ofNotes notes = [] ↔ notes = [] := by
  constructor
  · intro h
    rcases notes with _ | ⟨n, rest⟩
    · rfl
    · have hmem : (n.location.path, messagesOf n.location.path (n :: rest)) ∈ ofNotes (n :: rest) :=
        mem_ofNotes_iff.2 ⟨by simp [messagesOf], rfl⟩
      rw [h] at hmem
      exact absurd hmem List.not_mem_nil
  · rintro rfl
    rfl

end ErrorMap

end Extraction
