import Extraction.Proofs.Conformance
import Extraction.Proofs.Trimming
import Extraction.Schema.TypeText

/-!
Type texts. What a text means is settled by its trimmed parts alone, and by whether a bar with a
space on both sides occurs in it. Texts joined by such bars are the literals of an enumeration that
takes exactly these texts.
-/

namespace Extraction.Schema

/-- The parts of a type text: what its bars separate, trimmed. -/
def parts (text : String) : List String :=
  (Text.splitAt '|' text).map Text.trim

/-- The parts that name a type or a literal. -/
def namedParts (text : String) : List String :=
  (parts text).filter (· ≠ "null")

/-! ### Tokens -/

namespace Token

theorem text_ofPart (part : String) : (ofPart part).text = part := by
  unfold ofPart
  split
  · exact Eq.symm ‹part = "null"›
  · split <;> rfl

/-- The type that a token names. -/
def base? : Token → Option BaseType
  | .type t _ => some t
  | _ => none

theorem base?_ofPart (part : String) : (ofPart part).base? = typeNamed? part := by
  unfold ofPart
  split
  · rename_i hnull
    rw [hnull]
    rfl
  · split <;> simp [base?, *]

theorem ofPart_eq_null_iff {part : String} : ofPart part = .null ↔ part = "null" := by
  unfold ofPart
  split
  · simp [*]
  · split <;> simp [*]

end Token

theorem tokens_eq_map (text : String) : tokens text = (parts text).map Token.ofPart := by
  rw [tokens, parts, List.map_map]
  rfl

/-- A token is null exactly if its part is. -/
theorem any_null_tokens (text : String) :
    (tokens text).any (· == .null) = decide ("null" ∈ parts text) := by
  rw [Bool.eq_iff_iff, List.any_eq_true, decide_eq_true_iff, tokens_eq_map]
  simp [Token.ofPart_eq_null_iff]

theorem filter_tokens (text : String) :
    (tokens text).filter (· != .null) = (namedParts text).map Token.ofPart := by
  rw [tokens_eq_map, namedParts, List.filter_map]
  congr 1
  apply List.filter_congr
  intro part _
  rw [Bool.eq_iff_iff]
  simp [Token.ofPart_eq_null_iff]

/-! ### Repeated texts -/

section Repeats

variable {seen texts : List String} {t : String}

theorem mem_withoutRepeats : t ∈ withoutRepeats seen texts ↔ t ∈ texts ∧ t ∉ seen := by
  induction texts generalizing seen with
  | nil => simp [withoutRepeats]
  | cons first rest ih =>
    by_cases hfirst : first ∈ seen
    · rw [withoutRepeats, if_pos hfirst, ih]
      grind
    · rw [withoutRepeats, if_neg hfirst, List.mem_cons, ih]
      grind

theorem nodup_withoutRepeats : (withoutRepeats seen texts).Nodup := by
  induction texts generalizing seen with
  | nil => exact List.nodup_nil
  | cons first rest ih =>
    by_cases hfirst : first ∈ seen
    · rw [withoutRepeats, if_pos hfirst]
      exact ih
    · rw [withoutRepeats, if_neg hfirst, List.nodup_cons, mem_withoutRepeats]
      exact ⟨fun h => h.2 List.mem_cons_self, ih⟩

theorem withoutRepeats_eq_self (h : texts.Nodup) (hseen : ∀ t ∈ texts, t ∉ seen) :
    withoutRepeats seen texts = texts := by
  induction texts generalizing seen with
  | nil => rfl
  | cons first rest ih =>
    rw [List.nodup_cons] at h
    rw [List.forall_mem_cons] at hseen
    rw [withoutRepeats, if_neg hseen.1, ih h.2]
    intro t ht
    rw [List.mem_cons, not_or]
    exact ⟨fun heq => h.1 (heq ▸ ht), hseen.2 t ht⟩

end Repeats

/-! ### Scalars -/

/-- Does a bar with a space on both sides stand between two named parts or more? -/
def Enumerates (text : String) : Prop :=
  " | ".toList <:+: text.toList ∧ 2 ≤ (namedParts text).length

theorem hasSpacedBar_iff {text : String} :
    hasSpacedBar text = true ↔ " | ".toList <:+: text.toList :=
  Text.containsChars_iff

namespace Scalar

/-- The literals of an enumeration are its named parts, each once. -/
theorem ofText_of_enumerates {text : String} (h : Enumerates text) :
    ofText text = ⟨.string, decide ("null" ∈ parts text),
      some (withoutRepeats [] (namedParts text))⟩ := by
  obtain ⟨hbar, hlength⟩ := h
  have htexts : ((namedParts text).map Token.ofPart).map Token.text = namedParts text := by
    rw [List.map_map]
    exact List.map_id'' Token.text_ofPart _
  rw [← htexts]
  unfold ofText
  rw [any_null_tokens, filter_tokens]
  rcases hnamed : namedParts text with _ | ⟨main, _ | ⟨second, others⟩⟩
  · simp [hnamed] at hlength
  · simp [hnamed] at hlength
  · simp [hasSpacedBar_iff.2 hbar]

theorem ofText_of_not_enumerates {text : String} (h : ¬Enumerates text) :
    ofText text = ⟨((namedParts text).head?.bind Token.typeNamed?).getD .any,
      decide ("null" ∈ parts text), none⟩ := by
  unfold ofText
  rw [any_null_tokens, filter_tokens]
  rcases hnamed : namedParts text with _ | ⟨main, others⟩
  · rfl
  · have hone : ¬(!(others.map Token.ofPart).isEmpty && hasSpacedBar text) = true := by
      rw [Enumerates, hnamed, ← hasSpacedBar_iff] at h
      cases others <;> simp_all
    rw [List.head?_cons, Option.bind_some, ← Token.base?_ofPart]
    simp only [List.map_cons, if_neg hone]
    cases Token.ofPart main <;> rfl

theorem nullable_ofText (text : String) :
    (ofText text).nullable = decide ("null" ∈ parts text) := by
  by_cases h : Enumerates text
  · rw [ofText_of_enumerates h]
  · rw [ofText_of_not_enumerates h]

theorem literals_ofText_isSome_iff (text : String) :
    (ofText text).literals.isSome = true ↔ Enumerates text := by
  by_cases h : Enumerates text
  · simp [ofText_of_enumerates h, h]
  · simp [ofText_of_not_enumerates h, h]

/-- An enumeration takes its literals, as they are, and null if it is nullable. -/
theorem accepts_literal_iff {nullable strict : Bool} {literals : List String} {v d : Value} :
    validate (.scalar ⟨.string, nullable, some literals⟩) v strict = .accepted d ↔
      d = v ∧ ((∃ t ∈ literals, v = .string t) ∨ v = .null ∧ nullable = true) := by
  rw [validate_eq_accepted_iff, Node.visit, check_eq_ok_iff, and_comm]
  cases v <;> simp [admits, normalForm]

end Scalar

/-! ### Joined texts -/

/-- A text that can be a part of a type text. -/
structure IsPart (t : String) : Prop where
  trimmed : Text.trim t = t
  noBar : '|' ∉ t.toList

/-- A blank in front of a text is trimmed off its first piece. -/
theorem trimChars_splitChars_blank (cs : List Char) :
    (Text.splitChars '|' (' ' :: cs)).map Text.trimChars =
      (Text.splitChars '|' cs).map Text.trimChars := by
  obtain ⟨piece, pieces, hcs, hsplit⟩ := Text.exists_splitChars_cons (by decide : ' ' ≠ '|') cs
  rw [hcs, hsplit, List.map_cons, List.map_cons, Text.trimChars_cons_of_blank (by decide)]

theorem trimChars_splitChars_intercalate {texts : List (List Char)} (hne : texts ≠ [])
    (h : ∀ t ∈ texts, Text.trimChars t = t ∧ '|' ∉ t) :
    (Text.splitChars '|' ([' ', '|', ' '].intercalate texts)).map Text.trimChars = texts := by
  induction texts with
  | nil => exact absurd rfl hne
  | cons t rest ih =>
    rw [List.forall_mem_cons] at h
    obtain ⟨⟨htrim, hbar⟩, hrest⟩ := h
    cases rest with
    | nil => simp [Text.splitChars_self hbar, htrim]
    | cons u rest =>
      -- the space in front of a bar belongs to the piece before it, the other to the piece behind
      have hjoined : [' ', '|', ' '].intercalate (t :: u :: rest) =
          (t ++ [' ']) ++ '|' :: ' ' :: [' ', '|', ' '].intercalate (u :: rest) := by simp
      have hbar' : '|' ∉ t ++ [' '] := by simpa using hbar
      have hblank : ∀ c ∈ [' '], Text.isBlank c = true := List.forall_mem_singleton.2 (by decide)
      rw [hjoined, Text.splitChars_append hbar', List.map_cons, Text.trimChars_append hblank,
        htrim, trimChars_splitChars_blank, ih (by simp) hrest]

theorem toList_trim (t : String) : (Text.trim t).toList = Text.trimChars t.toList := by
  rw [Text.trim, String.toList_ofList]

/-- Texts that are joined by spaced bars are the parts of the whole. -/
theorem parts_intercalate {texts : List String} (hne : texts ≠ []) (h : ∀ t ∈ texts, IsPart t) :
    parts (" | ".intercalate texts) = texts := by
  have hchars : ∀ cs ∈ texts.map String.toList, Text.trimChars cs = cs ∧ '|' ∉ cs := by
    rw [List.forall_mem_map]
    intro t ht
    exact ⟨by rw [← toList_trim, (h t ht).trimmed], (h t ht).noBar⟩
  have hpieces := trimChars_splitChars_intercalate (by simpa using hne) hchars
  apply List.map_injective_iff.2 fun _ _ => String.toList_inj.1
  rw [← hpieces, parts, Text.splitAt, String.toList_intercalate, List.map_map, List.map_map]
  apply List.map_congr_left
  intro piece _
  rw [Function.comp_apply, Function.comp_apply, toList_trim, String.toList_ofList]

theorem isPart_of_mem_parts {text t : String} (h : t ∈ parts text) : IsPart t := by
  obtain ⟨piece, hpiece, rfl⟩ := List.mem_map.1 h
  obtain ⟨cs, hcs, rfl⟩ := List.mem_map.1 hpiece
  refine ⟨Text.trim_trim _, fun hbar => Text.not_mem_of_mem_splitChars hcs ?_⟩
  rw [toList_trim, String.toList_ofList] at hbar
  exact (Text.trimChars_isInfix cs).subset hbar

/-- Between two texts that are joined stands a spaced bar. -/
theorem spacedBar_infix_intercalate {texts : List String} (h : 2 ≤ texts.length) :
    " | ".toList <:+: (" | ".intercalate texts).toList := by
  rcases texts with _ | ⟨t, _ | ⟨u, rest⟩⟩
  · simp at h
  · simp at h
  · rw [String.intercalate_cons_cons, String.toList_append, String.toList_append]
    exact ⟨t.toList, _, rfl⟩

theorem intercalate_splitAt (text : String) : "|".intercalate (Text.splitAt '|' text) = text := by
  rw [← String.toList_inj, String.toList_intercalate, Text.splitAt, List.map_map]
  have hchars : (String.toList ∘ String.ofList) = id := funext fun _ => String.toList_ofList
  rw [hchars, List.map_id]
  exact Text.intercalate_splitChars '|' text.toList

theorem isPart_null : IsPart "null" :=
  ⟨by decide, by decide⟩

theorem ofText_joined {literals texts : List String} (hlength : 2 ≤ literals.length)
    (hnodup : literals.Nodup) (hliterals : ∀ t ∈ literals, IsPart t)
    (htexts : texts.filter (· ≠ "null") = literals) :
    Scalar.ofText (" | ".intercalate texts) =
      ⟨.string, decide ("null" ∈ texts), some literals⟩ := by
  have hle : literals.length ≤ texts.length := htexts ▸ List.length_filter_le _ _
  have hne : texts ≠ [] := List.ne_nil_of_length_pos (by omega)
  have hisPart : ∀ t ∈ texts, IsPart t := by
    intro t ht
    by_cases hnull : t = "null"
    · exact hnull ▸ isPart_null
    · apply hliterals
      rw [← htexts]
      exact List.mem_filter.2 ⟨ht, by simpa using hnull⟩
  have hparts := parts_intercalate hne hisPart
  have hnamed : namedParts (" | ".intercalate texts) = literals := by
    rw [namedParts, hparts, htexts]
  have henum : Enumerates (" | ".intercalate texts) :=
    ⟨spacedBar_infix_intercalate (by omega), by rw [hnamed]; exact hlength⟩
  rw [Scalar.ofText_of_enumerates henum, hparts, hnamed,
    withoutRepeats_eq_self hnodup fun _ _ => List.not_mem_nil]

theorem mem_namedParts {text t : String} : t ∈ namedParts text ↔ t ∈ parts text ∧ t ≠ "null" := by
  simp [namedParts]

/-- The literals of an enumeration are at least one, and differ. -/
theorem literals_of_ofText {text : String} {literals : List String}
    (h : (Scalar.ofText text).literals = some literals) :
    (Scalar.ofText text).base = .string ∧ literals ≠ [] ∧ literals.Nodup ∧
      ∀ t, t ∈ literals ↔ t ∈ namedParts text := by
  have henum := (Scalar.literals_ofText_isSome_iff text).1 (by rw [h]; rfl)
  rw [Scalar.ofText_of_enumerates henum] at h ⊢
  obtain rfl := Option.some.inj h
  have hmem : ∀ t, t ∈ withoutRepeats [] (namedParts text) ↔ t ∈ namedParts text := by
    simp [mem_withoutRepeats]
  have hpos : 0 < (namedParts text).length := by
    have := henum.2
    omega
  obtain ⟨t, ht⟩ := List.exists_mem_of_length_pos hpos
  exact ⟨rfl, List.ne_nil_of_mem ((hmem t).2 ht), nodup_withoutRepeats, hmem⟩

/-- Texts that spaced bars join are an enumeration of exactly these texts, nullable if `null` is
among them. Of any type text the trimmed pieces between its bars tell what it means, and whether one
of the bars is spaced. -/
theorem type_text_exact :
    (∀ literals texts : List String, 2 ≤ literals.length → literals.Nodup →
      (∀ t ∈ literals, IsPart t ∧ t ≠ "null") → texts.filter (· ≠ "null") = literals →
      let s := Scalar.ofText (" | ".intercalate texts)
      s = ⟨.string, decide ("null" ∈ texts), some literals⟩ ∧
      ∀ (v d : Value) (strict : Bool), validate (.scalar s) v strict = .accepted d ↔
        d = v ∧ ((∃ t ∈ literals, v = .string t) ∨ v = .null ∧ "null" ∈ texts)) ∧
    ∀ text : String, ∃ pieces : List String,
      pieces ≠ [] ∧ (∀ p ∈ pieces, '|' ∉ p.toList) ∧ "|".intercalate pieces = text ∧
      let parts := pieces.map Text.trim
      let named := parts.filter (· ≠ "null")
      let s := Scalar.ofText text
      (s.nullable = true ↔ "null" ∈ parts) ∧
      (s.literals.isSome = true ↔ " | ".toList <:+: text.toList ∧ 2 ≤ named.length) ∧
      (∀ literals, s.literals = some literals → s.base = .string ∧ literals ≠ [] ∧
        literals.Nodup ∧ (∀ t, t ∈ literals ↔ t ∈ named) ∧
        ∀ t ∈ literals, IsPart t ∧ t ≠ "null") ∧
      (s.literals = none → s.base = (named.head?.bind Token.typeNamed?).getD .any) := by
  constructor
  · intro literals texts hlength hnodup hliterals htexts s
    have hs : s = _ := ofText_joined hlength hnodup (fun t ht => (hliterals t ht).1) htexts
    refine ⟨hs, fun v d strict => ?_⟩
    rw [hs, Scalar.accepts_literal_iff, decide_eq_true_iff]
  · intro text
    refine ⟨Text.splitAt '|' text, ?_, ?_, intercalate_splitAt text, ?_, ?_, ?_, ?_⟩
    · rw [Text.splitAt, Ne, List.map_eq_nil_iff]
      exact Text.splitChars_ne_nil '|' text.toList
    · intro piece hpiece
      obtain ⟨cs, hcs, rfl⟩ := List.mem_map.1 hpiece
      rw [String.toList_ofList]
      exact Text.not_mem_of_mem_splitChars hcs
    · rw [Scalar.nullable_ofText, decide_eq_true_iff, parts]
    · exact Scalar.literals_ofText_isSome_iff text
    · intro literals h
      obtain ⟨hbase, hne, hnodup, hmem⟩ := literals_of_ofText h
      refine ⟨hbase, hne, hnodup, hmem, fun t ht => ?_⟩
      obtain ⟨hpart, hnull⟩ := mem_namedParts.1 ((hmem t).1 ht)
      exact ⟨isPart_of_mem_parts hpart, hnull⟩
    · intro h
      have hnot : ¬Enumerates text := by
        rw [← Scalar.literals_ofText_isSome_iff, h]
        exact Bool.false_ne_true
      rw [Scalar.ofText_of_not_enumerates hnot]
      rfl

/-- Names of types and an empty text as literals, and null at either end. -/
theorem states_enumerated :
    Scalar.ofText "null | number |  | Paid | null" =
      ⟨.string, true, some ["number", "", "Paid"]⟩ ∧
    validate (.scalar (Scalar.ofText "null | number |  | Paid | null")) (.string "") true =
      .accepted (.string "") := by
  have hliterals : ∀ t ∈ ["number", "", "Paid"], IsPart t ∧ t ≠ "null" := by
    simp only [List.forall_mem_cons, List.not_mem_nil, false_implies, implies_true, and_true]
    exact ⟨⟨⟨by decide, by decide⟩, by decide⟩, ⟨⟨by decide, by decide⟩, by decide⟩,
      ⟨by decide, by decide⟩, by decide⟩
  obtain ⟨hnode, haccepts⟩ := type_text_exact.1 ["number", "", "Paid"]
    ["null", "number", "", "Paid", "null"] (by decide) (by decide) hliterals (by decide)
  exact ⟨hnode, (haccepts _ _ true).2 ⟨rfl, .inl ⟨"", by decide, rfl⟩⟩⟩

end Extraction.Schema
