import Extraction.Value.Display

/-!
Values whose integers are short enough to be written. Every such value has a text.
-/

namespace Extraction.Value

open Number

mutual

/-- Does every integer in the value have few enough digits to be written? -/
def ShortIntegers : Value → Prop
  | .int n => digitCount n.natAbs ≤ digitLimit
  | .array items => ItemsShort items
  | .object fields => FieldsShort fields
  | _ => True

def ItemsShort : List Value → Prop
  | [] => True
  | v :: rest => ShortIntegers v ∧ ItemsShort rest

def FieldsShort : List (String × Value) → Prop
  | [] => True
  | (_, v) :: rest => ShortIntegers v ∧ FieldsShort rest

end

theorem itemsShort_iff {items : List Value} :
    ItemsShort items ↔ ∀ v ∈ items, v.ShortIntegers := by
  induction items with
  | nil => simp [ItemsShort]
  | cons v rest ih => simp only [ItemsShort, ih, List.forall_mem_cons]

theorem fieldsShort_iff {fields : Fields} :
    FieldsShort fields ↔ ∀ field ∈ fields, field.2.ShortIntegers := by
  induction fields with
  | nil => simp [FieldsShort]
  | cons field rest ih => simp only [FieldsShort, ih, List.forall_mem_cons]

theorem shortIntegers_fieldOrNull {fields : Fields} (h : FieldsShort fields) (name : String) :
    (fieldOrNull name fields).ShortIntegers := by
  induction fields with
  | nil => simp [fieldOrNull, lookup?, ShortIntegers]
  | cons field rest ih =>
    obtain ⟨key, v⟩ := field
    by_cases hk : key = name
    · simpa [fieldOrNull, lookup?, hk] using h.1
    · simpa [fieldOrNull, lookup?, hk] using ih h.2

theorem intText?_eq_some {n : Int} (h : digitCount n.natAbs ≤ digitLimit) :
    intText? n = some (String.ofList (intChars n)) :=
  if_pos h

mutual

theorem exists_literal : ∀ v : Value, v.ShortIntegers → ∃ s, v.literal? = some s
  | .int n, h => ⟨_, intText?_eq_some h⟩
  | .array items, h => by
    obtain ⟨parts, hparts⟩ := exists_literalItems items h
    exact ⟨_, by rw [literal?, hparts]; rfl⟩
  | .object fields, h => by
    obtain ⟨parts, hparts⟩ := exists_literalFields fields h
    exact ⟨_, by rw [literal?, hparts]; rfl⟩
  | .null, _ | .bool _, _ | .float _, _ | .string _, _ | .date _, _ | .dateTime _, _ =>
    ⟨_, by rw [literal?]⟩

theorem exists_literalItems : ∀ items : List Value, ItemsShort items →
    ∃ parts, literalItems? items = some parts
  | [], _ => ⟨[], rfl⟩
  | v :: rest, h => by
    obtain ⟨first, hfirst⟩ := exists_literal v h.1
    obtain ⟨others, hothers⟩ := exists_literalItems rest h.2
    exact ⟨first :: others, by simp [literalItems?, hfirst, hothers]⟩

theorem exists_literalFields : ∀ fields : List (String × Value), FieldsShort fields →
    ∃ parts, literalFields? fields = some parts
  | [], _ => ⟨[], rfl⟩
  | (name, v) :: rest, h => by
    obtain ⟨first, hfirst⟩ := exists_literal v h.1
    obtain ⟨others, hothers⟩ := exists_literalFields rest h.2
    exact ⟨(Text.quoted name ++ ": " ++ first) :: others, by
      simp [literalFields?, hfirst, hothers]⟩

end

theorem exists_display {v : Value} (h : v.ShortIntegers) : ∃ s, v.display? = some s := by
  cases v with
  | string s | date d | dateTime t => exact ⟨_, rfl⟩
  | null | bool | int | float | array | object => exact exists_literal _ h

end Extraction.Value
