import Extraction.Json.Printer
import Extraction.Proofs.ShortIntegers
import Mathlib.Data.Option.NAry

/-!
The printer of JSON text. A value whose integers are short enough has a text in every layout.
-/

namespace Extraction.Json

open Value (ShortIntegers ItemsShort FieldsShort)

mutual

theorem exists_valueChars (layout : Layout) : ∀ (level : Nat) {v : Value}, v.ShortIntegers →
    ∃ cs, valueChars layout level v = some cs
  | _, .int n, h => ⟨_, by rw [valueChars, Value.intText?_eq_some h]; rfl⟩
  | _, .array [], _ => ⟨_, by rw [valueChars]⟩
  | level, .array (v :: rest), h => by
    obtain ⟨first, hfirst⟩ := exists_valueChars layout (level + 1) h.1
    obtain ⟨others, hothers⟩ := exists_itemChars layout (level + 1) h.2
    exact ⟨_, by simp only [valueChars, hfirst, hothers, bind, Option.bind]; rfl⟩
  | _, .object [], _ => ⟨_, by rw [valueChars]⟩
  | level, .object ((name, v) :: rest), h => by
    obtain ⟨first, hfirst⟩ := exists_valueChars layout (level + 1) h.1
    obtain ⟨others, hothers⟩ := exists_fieldChars layout (level + 1) h.2
    exact ⟨_, by simp only [valueChars, hfirst, hothers, bind, Option.bind]; rfl⟩
  | _, .null, _ | _, .bool _, _ | _, .float _, _ | _, .string _, _ | _, .date _, _
  | _, .dateTime _, _ => ⟨_, by rw [valueChars]⟩

theorem exists_itemChars (layout : Layout) : ∀ (level : Nat) {items : List Value},
    ItemsShort items → ∃ cs, itemChars layout level items = some cs
  | _, [], _ => ⟨[], rfl⟩
  | level, v :: rest, h => by
    obtain ⟨first, hfirst⟩ := exists_valueChars layout level h.1
    obtain ⟨others, hothers⟩ := exists_itemChars layout level h.2
    exact ⟨_, by simp only [itemChars, hfirst, hothers, bind, Option.bind]; rfl⟩

theorem exists_fieldChars (layout : Layout) : ∀ (level : Nat) {fields : List (String × Value)},
    FieldsShort fields → ∃ cs, fieldChars layout level fields = some cs
  | _, [], _ => ⟨[], rfl⟩
  | level, (_, v) :: rest, h => by
    obtain ⟨first, hfirst⟩ := exists_valueChars layout level h.1
    obtain ⟨others, hothers⟩ := exists_fieldChars layout level h.2
    exact ⟨_, by simp only [fieldChars, hfirst, hothers, bind, Option.bind]; rfl⟩

end

theorem exists_print (layout : Layout) {v : Value} (h : v.ShortIntegers) :
    ∃ text, print? layout v = some text := by
  obtain ⟨cs, hcs⟩ := exists_valueChars layout 0 h
  exact ⟨String.ofList cs, by rw [print?, hcs]; rfl⟩

/-! ### The texts of containers, put together from those of their parts -/

variable (layout : Layout) (level : Nat)

theorem valueChars_array_cons (v : Value) (rest : List Value) :
    valueChars layout level (.array (v :: rest)) =
      (Option.map₂ (· ++ ·) (valueChars layout (level + 1) v)
        (itemChars layout (level + 1) rest)).map fun cs =>
          ('[' :: layout.newline (level + 1)) ++ cs ++ (layout.newline level ++ [']']) := by
  rw [valueChars]
  cases valueChars layout (level + 1) v <;> cases itemChars layout (level + 1) rest <;> simp

theorem valueChars_object_cons (name : String) (v : Value) (rest : Fields) :
    valueChars layout level (.object ((name, v) :: rest)) =
      (Option.map₂ (· ++ ·) (valueChars layout (level + 1) v)
        (fieldChars layout (level + 1) rest)).map fun cs =>
          ('\x7b' :: layout.newline (level + 1) ++ stringChars name ++ ':' :: layout.afterColon) ++
            cs ++ (layout.newline level ++ ['\x7d']) := by
  rw [valueChars]
  cases valueChars layout (level + 1) v <;> cases fieldChars layout (level + 1) rest <;> simp

theorem itemChars_cons (v : Value) (rest : List Value) :
    itemChars layout level (v :: rest) =
      (Option.map₂ (· ++ ·) (valueChars layout level v) (itemChars layout level rest)).map
        fun cs => (',' :: layout.newline level) ++ cs ++ [] := by
  rw [itemChars]
  cases valueChars layout level v <;> cases itemChars layout level rest <;> simp

theorem fieldChars_cons (name : String) (v : Value) (rest : Fields) :
    fieldChars layout level ((name, v) :: rest) =
      (Option.map₂ (· ++ ·) (valueChars layout level v) (fieldChars layout level rest)).map
        fun cs => (',' :: layout.newline level ++ stringChars name ++ ':' :: layout.afterColon) ++
          cs ++ [] := by
  rw [fieldChars]
  cases valueChars layout level v <;> cases fieldChars layout level rest <;> simp

end Extraction.Json
