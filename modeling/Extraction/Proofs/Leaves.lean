import Extraction.Proofs.PlainValues

/-!
Properties of the leaves of a value, which are its parts that are neither lists nor objects. A value
without dates is sent as it is.
-/

namespace Extraction.Value

mutual

/-- Does every leaf of a value satisfy `p`? -/
def AllLeaves (p : Value → Prop) : Value → Prop
  | .array items => ItemLeaves p items
  | .object fields => FieldLeaves p fields
  | v => p v

def ItemLeaves (p : Value → Prop) : List Value → Prop
  | [] => True
  | v :: rest => AllLeaves p v ∧ ItemLeaves p rest

def FieldLeaves (p : Value → Prop) : List (String × Value) → Prop
  | [] => True
  | (_, v) :: rest => AllLeaves p v ∧ FieldLeaves p rest

end

mutual

def decideLeaves (p : Value → Prop) [DecidablePred p] : (v : Value) → Decidable (AllLeaves p v)
  | .array items => decideItemLeaves p items
  | .object fields => decideFieldLeaves p fields
  | .null => inferInstanceAs (Decidable (p .null))
  | .bool b => inferInstanceAs (Decidable (p (.bool b)))
  | .int n => inferInstanceAs (Decidable (p (.int n)))
  | .float x => inferInstanceAs (Decidable (p (.float x)))
  | .string s => inferInstanceAs (Decidable (p (.string s)))
  | .date d => inferInstanceAs (Decidable (p (.date d)))
  | .dateTime t => inferInstanceAs (Decidable (p (.dateTime t)))

def decideItemLeaves (p : Value → Prop) [DecidablePred p] :
    (items : List Value) → Decidable (ItemLeaves p items)
  | [] => .isTrue trivial
  | v :: rest =>
    have := decideLeaves p v
    have := decideItemLeaves p rest
    inferInstanceAs (Decidable (AllLeaves p v ∧ ItemLeaves p rest))

def decideFieldLeaves (p : Value → Prop) [DecidablePred p] :
    (fields : List (String × Value)) → Decidable (FieldLeaves p fields)
  | [] => .isTrue trivial
  | (_, v) :: rest =>
    have := decideLeaves p v
    have := decideFieldLeaves p rest
    inferInstanceAs (Decidable (AllLeaves p v ∧ FieldLeaves p rest))

end

instance (p : Value → Prop) [DecidablePred p] : DecidablePred (AllLeaves p) :=
  decideLeaves p

variable {p : Value → Prop}

theorem itemLeaves_iff {items : List Value} :
    ItemLeaves p items ↔ ∀ v ∈ items, v.AllLeaves p := by
  induction items with
  | nil => simp [ItemLeaves]
  | cons v rest ih => simp only [ItemLeaves, ih, List.forall_mem_cons]

theorem fieldLeaves_iff {fields : Fields} :
    FieldLeaves p fields ↔ ∀ field ∈ fields, field.2.AllLeaves p := by
  induction fields with
  | nil => simp [FieldLeaves]
  | cons field rest ih => simp only [FieldLeaves, ih, List.forall_mem_cons]

/-- Under a name stands what one of the fields holds, or else null. -/
theorem fieldOrNull_cases (name : String) (fields : Fields) :
    fieldOrNull name fields = .null ∨ ∃ field ∈ fields, fieldOrNull name fields = field.2 := by
  induction fields with
  | nil => exact .inl rfl
  | cons field rest ih =>
    obtain ⟨key, v⟩ := field
    by_cases hkey : key = name
    · exact .inr ⟨(key, v), List.mem_cons_self, by simp [fieldOrNull, lookup?, hkey]⟩
    · have hrest : fieldOrNull name ((key, v) :: rest) = fieldOrNull name rest := by
        simp [fieldOrNull, lookup?, hkey]
      rw [hrest]
      refine ih.imp_right fun hfound => ?_
      obtain ⟨field, hfield, h⟩ := hfound
      exact ⟨field, List.mem_cons_of_mem _ hfield, h⟩

theorem allLeaves_fieldOrNull (hnull : p .null) {fields : Fields}
    (h : (Value.object fields).AllLeaves p) (name : String) :
    (fieldOrNull name fields).AllLeaves p := by
  rcases fieldOrNull_cases name fields with hname | ⟨field, hfield, hname⟩
  · rw [hname]
    exact hnull
  · rw [hname]
    exact fieldLeaves_iff.1 h field hfield

theorem AllLeaves.imp {q : Value → Prop} (himp : ∀ v, p v → q v) {v : Value}
    (h : v.AllLeaves p) : v.AllLeaves q := by
  induction v using induction_parts with
  | array items ih => exact itemLeaves_iff.2 fun w hw => ih w hw (itemLeaves_iff.1 h w hw)
  | object fields ih =>
    exact fieldLeaves_iff.2 fun field hfield => ih field hfield (fieldLeaves_iff.1 h field hfield)
  | _ => exact himp _ h

/-- A value is finite if its leaves are. -/
theorem allFinite_iff_allLeaves {v : Value} :
    v.allFinite = true ↔ v.AllLeaves fun leaf => leaf.allFinite = true := by
  induction v using induction_parts with
  | array items ih =>
    rw [allFinite, allFiniteItems_iff, AllLeaves, itemLeaves_iff]
    exact forall₂_congr ih
  | object fields ih =>
    rw [allFinite, allFiniteFields_iff, AllLeaves, fieldLeaves_iff]
    exact forall₂_congr ih
  | _ => exact Iff.rfl

/-- The integers in a value are short if those among its leaves are. -/
theorem shortIntegers_iff_allLeaves {v : Value} :
    v.ShortIntegers ↔ v.AllLeaves ShortIntegers := by
  induction v using induction_parts with
  | array items ih =>
    rw [ShortIntegers, itemsShort_iff, AllLeaves, itemLeaves_iff]
    exact forall₂_congr ih
  | object fields ih =>
    rw [ShortIntegers, fieldsShort_iff, AllLeaves, fieldLeaves_iff]
    exact forall₂_congr ih
  | _ => exact Iff.rfl

/-! ### Dates -/

/-- Is the value a date, with a time or without? -/
def isDate : Value → Bool
  | .date _ | .dateTime _ => true
  | _ => false

/-- No leaf of the value is a date. -/
def DateFree (v : Value) : Prop :=
  v.AllLeaves fun leaf => leaf.isDate = false

instance : DecidablePred DateFree :=
  inferInstanceAs (DecidablePred (AllLeaves fun leaf => leaf.isDate = false))

theorem DateFree.fieldOrNull {fields : Fields} (h : (Value.object fields).DateFree)
    (name : String) : (fieldOrNull name fields).DateFree :=
  allLeaves_fieldOrNull (p := fun leaf => leaf.isDate = false) rfl h name

theorem wireItems_eq_map (items : List Value) : wireItems items = items.map wire := by
  induction items with
  | nil => rfl
  | cons v rest ih => rw [wireItems, ih]; rfl

theorem wireFields_eq_map (fields : Fields) :
    wireFields fields = fields.map fun field => (field.1, wire field.2) := by
  induction fields with
  | nil => rfl
  | cons field rest ih => rw [wireFields, ih]; rfl

theorem wire_eq_self {v : Value} (h : v.DateFree) : v.wire = v := by
  induction v using induction_parts with
  | array items ih =>
    have hitems : items.map wire = items.map id :=
      List.map_congr_left fun v hv => ih v hv (itemLeaves_iff.1 h v hv)
    rw [wire, wireItems_eq_map, hitems, List.map_id]
  | object fields ih =>
    have hfields : fields.map (fun field => (field.1, wire field.2)) = fields.map id :=
      List.map_congr_left fun field hfield =>
        Prod.ext rfl (ih field hfield (fieldLeaves_iff.1 h field hfield))
    rw [wire, wireFields_eq_map, hfields, List.map_id]
  | date | dateTime => cases h
  | _ => rfl

end Extraction.Value
