import Extraction.Proofs.Violations

/-!
Normal forms. The normal form of a value conforms in either mode and is its own normal form; so is
every way to write it down from which scalars read back what they took.
-/

namespace Extraction

open Schema

namespace Value

theorem fieldOrNull_cons_self (name : String) (v : Value) (fields : Fields) :
    fieldOrNull name ((name, v) :: fields) = v := by
  simp [fieldOrNull, lookup?]

theorem fieldOrNull_cons_of_ne {name key : String} (h : key ≠ name) (v : Value) (fields : Fields) :
    fieldOrNull name ((key, v) :: fields) = fieldOrNull name fields := by
  simp [fieldOrNull, lookup?, h]

end Value

namespace Schema

/-- Reading a date that was read gives the date. -/
theorem asDate?_toValue (reading : DateReading) : reading.toValue.asDate? = some reading := by
  cases reading <;> rfl

namespace Scalar

variable {s : Scalar} {v : Value}

/-- A scalar that reads what it takes as a date. -/
def ReadsDates (s : Scalar) : Prop :=
  s.literals = none ∧ s.base = .date

theorem normalForm_eq_self (h : ¬s.ReadsDates) : s.normalForm v = v := by
  rw [normalForm, if_neg]
  simpa [ReadsDates] using h

theorem normalForm_of_readsDates (h : s.ReadsDates) :
    s.normalForm v = (v.asDate?.map DateReading.toValue).getD v := by
  rw [normalForm, if_pos]
  simpa [ReadsDates] using h

theorem admits_of_readsDates (h : s.ReadsDates) (hv : v ≠ .null) :
    s.admits v = v.asDate?.isSome := by
  obtain ⟨hliterals, hbase⟩ := h
  cases v <;> simp_all [admits, BaseType.admits]

/-- What a scalar takes it either keeps or reads as a date. -/
theorem normalForm_cases (hv : s.admits v = true) :
    s.normalForm v = v ∨
      s.ReadsDates ∧ ∃ reading, v.asDate? = some reading ∧ s.normalForm v = reading.toValue := by
  by_cases hdate : s.ReadsDates
  · by_cases hnull : v = .null
    · subst hnull
      exact .inl (normalForm_of_readsDates hdate)
    · rw [admits_of_readsDates hdate hnull, Option.isSome_iff_exists] at hv
      obtain ⟨reading, hreading⟩ := hv
      exact .inr ⟨hdate, reading, hreading, by rw [normalForm_of_readsDates hdate, hreading]; rfl⟩
  · exact .inl (normalForm_eq_self hdate)

/-- A scalar of dates takes whatever reads as a date. -/
theorem takes_of_asDate? (h : s.ReadsDates) {reading : DateReading}
    (hv : v.asDate? = some reading) :
    s.admits v = true ∧ s.normalForm v = reading.toValue := by
  have hnull : v ≠ .null := by
    rintro rfl
    cases hv
  rw [admits_of_readsDates h hnull, normalForm_of_readsDates h, hv]
  exact ⟨rfl, rfl⟩

end Scalar

/-- A way to write down values with some property, and the dates that they read as: part by part,
all else as it is, and each date so that it is read again. -/
structure ReadsBack (P : Value → Prop) (write : Value → Value) : Prop where
  items : ∀ {items}, P (.array items) → ∀ v ∈ items, P v
  field : ∀ {fields}, P (.object fields) → ∀ name, P (Value.fieldOrNull name fields)
  array : ∀ items, write (.array items) = .array (items.map write)
  object : ∀ fields : Fields,
    write (.object fields) = .object (fields.map fun field => (field.1, write field.2))
  keeps : ∀ {v}, P v → write v = v
  date : ∀ {v reading}, P v → v.asDate? = some reading →
    (write reading.toValue).asDate? = some reading

theorem ReadsBack.scalar {P : Value → Prop} {write : Value → Value} (h : ReadsBack P write)
    {s : Scalar} {v : Value} (hP : P v) (hv : s.admits v = true) :
    s.admits (write (s.normalForm v)) = true ∧
      s.normalForm (write (s.normalForm v)) = s.normalForm v := by
  rcases Scalar.normalForm_cases hv with hkept | ⟨hdate, reading, hreading, hnormal⟩
  · rw [hkept, h.keeps hP]
    exact ⟨hv, hkept⟩
  · rw [hnormal]
    exact Scalar.takes_of_asDate? hdate (h.date hP hreading)

namespace Node

/-- The names of a normal form are the declared ones. -/
theorem keys_normalFields (nodes : List (String × Node)) (fields : Fields) :
    (normalFields nodes fields).map Prod.fst = nodes.map Prod.fst := by
  induction nodes with
  | nil => rfl
  | cons entry rest ih => simp [normalFields, ih]

theorem declares_iff {nodes : List (String × Node)} {name : String} :
    declares nodes name = true ↔ name ∈ nodes.map Prod.fst := by
  simp only [declares, List.any_eq_true, decide_eq_true_eq, List.mem_map]

/-- Under a declared name stands what was written for the normal form of what stood there. -/
theorem fieldOrNull_normalFields (write : Value → Value) {nodes : List (String × Node)}
    (hnodup : (nodes.map Prod.fst).Nodup) (fields : Fields) {entry : String × Node}
    (hentry : entry ∈ nodes) :
    Value.fieldOrNull entry.1
        ((normalFields nodes fields).map fun field => (field.1, write field.2)) =
      write (entry.2.normalForm (Value.fieldOrNull entry.1 fields)) := by
  induction nodes with
  | nil => cases hentry
  | cons first rest ih =>
    rw [List.map_cons, List.nodup_cons] at hnodup
    rw [normalFields, List.map_cons]
    rcases List.mem_cons.1 hentry with rfl | hrest
    · exact Value.fieldOrNull_cons_self _ _ _
    · have hne : first.1 ≠ entry.1 := by
        intro h
        exact hnodup.1 (h ▸ List.mem_map_of_mem hrest)
      rw [Value.fieldOrNull_cons_of_ne hne, ih hnodup.2 hrest]

variable {P : Value → Prop} {write : Value → Value} {strict : Bool}

mutual

/-- What is written for a normal form conforms, in either mode, and has this normal form. -/
theorem conforms_written (h : ReadsBack P write) (strict' : Bool) : ∀ {node : Node} {v : Value},
    node.DistinctNames → P v → node.Conforms strict v →
      node.Conforms strict' (write (node.normalForm v)) ∧
        node.normalForm (write (node.normalForm v)) = node.normalForm v
  | .scalar s, v, _, hP, hv => h.scalar hP hv
  | .array item, v, hdistinct, hP, hv => by
    obtain ⟨items, rfl, hitems⟩ := hv
    have hparts : ∀ w ∈ items, item.Conforms strict' (write (item.normalForm w)) ∧
        item.normalForm (write (item.normalForm w)) = item.normalForm w := fun w hw =>
      conforms_written h strict' hdistinct (h.items hP w hw) (hitems w hw)
    rw [normalForm, h.array, List.map_map]
    refine ⟨⟨_, rfl, List.forall_mem_map.2 fun w hw => (hparts w hw).1⟩, ?_⟩
    rw [normalForm, List.map_map]
    exact congrArg _ (List.map_congr_left fun w hw => (hparts w hw).2)
  | .object nodes, v, hdistinct, hP, hv => by
    obtain ⟨fields, rfl, hfields, -⟩ := hv
    rw [normalForm, h.object]
    obtain ⟨hconform, hnormal⟩ := fieldsConform_written h strict' hdistinct.2 (h.field hP) hfields
      fun _ hentry => fieldOrNull_normalFields write hdistinct.1 fields hentry
    refine ⟨⟨_, rfl, hconform, fun _ => List.forall_mem_map.2 fun field hfield => ?_⟩, ?_⟩
    · -- no field is undeclared: the normal form has the declared names alone
      rw [declares_iff, ← keys_normalFields nodes fields]
      exact List.mem_map.2 ⟨field, hfield, rfl⟩
    · rw [normalForm, hnormal]
  | .foreign _, _, _, _, hv => hv.elim

theorem fieldsConform_written (h : ReadsBack P write) (strict' : Bool) :
    ∀ {nodes : List (String × Node)} {fields written : Fields},
      FieldNames List.Nodup nodes → (∀ name, P (Value.fieldOrNull name fields)) →
      FieldsConform strict nodes fields →
      (∀ entry ∈ nodes, Value.fieldOrNull entry.1 written =
        write (entry.2.normalForm (Value.fieldOrNull entry.1 fields))) →
      FieldsConform strict' nodes written ∧ normalFields nodes written = normalFields nodes fields
  | [], _, _, _, _, _, _ => ⟨trivial, rfl⟩
  | (name, node) :: rest, fields, written, hdistinct, hP, hfields, hwritten => by
    rw [List.forall_mem_cons] at hwritten
    obtain ⟨hfirst, hfirst'⟩ := conforms_written h strict' hdistinct.1 (hP name) hfields.1
    obtain ⟨hrest, hrest'⟩ :=
      fieldsConform_written h strict' hdistinct.2 hP hfields.2 hwritten.2
    simp only [FieldsConform, normalFields, hwritten.1]
    exact ⟨⟨hfirst, hrest⟩, by rw [hfirst', hrest']⟩

end

end Node

end Schema

/-- What is written for accepted data is accepted, in either mode, with the same data. -/
theorem validate_written {P : Value → Prop} {write : Value → Value} (h : ReadsBack P write)
    {node : Node} (hdistinct : node.DistinctNames) {v d : Value} (hv : P v) {strict : Bool}
    (haccepted : validate node v strict = .accepted d) (strict' : Bool) :
    validate node (write d) strict' = .accepted d := by
  rw [accepted_iff] at haccepted ⊢
  obtain ⟨hconforms, rfl⟩ := haccepted
  obtain ⟨hwritten, hnormal⟩ := Node.conforms_written h strict' hdistinct hv hconforms
  exact ⟨hwritten, hnormal.symm⟩

/-- A normal form that is left as it is. -/
theorem readsBack_id : ReadsBack (fun _ => True) id where
  items _ _ _ := trivial
  field _ _ := trivial
  array items := by simp
  object fields := by simp
  keeps _ := rfl
  date _ _ := asDate?_toValue _

/-- Accepted data are accepted again, in either mode, and stay as they are. -/
theorem validate_accepted_data {cap : Option Int} {definition : Value} {node : Node}
    (hcompile : compile cap definition = .ok node) (hdistinct : definition.DistinctNames)
    {v d : Value} {strict : Bool} (h : validate node v strict = .accepted d) (strict' : Bool) :
    validate node d strict' = .accepted d := by
  rw [compile_eq_ok hcompile] at h ⊢
  exact validate_written readsBack_id (treeOf_allNames hdistinct) trivial h strict'

/-- A definition of bills with a date. -/
def billDefinition : Value :=
  .object [("due", .string "date | null"), ("sums", .array [.string "number"])]

/-- A bill as it arrives, with a field that is not declared. -/
def bill : Value :=
  .object [("note", .string "paid"), ("sums", .array [.int 3]), ("due", .string "2024-W05-4")]

/-- The data of the bill. -/
def billData : Value :=
  .object [("due", .date ⟨2024, 2, 1, by decide⟩), ("sums", .array [.int 3])]

theorem billData_accepted : validate (treeOf billDefinition) bill true ≠ .accepted billData ∧
    validate (treeOf billDefinition) billData true = .accepted billData := by
  have hdistinct : billDefinition.DistinctNames := by decide
  have hread : (Value.string "2024-W05-4").asDate? = some (.date ⟨2024, 2, 1, by decide⟩) := by
    decide +kernel
  have hdue : Scalar.ofText "date | null" = ⟨.date, true, none⟩ := by decide
  have hsums : Scalar.ofText "number" = ⟨.number, false, none⟩ := by decide
  have hlax : validate (treeOf billDefinition) bill false = .accepted billData := by
    simp [validate, treeOf, fieldTrees, billDefinition, bill, billData, hdue, hsums, Node.visit,
      Node.visitFields, visitItems, Value.fieldOrNull, Value.lookup?, Scalar.check,
      Scalar.checkBase, hread, DateReading.toValue, bind, Except.bind]
  have hcompile : compile (some 2) billDefinition = .ok (treeOf billDefinition) := rfl
  constructor
  · intro h
    cases h
  · exact validate_accepted_data hcompile hdistinct hlax true

end Extraction
