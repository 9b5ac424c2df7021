import Extraction.Proofs.Chaining
import Extraction.Proofs.ErrorMap
import Mathlib.Data.List.Forall2

/-!
Conformance of a value to a schema tree, by recursion on the tree, and the normal form of a value
that conforms. A check accepts exactly the values that conform, each in its normal form.
-/

namespace Extraction

namespace Schema

/-- What a base type takes; null is not among it unless the type takes anything. -/
def BaseType.admits : BaseType → Value → Bool
  | .string, .string _ => true
  | .number, .int _ => true
  | .number, .float x => x.isFinite
  | .boolean, .bool _ => true
  | .date, v => v.asDate?.isSome
  | .any, _ => true
  | _, _ => false

/-- What a scalar takes. Literals, if there are any, replace the base type. -/
def Scalar.admits (s : Scalar) : Value → Bool
  | .null => s.nullable || s.base = .any
  | .string t =>
    match s.literals with
    | some literals => decide (t ∈ literals)
    | none => s.base.admits (.string t)
  | v => s.literals.isNone && s.base.admits v

/-- What is kept of a value that a scalar takes: the value itself, read as a date where a date is
asked for. -/
def Scalar.normalForm (s : Scalar) (v : Value) : Value :=
  if s.literals.isNone && s.base = .date then (v.asDate?.map DateReading.toValue).getD v else v

namespace Node

mutual

/-- Does a value conform to a node? In strict mode an object has no undeclared key. -/
def Conforms (strict : Bool) : Node → Value → Prop
  | .scalar s, v => s.admits v = true
  | .array item, v => ∃ items, v = .array items ∧ ∀ w ∈ items, Conforms strict item w
  | .object nodes, v => ∃ fields, v = .object fields ∧ FieldsConform strict nodes fields ∧
      (strict = true → ∀ field ∈ fields, declares nodes field.1 = true)
  | .foreign _, _ => False

/-- Does what an object holds under each declared name conform? A missing field reads as null. -/
def FieldsConform (strict : Bool) : List (String × Node) → Fields → Prop
  | [], _ => True
  | (name, node) :: rest, fields =>
    Conforms strict node (Value.fieldOrNull name fields) ∧ FieldsConform strict rest fields

end

mutual

/-- The normal form: an object has exactly its declared fields in declared order, and dates are
read. -/
def normalForm : Node → Value → Value
  | .scalar s, v => s.normalForm v
  | .array item, .array items => .array (items.map (normalForm item))
  | .object nodes, .object fields => .object (normalFields nodes fields)
  | _, v => v

def normalFields : List (String × Node) → Fields → Fields
  | [], _ => []
  | (name, node) :: rest, fields =>
    (name, normalForm node (Value.fieldOrNull name fields)) :: normalFields rest fields

end

/-- Induction on a tree: over the template of an array node and the fields of an object node. -/
@[elab_as_elim]
theorem induction_parts {motive : Node → Prop} (scalar : ∀ s, motive (.scalar s))
    (array : ∀ item, motive item → motive (.array item))
    (object : ∀ nodes, (∀ entry ∈ nodes, motive entry.2) → motive (.object nodes))
    (foreign : ∀ kind, motive (.foreign kind)) (node : Node) : motive node :=
  @Node.rec motive (fun nodes => ∀ entry ∈ nodes, motive entry.2) (fun entry => motive entry.2)
    scalar array object foreign
    (fun _ h => absurd h List.not_mem_nil)
    (fun _ _ hentry hrest => List.forall_mem_cons.2 ⟨hentry, hrest⟩)
    (fun _ _ hnode => hnode) node

theorem lt_fieldsDepth_iff {nodes : List (String × Node)} {k : Nat} :
    k < fieldsDepth nodes ↔ ∃ entry ∈ nodes, k < entry.2.depth := by
  induction nodes with
  | nil => simp [fieldsDepth]
  | cons entry rest ih => simp only [fieldsDepth, List.exists_mem_cons_iff, ← ih]; omega

theorem fieldsConform_iff {strict : Bool} {nodes : List (String × Node)} {fields : Fields} :
    FieldsConform strict nodes fields ↔
      ∀ entry ∈ nodes, entry.2.Conforms strict (Value.fieldOrNull entry.1 fields) := by
  induction nodes with
  | nil => simp [FieldsConform]
  | cons entry rest ih => rw [FieldsConform, ih, List.forall_mem_cons]

theorem normalFields_eq_map (nodes : List (String × Node)) (fields : Fields) :
    normalFields nodes fields = nodes.map fun entry =>
      (entry.1, entry.2.normalForm (Value.fieldOrNull entry.1 fields)) := by
  induction nodes with
  | nil => rfl
  | cons entry rest ih => rw [normalFields, ih, List.map_cons]

end Node

/-! ### Scalars -/

namespace Scalar

/-- The complaint that names the expected and the received kind. -/
def mismatch (s : Scalar) (v : Value) : Except Breakdown Violation :=
  match s.label? with
  | some label => .ok (.expected label v.kind)
  | none => .error .unnamedType

/-- What is noted about a value that the scalar does not take, or why nothing can be noted. -/
def complaint (s : Scalar) (v : Value) : Except Breakdown Violation :=
  match v, s.literals, s.base with
  | .null, _, _ => s.mismatch .null
  | v, some literals, _ =>
    match v.display? with
    | some shown => .ok (.notListed (quotedLiterals literals) shown)
    | none => .error .longInteger
  | _, none, .unknown name => .error (.unknownType name)
  | _, none, .date => .ok .invalidDate
  | v, none, _ => s.mismatch v

/-- The outcome of a check that ends with a complaint. -/
def complain (s : Scalar) (v : Value) : Except Breakdown (Value × List Note) :=
  (s.complaint v).map fun x => (.null, [⟨[], x⟩])

theorem refuse_eq (s : Scalar) (v : Value) :
    s.refuse v = (s.mismatch v).map fun x => (.null, [⟨[], x⟩]) := by
  unfold refuse mismatch
  cases s.label? <;> rfl

theorem checkLiteral_eq {s : Scalar} {literals : List String} (hl : s.literals = some literals)
    {v : Value} (hv : v ≠ .null) :
    checkLiteral literals v = if s.admits v then .ok (s.normalForm v, []) else s.complain v := by
  have hnormal : s.normalForm v = v := by simp [normalForm, hl]
  rw [hnormal]
  -- a value without a text cannot be shown in a complaint, whatever the literals are
  cases hd : v.display? with
  | some shown =>
    have hcomplain : s.complain v = violated (.notListed (quotedLiterals literals) shown) := by
      cases v <;> simp_all [complain, complaint] <;> rfl
    rw [hcomplain]
    cases v <;> simp_all [checkLiteral, admits]
  | none =>
    have hcomplain : s.complain v = .error .longInteger := by
      cases v <;> simp_all [complain, complaint] <;> rfl
    rw [hcomplain]
    cases v <;> simp_all [checkLiteral, admits]

theorem checkBase_eq {s : Scalar} (hl : s.literals = none) {v : Value} (hv : v ≠ .null) :
    s.checkBase v = if s.admits v then .ok (s.normalForm v, []) else s.complain v := by
  have hadmits : s.admits v = s.base.admits v := by cases v <;> simp_all [admits]
  rw [hadmits]
  -- dates and types that do not exist have complaints of their own; the other types share one
  cases hb : s.base with
  | date =>
    have hcomplain : s.complain v = violated .invalidDate := by
      cases v <;> simp_all [complain, complaint] <;> rfl
    rw [hcomplain]
    cases hr : v.asDate? <;> simp [checkBase, BaseType.admits, normalForm, hb, hl, hr]
  | unknown name =>
    have hcomplain : s.complain v = .error (.unknownType name) := by
      cases v <;> simp_all [complain, complaint] <;> rfl
    rw [hcomplain]
    simp [checkBase, BaseType.admits, hb]
  | any => simp [checkBase, BaseType.admits, normalForm, hb]
  | string | number | boolean =>
    have hcomplain : s.complain v = s.refuse v := by
      rw [refuse_eq]
      cases v <;> simp_all [complain, complaint]
    have hnormal : s.normalForm v = v := by simp [normalForm, hb]
    rw [hcomplain, hnormal]
    rcases v with _ | _ | _ | (_ | _ | _) | _ | _ | _ | _ | _ <;>
      simp [checkBase, BaseType.admits, Number.Binary64.isFinite, hb]

/-- A scalar keeps what it takes, and notes its complaint about anything else. -/
theorem check_eq (s : Scalar) (v : Value) :
    s.check v = if s.admits v then .ok (s.normalForm v, []) else s.complain v := by
  by_cases hv : v = .null
  · -- null is judged before the literals are looked at
    subst hv
    have hcomplain : s.complain .null = s.refuse .null := by simp [complain, complaint, refuse_eq]
    have hnormal : s.normalForm .null = .null := by simp [normalForm, Value.asDate?]
    rw [hcomplain, hnormal]
    rfl
  · cases hl : s.literals with
    | some literals =>
      rw [← checkLiteral_eq hl hv]
      cases v <;> simp_all [check]
    | none =>
      rw [← checkBase_eq hl hv]
      cases v <;> simp_all [check]

theorem complain_ne_ok (s : Scalar) (v w : Value) : s.complain v ≠ .ok (w, []) := by
  unfold complain
  cases s.complaint v <;> simp [Except.map]

theorem check_eq_ok_iff {s : Scalar} {v w : Value} :
    s.check v = .ok (w, []) ↔ s.admits v = true ∧ w = s.normalForm v := by
  rw [check_eq]
  split
  · simp [*, eq_comm]
  · simp [*, complain_ne_ok]

end Scalar

/-! ### Trees -/

theorem visitItems_eq_ok_iff {visit : Value → Except Breakdown (Value × List Note)}
    {conforms : Value → Prop} {normalForm : Value → Value}
    (h : ∀ v w, visit v = .ok (w, []) ↔ conforms v ∧ w = normalForm v)
    {i : Nat} {items ws : List Value} :
    visitItems visit i items = .ok (ws, []) ↔
      (∀ v ∈ items, conforms v) ∧ ws = items.map normalForm := by
  induction items generalizing i ws with
  | nil => simp [visitItems, eq_comm]
  | cons v rest ih =>
    simp only [visitItems, bind_eq_ok_iff, Prod.exists, Except.ok.injEq, Prod.mk.injEq,
      List.append_eq_nil_iff, List.map_eq_nil_iff, List.forall_mem_cons, List.map_cons]
    constructor
    · rintro ⟨w, _, hw, ws, _, hws, rfl, rfl, rfl⟩
      obtain ⟨hv, rfl⟩ := (h v w).1 hw
      obtain ⟨hrest, rfl⟩ := ih.1 hws
      exact ⟨⟨hv, hrest⟩, rfl⟩
    · rintro ⟨⟨hv, hrest⟩, rfl⟩
      exact ⟨_, [], (h v _).2 ⟨hv, rfl⟩, _, [], ih.2 ⟨hrest, rfl⟩, rfl, rfl, rfl⟩

/-- Lists of elements that pairwise give the same give the same. -/
theorem visitItems_congr {visit visit' : Value → Except Breakdown (Value × List Note)}
    {items others : List Value} (h : List.Forall₂ (fun v w => visit v = visit' w) items others)
    (i : Nat) : visitItems visit i items = visitItems visit' i others := by
  induction h generalizing i with
  | nil => rfl
  | cons hv _ ih => rw [visitItems, visitItems, hv, ih]

theorem extra_eq_nil_iff {strict : Bool} {nodes : List (String × Node)} {fields : Fields} :
    (if strict then undeclared nodes fields else []) = [] ↔
      (strict = true → ∀ field ∈ fields, declares nodes field.1 = true) := by
  cases strict <;> simp [undeclared, List.filter_eq_nil_iff]

namespace Node

/-- Objects in which the declared fields pairwise give the same give the same. -/
theorem visitFields_congr {strict : Bool} {nodes nodes' : List (String × Node)}
    {fields others : Fields}
    (h : List.Forall₂ (fun entry entry' => entry.1 = entry'.1 ∧
      entry.2.visit strict (Value.fieldOrNull entry.1 fields) =
        entry'.2.visit strict (Value.fieldOrNull entry.1 others)) nodes nodes') :
    visitFields strict nodes fields = visitFields strict nodes' others := by
  induction h with
  | nil => rfl
  | @cons entry entry' rest rest' hentry _ ih =>
    obtain ⟨name, node⟩ := entry
    obtain ⟨name', node'⟩ := entry'
    obtain ⟨rfl, hvisit⟩ := hentry
    rw [visitFields, visitFields, hvisit, ih]

mutual

theorem visit_eq_ok_iff (strict : Bool) : ∀ (node : Node) (v w : Value),
    node.visit strict v = .ok (w, []) ↔ node.Conforms strict v ∧ w = node.normalForm v
  | .scalar s, v, w => by
    simpa only [visit, Conforms, normalForm] using Scalar.check_eq_ok_iff
  | .array item, v, w => by
    cases v with
    | array items =>
      have hitems : ∀ ws, visitItems (visit strict item) 0 items = .ok (ws, []) ↔
          (∀ w ∈ items, item.Conforms strict w) ∧ ws = items.map item.normalForm := fun ws =>
        visitItems_eq_ok_iff (visit_eq_ok_iff strict item)
      simp only [visit, bind_eq_ok_iff, Prod.exists, Except.ok.injEq, Prod.mk.injEq, Conforms,
        normalForm, Value.array.injEq]
      constructor
      · rintro ⟨ws, _, hws, rfl, rfl⟩
        obtain ⟨hall, rfl⟩ := (hitems ws).1 hws
        exact ⟨⟨items, rfl, hall⟩, rfl⟩
      -- without a note at the end there was none at any element
      · rintro ⟨⟨_, rfl, hall⟩, rfl⟩
        exact ⟨_, [], (hitems _).2 ⟨hall, rfl⟩, rfl, rfl⟩
    | _ => simp [visit, Conforms, violated]
  | .object nodes, v, w => by
    cases v with
    | object fields =>
      have hfields := visitFields_eq_ok_iff strict nodes fields
      simp only [visit, bind_eq_ok_iff, Prod.exists, Except.ok.injEq, Prod.mk.injEq, Conforms,
        normalForm, Value.object.injEq, List.append_eq_nil_iff, List.map_eq_nil_iff]
      constructor
      · rintro ⟨ws, _, hws, rfl, rfl, hextra⟩
        obtain ⟨hall, rfl⟩ := (hfields ws).1 hws
        exact ⟨⟨fields, rfl, hall, extra_eq_nil_iff.1 hextra⟩, rfl⟩
      · rintro ⟨⟨_, rfl, hall, hextra⟩, rfl⟩
        exact ⟨_, [], (hfields _).2 ⟨hall, rfl⟩, rfl, rfl, extra_eq_nil_iff.2 hextra⟩
    | _ => simp [visit, Conforms, violated]
  | .foreign kind, v, w => by simp [visit, Conforms]

theorem visitFields_eq_ok_iff (strict : Bool) :
    ∀ (nodes : List (String × Node)) (fields ws : Fields),
      visitFields strict nodes fields = .ok (ws, []) ↔
        FieldsConform strict nodes fields ∧ ws = normalFields nodes fields
  | [], fields, ws => by simp [visitFields, FieldsConform, normalFields, eq_comm]
  | (name, node) :: rest, fields, ws => by
    have hnode := visit_eq_ok_iff strict node (Value.fieldOrNull name fields)
    have hrest := visitFields_eq_ok_iff strict rest fields
    simp only [visitFields, bind_eq_ok_iff, Prod.exists, Except.ok.injEq, Prod.mk.injEq,
      FieldsConform, normalFields, List.append_eq_nil_iff, List.map_eq_nil_iff]
    constructor
    · rintro ⟨w, _, hw, ws, _, hws, rfl, rfl, rfl⟩
      obtain ⟨hv, rfl⟩ := (hnode w).1 hw
      obtain ⟨hall, rfl⟩ := (hrest ws).1 hws
      exact ⟨⟨hv, hall⟩, rfl⟩
    · rintro ⟨⟨hv, hall⟩, rfl⟩
      exact ⟨_, [], (hnode _).2 ⟨hv, rfl⟩, _, [], (hrest _).2 ⟨hall, rfl⟩, rfl, rfl, rfl⟩

end

end Node

end Schema

theorem validate_eq_accepted_iff {node : Schema.Node} {v d : Value} {strict : Bool} :
    validate node v strict = .accepted d ↔ node.visit strict v = .ok (d, []) := by
  unfold validate
  rcases node.visit strict v with b | ⟨w, _ | ⟨n, notes⟩⟩ <;> simp

/-- What is accepted conforms, and the data is its normal form. -/
theorem accepted_iff {node : Schema.Node} {v d : Value} {strict : Bool} :
    validate node v strict = .accepted d ↔ node.Conforms strict v ∧ d = node.normalForm v := by
  rw [validate_eq_accepted_iff, Schema.Node.visit_eq_ok_iff]

theorem validate_errors_eq_nil_iff {node : Schema.Node} {v : Value} {strict : Bool} :
    (validate node v strict).errors = [] ↔ ∃ d, node.visit strict v = .ok (d, []) := by
  unfold validate
  rcases node.visit strict v with b | ⟨w, _ | ⟨n, notes⟩⟩
  · simp [Verdict.errors]
  · simp [Verdict.errors]
  · simp [Verdict.errors, ErrorMap.ofNotes_eq_nil_iff]

/-- A check accepts exactly the values that conform to the tree, in their normal form, and reports
errors for all others. -/
theorem validate_exact (node : Schema.Node) (v : Value) (strict : Bool) :
    (∀ d, validate node v strict = .accepted d ↔
      node.Conforms strict v ∧ d = node.normalForm v) ∧
    ((validate node v strict).errors = [] ↔ node.Conforms strict v) := by
  refine ⟨fun d => accepted_iff, ?_⟩
  rw [validate_errors_eq_nil_iff]
  constructor
  · rintro ⟨d, hd⟩
    exact (accepted_iff.1 (validate_eq_accepted_iff.2 hd)).1
  · intro h
    exact ⟨_, validate_eq_accepted_iff.1 (accepted_iff.2 ⟨h, rfl⟩)⟩

end Extraction
