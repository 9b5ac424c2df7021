import Extraction.Proofs.Chaining
import Extraction.Proofs.PlainValues
import Extraction.Schema.Compile
import Mathlib.Tactic.SplitIfs

/-!
Compiled trees. Below its cap a definition compiles to one tree, which is well-formed, and whose
objects declare the names that the objects of the definition have.
-/

namespace Extraction

namespace Schema

mutual

/-- Does the list of declared names of every object node satisfy `p`? -/
def Node.AllNames (p : List String → Prop) : Node → Prop
  | .array item => AllNames p item
  | .object nodes => p (nodes.map Prod.fst) ∧ FieldNames p nodes
  | _ => True

def Node.FieldNames (p : List String → Prop) : List (String × Node) → Prop
  | [] => True
  | (_, node) :: rest => AllNames p node ∧ FieldNames p rest

end

theorem Node.fieldNames_iff {p : List String → Prop} {nodes : List (String × Node)} :
    FieldNames p nodes ↔ ∀ entry ∈ nodes, entry.2.AllNames p := by
  induction nodes with
  | nil => simp [FieldNames]
  | cons entry rest ih => rw [FieldNames, ih, List.forall_mem_cons]

mutual

/-- The tree of a definition, whatever its depth. -/
def treeOf : Value → Node
  | .object fields => .object (fieldTrees fields)
  | .array [] => .array .any
  | .array (first :: _) => .array (treeOf first)
  | .string text => .scalar (.ofText text)
  | _ => .any

def fieldTrees : List (String × Value) → List (String × Node)
  | [] => []
  | (name, v) :: rest => (name, treeOf v) :: fieldTrees rest

end

mutual

theorem compileAt_eq_ok {cap : Option Int} : ∀ {depth : Nat} {v : Value} {node : Node},
    compileAt cap depth v = .ok node → node = treeOf v
  | depth, .object fields, node, h => by
    simp only [compileAt, bind_eq_ok_iff, Except.ok.injEq] at h
    obtain ⟨-, -, nodes, hnodes, rfl⟩ := h
    rw [compileFields_eq_ok hnodes, treeOf]
  | depth, .array [], node, h => by
    simp only [compileAt, bind_eq_ok_iff, Except.ok.injEq] at h
    obtain ⟨-, -, rfl⟩ := h
    rw [treeOf]
  | depth, .array (first :: rest), node, h => by
    simp only [compileAt, bind_eq_ok_iff, Except.ok.injEq] at h
    obtain ⟨-, -, item, hitem, rfl⟩ := h
    rw [compileAt_eq_ok hitem, treeOf]
  | depth, .string text, node, h => by simpa [compileAt, treeOf, eq_comm] using h
  | depth, .null, node, h | depth, .bool _, node, h | depth, .int _, node, h
  | depth, .float _, node, h | depth, .date _, node, h | depth, .dateTime _, node, h => by
    simpa [compileAt, treeOf, eq_comm] using h

theorem compileFields_eq_ok {cap : Option Int} : ∀ {depth : Nat} {fields : List (String × Value)}
    {nodes : List (String × Node)}, compileFields cap depth fields = .ok nodes →
      nodes = fieldTrees fields
  | depth, [], nodes, h => by simpa [compileFields, fieldTrees, eq_comm] using h
  | depth, (name, v) :: rest, nodes, h => by
    simp only [compileFields, bind_eq_ok_iff, Except.ok.injEq] at h
    obtain ⟨node, hnode, others, hothers, rfl⟩ := h
    rw [compileAt_eq_ok hnode, compileFields_eq_ok hothers, fieldTrees]

end

theorem compile_eq_ok {cap : Option Int} {definition : Value} {node : Node}
    (h : compile cap definition = .ok node) : node = treeOf definition :=
  compileAt_eq_ok h

/-! ### Type texts -/

theorem Token.typeNamed?_eq_some {name : String} {t : BaseType}
    (h : Token.typeNamed? name = some t) : t.name? = some name := by
  unfold Token.typeNamed? at h
  split_ifs at h with h1 h2 h3 h4
  all_goals cases h
  all_goals simp [BaseType.name?, *]

theorem Token.ofPart_eq_type {part text : String} {t : BaseType}
    (h : Token.ofPart part = .type t text) : t.name?.isSome = true := by
  unfold Token.ofPart at h
  split at h
  · cases h
  · split at h
    · cases h
      rw [Token.typeNamed?_eq_some ‹_›]
      rfl
    · cases h

theorem Scalar.ofText_base (text : String) : (Scalar.ofText text).base.name?.isSome = true := by
  have htype : ∀ token ∈ tokens text, ∀ t s, token = .type t s → t.name?.isSome = true := by
    intro token hmem t s htoken
    obtain ⟨part, -, rfl⟩ := List.mem_map.1 hmem
    exact Token.ofPart_eq_type htoken
  unfold Scalar.ofText
  split
  · rfl
  · rename_i main others hfilter
    -- the main token stands in the text, and there a type is always one that exists
    split
    · rfl
    · split
      · rename_i t s
        have hmain : Token.type t s ∈ (tokens text).filter (· != .null) := by
          rw [hfilter]
          exact List.mem_cons_self
        exact htype _ ((List.mem_filter.1 hmain).1) t s rfl
      · rfl

/-! ### What compiled trees are like -/

mutual

/-- Every node of a compiled tree is a node, and every type exists. -/
theorem treeOf_wellFormed : ∀ v : Value, (treeOf v).WellFormed
  | .object fields => by simpa [treeOf, Node.WellFormed] using fieldTrees_wellFormed fields
  | .array [] => rfl
  | .array (first :: rest) => by simpa [treeOf, Node.WellFormed] using treeOf_wellFormed first
  | .string text => by simpa [treeOf, Node.WellFormed] using Scalar.ofText_base text
  | .null | .bool _ | .int _ | .float _ | .date _ | .dateTime _ => rfl

theorem fieldTrees_wellFormed : ∀ fields : List (String × Value),
    Node.FieldsWellFormed (fieldTrees fields)
  | [] => by simp [fieldTrees, Node.FieldsWellFormed]
  | (name, v) :: rest => by
    simpa [fieldTrees, Node.FieldsWellFormed] using
      ⟨treeOf_wellFormed v, fieldTrees_wellFormed rest⟩

end

theorem keys_fieldTrees (fields : List (String × Value)) :
    (fieldTrees fields).map Prod.fst = fields.map Prod.fst := by
  induction fields with
  | nil => simp [fieldTrees]
  | cons field rest ih => simp [fieldTrees, ih]

mutual

theorem treeOf_allNames {p : List String → Prop} : ∀ {v : Value},
    v.AllNames p → (treeOf v).AllNames p
  | .object fields, h => by
    rw [treeOf, Node.AllNames, keys_fieldTrees]
    exact ⟨h.1, fieldTrees_allNames h.2⟩
  | .array [], _ => by simp [treeOf, Node.any, Node.AllNames]
  | .array (first :: rest), h => by
    rw [treeOf, Node.AllNames]
    exact treeOf_allNames h.1
  | .string text, _ => by simp [treeOf, Node.AllNames]
  | .null, _ | .bool _, _ | .int _, _ | .float _, _ | .date _, _ | .dateTime _, _ => by
    simp [treeOf, Node.any, Node.AllNames]

theorem fieldTrees_allNames {p : List String → Prop} : ∀ {fields : List (String × Value)},
    Value.FieldNames p fields → Node.FieldNames p (fieldTrees fields)
  | [], _ => by simp [fieldTrees, Node.FieldNames]
  | (name, v) :: rest, h => by
    rw [fieldTrees, Node.FieldNames]
    exact ⟨treeOf_allNames h.1, fieldTrees_allNames h.2⟩

end

end Schema

end Extraction
