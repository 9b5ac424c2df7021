import Extraction.Proofs.NormalForm
import Mathlib.Data.List.Nodup
import Mathlib.Logic.Relation

/-!
The declared part of a value. A lax check looks at what a value holds under declared names, and a
missing field is no different from a null: values that agree in this get the same verdict. The order
of the fields and undeclared fields have no influence, at whatever depth.
-/

namespace Extraction

open Schema

namespace Schema.Node

mutual

/-- Do two values agree in what a node declares? Where it meets two objects only the declared names
count, and a missing field reads as null. -/
def Agree : Node → Value → Value → Prop
  | .object nodes, .object fields, .object others => FieldsAgree nodes fields others
  | .array item, .array items, .array others => List.Forall₂ (Agree item) items others
  | _, v, w => v = w

def FieldsAgree : List (String × Node) → Fields → Fields → Prop
  | [], _, _ => True
  | (name, node) :: rest, fields, others =>
    Agree node (Value.fieldOrNull name fields) (Value.fieldOrNull name others) ∧
      FieldsAgree rest fields others

end

/-- One change that the declared part of a value does not show: at an object that its node declares,
at the root or however deep. -/
inductive Unseen : Node → Value → Value → Prop
  | nullLeftOut {nodes : List (String × Node)} {name : String} {before after : Fields}
      (hname : name ∉ (before ++ after).map Prod.fst) :
      Unseen (.object nodes) (.object (before ++ (name, .null) :: after))
        (.object (before ++ after))
  | undeclaredLeftOut {nodes : List (String × Node)} {name : String} {v : Value}
      {before after : Fields} (hname : name ∉ nodes.map Prod.fst) :
      Unseen (.object nodes) (.object (before ++ (name, v) :: after)) (.object (before ++ after))
  | reordered {nodes : List (String × Node)} {fields others : Fields} (hperm : fields.Perm others)
      (hnodup : (fields.map Prod.fst).Nodup) :
      Unseen (.object nodes) (.object fields) (.object others)
  | element {item : Node} {v w : Value} {before after : List Value} (h : Unseen item v w) :
      Unseen (.array item) (.array (before ++ v :: after)) (.array (before ++ w :: after))
  -- any tree is allowed, so a name may be declared more than once, and each of its nodes counts
  | field {nodes : List (String × Node)} {name : String} {v w : Value} {before after : Fields}
      (h : ∀ node, (name, node) ∈ nodes → Unseen node v w) :
      Unseen (.object nodes) (.object (before ++ (name, v) :: after))
        (.object (before ++ (name, w) :: after))

theorem fieldsAgree_iff {nodes : List (String × Node)} {fields others : Fields} :
    FieldsAgree nodes fields others ↔ ∀ entry ∈ nodes,
      entry.2.Agree (Value.fieldOrNull entry.1 fields) (Value.fieldOrNull entry.1 others) := by
  induction nodes with
  | nil => simp [FieldsAgree]
  | cons entry rest ih => rw [FieldsAgree, ih, List.forall_mem_cons]

theorem Agree.refl (node : Node) (v : Value) : node.Agree v v := by
  induction node using induction_parts generalizing v with
  | scalar | foreign => simp [Agree]
  | array item ih =>
    cases v with
    | array items => exact List.forall₂_same.2 fun w _ => ih w
    | _ => simp [Agree]
  | object nodes ih =>
    cases v with
    | object fields => exact fieldsAgree_iff.2 fun entry hentry => ih entry hentry _
    | _ => simp [Agree]

/-- A lax walk finds the same in values that agree. -/
theorem visit_eq_of_agree {node : Node} {v w : Value} (h : node.Agree v w) :
    node.visit false v = node.visit false w := by
  induction node using induction_parts generalizing v w with
  | scalar | foreign =>
    have hvw : v = w := by simpa [Agree] using h
    rw [hvw]
  | array item ih =>
    cases v with
    | array items =>
      cases w with
      | array others =>
        have hitems : List.Forall₂ (fun v w => item.visit false v = item.visit false w) items
            others := List.Forall₂.imp (fun _ _ hvw => ih hvw) h
        rw [visit, visit, visitItems_congr hitems]
      | _ => simp [Agree] at h
    | _ =>
      simp only [Agree] at h
      rw [h]
  | object nodes ih =>
    cases v with
    | object fields =>
      cases w with
      | object others =>
        have hfields := fieldsAgree_iff.1 h
        have hvisit : visitFields false nodes fields = visitFields false nodes others :=
          visitFields_congr (List.forall₂_same.2 fun entry hentry =>
            ⟨rfl, ih entry hentry (hfields entry hentry)⟩)
        rw [visit, visit, hvisit]
        rfl
      | _ => simp [Agree] at h
    | _ =>
      simp only [Agree] at h
      rw [h]

end Schema.Node

/-! ### Changes that are not seen -/

namespace Value

theorem lookup?_append (name : String) (fields others : Fields) :
    lookup? name (fields ++ others) = (lookup? name fields).or (lookup? name others) := by
  induction fields with
  | nil => rfl
  | cons field rest ih =>
    obtain ⟨key, v⟩ := field
    by_cases h : key = name <;> simp [lookup?, h, ih]

theorem lookup?_eq_none {name : String} {fields : Fields} (h : name ∉ fields.map Prod.fst) :
    lookup? name fields = none := by
  induction fields with
  | nil => rfl
  | cons field rest ih =>
    rw [List.map_cons, List.mem_cons, not_or] at h
    rw [lookup?, if_neg (Ne.symm h.1), ih h.2]

theorem lookup?_eq_some_iff {name : String} {fields : Fields} (h : (fields.map Prod.fst).Nodup)
    {v : Value} : lookup? name fields = some v ↔ (name, v) ∈ fields := by
  induction fields with
  | nil => simp [lookup?]
  | cons field rest ih =>
    obtain ⟨key, w⟩ := field
    rw [List.map_cons, List.nodup_cons] at h
    by_cases hkey : key = name
    · subst hkey
      have habsent : (key, v) ∉ rest := fun hmem => h.1 (List.mem_map.2 ⟨_, hmem, rfl⟩)
      simp [lookup?, habsent, eq_comm]
    · rw [lookup?, if_neg hkey, ih h.2]
      simp [Ne.symm hkey]

/-- The order of fields with different names is not seen. -/
theorem lookup?_perm {fields others : Fields} (hperm : fields.Perm others)
    (hnodup : (fields.map Prod.fst).Nodup) (name : String) :
    lookup? name fields = lookup? name others := by
  have hnodup' : (others.map Prod.fst).Nodup := (hperm.map Prod.fst).nodup_iff.1 hnodup
  apply Option.ext
  intro v
  rw [lookup?_eq_some_iff hnodup, lookup?_eq_some_iff hnodup', hperm.mem_iff]

/-- A field counts under its own name only. -/
theorem fieldOrNull_insert_of_ne {name key : String} (h : key ≠ name) (v : Value)
    (before after : Fields) :
    fieldOrNull name (before ++ (key, v) :: after) = fieldOrNull name (before ++ after) := by
  rw [fieldOrNull, lookup?_append, lookup?, if_neg h, ← lookup?_append, fieldOrNull]

theorem fieldOrNull_insert_null {name key : String} {before after : Fields}
    (h : key ∉ (before ++ after).map Prod.fst) :
    fieldOrNull name (before ++ (key, .null) :: after) = fieldOrNull name (before ++ after) := by
  by_cases hkey : key = name
  · subst hkey
    have habsent := lookup?_eq_none h
    rw [lookup?_append, Option.or_eq_none_iff] at habsent
    rw [fieldOrNull, fieldOrNull, lookup?_append, lookup?_append, lookup?, if_pos rfl, habsent.1,
      habsent.2]
    rfl
  · exact fieldOrNull_insert_of_ne hkey _ before after

end Value

namespace Schema.Node

/-- Objects that hold the same under each declared name agree. -/
theorem agree_of_fieldOrNull_eq {nodes : List (String × Node)} {fields others : Fields}
    (h : ∀ name ∈ nodes.map Prod.fst,
      Value.fieldOrNull name fields = Value.fieldOrNull name others) :
    (Node.object nodes).Agree (.object fields) (.object others) := by
  refine fieldsAgree_iff.2 fun entry hentry => ?_
  rw [h entry.1 (List.mem_map_of_mem hentry)]
  exact .refl entry.2 _

/-- Where one field of two objects differs, they agree if each node of its name agrees on it. -/
theorem agree_of_field {nodes : List (String × Node)} {name : String} {v w : Value}
    {before after : Fields} (h : ∀ node, (name, node) ∈ nodes → node.Agree v w) :
    (Node.object nodes).Agree (.object (before ++ (name, v) :: after))
      (.object (before ++ (name, w) :: after)) := by
  refine fieldsAgree_iff.2 fun entry hentry => ?_
  obtain ⟨key, node⟩ := entry
  by_cases hkey : name = key
  · subst hkey
    simp only [Value.fieldOrNull, Value.lookup?_append, Value.lookup?, if_pos]
    -- a field of the same name further in front hides this one
    cases Value.lookup? name before with
    | some first => exact .refl node first
    | none => exact h node hentry
  · rw [Value.fieldOrNull_insert_of_ne hkey, Value.fieldOrNull_insert_of_ne hkey]
    exact .refl node _

theorem agree_of_element {item : Node} {v w : Value} (h : item.Agree v w)
    (before after : List Value) :
    (Node.array item).Agree (.array (before ++ v :: after)) (.array (before ++ w :: after)) := by
  have hsame : ∀ items : List Value, List.Forall₂ item.Agree items items := fun items =>
    List.forall₂_same.2 fun u _ => .refl item u
  exact List.rel_append (hsame before) (.cons h (hsame after))

theorem agree_of_unseen {node : Node} {v w : Value} (h : node.Unseen v w) : node.Agree v w := by
  induction h with
  | nullLeftOut hname =>
    exact agree_of_fieldOrNull_eq fun name _ => Value.fieldOrNull_insert_null hname
  | @undeclaredLeftOut nodes key v before after hname =>
    refine agree_of_fieldOrNull_eq fun name hdeclared => ?_
    have hne : key ≠ name := fun heq => hname (heq ▸ hdeclared)
    exact Value.fieldOrNull_insert_of_ne hne v before after
  | reordered hperm hnodup =>
    refine agree_of_fieldOrNull_eq fun name _ => ?_
    rw [Value.fieldOrNull, Value.fieldOrNull, Value.lookup?_perm hperm hnodup]
  | element _ ih => exact agree_of_element ih _ _
  | field _ ih => exact agree_of_field ih

/-- Values that unseen changes lead from one to the other get the same from a lax walk. -/
theorem visit_eq_of_eqvGen {node : Node} {v w : Value} (h : Relation.EqvGen node.Unseen v w) :
    node.visit false v = node.visit false w := by
  induction h with
  | rel v w h => exact visit_eq_of_agree (agree_of_unseen h)
  | refl v => rfl
  | symm v w _ ih => exact ih.symm
  | trans u v w _ _ ihu ihv => exact ihu.trans ihv

end Schema.Node

/-- The lax verdict depends on the declared part alone. So a declared null is as good as none, and
the order of fields and undeclared fields play no role, wherever an object is declared. -/
theorem lax_verdict_of_declared_part (node : Node) :
    (∀ v w, node.Agree v w → validate node v false = validate node w false) ∧
    ∀ v w, Relation.EqvGen node.Unseen v w → validate node v false = validate node w false :=
  ⟨fun _ _ h => validate_eq_of_visit_eq (Node.visit_eq_of_agree h),
    fun _ _ h => validate_eq_of_visit_eq (Node.visit_eq_of_eqvGen h)⟩

/-- A definition of tickets with a list of seats. -/
def ticketDefinition : Value :=
  .object [("guest", .string "string"),
    ("seats", .array [.object [("row", .string "number"), ("note", .string "string | null")]])]

/-- A ticket with a row that is a text and, besides, a null and a field that is not declared. -/
def ticket : Value :=
  .object [("vip", .bool true), ("seats", .array [.object [("note", .null),
    ("row", .string "back")]]), ("guest", .string "Ann")]

/-- The ticket in the order of its definition, with nothing besides. -/
def bareTicket : Value :=
  .object [("guest", .string "Ann"), ("seats", .array [.object [("row", .string "back")]])]

theorem verdict_of_bareTicket :
    validate (treeOf ticketDefinition) ticket false =
      validate (treeOf ticketDefinition) bareTicket false ∧
    validate (treeOf ticketDefinition) (.object []) false =
      validate (treeOf ticketDefinition) (.object [("vip", .null), ("guest", .null)]) false := by
  let seat := Node.object [("row", treeOf (.string "number")),
    ("note", treeOf (.string "string | null"))]
  let nodes := [("guest", treeOf (.string "string")), ("seats", Node.array seat)]
  let guest := ("guest", Value.string "Ann")
  let seats := ("seats", Value.array [.object [("note", .null), ("row", .string "back")]])
  let bareSeats := ("seats", Value.array [.object [("row", .string "back")]])
  have hvip : (Node.object nodes).Unseen ticket (.object [seats, guest]) :=
    @Node.Unseen.undeclaredLeftOut nodes "vip" (.bool true) [] [seats, guest] (by decide)
  have hseat : seat.Unseen (.object [("note", .null), ("row", .string "back")])
      (.object [("row", .string "back")]) :=
    @Node.Unseen.nullLeftOut _ "note" [] [("row", .string "back")] (by decide)
  have hseats : (Node.array seat).Unseen seats.2 bareSeats.2 :=
    @Node.Unseen.element _ _ _ [] [] hseat
  have hnote : (Node.object nodes).Unseen (.object [seats, guest]) (.object [bareSeats, guest]) :=
    @Node.Unseen.field nodes "seats" _ _ [] [guest] fun node hnode => by
      obtain rfl : node = .array seat := by simpa [nodes] using hnode
      exact hseats
  have horder : (Node.object nodes).Unseen (.object [bareSeats, guest]) bareTicket :=
    .reordered (.swap guest bareSeats []) (by decide)
  have hnone : (Node.object nodes).Agree (.object [])
      (.object [("vip", .null), ("guest", .null)]) := ⟨rfl, rfl, trivial⟩
  obtain ⟨hagree, hunseen⟩ := lax_verdict_of_declared_part (treeOf ticketDefinition)
  exact ⟨hunseen _ _ (.trans _ _ _ (.rel _ _ hvip) (.trans _ _ _ (.rel _ _ hnote)
    (.rel _ _ horder))), hagree _ _ hnone⟩

end Extraction
