import Extraction.Proofs.CompiledTree

/-!
Definitions under a cap. A definition is refused exactly if it is nested more deeply than the cap
allows; otherwise it compiles to the tree that it has without a cap, nested as deeply as the
definition. Of a list only the first element matters.
-/

namespace Extraction.Schema

/-! ### Depths -/

mutual

/-- A tree is nested as deeply as its definition. -/
theorem depth_treeOf : ∀ v : Value, (treeOf v).depth = depth v
  | .object fields => by rw [treeOf, Node.depth, depth, fieldsDepth_fieldTrees fields]
  | .array [] => rfl
  | .array (first :: rest) => by rw [treeOf, Node.depth, depth, depth_treeOf first]
  | .string _ | .null | .bool _ | .int _ | .float _ | .date _ | .dateTime _ => rfl

theorem fieldsDepth_fieldTrees : ∀ fields : List (String × Value),
    Node.fieldsDepth (fieldTrees fields) = fieldsDepth fields
  | [] => rfl
  | (name, v) :: rest => by
    rw [fieldTrees, Node.fieldsDepth, fieldsDepth, depth_treeOf v, fieldsDepth_fieldTrees rest]

end

/-- Do containers that are nested `n` deep stay below a cap, from a level on? Where there are none,
they do. -/
def StaysBelow (limit : Int) (level n : Nat) : Prop :=
  n = 0 ∨ (level + n : Int) ≤ limit

instance (limit : Int) (level n : Nat) : Decidable (StaysBelow limit level n) :=
  inferInstanceAs (Decidable (_ ∨ _))

variable {limit : Int} {level m n : Nat}

theorem staysBelow_succ :
    StaysBelow limit level (n + 1) ↔ (level : Int) < limit ∧ StaysBelow limit (level + 1) n := by
  unfold StaysBelow
  omega

theorem staysBelow_max :
    StaysBelow limit level (max m n) ↔ StaysBelow limit level m ∧ StaysBelow limit level n := by
  unfold StaysBelow
  omega

theorem staysBelow_root : StaysBelow limit 0 n ↔ (n : Int) ≤ max limit 0 := by
  unfold StaysBelow
  omega

theorem checkDepth_some (limit : Int) (level : Nat) :
    checkDepth (some limit) level = if (level : Int) < limit then .ok () else .error ⟨limit⟩ := by
  simp only [checkDepth, ← Int.not_lt, ite_not]

/-! ### Compiling -/

mutual

theorem compileAt_none (level : Nat) : ∀ v : Value, compileAt none level v = .ok (treeOf v)
  | .object fields => by
    rw [compileAt, compileFields_none (level + 1) fields, treeOf]
    rfl
  | .array [] => rfl
  | .array (first :: rest) => by
    rw [compileAt, compileAt_none (level + 1) first, treeOf]
    rfl
  | .string _ | .null | .bool _ | .int _ | .float _ | .date _ | .dateTime _ => rfl

theorem compileFields_none (level : Nat) : ∀ fields : List (String × Value),
    compileFields none level fields = .ok (fieldTrees fields)
  | [] => rfl
  | (name, v) :: rest => by
    rw [compileFields, compileAt_none level v, compileFields_none level rest, fieldTrees]
    rfl

end

mutual

/-- Under a cap, a definition compiles exactly if its containers stay below the cap. -/
theorem compileAt_some (limit : Int) (level : Nat) : ∀ v : Value,
    compileAt (some limit) level v =
      if StaysBelow limit level (depth v) then .ok (treeOf v) else .error ⟨limit⟩
  | .object fields => by
    rw [compileAt, checkDepth_some, compileFields_some limit (level + 1) fields, depth, treeOf]
    simp only [staysBelow_succ]
    split_ifs <;> simp_all [bind, Except.bind]
  | .array [] => by
    rw [compileAt, checkDepth_some, depth, treeOf]
    simp only [staysBelow_succ]
    split_ifs <;> simp_all [bind, Except.bind, StaysBelow]
  | .array (first :: rest) => by
    rw [compileAt, checkDepth_some, compileAt_some limit (level + 1) first, depth, treeOf]
    simp only [staysBelow_succ]
    split_ifs <;> simp_all [bind, Except.bind]
  | .string _ | .null | .bool _ | .int _ | .float _ | .date _ | .dateTime _ =>
    (if_pos (.inl rfl)).symm

theorem compileFields_some (limit : Int) (level : Nat) : ∀ fields : List (String × Value),
    compileFields (some limit) level fields =
      if StaysBelow limit level (fieldsDepth fields) then .ok (fieldTrees fields)
      else .error ⟨limit⟩
  | [] => (if_pos (.inl rfl)).symm
  | (name, v) :: rest => by
    rw [compileFields, compileAt_some limit level v, compileFields_some limit level rest,
      fieldsDepth, fieldTrees]
    simp only [staysBelow_max]
    split_ifs <;> simp_all [bind, Except.bind]

end

/-! ### Lists -/

mutual

/-- Two definitions that differ at most in elements behind the first ones of their lists. -/
inductive SameTemplates : Value → Value → Prop
  | refl (v : Value) : SameTemplates v v
  | array {first first' : Value} (rest rest' : List Value) (h : SameTemplates first first') :
      SameTemplates (.array (first :: rest)) (.array (first' :: rest'))
  | object {fields fields' : List (String × Value)} (h : SameFieldTemplates fields fields') :
      SameTemplates (.object fields) (.object fields')

inductive SameFieldTemplates : List (String × Value) → List (String × Value) → Prop
  | nil : SameFieldTemplates [] []
  | cons {v v' : Value} {rest rest' : List (String × Value)} (name : String)
      (h : SameTemplates v v') (hrest : SameFieldTemplates rest rest') :
      SameFieldTemplates ((name, v) :: rest) ((name, v') :: rest')

end

mutual

theorem SameTemplates.compileAt_eq (cap : Option Int) : ∀ {v v' : Value} (level : Nat),
    SameTemplates v v' → compileAt cap level v = compileAt cap level v'
  | _, _, _, .refl _ => rfl
  | _, _, level, .array _ _ h => by
    rw [compileAt, compileAt, h.compileAt_eq cap (level + 1)]
  | _, _, level, .object h => by
    rw [compileAt, compileAt, h.compileFields_eq cap (level + 1)]

theorem SameFieldTemplates.compileFields_eq (cap : Option Int) :
    ∀ {fields fields' : List (String × Value)} (level : Nat), SameFieldTemplates fields fields' →
      compileFields cap level fields = compileFields cap level fields'
  | _, _, _, .nil => rfl
  | _, _, level, .cons _ h hrest => by
    rw [compileFields, compileFields, h.compileAt_eq cap level, hrest.compileFields_eq cap level]

end

/-- Without a cap every definition compiles, to a tree that is nested as deeply as the definition.
Under a cap the definition compiles to the same tree if its depth does not exceed the cap, where a
cap below zero counts as zero, and else the cap is reported; so what compiles under a cap compiles
to the same under any higher one. Elements behind the first ones of lists make no difference. -/
theorem compile_exact (definition : Value) :
    (∃ node, compile none definition = .ok node ∧ node.depth = depth definition) ∧
    (∀ limit : Int, compile (some limit) definition =
      if (depth definition : Int) ≤ max limit 0 then compile none definition
      else .error ⟨limit⟩) ∧
    (∀ (limit higher : Int) (node : Node), limit ≤ higher →
      compile (some limit) definition = .ok node →
      compile (some higher) definition = .ok node) ∧
    (∀ other, SameTemplates definition other →
      ∀ cap, compile cap definition = compile cap other) := by
  have hcapped (limit : Int) : compile (some limit) definition =
      if (depth definition : Int) ≤ max limit 0 then compile none definition
      else .error ⟨limit⟩ := by
    simp only [compile, compileAt_some, compileAt_none, staysBelow_root]
  refine ⟨⟨treeOf definition, compileAt_none 0 definition, depth_treeOf definition⟩, hcapped, ?_,
    fun other h cap => h.compileAt_eq cap 0⟩
  intro limit higher node hle h
  rw [hcapped] at h ⊢
  split_ifs at h with hdepth
  have hroom : (depth definition : Int) ≤ max higher 0 := by omega
  rw [if_pos hroom, h]

/-- A definition whose deepest containers are empty, with further elements that are not looked
at. -/
def nestedLists (further : List Value) : Value :=
  .object [("rows", .array (.array [] :: further)), ("total", .object [])]

/-- It is three levels deep however deep the further elements are. -/
theorem nestedLists_capped :
    SameTemplates (nestedLists []) (nestedLists [.array [.array [.object []]]]) ∧
    (∃ node, compile (some 3) (nestedLists []) = .ok node ∧
      compile (some 4) (nestedLists []) = .ok node) ∧
    compile (some 2) (nestedLists [.array [.array [.object []]]]) = .error ⟨2⟩ := by
  have hsame : SameTemplates (nestedLists []) (nestedLists [.array [.array [.object []]]]) :=
    .object (.cons _ (.array _ _ (.refl _)) (.cons _ (.refl _) .nil))
  obtain ⟨⟨node, hnode, -⟩, hcapped, hhigher, htemplates⟩ := compile_exact (nestedLists [])
  have hdepth : depth (nestedLists []) = 3 := by decide
  rw [hdepth] at hcapped
  have hthree : compile (some 3) (nestedLists []) = .ok node := (hcapped 3).trans hnode
  exact ⟨hsame, ⟨node, hthree, hhigher 3 4 node (by decide) hthree⟩,
    (htemplates _ hsame (some 2)).symm.trans (hcapped 2)⟩

end Extraction.Schema
