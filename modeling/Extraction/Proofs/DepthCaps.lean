import Extraction.Proofs.NormalForm
import Extraction.Proofs.Outline

/-!
One cap for definitions and for outlines. A definition that compiles below a cap has no container
node at a depth at which an outline would write containers inline, so only what stands under nodes
that take anything is ever written so.
-/

namespace Extraction

open Schema
open Markdown (atCap entries itemEntries fieldEntries outline)
open Bullet (Label)

namespace Schema

/-! ### Depths below the cap -/

theorem checkDepth_eq_ok_iff {cap : Option Int} {depth : Nat} {u : Unit} :
    checkDepth cap depth = .ok u ↔ atCap cap depth = false := by
  cases cap <;> simp [checkDepth, atCap]

namespace Node

/-- No container node of a tree that starts at a level lies at the cap. -/
def Fits (cap : Option Int) (level : Nat) (node : Node) : Prop :=
  ∀ k < node.depth, atCap cap (level + k) = false

variable {cap : Option Int} {level : Nat} {nodes : List (String × Node)} {item : Node}

theorem fits_of_no_container {node : Node} (h : node.depth = 0) : node.Fits cap level := by
  intro k hk
  rw [h] at hk
  exact absurd hk (Nat.not_lt_zero k)

theorem fits_array_iff :
    (Node.array item).Fits cap level ↔ atCap cap level = false ∧ item.Fits cap (level + 1) := by
  simp only [Fits, depth, Nat.forall_lt_succ_left, Nat.add_zero, Nat.add_right_comm level 1,
    Nat.add_assoc]

theorem fits_object_iff :
    (Node.object nodes).Fits cap level ↔
      atCap cap level = false ∧ ∀ entry ∈ nodes, entry.2.Fits cap (level + 1) := by
  have hfields : (∀ k < fieldsDepth nodes, atCap cap (level + (k + 1)) = false) ↔
      ∀ entry ∈ nodes, entry.2.Fits cap (level + 1) := by
    simp only [lt_fieldsDepth_iff, Fits, Nat.add_right_comm level 1, Nat.add_assoc]
    exact ⟨fun h entry hentry k hk => h k ⟨entry, hentry, hk⟩,
      fun h k ⟨entry, hentry, hk⟩ => h entry hentry k hk⟩
  rw [Fits, depth, Nat.forall_lt_succ_left, hfields, Nat.add_zero]

end Node

mutual

/-- A definition that compiles at a depth fits below the cap there. -/
theorem compileAt_fits {cap : Option Int} : ∀ {depth : Nat} {v : Value} {node : Node},
    compileAt cap depth v = .ok node → node.Fits cap depth
  | depth, .object fields, node, h => by
    simp only [compileAt, bind_eq_ok_iff, Except.ok.injEq] at h
    obtain ⟨_, hcheck, nodes, hnodes, rfl⟩ := h
    exact Node.fits_object_iff.2 ⟨checkDepth_eq_ok_iff.1 hcheck, compileFields_fits hnodes⟩
  | depth, .array [], node, h => by
    simp only [compileAt, bind_eq_ok_iff, Except.ok.injEq] at h
    obtain ⟨_, hcheck, rfl⟩ := h
    exact Node.fits_array_iff.2 ⟨checkDepth_eq_ok_iff.1 hcheck, Node.fits_of_no_container rfl⟩
  | depth, .array (first :: rest), node, h => by
    simp only [compileAt, bind_eq_ok_iff, Except.ok.injEq] at h
    obtain ⟨_, hcheck, item, hitem, rfl⟩ := h
    exact Node.fits_array_iff.2 ⟨checkDepth_eq_ok_iff.1 hcheck, compileAt_fits hitem⟩
  | depth, .string _, node, h | depth, .null, node, h | depth, .bool _, node, h
  | depth, .int _, node, h | depth, .float _, node, h | depth, .date _, node, h
  | depth, .dateTime _, node, h => by
    simp only [compileAt, Except.ok.injEq] at h
    subst h
    exact Node.fits_of_no_container rfl

theorem compileFields_fits {cap : Option Int} : ∀ {depth : Nat} {fields : List (String × Value)}
    {nodes : List (String × Node)}, compileFields cap depth fields = .ok nodes →
      ∀ entry ∈ nodes, entry.2.Fits cap depth
  | depth, [], nodes, h => by
    simp only [compileFields, Except.ok.injEq] at h
    subst h
    exact nofun
  | depth, (name, v) :: rest, nodes, h => by
    simp only [compileFields, bind_eq_ok_iff, Except.ok.injEq] at h
    obtain ⟨node, hnode, others, hothers, rfl⟩ := h
    exact List.forall_mem_cons.2 ⟨compileAt_fits hnode, compileFields_fits hothers⟩

end

/-! ### Scalars that take anything -/

/-- A scalar of any type, without literals. -/
def Scalar.IsAny (s : Scalar) : Prop :=
  s.base = .any ∧ s.literals = none

namespace Scalar

variable {s : Scalar} {v : Value}

theorem normalForm_of_isAny (h : s.IsAny) : s.normalForm v = v := by
  refine normalForm_eq_self fun hdate => ?_
  rw [ReadsDates, h.1] at hdate
  exact absurd hdate.2 (by decide)

theorem admits_array_iff {items : List Value} : s.admits (.array items) = true ↔ s.IsAny := by
  have hadmits : s.admits (.array items) =
      (s.literals.isNone && s.base.admits (.array items)) := rfl
  rw [hadmits, Bool.and_eq_true, Option.isNone_iff_eq_none, IsAny, and_comm]
  refine and_congr_left fun _ => ?_
  cases s.base <;> simp [BaseType.admits, Value.asDate?]

theorem admits_object_iff {fields : Fields} : s.admits (.object fields) = true ↔ s.IsAny := by
  have hadmits : s.admits (.object fields) =
      (s.literals.isNone && s.base.admits (.object fields)) := rfl
  rw [hadmits, Bool.and_eq_true, Option.isNone_iff_eq_none, IsAny, and_comm]
  refine and_congr_left fun _ => ?_
  cases s.base <;> simp [BaseType.admits, Value.asDate?]

/-- A scalar that does not take anything takes no containers, and makes none. -/
theorem nesting_normalForm (h : ¬s.IsAny) (hv : s.admits v = true) :
    (s.normalForm v).nesting = 0 := by
  rcases normalForm_cases hv with hkept | ⟨-, reading, -, hnormal⟩
  · rw [hkept]
    cases v with
    | array => exact absurd (admits_array_iff.1 hv) h
    | object => exact absurd (admits_object_iff.1 hv) h
    | _ => rfl
  · rw [hnormal]
    cases reading <;> rfl

end Scalar

/-! ### What lies in leaves that take anything -/

namespace Node

/-- Does a value lie, at a location, in a leaf of the tree that takes anything? The walk goes down
the tree and the data together to the leaf, and on in what stands there. -/
def WithinAny (node : Node) (d : Value) (l : Location) (w : Value) : Prop :=
  ∃ here below s x, l = here ++ below ∧ node.at? d here = some (.scalar s, x) ∧ s.IsAny ∧
    w.LiesAt below x

mutual

/-- No leaf of the tree takes anything. -/
def AnyFree : Node → Prop
  | .scalar s => ¬s.IsAny
  | .array item => AnyFree item
  | .object nodes => FieldsAnyFree nodes
  | .foreign _ => True

def FieldsAnyFree : List (String × Node) → Prop
  | [] => True
  | (_, node) :: rest => AnyFree node ∧ FieldsAnyFree rest

end

variable {d w : Value} {l : Location}

theorem withinAny_item {items : List Value} {i : Nat} (hd : items[i]? = some d)
    (h : item.WithinAny d l w) : (Node.array item).WithinAny (.array items) (.index i :: l) w := by
  obtain ⟨here, below, s, x, rfl, hat, hs, hw⟩ := h
  refine ⟨.index i :: here, below, s, x, rfl, ?_, hs, hw⟩
  rw [at?, hd]
  exact hat

theorem withinAny_field {fields : Fields} {name : String} {node : Node}
    (hnode : nodes.lookup name = some node)
    (h : node.WithinAny (Value.fieldOrNull name fields) l w) :
    (Node.object nodes).WithinAny (.object fields) (.field name :: l) w := by
  obtain ⟨here, below, s, x, rfl, hat, hs, hw⟩ := h
  refine ⟨.field name :: here, below, s, x, rfl, ?_, hs, hw⟩
  rw [at?, hnode]
  exact hat

theorem anyFree_of_lookup (h : FieldsAnyFree nodes) {name : String} {node : Node}
    (hnode : nodes.lookup name = some node) : node.AnyFree := by
  induction nodes with
  | nil => cases hnode
  | cons entry rest ih =>
    rw [List.lookup_cons] at hnode
    split at hnode
    · cases hnode
      exact h.1
    · exact ih h.2 hnode

/-- A tree without leaves that take anything is one in which nothing lies in such a leaf. -/
theorem AnyFree.not_withinAny {node : Node} (h : node.AnyFree) : ¬node.WithinAny d l w := by
  rintro ⟨here, below, s, x, -, hat, hs, -⟩
  fun_induction at? node d here with
  | case1 node d =>
    cases hat
    exact h hs
  | case2 nodes fields name rest node hnode ih => exact ih (anyFree_of_lookup h hnode) hat
  | case4 item items i rest v hv ih => exact ih h hat
  | _ => cases hat

/-! ### What is written inline for accepted data -/

/-- Something that lies in a leaf of the tree that takes anything, and holds no date. -/
def TakenAsIs (node : Node) (d : Value) (l : Location) (w : Value) : Prop :=
  node.WithinAny d l w ∧ w.DateFree

open Markdown (InlineOnly)

theorem inlineOnly_any {s : Scalar} (hs : s.IsAny) {v : Value} (hv : v.DateFree)
    {es : List Markdown.Entry} (h : InlineOnly (fun below w => w.LiesAt below v) l es) :
    InlineOnly ((Node.scalar s).TakenAsIs v) l es :=
  h.imp fun below _ hw => ⟨⟨[], below, s, v, rfl, rfl, hs, hw⟩, hv.of_liesAt hw⟩

variable {strict : Bool}

/-- Below a level, only what is taken as it is is written inline for the data of a node. -/
def InlineTakenAsIs (strict : Bool) (cap : Option Int) (level : Nat) (node : Node) : Prop :=
  ∀ v l label, node.Conforms strict v → v.DateFree →
    InlineOnly (node.TakenAsIs (node.normalForm v)) l
      (entries cap level l label (node.normalForm v))

theorem inlineOnly_items (hitem : item.InlineTakenAsIs strict cap level) {items : List Value}
    (hitems : ∀ v ∈ items, item.Conforms strict v) (hdates : (Value.array items).DateFree) :
    InlineOnly ((Node.array item).TakenAsIs (.array (items.map item.normalForm))) l
      (itemEntries cap level l 0 (items.map item.normalForm)) := by
  refine Markdown.inlineOnly_itemEntries fun i d hd => ?_
  obtain ⟨v, hv, rfl⟩ : ∃ v, items[i]? = some v ∧ item.normalForm v = d := by
    rwa [List.getElem?_map, Option.map_eq_some_iff] at hd
  have hmem := List.mem_of_getElem? hv
  exact (hitem v _ _ (hitems v hmem) (Value.itemLeaves_iff.1 hdates v hmem)).imp
    fun _ _ h => ⟨withinAny_item hd h.1, h.2⟩

theorem inlineOnly_fields (hnodup : (nodes.map Prod.fst).Nodup)
    (hnodes : ∀ entry ∈ nodes, entry.2.InlineTakenAsIs strict cap level) {fields : Fields}
    (hfields : FieldsConform strict nodes fields) (hdates : (Value.object fields).DateFree) :
    InlineOnly ((Node.object nodes).TakenAsIs (.object (normalFields nodes fields))) l
      (fieldEntries cap level l (normalFields nodes fields)) := by
  refine Markdown.inlineOnly_fieldEntries fun field hfield => ?_
  rw [normalFields_eq_map] at hfield
  obtain ⟨entry, hentry, rfl⟩ := List.mem_map.1 hfield
  have hdata : Value.fieldOrNull entry.1 (normalFields nodes fields) =
      entry.2.normalForm (Value.fieldOrNull entry.1 fields) := by
    simpa using fieldOrNull_normalFields id hnodup fields hentry
  refine (hnodes entry hentry _ _ _ (fieldsConform_iff.1 hfields entry hentry)
    (hdates.fieldOrNull entry.1)).imp fun _ _ h => ⟨?_, h.2⟩
  exact withinAny_field (lookup_of_mem hnodup hentry) (hdata ▸ h.1)

/-- Below its cap, a tree has the containers of its data written out. -/
theorem inlineTakenAsIs (strict : Bool) {cap : Option Int} (node : Node) : ∀ {level : Nat},
    node.DistinctNames → node.Fits cap (level + 1) → node.InlineTakenAsIs strict cap level := by
  induction node using induction_parts with
  | scalar s =>
    intro level _ _ v l label hv hdates
    by_cases hs : s.IsAny
    · rw [normalForm, Scalar.normalForm_of_isAny hs]
      exact inlineOnly_any hs hdates (Markdown.inlineOnly_liesAt v level l label)
    · exact Markdown.inlineOnly_leaf (Scalar.nesting_normalForm hs hv)
  | array item ih =>
    rintro level hdistinct hfits _ l label ⟨items, rfl, hitems⟩ hdates
    obtain ⟨hcap, hfits⟩ := fits_array_iff.1 hfits
    rw [normalForm]
    refine Markdown.inlineOnly_array (fun h => ?_)
      (inlineOnly_items (ih hdistinct hfits) hitems hdates)
    rw [hcap] at h
    cases h
  | object nodes ih =>
    rintro level ⟨hnodup, hdistinct⟩ hfits _ l label ⟨fields, rfl, hfields, -⟩ hdates
    obtain ⟨hcap, hfits⟩ := fits_object_iff.1 hfits
    rw [normalForm]
    refine Markdown.inlineOnly_object (fun h => ?_) (inlineOnly_fields hnodup
      (fun entry hentry => ih entry hentry (fieldNames_iff.1 hdistinct entry hentry)
        (hfits entry hentry)) hfields hdates)
    rw [hcap] at h
    cases h
  | foreign => exact fun _ _ _ _ _ h => h.elim

/-- The same for whole data, the root of which is at depth zero in the tree but not in the
outline. -/
theorem inlineOnly_outline_data {cap : Option Int} {node : Node} (hdistinct : node.DistinctNames)
    (hfits : node.Fits cap 0) {v : Value} (hv : node.Conforms strict v) (hdates : v.DateFree) :
    InlineOnly (node.TakenAsIs (node.normalForm v)) [] (outline cap (node.normalForm v)) := by
  cases node with
  | scalar s =>
    by_cases hs : s.IsAny
    · rw [normalForm, Scalar.normalForm_of_isAny hs]
      exact inlineOnly_any hs hdates (Markdown.inlineOnly_outline v)
    · exact Markdown.inlineOnly_outline_leaf (Scalar.nesting_normalForm hs hv)
  | array item =>
    obtain ⟨items, rfl, hitems⟩ := hv
    have hitem := inlineTakenAsIs strict item hdistinct (fits_array_iff.1 hfits).2
    exact Markdown.inlineOnly_outline_array (inlineOnly_items hitem hitems hdates)
  | object nodes =>
    obtain ⟨fields, rfl, hfields, -⟩ := hv
    obtain ⟨hnodup, hdistinct⟩ := hdistinct
    refine Markdown.inlineOnly_outline_object (inlineOnly_fields hnodup ?_ hfields hdates)
    intro entry hentry
    exact inlineTakenAsIs strict entry.2 (fieldNames_iff.1 hdistinct entry hentry)
      ((fits_object_iff.1 hfits).2 entry hentry)
  | foreign => exact hv.elim

end Node

end Schema

/-- One cap for definitions and for outlines: what is written inline for accepted data lies in
leaves that take anything, and holds no date; without such leaves the cap makes no difference. -/
theorem caps_agree {cap : Option Int} {definition : Value} {node : Node}
    (hcompile : compile cap definition = .ok node) (hdistinct : definition.DistinctNames)
    {v d : Value} (hdates : v.DateFree) {strict : Bool}
    (haccepted : validate node v strict = .accepted d) :
    Markdown.bullets? cap d = (outline cap d).mapM Markdown.Entry.bullet? ∧
    (∀ e ∈ outline cap d, ∀ w, e.content = .inline w →
      node.WithinAny d e.location w ∧ w.DateFree) ∧
    (node.AnyFree → Markdown.render? cap d = Markdown.render? none d) := by
  have hfits : node.Fits cap 0 := compileAt_fits hcompile
  obtain ⟨hconforms, rfl⟩ := accepted_iff.1 haccepted
  have hnames : node.DistinctNames := by
    rw [compile_eq_ok hcompile]
    exact treeOf_allNames hdistinct
  have hinline : ∀ e ∈ outline cap (node.normalForm v), ∀ w, e.content = .inline w →
      node.WithinAny (node.normalForm v) e.location w ∧ w.DateFree := by
    intro e he w hw
    obtain ⟨below, hl, hw⟩ := Node.inlineOnly_outline_data hnames hfits hconforms hdates e he w hw
    exact hl ▸ hw
  refine ⟨Markdown.bullets?_eq cap _, hinline, fun hany => ?_⟩
  have hno : Markdown.NoInline (outline cap (node.normalForm v)) := fun e he w hw =>
    hany.not_withinAny (hinline e he w hw).1
  rw [Markdown.render?, Markdown.render?, Markdown.bullets?_eq, Markdown.bullets?_eq,
    Markdown.outline_uncapped hno]

/-- A definition with a date and a remark of any form. -/
def remarkDefinition : Value :=
  .object [("due", .string "date"), ("remark", .string "any")]

def remark : Value := .array [.string "paid", .object []]

/-- What arrives, and the data. -/
def remarked (due : Value) : Value :=
  .object [("due", due), ("remark", remark)]

theorem isDate_due : Calendar.IsDate 2024 2 1 := by decide

def remarkedDue : DateReading := .date ⟨2024, 2, 1, isDate_due⟩

theorem remarked_accepted :
    validate (treeOf remarkDefinition) (remarked (.string "2024-W05-4")) true =
      .accepted (remarked remarkedDue.toValue) := by
  have hread : (Value.string "2024-W05-4").asDate? = some remarkedDue := by decide +kernel
  have hdue : Scalar.ofText "date" = ⟨.date, false, none⟩ := by decide
  have hremark : Scalar.ofText "any" = ⟨.any, false, none⟩ := by decide
  simp [validate, treeOf, fieldTrees, remarkDefinition, remarked, remark, hdue, hremark, Node.visit,
    Node.visitFields, Value.fieldOrNull, Value.lookup?, Scalar.check, Scalar.checkBase, hread,
    undeclared, declares, bind, Except.bind]

/-- Rows of numbers. -/
def rowsDefinition : Value := .array [.array [.string "number"]]

def rows : Value := .array [.array [.int 3]]

theorem rows_accepted : validate (treeOf rowsDefinition) rows true = .accepted rows := by
  have hnumber : Scalar.ofText "number" = ⟨.number, false, none⟩ := by decide
  simp [validate, treeOf, rowsDefinition, rows, hnumber, Node.visit, visitItems, Scalar.check,
    Scalar.checkBase, bind, Except.bind]

/-- Each under the least cap that its definition allows: a remark is written inline, and rows are
written out. -/
theorem remark_inline_rows_not :
    (∃ e ∈ outline (some 1) (remarked remarkedDue.toValue), e.content = .inline remark) ∧
    (∀ e ∈ outline (some 1) (remarked remarkedDue.toValue), ∀ w, e.content = .inline w →
      (treeOf remarkDefinition).WithinAny (remarked remarkedDue.toValue) e.location w ∧
        w.DateFree) ∧
    Markdown.render? (some 2) rows = Markdown.render? none rows := by
  have hremark : compile (some 1) remarkDefinition = .ok (treeOf remarkDefinition) := rfl
  have hremarkNames : remarkDefinition.DistinctNames := by decide
  have hremarkDates : (remarked (.string "2024-W05-4")).DateFree := by decide
  have hrows : compile (some 2) rowsDefinition = .ok (treeOf rowsDefinition) := rfl
  have hrowsNames : rowsDefinition.DistinctNames := by decide
  have hrowsDates : rows.DateFree := by decide
  have hrowsAnyFree : (treeOf rowsDefinition).AnyFree := by
    have hnumber : Scalar.ofText "number" = ⟨.number, false, none⟩ := by decide
    simp [rowsDefinition, treeOf, Node.AnyFree, hnumber, Scalar.IsAny]
  refine ⟨⟨⟨[.field "remark"], 0, .field "remark", .inline remark⟩, ?_, rfl⟩,
    (caps_agree hremark hremarkNames hremarkDates remarked_accepted).2.1,
    (caps_agree hrows hrowsNames hrowsDates rows_accepted).2.2 hrowsAnyFree⟩
  simp [outline, fieldEntries, remarked, remark, remarkedDue, DateReading.toValue, entries, atCap]

end Extraction
