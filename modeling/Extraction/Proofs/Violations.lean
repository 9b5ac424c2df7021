import Extraction.Proofs.CompiledTree
import Extraction.Proofs.Conformance
import Extraction.Proofs.LocationPath
import Extraction.Proofs.ShortIntegers
import Mathlib.Tactic.ByContra

/-!
Violations and where they lie. Tree and value are walked together; at every location where they
meet, the value is held against the node alone, without a look into its parts. The notes of a check
are exactly these violations, each at its own location, and the paths of the error map tell the
locations apart.
-/

namespace Extraction

open Schema

namespace Schema

/-- What is wrong with a value at a scalar. -/
def Scalar.ownViolations (s : Scalar) (v : Value) : List Violation :=
  if s.admits v then []
  else
    match s.complaint v with
    | .ok violation => [violation]
    | .error _ => []

namespace Node

/-- What is wrong with a value at a node, the parts of the value aside. -/
def ownViolations (strict : Bool) : Node → Value → List Violation
  | .scalar s, v => s.ownViolations v
  | .array _, .array _ => []
  | .array _, v => [.expected "array" v.kind]
  | .object nodes, .object fields =>
    if strict then (undeclared nodes fields).map .unrecognizedKey else []
  | .object _, v => [.expected "object" v.kind]
  | .foreign _, _ => []

/-- The node and the value that meet at a location, if the walk gets there: through declared fields
of objects and through elements of arrays. -/
def at? : Node → Value → Location → Option (Node × Value)
  | node, v, [] => some (node, v)
  | .object nodes, .object fields, .field name :: rest =>
    match nodes.lookup name with
    | some node => at? node (Value.fieldOrNull name fields) rest
    | none => none
  | .array item, .array items, .index i :: rest =>
    match items[i]? with
    | some v => at? item v rest
    | none => none
  | _, _, _ => none

/-- The violations at a location. -/
def violationsAt (strict : Bool) (node : Node) (v : Value) (l : Location) : List Violation :=
  match node.at? v l with
  | some (n, w) => n.ownViolations strict w
  | none => []

/-- No object node declares a name twice. -/
def DistinctNames (node : Node) : Prop :=
  node.AllNames List.Nodup

/-- No object node declares a name that is empty or holds a mark of a path. -/
def PlainNames (node : Node) : Prop :=
  node.AllNames fun names => ∀ name ∈ names, Location.PlainName name

/-- The names that the root declares, if it is an object. -/
def rootNames : Node → List String
  | .object nodes => nodes.map Prod.fst
  | _ => []

end Node
end Schema

/-! ### Notes by location -/

/-- The violations that are noted at a location. -/
def violationsIn (l : Location) (notes : List Note) : List Violation :=
  (notes.filter fun n => n.location = l).map Note.violation

theorem mem_violationsIn {l : Location} {x : Violation} {notes : List Note} :
    x ∈ violationsIn l notes ↔ ⟨l, x⟩ ∈ notes := by
  simp only [violationsIn, List.mem_map, List.mem_filter, decide_eq_true_eq]
  constructor
  · rintro ⟨n, ⟨hn, rfl⟩, rfl⟩
    exact hn
  · intro h
    exact ⟨_, ⟨h, rfl⟩, rfl⟩

theorem violationsIn_append (l : Location) (notes more : List Note) :
    violationsIn l (notes ++ more) = violationsIn l notes ++ violationsIn l more := by
  simp [violationsIn]

theorem violationsIn_here (violations : List Violation) :
    violationsIn [] (violations.map (Note.mk [])) = violations := by
  induction violations with
  | nil => rfl
  | cons violation rest ih => simpa [violationsIn] using ih

theorem violationsIn_here_cons (s : Step) (l : Location) (violations : List Violation) :
    violationsIn (s :: l) (violations.map (Note.mk [])) = [] := by
  simp [violationsIn, List.filter_map]

theorem violationsIn_under_nil (s : Step) (notes : List Note) :
    violationsIn [] (notes.map (Note.under s)) = [] := by
  simp [violationsIn, Note.under]

theorem violationsIn_under_same (s : Step) (l : Location) (notes : List Note) :
    violationsIn (s :: l) (notes.map (Note.under s)) = violationsIn l notes := by
  induction notes with
  | nil => rfl
  | cons n rest ih =>
    by_cases h : n.location = l <;> simpa [violationsIn, Note.under, h] using ih

theorem violationsIn_under_other {s t : Step} (h : s ≠ t) (l : Location) (notes : List Note) :
    violationsIn (t :: l) (notes.map (Note.under s)) = [] := by
  simp [violationsIn, Note.under, h]

/-! ### What a walk notes -/

namespace Schema

theorem Scalar.exists_mismatch {s : Scalar} (hs : s.base.name?.isSome = true) (v : Value) :
    ∃ violation, s.mismatch v = .ok violation := by
  obtain ⟨name, hname⟩ := Option.isSome_iff_exists.1 hs
  unfold mismatch label?
  cases s.literals with
  | some literals => exact ⟨_, rfl⟩
  | none => exact ⟨.expected name v.kind, by simp [hname]⟩

theorem Scalar.exists_complaint {s : Scalar} (hs : s.base.name?.isSome = true) {v : Value}
    (hv : v.ShortIntegers) : ∃ violation, s.complaint v = .ok violation := by
  unfold complaint
  split
  · exact exists_mismatch hs _
  · rename_i literals _ _
    obtain ⟨shown, hshown⟩ := Value.exists_display hv
    exact ⟨.notListed (quotedLiterals literals) shown, by simp [hshown]⟩
  · rename_i hbase
    rw [hbase] at hs
    simp [BaseType.name?] at hs
  · exact ⟨_, rfl⟩
  · exact exists_mismatch hs _

/-- A scalar of an existing type notes what is wrong with the value, and never breaks off. -/
theorem Scalar.check_notes {s : Scalar} (hs : s.base.name?.isSome = true) {v : Value}
    (hv : v.ShortIntegers) :
    ∃ w, s.check v = .ok (w, (s.ownViolations v).map (Note.mk [])) := by
  rw [check_eq]
  by_cases h : s.admits v = true
  · exact ⟨s.normalForm v, by simp [h, ownViolations]⟩
  · obtain ⟨violation, hviolation⟩ := exists_complaint hs hv
    exact ⟨.null, by simp [h, ownViolations, complain, hviolation, Except.map]⟩

/-- The violations in the elements of a list, whose indices start at `i`. -/
def itemViolations (found : Value → Location → List Violation) (i : Nat) (items : List Value) :
    Location → List Violation
  | .index j :: rest =>
    if i ≤ j then
      match items[j - i]? with
      | some v => found v rest
      | none => []
    else []
  | _ => []

theorem visitItems_notes {visit : Value → Except Breakdown (Value × List Note)}
    {found : Value → Location → List Violation} {items : List Value}
    (h : ∀ v ∈ items, ∃ w notes, visit v = .ok (w, notes) ∧ ∀ l, violationsIn l notes = found v l)
    (i : Nat) :
    ∃ ws notes, visitItems visit i items = .ok (ws, notes) ∧
      ∀ l, violationsIn l notes = itemViolations found i items l := by
  induction items generalizing i with
  | nil =>
    refine ⟨[], [], rfl, fun l => ?_⟩
    rcases l with _ | ⟨_ | j, l⟩ <;> simp [violationsIn, itemViolations]
  | cons v rest ih =>
    rw [List.forall_mem_cons] at h
    obtain ⟨w, notes, hw, hnotes⟩ := h.1
    obtain ⟨ws, more, hws, hmore⟩ := ih h.2 (i + 1)
    refine ⟨w :: ws, notes.map (Note.under (.index i)) ++ more, ?_, fun l => ?_⟩
    · simp [visitItems, hw, hws, bind, Except.bind]
    · rw [violationsIn_append, hmore]
      rcases l with _ | ⟨name | j, l⟩
      · simp [violationsIn_under_nil, itemViolations]
      · simp [violationsIn_under_other, itemViolations]
      · -- only the notes of one element have its index in front
        rcases Nat.lt_trichotomy i j with hij | rfl | hij
        · have hshift : j - i = j - (i + 1) + 1 := by omega
          have hne : Step.index i ≠ .index j := by simp; omega
          rw [violationsIn_under_other hne]
          simp only [itemViolations, hshift, List.getElem?_cons_succ, List.nil_append]
          rw [if_pos (by omega), if_pos (by omega)]
        · rw [violationsIn_under_same, hnotes]
          simp only [itemViolations, Nat.sub_self, List.getElem?_cons_zero]
          rw [if_pos (Nat.le_refl i), if_neg (by omega), List.append_nil]
        · have hne : Step.index i ≠ .index j := by simp; omega
          rw [violationsIn_under_other hne]
          simp only [itemViolations, List.nil_append]
          rw [if_neg (by omega), if_neg (by omega)]

/-- The violations in the declared fields of an object. -/
def fieldViolations (strict : Bool) (nodes : List (String × Node)) (fields : Fields) :
    Location → List Violation
  | .field name :: rest =>
    match nodes.lookup name with
    | some node => node.violationsAt strict (Value.fieldOrNull name fields) rest
    | none => []
  | _ => []

theorem lookup_eq_none {nodes : List (String × Node)} {name : String}
    (h : name ∉ nodes.map Prod.fst) : nodes.lookup name = none := by
  rw [List.lookup_eq_none_iff]
  intro entry hentry
  simp only [bne_iff_ne]
  rintro rfl
  exact h (List.mem_map_of_mem hentry)

namespace Node

/-- The walk does not break off, and at each location it notes exactly the violations there. -/
def NotesExactly (strict : Bool) (node : Node) (v : Value) : Prop :=
  ∃ w notes, node.visit strict v = .ok (w, notes) ∧
    ∀ l, violationsIn l notes = node.violationsAt strict v l

theorem notesExactly_of_mismatch {strict : Bool} {node : Node} {v : Value} {violation : Violation}
    (hvisit : node.visit strict v = violated violation)
    (hown : node.ownViolations strict v = [violation])
    (hparts : ∀ s l, node.at? v (s :: l) = none) : node.NotesExactly strict v := by
  refine ⟨.null, [⟨[], violation⟩], hvisit, ?_⟩
  intro l
  cases l with
  | nil => simp [violationsIn, violationsAt, at?, hown]
  | cons s l => simp [violationsIn, violationsAt, hparts]

theorem array_notes_mismatch (strict : Bool) (item : Node) {v : Value}
    (h : ∀ items, v ≠ .array items) : (Node.array item).NotesExactly strict v := by
  apply notesExactly_of_mismatch
  · rw [visit]
    exact h
  · rw [ownViolations]
    exact h
  · intro s l
    rw [at?] <;> simp [h]

theorem object_notes_mismatch (strict : Bool) (nodes : List (String × Node)) {v : Value}
    (h : ∀ fields, v ≠ .object fields) : (Node.object nodes).NotesExactly strict v := by
  apply notesExactly_of_mismatch
  · rw [visit]
    exact h
  · rw [ownViolations]
    exact h
  · intro s l
    rw [at?] <;> simp [h]

theorem scalar_notes (strict : Bool) {s : Scalar} (hs : s.base.name?.isSome = true) {v : Value}
    (hv : v.ShortIntegers) : (Node.scalar s).NotesExactly strict v := by
  obtain ⟨w, hw⟩ := Scalar.check_notes hs hv
  refine ⟨w, _, by rw [visit, hw], ?_⟩
  intro l
  cases l with
  | nil => simp [violationsIn_here, violationsAt, at?, ownViolations]
  | cons s l => simp [violationsIn_here_cons, violationsAt, at?]

theorem array_notes {strict : Bool} {item : Node} {items : List Value}
    (hitems : ∀ w ∈ items, item.NotesExactly strict w) :
    (Node.array item).NotesExactly strict (.array items) := by
  obtain ⟨ws, notes, hws, hnotes⟩ := visitItems_notes hitems 0
  refine ⟨.array ws, notes, by simp [visit, hws, bind, Except.bind], ?_⟩
  intro l
  rw [hnotes]
  rcases l with _ | ⟨name | j, l⟩
  · simp [itemViolations, violationsAt, at?, ownViolations]
  · simp [itemViolations, violationsAt, at?]
  · simp only [itemViolations, Nat.zero_le, if_true, Nat.sub_zero, violationsAt, at?]
    cases items[j]? <;> rfl

theorem visitFields_notes {strict : Bool} {nodes : List (String × Node)} {fields : Fields}
    (hnodup : (nodes.map Prod.fst).Nodup)
    (h : ∀ entry ∈ nodes, entry.2.NotesExactly strict (Value.fieldOrNull entry.1 fields)) :
    ∃ ws notes, visitFields strict nodes fields = .ok (ws, notes) ∧
      ∀ l, violationsIn l notes = fieldViolations strict nodes fields l := by
  induction nodes with
  | nil =>
    refine ⟨[], [], rfl, fun l => ?_⟩
    rcases l with _ | ⟨_ | j, l⟩ <;> simp [violationsIn, fieldViolations]
  | cons entry rest ih =>
    obtain ⟨name, node⟩ := entry
    rw [List.map_cons, List.nodup_cons] at hnodup
    rw [List.forall_mem_cons] at h
    obtain ⟨w, notes, hw, hnotes⟩ := h.1
    obtain ⟨ws, more, hws, hmore⟩ := ih hnodup.2 h.2
    refine ⟨(name, w) :: ws, notes.map (Note.under (.field name)) ++ more, ?_, fun l => ?_⟩
    · simp [visitFields, hw, hws, bind, Except.bind]
    · rw [violationsIn_append, hmore]
      rcases l with _ | ⟨other | j, l⟩
      · simp [violationsIn_under_nil, fieldViolations]
      · by_cases hname : name = other
        · -- the name is declared once, so no later field adds to its notes
          subst hname
          rw [violationsIn_under_same, hnotes]
          simp [fieldViolations, lookup_eq_none hnodup.1]
        · have hne : Step.field name ≠ .field other := by simpa using hname
          have hother : (other == name) = false := beq_false_of_ne (Ne.symm hname)
          rw [violationsIn_under_other hne]
          simp [fieldViolations, List.lookup_cons, hother]
      · simp [violationsIn_under_other, fieldViolations]

theorem object_notes {strict : Bool} {nodes : List (String × Node)} {fields : Fields}
    (hnodup : (nodes.map Prod.fst).Nodup)
    (h : ∀ entry ∈ nodes, entry.2.NotesExactly strict (Value.fieldOrNull entry.1 fields)) :
    (Node.object nodes).NotesExactly strict (.object fields) := by
  obtain ⟨ws, notes, hws, hnotes⟩ := visitFields_notes hnodup h
  -- undeclared keys are noted at the object itself, where none of its fields notes anything
  have hextra : ∀ names : List String,
      names.map (fun name => Note.mk [] (.unrecognizedKey name)) =
        (names.map .unrecognizedKey).map (Note.mk []) := by simp
  refine ⟨.object ws, _, by simp only [visit, hws, bind, Except.bind]; rfl, ?_⟩
  intro l
  rw [violationsIn_append, hnotes, hextra]
  rcases l with _ | ⟨name | j, l⟩
  · rw [violationsIn_here]
    cases strict <;> simp [fieldViolations, violationsAt, at?, ownViolations]
  · rw [violationsIn_here_cons, List.append_nil]
    simp only [fieldViolations, violationsAt, at?]
    cases nodes.lookup name <;> rfl
  · rw [violationsIn_here_cons]
    simp [fieldViolations, violationsAt, at?]

theorem fieldsWellFormed_iff {nodes : List (String × Node)} :
    FieldsWellFormed nodes ↔ ∀ entry ∈ nodes, entry.2.WellFormed := by
  induction nodes with
  | nil => simp [FieldsWellFormed]
  | cons entry rest ih => rw [FieldsWellFormed, ih, List.forall_mem_cons]

theorem visit_notes (strict : Bool) (node : Node) (v : Value) (hwell : node.WellFormed)
    (hdistinct : node.DistinctNames) (hv : v.ShortIntegers) : node.NotesExactly strict v := by
  induction node using induction_parts generalizing v with
  | scalar s => exact scalar_notes strict hwell hv
  | array item ih =>
    cases v with
    | array items =>
      exact array_notes fun w hw => ih w hwell hdistinct (Value.itemsShort_iff.1 hv w hw)
    | _ => exact array_notes_mismatch strict item (by simp)
  | object nodes ih =>
    cases v with
    | object fields =>
      refine object_notes hdistinct.1 fun entry hentry => ih entry hentry _ ?_ ?_ ?_
      · exact fieldsWellFormed_iff.1 hwell entry hentry
      · exact fieldNames_iff.1 hdistinct.2 entry hentry
      · exact Value.shortIntegers_fieldOrNull hv entry.1
    | _ => exact object_notes_mismatch strict nodes (by simp)
  | foreign kind => exact hwell.elim

/-! ### Locations that a walk reaches -/

theorem plainNames_of_lookup {nodes : List (String × Node)}
    (h : FieldNames (fun names => ∀ name ∈ names, Location.PlainName name) nodes) {name : String}
    {node : Node} (hlookup : nodes.lookup name = some node) : node.PlainNames := by
  induction nodes with
  | nil => simp at hlookup
  | cons entry rest ih =>
    rw [List.lookup_cons] at hlookup
    split at hlookup
    · cases hlookup
      exact h.1
    · exact ih h.2 hlookup

theorem mem_of_lookup {nodes : List (String × Node)} {name : String} {node : Node}
    (h : nodes.lookup name = some node) : name ∈ nodes.map Prod.fst := by
  by_contra hname
  rw [lookup_eq_none hname] at h
  cases h

theorem lookup_of_mem {nodes : List (String × Node)} (hnodup : (nodes.map Prod.fst).Nodup)
    {entry : String × Node} (hentry : entry ∈ nodes) : nodes.lookup entry.1 = some entry.2 := by
  induction nodes with
  | nil => cases hentry
  | cons first rest ih =>
    rw [List.map_cons, List.nodup_cons] at hnodup
    rcases List.mem_cons.1 hentry with rfl | hrest
    · exact List.lookup_cons_self
    · have hne : entry.1 ≠ first.1 := by
        intro h
        exact hnodup.1 (h ▸ List.mem_map_of_mem hrest)
      rw [List.lookup_cons, beq_false_of_ne hne]
      exact ih hnodup.2 hrest

/-- A location that is reached goes through declared names, and through indices. -/
theorem plain_of_at? {node : Node} {v : Value} {l : Location} (hplain : node.PlainNames)
    (h : (node.at? v l).isSome = true) : ∀ s ∈ l, Location.PlainStep s := by
  fun_induction at? node v l with
  | case1 => simp
  | case2 nodes fields name rest node hlookup ih =>
    rw [List.forall_mem_cons]
    exact ⟨hplain.1 name (mem_of_lookup hlookup), ih (plainNames_of_lookup hplain.2 hlookup) h⟩
  | case4 item items i rest v hitem ih =>
    rw [List.forall_mem_cons]
    exact ⟨trivial, ih hplain h⟩
  | _ => simp at h

theorem ne_rootPath_of_at? {node : Node} {v : Value} {l : Location}
    (hroot : Location.rootPath ∉ node.rootNames) (h : (node.at? v l).isSome = true) :
    l ≠ [.field Location.rootPath] := by
  rintro rfl
  match node, v with
  | .object nodes, .object fields =>
    rw [at?] at h
    cases hlookup : nodes.lookup Location.rootPath with
    | some node => exact hroot (mem_of_lookup hlookup)
    | none => simp [hlookup] at h
  | .scalar _, _ | .array _, _ | .foreign _, _ => simp [at?] at h
  | .object _, .null | .object _, .bool _ | .object _, .int _ | .object _, .float _
  | .object _, .string _ | .object _, .date _ | .object _, .dateTime _ | .object _, .array _ =>
    simp [at?] at h

theorem at?_isSome_of_violations {strict : Bool} {node : Node} {v : Value} {l : Location}
    (h : node.violationsAt strict v l ≠ []) : (node.at? v l).isSome = true := by
  unfold violationsAt at h
  cases hat : node.at? v l with
  | some _ => rfl
  | none => simp [hat] at h

/-- Locations that are reached can be told apart by their paths. -/
theorem location_of_path {node : Node} {v : Value} (hplain : node.PlainNames)
    (hroot : Location.rootPath ∉ node.rootNames) {l k : Location}
    (hl : (node.at? v l).isSome = true) (hk : (node.at? v k).isSome = true)
    (h : l.path = k.path) : l = k :=
  Location.path_injective (plain_of_at? hplain hl) (plain_of_at? hplain hk)
    (ne_rootPath_of_at? hroot hl) (ne_rootPath_of_at? hroot hk) h

end Node

end Schema

/-! ### The error map -/

theorem violationsIn_ne_nil {n : Note} {notes : List Note} (h : n ∈ notes) :
    violationsIn n.location notes ≠ [] :=
  List.ne_nil_of_mem (mem_violationsIn.2 h)

/-- If the path stands for one location only, its messages are the messages of that location. -/
theorem messagesOf_path {l : Location} {notes : List Note}
    (h : ∀ n ∈ notes, n.location.path = l.path → n.location = l) :
    ErrorMap.messagesOf l.path notes = (violationsIn l notes).map Violation.message := by
  have hfilter : notes.filter (fun n => n.location.path = l.path)
      = notes.filter (fun n => n.location = l) := by
    apply List.filter_congr
    intro n hn
    rw [decide_eq_decide]
    exact ⟨h n hn, fun hl => by rw [hl]⟩
  rw [ErrorMap.messagesOf, violationsIn, hfilter, List.map_map]
  rfl

theorem validate_errors_eq {node : Node} {v w : Value} {strict : Bool} {notes : List Note}
    (h : node.visit strict v = .ok (w, notes)) :
    (validate node v strict).errors = ErrorMap.ofNotes notes := by
  unfold validate
  rw [h]
  cases notes <;> rfl

theorem validate_of_error {node : Node} {v : Value} {strict : Bool} {b : Breakdown}
    (h : node.visit strict v = .error b) :
    validate node v strict = .rejected [("_schema", ["Internal error: " ++ b.message])] := by
  unfold validate
  rw [h]
  rfl

/-- The verdict is made from what the walk gives, whatever the tree and the value. -/
theorem validate_eq_of_visit_eq {m n : Node} {v w : Value} {strict : Bool}
    (h : m.visit strict v = n.visit strict w) : validate m v strict = validate n w strict := by
  rw [validate, validate, h]

/-- The error map of a value has one entry for each location with a violation. The entry's path
stands for this location alone, and its messages are those of the violations there. -/
theorem errors_by_location {cap : Option Int} {definition : Value} {node : Node}
    (hcompile : compile cap definition = .ok node) (hdistinct : definition.DistinctNames)
    (hplain : node.PlainNames) (hroot : Location.rootPath ∉ node.rootNames)
    {v : Value} (hv : v.ShortIntegers) (strict : Bool) :
    ((validate node v strict).errors.map Prod.fst).Nodup ∧
    (∀ path messages, (path, messages) ∈ (validate node v strict).errors ↔
      ∃ l, node.violationsAt strict v l ≠ [] ∧ path = l.path ∧
        messages = (node.violationsAt strict v l).map Violation.message) ∧
    (∀ l k, (node.at? v l).isSome = true → (node.at? v k).isSome = true → l.path = k.path →
      l = k) := by
  have hnode := compile_eq_ok hcompile
  have hwell : node.WellFormed := hnode ▸ treeOf_wellFormed definition
  have hnames : node.DistinctNames := hnode ▸ treeOf_allNames hdistinct
  obtain ⟨w, notes, hvisit, hnotes⟩ := Node.visit_notes strict node v hwell hnames hv
  have hreached : ∀ n ∈ notes, (node.at? v n.location).isSome = true := by
    intro n hn
    apply Node.at?_isSome_of_violations
    rw [← hnotes]
    exact violationsIn_ne_nil hn
  have hpath : ∀ {l}, (node.at? v l).isSome = true →
      ∀ n ∈ notes, n.location.path = l.path → n.location = l := by
    intro l hl n hn
    exact Node.location_of_path hplain hroot (hreached n hn) hl
  rw [validate_errors_eq hvisit]
  refine ⟨(ErrorMap.ofNotes_grouped notes).nodup, fun path messages => ?_, fun l k =>
    Node.location_of_path hplain hroot⟩
  rw [ErrorMap.mem_ofNotes_iff]
  constructor
  · -- a message under a path comes from a note, whose location is the only one with this path
    rintro ⟨hne, rfl⟩
    obtain ⟨n, hn⟩ : ∃ n, n ∈ notes.filter fun n => n.location.path = path :=
      List.exists_mem_of_ne_nil _ (fun hnil => hne (by simp [ErrorMap.messagesOf, hnil]))
    obtain ⟨hmem, hnpath⟩ := List.mem_filter.1 hn
    obtain rfl : n.location.path = path := of_decide_eq_true hnpath
    refine ⟨n.location, hnotes n.location ▸ violationsIn_ne_nil hmem, rfl, ?_⟩
    rw [messagesOf_path (hpath (hreached n hmem)), hnotes]
  · rintro ⟨l, hne, rfl, rfl⟩
    rw [messagesOf_path (hpath (Node.at?_isSome_of_violations hne)), hnotes]
    exact ⟨by simpa using hne, rfl⟩

/-- A definition with an array of objects in an object. -/
def orderDefinition : Value :=
  .object [("buyer", .string "string"), ("lines", .array [.object [("size", .string "number")]])]

/-- An order with a size that is a text and, besides, a field that is not declared. -/
def brokenOrder : Value :=
  .object [("buyer", .string "Ann"), ("lines", .array [.object [("size", .int 3)],
    .object [("size", .string "big"), ("colour", .null)]])]

theorem errors_of_brokenOrder :
    ("lines[1].size", ["Expected number, received string"]) ∈
      (validate (treeOf orderDefinition) brokenOrder true).errors ∧
    ("lines[1]", ["Unrecognized key 'colour'"]) ∈
      (validate (treeOf orderDefinition) brokenOrder true).errors := by
  have hdistinct : orderDefinition.DistinctNames := by decide
  have hplain : (treeOf orderDefinition).PlainNames := by
    refine ⟨?_, trivial, ⟨?_, trivial, trivial⟩, trivial⟩ <;> decide
  have hsize : Number.digitCount 3 ≤ Number.digitLimit := by decide
  have hshort : brokenOrder.ShortIntegers :=
    ⟨trivial, ⟨⟨hsize, trivial⟩, ⟨trivial, trivial, trivial⟩, trivial⟩, trivial⟩
  have hcompile : compile (some 3) orderDefinition = .ok (treeOf orderDefinition) := rfl
  obtain ⟨-, hentries, -⟩ := errors_by_location hcompile hdistinct hplain (by decide) hshort true
  constructor
  · refine (hentries _ _).2 ⟨[.field "lines", .index 1, .field "size"], ?_, rfl, rfl⟩
    decide
  · refine (hentries _ _).2 ⟨[.field "lines", .index 1], ?_, rfl, rfl⟩
    decide

end Extraction
