import Extraction.Proofs.Leaves
import Extraction.Proofs.NormalForm
import Mathlib.Data.List.Nodup

/-!
Strict mode. A strict check is the lax check with notes on undeclared keys between the others: one
for each undeclared key of each object that the walk gets to. Where there are none the two modes
agree.
-/

namespace Extraction

open Schema

/-! ### Notes on undeclared keys -/

def Violation.isUndeclared : Violation → Bool
  | .unrecognizedKey _ => true
  | _ => false

theorem Violation.exists_key {x : Violation} (h : x.isUndeclared = true) :
    ∃ key, x = .unrecognizedKey key := by
  cases x with
  | unrecognizedKey key => exact ⟨key, rfl⟩
  | _ => cases h

/-- Does a message tell of an undeclared key? -/
def tellsUndeclared (message : String) : Bool :=
  "Unrecognized key '".toList.isPrefixOf message.toList

theorem tellsUndeclared_message (x : Violation) : tellsUndeclared x.message = x.isUndeclared := by
  cases x with
  | unrecognizedKey name =>
    exact List.isPrefixOf_iff_prefix.2 (Violation.unrecognizedKey name).opening_isPrefix
  | expected _ _ | notListed _ _ | invalidDate =>
    change tellsUndeclared _ = false
    rw [tellsUndeclared, Bool.eq_false_iff, Ne, List.isPrefixOf_iff_prefix]
    apply Violation.not_isPrefix_message
    all_goals
      simp only [Violation.opening]
      decide

/-- What a lax check notes of what a strict one notes. -/
def laxNotes (notes : List Note) : List Note :=
  notes.filter fun n => !n.violation.isUndeclared

theorem laxNotes_append (notes more : List Note) :
    laxNotes (notes ++ more) = laxNotes notes ++ laxNotes more :=
  List.filter_append ..

theorem laxNotes_under (s : Step) (notes : List Note) :
    laxNotes (notes.map (Note.under s)) = (laxNotes notes).map (Note.under s) := by
  rw [laxNotes, laxNotes, List.filter_map]
  rfl

/-- The outcome of a lax check where the strict one has this outcome. -/
def laxOutcome {α : Type} (outcome : Except Breakdown (α × List Note)) :
    Except Breakdown (α × List Note) :=
  outcome.map fun (w, notes) => (w, laxNotes notes)

/-! ### Two walks side by side -/

theorem Schema.Scalar.complaint_isUndeclared {s : Scalar} {v : Value} {x : Violation}
    (h : s.complaint v = .ok x) : x.isUndeclared = false := by
  have hmismatch : ∀ v x, s.mismatch v = .ok x → x.isUndeclared = false := by
    intro v x h
    unfold mismatch at h
    split at h <;> cases h
    rfl
  unfold complaint at h
  split at h
  · exact hmismatch _ _ h
  · split at h <;> cases h
    rfl
  · cases h
  · cases h
    rfl
  · exact hmismatch _ _ h

theorem Schema.Scalar.check_lax (s : Scalar) (v : Value) : s.check v = laxOutcome (s.check v) := by
  rw [check_eq]
  split
  · rfl
  · cases h : s.complaint v with
    | error b => simp [complain, h, laxOutcome, Except.map]
    | ok x =>
      have hx := complaint_isUndeclared h
      simp [complain, h, laxOutcome, laxNotes, Except.map, hx]

theorem visitItems_lax {visit visit' : Value → Except Breakdown (Value × List Note)}
    {items : List Value} (h : ∀ v ∈ items, visit v = laxOutcome (visit' v)) (i : Nat) :
    visitItems visit i items = laxOutcome (visitItems visit' i items) := by
  induction items generalizing i with
  | nil => rfl
  | cons v rest ih =>
    rw [List.forall_mem_cons] at h
    rw [visitItems, visitItems, h.1, ih h.2]
    cases visit' v with
    | error b => rfl
    | ok first =>
      cases visitItems visit' (i + 1) rest with
      | error b => rfl
      | ok others =>
        simp [laxOutcome, Except.map, bind, Except.bind, laxNotes_append, laxNotes_under]

namespace Schema.Node

theorem visitFields_lax {nodes : List (String × Node)} {fields : Fields}
    (h : ∀ entry ∈ nodes, ∀ v, entry.2.visit false v = laxOutcome (entry.2.visit true v)) :
    visitFields false nodes fields = laxOutcome (visitFields true nodes fields) := by
  induction nodes with
  | nil => rfl
  | cons entry rest ih =>
    obtain ⟨name, node⟩ := entry
    rw [List.forall_mem_cons] at h
    rw [visitFields, visitFields, h.1, ih h.2]
    cases node.visit true (Value.fieldOrNull name fields) with
    | error b => rfl
    | ok first =>
      cases visitFields true rest fields with
      | error b => rfl
      | ok others =>
        simp [laxOutcome, Except.map, bind, Except.bind, laxNotes_append, laxNotes_under]

/-- A lax check breaks off where the strict one does, and otherwise gives the same but for the notes
on undeclared keys. -/
theorem visit_lax (node : Node) (v : Value) :
    node.visit false v = laxOutcome (node.visit true v) := by
  induction node using induction_parts generalizing v with
  | scalar s => exact s.check_lax v
  | foreign kind => rfl
  | array item ih =>
    cases v with
    | array items =>
      rw [visit, visit, visitItems_lax (fun w _ => ih w)]
      cases visitItems (item.visit true) 0 items <;> rfl
    | _ => rfl
  | object nodes ih =>
    cases v with
    | object fields =>
      rw [visit, visit, visitFields_lax ih]
      cases visitFields true nodes fields with
      | error b => rfl
      | ok result =>
        have hextra : ∀ names : List String,
            laxNotes (names.map fun name => ⟨[], .unrecognizedKey name⟩) = [] := by
          simp [laxNotes, Violation.isUndeclared]
        simp [laxOutcome, Except.map, bind, Except.bind, laxNotes_append, hextra]
    | _ => rfl

end Schema.Node

/-! ### Messages of the two modes -/

theorem messagesOf_laxNotes (path : String) (notes : List Note) :
    ErrorMap.messagesOf path (laxNotes notes) =
      (ErrorMap.messagesOf path notes).filter fun message => !tellsUndeclared message := by
  rw [ErrorMap.messagesOf, ErrorMap.messagesOf, laxNotes, List.filter_map, List.filter_filter,
    List.filter_filter]
  congr 1
  apply List.filter_congr
  intro n _
  rw [Function.comp_apply, tellsUndeclared_message, Bool.and_comm]

theorem tellsUndeclared_internal (reason : String) :
    tellsUndeclared ("Internal error: " ++ reason) = false := by
  rw [tellsUndeclared, Bool.eq_false_iff, Ne, List.isPrefixOf_iff_prefix]
  exact not_isPrefix_append (by decide) (by decide) reason

/-- The lax messages under a path are the strict ones that do not tell of undeclared keys. -/
theorem messagesAt_lax (node : Node) (v : Value) (path : String) :
    (validate node v false).errors.messagesAt path =
      ((validate node v true).errors.messagesAt path).filter fun message =>
        !tellsUndeclared message := by
  have hlax := node.visit_lax v
  cases h : node.visit true v with
  | error b =>
    rw [h] at hlax
    rw [validate_of_error h, validate_of_error hlax, Verdict.errors, ErrorMap.messagesAt]
    split
    · simp [tellsUndeclared_internal]
    · rfl
  | ok result =>
    obtain ⟨w, notes⟩ := result
    rw [h] at hlax
    rw [validate_errors_eq h, validate_errors_eq hlax, ErrorMap.messagesAt_ofNotes,
      ErrorMap.messagesAt_ofNotes, messagesOf_laxNotes]

/-! ### Undeclared keys of the objects that the walk gets to -/

/-- The walk gets to an object that has a key which its node does not declare. -/
def Schema.Node.UndeclaredAt (node : Node) (v : Value) (l : Location) (key : String) : Prop :=
  ∃ nodes fields, node.at? v l = some (.object nodes, .object fields) ∧
    key ∈ fields.map Prod.fst ∧ key ∉ nodes.map Prod.fst

theorem mem_undeclared {nodes : List (String × Node)} {fields : Fields} {key : String} :
    key ∈ undeclared nodes fields ↔ key ∈ fields.map Prod.fst ∧ key ∉ nodes.map Prod.fst := by
  simp only [undeclared, List.mem_map, List.mem_filter, Bool.not_eq_eq_eq_not, Bool.not_true,
    ← Bool.not_eq_true, Node.declares_iff]
  constructor
  · rintro ⟨field, ⟨hfield, hkey⟩, rfl⟩
    exact ⟨⟨field, hfield, rfl⟩, hkey⟩
  · rintro ⟨⟨field, hfield, rfl⟩, hkey⟩
    exact ⟨field, ⟨hfield, hkey⟩, rfl⟩

theorem nodup_undeclared (nodes : List (String × Node)) {fields : Fields}
    (h : (fields.map Prod.fst).Nodup) : (undeclared nodes fields).Nodup :=
  h.sublist (List.filter_sublist.map Prod.fst)

theorem Value.DistinctNames.fieldOrNull {fields : Fields} (h : (Value.object fields).DistinctNames)
    (name : String) : (Value.fieldOrNull name fields).DistinctNames := by
  rcases Value.fieldOrNull_cases name fields with hnull | ⟨field, hfield, heq⟩
  · rw [hnull]
    trivial
  · rw [heq]
    exact Value.fieldNames_iff.1 h.2 field hfield

namespace Schema.Node

theorem distinctNames_of_at? {node m : Node} {v u : Value} {l : Location}
    (hv : v.DistinctNames) (h : node.at? v l = some (m, u)) : u.DistinctNames := by
  fun_induction at? node v l with
  | case1 =>
    cases h
    exact hv
  | case2 nodes fields name rest node hlookup ih => exact ih (hv.fieldOrNull name) h
  | case4 item items i rest v hitem ih =>
    exact ih (Value.itemNames_iff.1 hv v (List.mem_of_getElem? hitem)) h
  | _ => cases h

theorem nodup_ownViolations (strict : Bool) (node : Node) {v : Value} (hv : v.DistinctNames) :
    (node.ownViolations strict v).Nodup := by
  unfold ownViolations
  split
  · unfold Scalar.ownViolations
    split
    · exact List.nodup_nil
    · split
      · exact List.nodup_singleton _
      · exact List.nodup_nil
  · exact List.nodup_nil
  · exact List.nodup_singleton _
  · split
    · exact (nodup_undeclared _ hv.1).map fun _ _ => Violation.unrecognizedKey.inj
    · exact List.nodup_nil
  · exact List.nodup_singleton _
  · exact List.nodup_nil

theorem nodup_violationsAt (strict : Bool) (node : Node) {v : Value} (hv : v.DistinctNames)
    (l : Location) : (node.violationsAt strict v l).Nodup := by
  unfold violationsAt
  split
  · rename_i m u hat
    exact nodup_ownViolations strict m (distinctNames_of_at? hv hat)
  · exact List.nodup_nil

theorem unrecognizedKey_mem_ownViolations {node : Node} {v : Value} {key : String} :
    .unrecognizedKey key ∈ node.ownViolations true v ↔ ∃ nodes fields, node = .object nodes ∧
      v = .object fields ∧ key ∈ fields.map Prod.fst ∧ key ∉ nodes.map Prod.fst := by
  cases node with
  | scalar s =>
    refine iff_of_false (fun hmem => ?_) (by simp)
    simp only [ownViolations, Scalar.ownViolations] at hmem
    split at hmem
    · exact absurd hmem List.not_mem_nil
    · split at hmem
      · rename_i x hx
        rw [List.mem_singleton] at hmem
        have hundeclared := Scalar.complaint_isUndeclared hx
        rw [← hmem] at hundeclared
        cases hundeclared
      · exact absurd hmem List.not_mem_nil
  | foreign kind => simp [ownViolations]
  | array item => cases v <;> simp [ownViolations]
  | object nodes =>
    cases v with
    | object fields =>
      have hown : .unrecognizedKey key ∈ (Node.object nodes).ownViolations true (.object fields) ↔
          key ∈ undeclared nodes fields := by simp [ownViolations]
      rw [hown, mem_undeclared]
      constructor
      · intro hkey
        exact ⟨nodes, fields, rfl, rfl, hkey⟩
      · rintro ⟨_, _, ⟨⟩, ⟨⟩, hkey⟩
        exact hkey
    | _ => simp [ownViolations]

theorem unrecognizedKey_mem_violationsAt {node : Node} {v : Value} {l : Location} {key : String} :
    .unrecognizedKey key ∈ node.violationsAt true v l ↔ node.UndeclaredAt v l key := by
  unfold violationsAt UndeclaredAt
  split
  · rename_i m u hat
    simp [hat, unrecognizedKey_mem_ownViolations, and_assoc]
  · rename_i hat
    simp [hat]

end Schema.Node

/-- Notes differ if those at each location do. -/
theorem nodup_of_violationsIn {notes : List Note} (h : ∀ l, (violationsIn l notes).Nodup) :
    notes.Nodup := by
  induction notes with
  | nil => exact List.nodup_nil
  | cons n rest ih =>
    have hrest : ∀ l, (violationsIn l (n :: rest)) = violationsIn l [n] ++ violationsIn l rest :=
      fun l => violationsIn_append l [n] rest
    rw [List.nodup_cons]
    constructor
    · intro hn
      have hhere := h n.location
      rw [hrest, List.nodup_append] at hhere
      exact hhere.2.2 n.violation (mem_violationsIn.2 List.mem_cons_self) n.violation
        (mem_violationsIn.2 hn) rfl
    · apply ih
      intro l
      have hl := h l
      rw [hrest, List.nodup_append] at hl
      exact hl.2.1

/-! ### The notes that strict mode adds -/

def Note.undeclaredKey? (n : Note) : Option (Location × String) :=
  match n.violation with
  | .unrecognizedKey key => some (n.location, key)
  | _ => none

/-- The undeclared keys that notes tell of, each with the place of its object. -/
def undeclaredKeys (notes : List Note) : List (Location × String) :=
  notes.filterMap Note.undeclaredKey?

theorem Note.undeclaredKey?_eq_some_iff {n : Note} {l : Location} {key : String} :
    n.undeclaredKey? = some (l, key) ↔ n = ⟨l, .unrecognizedKey key⟩ := by
  obtain ⟨k, x⟩ := n
  cases x <;> simp [undeclaredKey?]

theorem Note.undeclaredKey?_eq_none {n : Note} (h : ¬n.violation.isUndeclared = true) :
    n.undeclaredKey? = none := by
  obtain ⟨l, x⟩ := n
  cases x with
  | unrecognizedKey key => exact absurd rfl h
  | _ => rfl

theorem mem_undeclaredKeys {notes : List Note} {l : Location} {key : String} :
    (l, key) ∈ undeclaredKeys notes ↔ ⟨l, .unrecognizedKey key⟩ ∈ notes := by
  simp only [undeclaredKeys, List.mem_filterMap, Note.undeclaredKey?_eq_some_iff]
  exact ⟨fun ⟨n, hn, heq⟩ => heq ▸ hn, fun h => ⟨_, h, rfl⟩⟩

theorem nodup_undeclaredKeys {notes : List Note} (h : notes.Nodup) :
    (undeclaredKeys notes).Nodup := by
  apply h.filterMap
  rintro n m ⟨l, key⟩ hn hm
  rw [Option.mem_def, Note.undeclaredKey?_eq_some_iff] at hn hm
  rw [hn, hm]

theorem laxNotes_eq_self {notes : List Note} (h : undeclaredKeys notes = []) :
    laxNotes notes = notes := by
  rw [laxNotes, List.filter_eq_self]
  intro n hn
  rw [Bool.not_eq_true', Bool.eq_false_iff]
  intro hundeclared
  obtain ⟨key, hkey⟩ := Violation.exists_key hundeclared
  have hmem : (n.location, key) ∈ undeclaredKeys notes := mem_undeclaredKeys.2 (hkey ▸ hn)
  rw [h] at hmem
  exact List.not_mem_nil hmem

theorem messagesOf_undeclared (path : String) (notes : List Note) :
    (ErrorMap.messagesOf path notes).filter tellsUndeclared =
      ((undeclaredKeys notes).filter fun place => place.1.path = path).map fun place =>
        "Unrecognized key '" ++ place.2 ++ "'" := by
  induction notes with
  | nil => rfl
  | cons n rest ih =>
    obtain ⟨l, x⟩ := n
    have htells := tellsUndeclared_message x
    rw [ErrorMap.messagesOf_cons, List.filter_append, ih]
    by_cases hx : x.isUndeclared = true
    · obtain ⟨key, rfl⟩ := Violation.exists_key hx
      have hkeys : undeclaredKeys (⟨l, .unrecognizedKey key⟩ :: rest) =
          (l, key) :: undeclaredKeys rest := rfl
      have hmessage : (Violation.unrecognizedKey key).message =
          "Unrecognized key '" ++ key ++ "'" := rfl
      rw [hx, hmessage] at htells
      rw [hkeys, hmessage]
      by_cases hpath : l.path = path <;> simp [hpath, htells]
    · have hkeys : undeclaredKeys (⟨l, x⟩ :: rest) = undeclaredKeys rest :=
        List.filterMap_cons_none (Note.undeclaredKey?_eq_none hx)
      rw [hkeys]
      by_cases hpath : l.path = path <;> simp [hpath, htells, hx]

/-- A strict check tells what the lax one does and, between that, of each undeclared key of each
object that the walk gets to, once; without such keys both give the same. -/
theorem strict_adds_undeclared {cap : Option Int} {definition : Value} {node : Node}
    (hcompile : compile cap definition = .ok node) (hdistinct : definition.DistinctNames)
    {v : Value} (hv : v.ShortIntegers) (hnames : v.DistinctNames) :
    let strictErrors := (validate node v true).errors
    let laxErrors := (validate node v false).errors
    (∀ path, laxErrors.messagesAt path =
      (strictErrors.messagesAt path).filter fun message => !tellsUndeclared message) ∧
    (∃ found : List (Location × String), found.Nodup ∧
      (∀ l key, (l, key) ∈ found ↔ node.UndeclaredAt v l key) ∧
      ∀ path, (strictErrors.messagesAt path).filter tellsUndeclared =
        (found.filter fun place => place.1.path = path).map fun place =>
          "Unrecognized key '" ++ place.2 ++ "'") ∧
    ∀ d, validate node v true = .accepted d ↔
      validate node v false = .accepted d ∧ ∀ l key, ¬node.UndeclaredAt v l key := by
  have hnode := compile_eq_ok hcompile
  have hwell : node.WellFormed := hnode ▸ treeOf_wellFormed definition
  have hdeclared : node.DistinctNames := hnode ▸ treeOf_allNames hdistinct
  obtain ⟨w, notes, hstrict, hnotes⟩ := Node.visit_notes true node v hwell hdeclared hv
  have hlax : node.visit false v = .ok (w, laxNotes notes) := by
    rw [node.visit_lax, hstrict]
    rfl
  have hfound : ∀ l key, (l, key) ∈ undeclaredKeys notes ↔ node.UndeclaredAt v l key := by
    intro l key
    rw [mem_undeclaredKeys, ← mem_violationsIn, hnotes, Node.unrecognizedKey_mem_violationsAt]
  refine ⟨messagesAt_lax node v, ⟨undeclaredKeys notes, ?_, hfound, fun path => ?_⟩, fun d => ?_⟩
  · apply nodup_undeclaredKeys
    apply nodup_of_violationsIn
    intro l
    rw [hnotes]
    exact Node.nodup_violationsAt true node hnames l
  · rw [validate_errors_eq hstrict, ErrorMap.messagesAt_ofNotes, messagesOf_undeclared]
  · rw [validate_eq_accepted_iff, validate_eq_accepted_iff, hstrict, hlax]
    simp only [Except.ok.injEq, Prod.mk.injEq, ← hfound, and_assoc]
    refine and_congr_right fun _ => ?_
    constructor
    · rintro rfl
      exact ⟨rfl, fun _ _ => List.not_mem_nil⟩
    · rintro ⟨hnil, hnone⟩
      have hkeys : undeclaredKeys notes = [] :=
        List.eq_nil_iff_forall_not_mem.2 fun place => hnone place.1 place.2
      rw [← laxNotes_eq_self hkeys, hnil]

/-- The colour of the second line is told of in strict mode only. -/
theorem colour_told_strictly :
    "Unrecognized key 'colour'" ∈
      (validate (treeOf orderDefinition) brokenOrder true).errors.messagesAt "lines[1]" ∧
    "Unrecognized key 'colour'" ∉
      (validate (treeOf orderDefinition) brokenOrder false).errors.messagesAt "lines[1]" ∧
    ∀ d, validate (treeOf orderDefinition) brokenOrder true ≠ .accepted d := by
  have hdistinct : orderDefinition.DistinctNames := by decide
  have hnames : brokenOrder.DistinctNames := by decide
  have hsize : Number.digitCount 3 ≤ Number.digitLimit := by decide
  have hshort : brokenOrder.ShortIntegers :=
    ⟨trivial, ⟨⟨hsize, trivial⟩, ⟨trivial, trivial, trivial⟩, trivial⟩, trivial⟩
  have hcompile : compile (some 3) orderDefinition = .ok (treeOf orderDefinition) := rfl
  have hcolour : (treeOf orderDefinition).UndeclaredAt brokenOrder [.field "lines", .index 1]
      "colour" := ⟨_, _, rfl, by decide, by decide⟩
  obtain ⟨hlax, ⟨found, -, hfound, hmessages⟩, haccepted⟩ :=
    strict_adds_undeclared hcompile hdistinct hshort hnames
  refine ⟨?_, ?_, fun d hd => ((haccepted d).1 hd).2 _ _ hcolour⟩
  · apply List.mem_of_mem_filter
    rw [hmessages, List.mem_map]
    exact ⟨_, List.mem_filter.2 ⟨(hfound _ _).2 hcolour, by decide⟩, rfl⟩
  · rw [hlax, List.mem_filter]
    exact fun h => absurd h.2 (by decide)

end Extraction
