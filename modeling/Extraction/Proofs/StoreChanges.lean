import Extraction.Store
import Mathlib.Data.List.Basic

/-!
Changes of a store. A change is refused before the store is touched, or it commits other documents,
and a commit that fails keeps the old ones. What a store keeps through its changes is derived from
this, and no change has to be taken apart for it again.
-/

namespace Extraction.Store

variable {s : Store} {documents : List StoredSchema} {d : StoredSchema} {name : String}
  {description definition : Value} {problem : Problem} {p p' : Place}

/-! ### Documents by name -/

theorem has_iff : has name documents = true ↔ name ∈ documents.map StoredSchema.name := by
  rw [has, List.any_eq_true, List.mem_map]
  simp only [decide_eq_true_eq]

theorem has_eq_false_iff :
    has name documents = false ↔ name ∉ documents.map StoredSchema.name := by
  rw [Bool.eq_false_iff, Ne, has_iff]

theorem named?_eq_none (h : name ∉ documents.map StoredSchema.name) :
    named? name documents = none := by
  apply List.find?_eq_none.2
  intro d hd hname
  apply h
  rw [← of_decide_eq_true hname]
  exact List.mem_map_of_mem hd

theorem name_of_named? (h : named? name documents = some d) : d.name = name := by
  simpa using List.find?_some h

theorem named?_of_mem (h : (documents.map StoredSchema.name).Nodup) (hd : d ∈ documents) :
    named? d.name documents = some d := by
  induction documents with
  | nil => cases hd
  | cons first rest ih =>
    rw [List.map_cons, List.nodup_cons] at h
    rcases List.mem_cons.1 hd with rfl | hrest
    · simp [named?]
    · have hne : first.name ≠ d.name := by
        intro hname
        exact h.1 (hname ▸ List.mem_map_of_mem hrest)
      simpa [named?, hne] using ih h.2 hrest

theorem named?_append (h : d.name ∉ documents.map StoredSchema.name) (name : String) :
    named? name (documents ++ [d]) = if name = d.name then some d else named? name documents := by
  unfold named?
  rw [List.find?_append]
  by_cases hname : name = d.name
  · have hnone : documents.find? (fun e => e.name = d.name) = none := named?_eq_none h
    simp [hname, hnone]
  · simp [hname, Ne.symm hname]

theorem named?_filter (name other : String) :
    named? name (documents.filter fun d => d.name ≠ other) =
      if name = other then none else named? name documents := by
  unfold named?
  rw [List.find?_filter]
  by_cases hname : name = other
  · simp [hname]
  · rw [if_neg hname]
    congr 1
    funext d
    by_cases hd : d.name = name <;> simp [hd, hname]

/-- A document under a new name goes to the end. -/
theorem nodup_names_append (h : (documents.map StoredSchema.name).Nodup)
    (hd : d.name ∉ documents.map StoredSchema.name) :
    ((documents ++ [d]).map StoredSchema.name).Nodup := by
  rw [List.map_append, List.nodup_append]
  refine ⟨h, by simp, ?_⟩
  rintro other hother _ hsingle rfl
  rw [List.map_singleton, List.mem_singleton] at hsingle
  exact hd (hsingle ▸ hother)

/-- The documents without the one of a name. -/
def others (s : Store) (name : String) : List StoredSchema :=
  s.documents.filter fun d => d.name ≠ name

theorem others_subset (s : Store) (name : String) : s.others name ⊆ s.documents :=
  List.filter_subset_self _

theorem nodup_others (h : (s.documents.map StoredSchema.name).Nodup) (name : String) :
    ((s.others name).map StoredSchema.name).Nodup :=
  h.sublist (List.filter_sublist.map _)

/-! ### Commits -/

theorem commit_inMemory (hplace : s.place = none) (documents : List StoredSchema) :
    s.commit documents = (.ok (), { s with documents }) := by
  rw [commit, hplace]

theorem commit_written (hplace : s.place = some p) (hwrite : p.write documents = (.ok (), p')) :
    s.commit documents = (.ok (), { s with documents, place := some p' }) := by
  simp only [commit, hplace, hwrite]

theorem commit_unwritten (hplace : s.place = some p)
    (hwrite : p.write documents = (.error problem, p')) :
    s.commit documents = (.error problem, { s with place := some p' }) := by
  simp only [commit, hplace, hwrite]

/-- What a commit can come to. Only on disk it can fail, and then the place alone may change. -/
inductive Enacted (s : Store) (documents : List StoredSchema) : Except Problem Unit × Store → Prop
  | inMemory (hplace : s.place = none) : Enacted s documents (.ok (), { s with documents })
  | written {p p' : Place} (hplace : s.place = some p)
    (hwrite : p.write documents = (.ok (), p')) :
    Enacted s documents (.ok (), { s with documents, place := some p' })
  | unwritten {p p' : Place} {problem : Problem} (hplace : s.place = some p)
    (hwrite : p.write documents = (.error problem, p')) :
    Enacted s documents (.error problem, { s with place := some p' })

theorem commit_enacted (s : Store) (documents : List StoredSchema) :
    Enacted s documents (s.commit documents) := by
  cases hplace : s.place with
  | none =>
    rw [commit_inMemory hplace]
    exact .inMemory hplace
  | some p =>
    rcases hwrite : p.write documents with ⟨problem | ⟨⟩, p'⟩
    · rw [commit_unwritten hplace hwrite]
      exact .unwritten hplace hwrite
    · rw [commit_written hplace hwrite]
      exact .written hplace hwrite

/-! ### Creates -/

/-- The document that a create is asked for, unless its fields are faulty. -/
def asked (s : Store) (name : String) (description definition : Value) :
    Except Problem StoredSchema :=
  newDocument (Text.trim name) description definition s.clock.now

/-- A document is made of exactly what was asked for. -/
theorem asked_eq_ok (h : s.asked name description definition = .ok d) :
    d.name = Text.trim name ∧ definition = .object d.definition ∧ d.createdAt = s.clock.now := by
  unfold asked newDocument at h
  dsimp only at h
  split at h
  · rename_i hdefinition
    cases h
    cases definition with
    | object fields =>
      cases hdefinition
      exact ⟨rfl, rfl, rfl⟩
    | _ => cases hdefinition
  · cases h

/-- A name, an optional description and a definition are not faulty. -/
theorem asked_document (s : Store) (name : String) (description : Option String)
    (definition : Fields) :
    s.asked name (StoredSchema.descriptionValue description) (.object definition) =
      .ok ⟨Text.trim name, description, definition, s.clock.now⟩ := by
  cases description <;> rfl

theorem create_taken (hname : Text.trim name ∈ s.documents.map StoredSchema.name)
    (description definition : Value) :
    s.create name description definition =
      (.error (.failure (.schemaExists (Text.trim name))), s) := by
  rw [create, if_pos (has_iff.2 hname)]

theorem create_faulty (hname : Text.trim name ∉ s.documents.map StoredSchema.name)
    (hasked : s.asked name description definition = .error problem) :
    s.create name description definition =
      (.error problem, { s with clock := s.clock.advance }) := by
  rw [asked] at hasked
  simp only [create, has_eq_false_iff.2 hname, hasked, Bool.false_eq_true, if_false]

/-- A document under a new name is committed behind the others. -/
theorem create_new (hname : Text.trim name ∉ s.documents.map StoredSchema.name)
    (hasked : s.asked name description definition = .ok d) {outcome : Except Problem Unit}
    {store : Store}
    (hcommit : ({ s with clock := s.clock.advance } : Store).commit (s.documents ++ [d]) =
      (outcome, store)) :
    s.create name description definition = (outcome.map fun () => d, store) := by
  rw [asked] at hasked
  simp only [create, has_eq_false_iff.2 hname, hasked, hcommit, Bool.false_eq_true, if_false]
  cases outcome <;> rfl

/-- What a create can come to: a name that is taken and faulty fields are refused, and any other
document is committed. -/
inductive Tried (s : Store) (name : String) (description definition : Value) :
    Except Problem StoredSchema × Store → Prop
  | taken : Tried s name description definition
      (.error (.failure (.schemaExists (Text.trim name))), s)
  | faulty {problem : Problem} (h : s.asked name description definition = .error problem) :
    Tried s name description definition (.error problem, { s with clock := s.clock.advance })
  | committed {d : StoredSchema} (h : s.asked name description definition = .ok d)
    (hnew : d.name ∉ s.documents.map StoredSchema.name) {outcome : Except Problem Unit}
    {store : Store}
    (hcommit : ({ s with clock := s.clock.advance } : Store).commit (s.documents ++ [d]) =
      (outcome, store)) :
    Tried s name description definition (outcome.map fun () => d, store)

theorem create_tried (s : Store) (name : String) (description definition : Value) :
    Tried s name description definition (s.create name description definition) := by
  by_cases hname : Text.trim name ∈ s.documents.map StoredSchema.name
  · rw [create_taken hname]
    exact .taken
  · cases hasked : s.asked name description definition with
    | error problem =>
      rw [create_faulty hname hasked]
      exact .faulty hasked
    | ok d =>
      rcases hcommit : Store.commit { s with clock := s.clock.advance } (s.documents ++ [d])
        with ⟨outcome, store⟩
      rw [create_new hname hasked hcommit]
      exact .committed hasked ((asked_eq_ok hasked).1 ▸ hname) hcommit

/-- What holds of a store holds after a create if it is kept when the clock is read and when one
more document is committed. -/
theorem create_keeps {motive : Store → Prop} (h : motive s)
    (hticked : motive { s with clock := s.clock.advance })
    (hcommitted : ∀ d, s.asked name description definition = .ok d →
      d.name ∉ s.documents.map StoredSchema.name →
      motive (({ s with clock := s.clock.advance } : Store).commit (s.documents ++ [d])).2) :
    motive (s.create name description definition).2 := by
  have htried := s.create_tried name description definition
  generalize s.create name description definition = outcome at htried ⊢
  cases htried with
  | taken => exact h
  | faulty => exact hticked
  | committed hasked hnew hcommit =>
    have hkept := hcommitted _ hasked hnew
    rwa [hcommit] at hkept

/-! ### Deletes -/

theorem delete_known (hname : Text.trim name ∈ s.documents.map StoredSchema.name) :
    s.delete name = s.commit (s.others (Text.trim name)) := by
  rw [delete, if_pos (has_iff.2 hname)]
  rfl

theorem delete_unknown (hname : Text.trim name ∉ s.documents.map StoredSchema.name) :
    s.delete name = (.error (.failure (.unknownSchema (Text.trim name))), s) := by
  rw [delete, has_eq_false_iff.2 hname]
  rfl

/-- What holds of a store holds after a delete if it is kept when the other documents are
committed. -/
theorem delete_keeps {motive : Store → Prop} (h : motive s)
    (hcommitted : motive (s.commit (s.others (Text.trim name))).2) :
    motive (s.delete name).2 := by
  by_cases hname : Text.trim name ∈ s.documents.map StoredSchema.name
  · rwa [delete_known hname]
  · rwa [delete_unknown hname]

end Extraction.Store
