import Extraction.Proofs.Catalog
import Extraction.Run

/-!
Definitions in wrappers. A definition that is stored and the same definition in a wrapper lead to
the same run. The form in which a stored schema is served is no wrapper: with the time of its
creation it has a key that no wrapper has, and it is taken for a definition as it stands.
-/

namespace Extraction

namespace Run

/-- Is an object a wrapper around a definition? It holds the definition under one of two spellings,
a name under one or both of two, and beside these at most a description. -/
structure Wraps (fields definition : Fields) : Prop where
  keys : ∀ field ∈ fields, field.1 ∈ documentKeys
  named : ∃ field ∈ fields, field.1 ∈ nameKeys
  definition :
    (Value.lookup? "jsonSchema" fields = some (.object definition) ∧
      Value.lookup? "json_schema" fields = none) ∨
    (Value.lookup? "json_schema" fields = some (.object definition) ∧
      Value.lookup? "jsonSchema" fields = none)

/-- The key under which something is found is a key of the fields. -/
theorem exists_key_of_lookup {name : String} {fields : Fields} {v : Value}
    (h : Value.lookup? name fields = some v) : ∃ field ∈ fields, field.1 = name := by
  induction fields with
  | nil => cases h
  | cons field rest ih =>
    by_cases hkey : field.1 = name
    · exact ⟨field, List.mem_cons_self, hkey⟩
    · rw [Value.lookup?, if_neg hkey] at h
      obtain ⟨other, hother, hname⟩ := ih h
      exact ⟨other, List.mem_cons_of_mem _ hother, hname⟩

variable {fields definition : Fields}

theorem Wraps.wrapped (h : Wraps fields definition) : wrapped? fields = some definition := by
  rcases h.definition with ⟨hmain, -⟩ | ⟨hother, hmain⟩
  · simp [wrapped?, hmain]
  · simp [wrapped?, hmain, Value.fieldOrNull, hother]

theorem Wraps.isWrapper (h : Wraps fields definition) : isWrapper fields = true := by
  have hdefinition : ∃ field ∈ fields, field.1 ∈ definitionKeys := by
    rcases h.definition with ⟨hfound, -⟩ | ⟨hfound, -⟩
    all_goals
      obtain ⟨field, hfield, hkey⟩ := exists_key_of_lookup hfound
      exact ⟨field, hfield, by simp [hkey, definitionKeys]⟩
  simp only [Run.isWrapper, Bool.and_eq_true, List.all_eq_true, List.any_eq_true, decide_eq_true_eq]
  exact ⟨⟨h.keys, h.named⟩, hdefinition⟩

/-- One wrapper is taken off, whatever the definition in it looks like. -/
theorem Wraps.unwrap (h : Wraps fields definition) : unwrap fields = definition := by
  rw [Run.unwrap, if_pos h.isWrapper, h.wrapped]
  rfl

theorem Wraps.inlineDefinition (h : Wraps fields definition) (hdefinition : definition ≠ []) :
    inlineDefinition (.object fields) = .ok definition := by
  have hempty : definition.isEmpty = false := List.isEmpty_eq_false_iff.2 hdefinition
  simp [Run.inlineDefinition, h.unwrap, hempty]

/-! ### Resolving -/

variable {find : String → Option StoredSchema} {o : Order}

theorem resolve_inline (v : Value) :
    resolve find { o with schemaName := none, inlineSchema := some v } =
      (inlineDefinition v).map some := rfl

theorem resolve_named {name : String} (hname : name ≠ "") {d : StoredSchema}
    (hd : find name = some d) :
    resolve find { o with schemaName := some name, inlineSchema := none } =
      .ok (some d.definition) := by
  have hgiven : givenName (some name) = some name := by simp [givenName, hname]
  simp only [resolve, hgiven, hd]

/-- Of the schema in an order only the definition matters that it resolves to. -/
theorem run_of_resolved {p : Pipeline} {c : Collaborators} {name name' : Option String}
    {inline inline' : Option Value}
    (h : resolve find { o with schemaName := name, inlineSchema := inline } =
      resolve find { o with schemaName := name', inlineSchema := inline' }) :
    run p find c { o with schemaName := name, inlineSchema := inline } =
      run p find c { o with schemaName := name', inlineSchema := inline' } := by
  simp only [run, plan, h]
  rfl

end Run

open Run

/-- A definition that is stored under a name and the same definition in a wrapper lead to the same
run: the same calls, and the same result or the same failure. -/
theorem run_wrapped_eq_run_stored (p : Pipeline) (c : Collaborators) (o : Order) {s : Store}
    {d : StoredSchema} (hd : Store.named? d.name s.documents = some d) (hname : d.name ≠ "")
    (hdefinition : d.definition ≠ []) {name : String} (hpadded : Text.trim name = d.name)
    {fields : Fields} (hwraps : Wraps fields d.definition) :
    run p s.find? c { o with schemaName := some name, inlineSchema := none } =
      run p s.find? c { o with schemaName := none, inlineSchema := some (.object fields) } := by
  have hfound : s.find? name = some d := by rw [Store.find?, hpadded, hd]
  have hgiven : name ≠ "" := by
    rintro rfl
    exact hname hpadded.symm
  refine run_of_resolved ?_
  rw [resolve_named hgiven hfound, resolve_inline, hwraps.inlineDefinition hdefinition]
  rfl

/-- A definition that looks like a wrapper itself. -/
def nestedDraft : StoredSchema :=
  draft [("schemaName", .string "string"), ("jsonSchema", .object [("a", .string "date")])]

/-- Collaborators of which the model always gives this reply. -/
def replying (reply : String) : Collaborators :=
  ⟨none, fun _ _ => .ok (some "Invoice"), fun _ => .ok reply⟩

/-- An order without a schema. -/
def plainOrder : Order :=
  ⟨some "invoice.pdf", [], .json, none, none⟩

theorem run_wrapped_nested :
    Wraps [("json_schema", .object nestedDraft.definition), ("description", .int 1),
      ("schema_name", .null)] nestedDraft.definition ∧
    run ⟨some 3, true⟩ (Store.find? ⟨[nestedDraft], none, stoppedClock⟩) (replying "\x7b\x7d")
        { plainOrder with schemaName := some " draft ", inlineSchema := none } =
      run ⟨some 3, true⟩ (Store.find? ⟨[nestedDraft], none, stoppedClock⟩) (replying "\x7b\x7d")
        { plainOrder with
          schemaName := none
          inlineSchema := some (.object [("json_schema", .object nestedDraft.definition),
            ("description", .int 1), ("schema_name", .null)]) } := by
  have hwraps : Wraps [("json_schema", .object nestedDraft.definition), ("description", .int 1),
      ("schema_name", .null)] nestedDraft.definition := by
    refine ⟨?_, ?_, .inr ⟨rfl, rfl⟩⟩
    · simp [documentKeys, nameKeys, definitionKeys]
    · simp [nameKeys]
  have hdefinition : nestedDraft.definition ≠ [] := by simp [nestedDraft, draft]
  have hpadded : Text.trim " draft " = nestedDraft.name := by decide
  exact ⟨hwraps, run_wrapped_eq_run_stored _ _ _ rfl (by decide) hdefinition hpadded hwraps⟩

/-! ### The form in which a schema is served -/

namespace StoredSchema

/-- The fields of the form outside the store. -/
def served (d : StoredSchema) : Fields := [
  (nameKey.main, .string d.name),
  (descriptionKey.main, descriptionValue d.description),
  (definitionKey.main, .object d.keptForm.definition),
  (createdAtKey.main, .string (Calendar.Timestamp.text d.createdAt))]

theorem toValue_eq (d : StoredSchema) : d.toValue = .object d.served := by
  rw [toValue, kept_definition]
  rfl

/-- The served fields without the time of creation. -/
def undated (d : StoredSchema) : Fields :=
  d.served.filter fun field => field.1 ≠ createdAtKey.main

theorem undated_eq (d : StoredSchema) : d.undated = [
    (nameKey.main, .string d.name),
    (descriptionKey.main, descriptionValue d.description),
    (definitionKey.main, .object d.keptForm.definition)] := rfl

theorem isWrapper_served (d : StoredSchema) : isWrapper d.served = false := by
  have hcreated : createdAtKey.main ∉ documentKeys := by decide
  simp [isWrapper, served, hcreated]

theorem wraps_undated (d : StoredSchema) : Wraps d.undated d.keptForm.definition where
  keys := by
    rw [undated_eq]
    simp [nameKey, descriptionKey, definitionKey, documentKeys, nameKeys, definitionKeys]
  named := ⟨(nameKey.main, .string d.name), by simp [undated_eq], by simp [nameKey, nameKeys]⟩
  definition := .inl ⟨rfl, rfl⟩

theorem kept_served (d : StoredSchema) : (Value.object d.served).kept = .object d.served := by
  have hinner : Value.object d.keptForm.definition = (Value.object d.definition).kept :=
    (kept_definition d).symm
  have hdescription : ∀ p, (descriptionValue d.description).AllNames p := by
    cases d.description <;> simp [descriptionValue, Value.AllNames]
  have hfinite : (descriptionValue d.description).allFinite = true := by
    cases d.description <;> rfl
  have hkeys : d.served.map Prod.fst =
      ["schemaName", "description", "jsonSchema", "createdAt"] := rfl
  refine Value.kept_eq_self ⟨?_, ?_⟩ ?_ ⟨?_, ?_⟩
  · rw [hkeys]
    decide
  · simp only [served, hinner]
    exact ⟨trivial, hdescription _, Value.kept_distinctNames _, trivial, trivial⟩
  · simp only [served, hinner, Value.allFinite, Value.allFiniteFields, hfinite,
      Value.kept_allFinite, Bool.and_true]
  · rw [hkeys]
    decide
  · simp only [served, hinner]
    exact ⟨trivial, hdescription _, Value.kept_wholeNames _, trivial, trivial⟩

/-- No definition is its own served form, which holds the definition one level deeper. -/
theorem served_ne_definition (d : StoredSchema) : d.served ≠ d.definition := by
  intro h
  have hinner : Value.object d.keptForm.definition = .object d.served := by
    rw [← kept_definition, ← h, kept_served]
  have hmem : (definitionKey.main, Value.object d.keptForm.definition) ∈ d.served := by
    simp [served]
  have hlevels : (Value.object d.keptForm.definition).levels ≤ Value.levelsFields d.served :=
    Value.levelsFields_le_iff.1 (Nat.le_refl _) _ hmem
  rw [hinner, Value.levels] at hlevels
  exact absurd hlevels (Nat.not_succ_le_self _)

theorem keptForm_ne_nil {d : StoredSchema} (h : d.definition ≠ []) :
    d.keptForm.definition ≠ [] := by
  intro hempty
  obtain ⟨field, rest, hfield⟩ := List.exists_cons_of_ne_nil h
  have hkey : Text.replaceHalves field.1 ∈ d.keptForm.definition.map Prod.fst := by
    rw [keptForm, Value.mem_keys_fieldsOfPairs, Value.keptFields_eq_map, hfield]
    simp
  rw [hempty] at hkey
  cases hkey

end StoredSchema

/-- The form in which a schema is served is taken for a definition, and never for the one that was
stored. Without the time of creation it is a wrapper around the definition in its kept form. -/
theorem served_form_is_definition (find : String → Option StoredSchema) (o : Order)
    {d : StoredSchema} (h : d.definition ≠ []) :
    resolve find { o with schemaName := none, inlineSchema := some d.toValue } =
      .ok (some d.served) ∧
    d.served ≠ d.definition ∧
    resolve find { o with schemaName := none, inlineSchema := some (.object d.undated) } =
      .ok (some d.keptForm.definition) := by
  refine ⟨?_, d.served_ne_definition, ?_⟩
  · have hunwrap : unwrap d.served = d.served := by
      rw [unwrap, d.isWrapper_served]
      exact if_neg Bool.false_ne_true
    rw [resolve_inline, d.toValue_eq, inlineDefinition, hunwrap]
    rfl
  · rw [resolve_inline, d.wraps_undated.inlineDefinition (StoredSchema.keptForm_ne_nil h)]
    rfl

/-- A definition that every object fills. -/
def optionalDraft : StoredSchema :=
  draft [("amount", .string "number | null")]

theorem served_optional :
    optionalDraft.definition ≠ [] ∧
    resolve (fun _ => none)
        { plainOrder with schemaName := none, inlineSchema := some optionalDraft.toValue } ≠
      .ok (some optionalDraft.definition) := by
  have hdefinition : optionalDraft.definition ≠ [] := by simp [optionalDraft, draft]
  obtain ⟨hresolve, hne, -⟩ := served_form_is_definition (fun _ => none) plainOrder hdefinition
  refine ⟨hdefinition, ?_⟩
  rw [hresolve]
  simpa using hne

/-- By its name the schema is filled by an empty reply; sent as it is served, it is not. -/
theorem served_optional_rejected :
    (∃ r, (run ⟨none, false⟩ (fun _ => some optionalDraft) (replying "\x7b\x7d")
        { plainOrder with schemaName := some "draft" }).1 = .ok r ∧
      r.data = .object [("amount", .null)]) ∧
    (run ⟨none, false⟩ (fun _ => some optionalDraft) (replying "\x7b\x7d")
        { plainOrder with inlineSchema := some optionalDraft.toValue }).1 =
      .error (.failure (.invalidReply [("jsonSchema", ["Expected object, received null"])]
        (.object []))) := by
  exact ⟨⟨_, rfl, rfl⟩, rfl⟩

end Extraction
