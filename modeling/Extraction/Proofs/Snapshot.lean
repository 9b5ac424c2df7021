import Extraction.Proofs.Chaining
import Extraction.Proofs.JsonRoundTrip
import Extraction.Proofs.TimestampText
import Extraction.Store.Place
import Mathlib.Logic.Basic

/-!
The file of a store as a snapshot. Documents with plain definitions come back from the file in
their kept form, which differs from what was written only where a name in a definition cannot be
sent.
-/

namespace Extraction

open Value (induction_parts)

namespace StoredSchema

/-- A document as it comes back from the file. -/
def keptForm (d : StoredSchema) : StoredSchema :=
  { d with definition := Value.fieldsOfPairs (Value.keptFields d.definition) }

/-- A document that was made in UTC, with a plain definition. -/
structure Plain (d : StoredSchema) : Prop where
  definition : (Value.object d.definition).Plain
  createdAt : d.createdAt.offset = some .utc

/-- A document that can be written: its definition is not too deep, and no half of a surrogate pair
is left in it. -/
def Writable (d : StoredSchema) : Prop :=
  d.isShallow = true ∧ d.toValue.isWhole = true

instance (d : StoredSchema) : Decidable d.Writable :=
  inferInstanceAs (Decidable (d.isShallow = true ∧ d.toValue.isWhole = true))

theorem kept_definition (d : StoredSchema) :
    (Value.object d.definition).kept = .object d.keptForm.definition := by
  rw [Value.kept]
  rfl

theorem Plain.keptForm {d : StoredSchema} (h : d.Plain) : d.keptForm.Plain where
  definition := by
    rw [← kept_definition]
    exact Value.kept_plain h.definition
  createdAt := h.createdAt

theorem toValue_keptForm (d : StoredSchema) : d.keptForm.toValue = d.toValue := by
  have hkept : (Value.object d.keptForm.definition).kept = (Value.object d.definition).kept := by
    rw [← kept_definition, Value.kept_kept]
  simp only [toValue, hkept]
  rfl

/-- A document with a definition that is kept as it is comes back as it was. -/
theorem keptForm_of_kept {d : StoredSchema}
    (h : (Value.object d.definition).kept = .object d.definition) : d.keptForm = d := by
  rw [kept_definition, Value.object.injEq] at h
  cases d
  simp only [keptForm] at h ⊢
  rw [h]

theorem keptForm_eq_self {d : StoredSchema} (h : d.Plain)
    (hnames : (Value.object d.definition).WholeNames) : d.keptForm = d :=
  keptForm_of_kept (Value.kept_eq_self h.definition.distinctNames h.definition.allFinite hnames)

theorem keptForm_keptForm (d : StoredSchema) : d.keptForm.keptForm = d.keptForm := by
  have hdefinition := Value.kept_kept (.object d.definition)
  rw [kept_definition, kept_definition, Value.object.injEq] at hdefinition
  simp only [keptForm] at hdefinition ⊢
  rw [hdefinition]

theorem isShallow_iff {d : StoredSchema} :
    d.isShallow = true ↔ ∀ field ∈ d.definition, field.2.levels ≤ levelLimit := by
  simp [isShallow]

theorem isShallow_keptForm {d : StoredSchema} (h : d.isShallow = true) :
    d.keptForm.isShallow = true := by
  refine isShallow_iff.2 fun field hfield => ?_
  obtain ⟨original, horiginal, rfl⟩ := Value.exists_of_mem_kept hfield
  exact Nat.le_trans (Value.levels_kept_le _) (isShallow_iff.1 h original horiginal)

theorem Writable.keptForm {d : StoredSchema} (h : d.Writable) : d.keptForm.Writable := by
  refine ⟨isShallow_keptForm h.1, ?_⟩
  rw [toValue_keptForm]
  exact h.2

/-- A document that a file can hold and give back. -/
structure Sealed (d : StoredSchema) : Prop where
  plain : d.toValue.Plain
  writable : d.Writable
  createdAt : d.createdAt.offset = some .utc

/-! ### The form outside the store -/

theorem toValue_plain {d : StoredSchema} (h : d.Plain) : d.toValue.Plain := by
  have hdescription : (descriptionValue d.description).Plain := by
    cases d.description <;> trivial
  have hnames : ["schemaName", "description", "jsonSchema", "createdAt"].Nodup := by decide
  exact ⟨hnames, trivial, hdescription, Value.kept_plain h.definition, trivial, trivial⟩

theorem Plain.isSealed {d : StoredSchema} (h : d.Plain) (hd : d.Writable) : d.Sealed :=
  ⟨toValue_plain h, hd, h.createdAt⟩

theorem nesting_toValue_le {d : StoredSchema} (h : d.isShallow = true) :
    d.toValue.nesting ≤ levelLimit + 2 := by
  have hdescription : (descriptionValue d.description).nesting = 0 := by
    cases d.description <;> rfl
  have hlevels : Value.levelsFields d.definition ≤ levelLimit :=
    Value.levelsFields_le_iff.2 (isShallow_iff.1 h)
  have hkept := Value.levels_kept_le (.object d.definition)
  have hnesting := Value.nesting_le_levels (Value.object d.definition).kept
  simp only [Value.levels] at hkept
  simp only [toValue, Value.nesting, Value.nestingFields, hdescription]
  omega

/-- A document comes back from its form outside the store. -/
theorem ofValue_toValue {d : StoredSchema} (h : d.createdAt.offset = some .utc) :
    ofValue d.toValue = .ok d.keptForm := by
  have hcreated : readTimestamp (.string (Calendar.Timestamp.text d.createdAt)) =
      .ok d.createdAt := by
    rw [readTimestamp, Calendar.Timestamp.ofValue_text h]
    rfl
  have hdescription : readOptionalText (descriptionValue d.description) = .ok d.description := by
    cases d.description <;> rfl
  simp [ofValue, toValue, required, readDescription, Key.find?, Value.lookup?, nameKey,
    descriptionKey, definitionKey, createdAtKey, hcreated, hdescription, readText, readMapping,
    kept_definition, mapError_ok]
  rfl

end StoredSchema

namespace Place

/-! ### Obstacles -/

theorem obstacleInItems?_eq_none_iff {items : List Value} :
    obstacleInItems? items = none ↔ ∀ v ∈ items, obstacle? v = none := by
  induction items with
  | nil => simp [obstacleInItems?]
  | cons v rest ih => simp only [obstacleInItems?, Option.or_eq_none_iff, ih, List.forall_mem_cons]

theorem obstacleInFields?_eq_none_iff {fields : Fields} :
    obstacleInFields? fields = none ↔
      ∀ field ∈ fields, Text.isWhole field.1 = true ∧ obstacle? field.2 = none := by
  induction fields with
  | nil => simp [obstacleInFields?]
  | cons field rest ih =>
    by_cases h : Text.isWhole field.1 = true
    · simp [obstacleInFields?, h, ih]
    · simp [obstacleInFields?, h]

/-- Only halves of surrogate pairs are in the way of a plain value. -/
theorem obstacle?_eq_none_iff {v : Value} (hv : v.Plain) :
    obstacle? v = none ↔ v.isWhole = true := by
  induction v using induction_parts with
  | array items ih =>
    rw [obstacle?, Value.isWhole, obstacleInItems?_eq_none_iff, Value.isWholeItems_iff]
    have hplain := Value.plainItems_iff.1 hv
    exact forall₂_congr fun v hmem => ih v hmem (hplain v hmem)
  | object fields ih =>
    rw [obstacle?, Value.isWhole, obstacleInFields?_eq_none_iff, Value.isWholeFields_iff]
    have hplain := Value.plainFields_iff.1 hv.2
    exact forall₂_congr fun field hmem => and_congr_right' (ih field hmem (hplain field hmem))
  | int n => simp [obstacle?, Value.isWhole, Value.intText?_eq_some hv]
  | string s => simp [obstacle?, Value.isWhole]
  | null | bool => simp [obstacle?, Value.isWhole]
  | float | date | dateTime => exact hv.elim

theorem obstacle?_eq_some {v : Value} {problem : Problem} (h : obstacle? v = some problem) :
    problem = .longInteger ∨ problem = .brokenText := by
  induction v using induction_parts with
  | int n =>
    unfold obstacle? at h
    split at h <;> simp_all
  | string s =>
    unfold obstacle? at h
    split at h <;> simp_all
  | array items ih =>
    rw [obstacle?] at h
    induction items with
    | nil => simp [obstacleInItems?] at h
    | cons v rest ihrest =>
      rw [List.forall_mem_cons] at ih
      rcases Option.or_eq_some_iff.1 h with hv | ⟨-, hrest⟩
      · exact ih.1 hv
      · exact ihrest ih.2 hrest
  | object fields ih =>
    rw [obstacle?] at h
    induction fields with
    | nil => simp [obstacleInFields?] at h
    | cons field rest ihrest =>
      rw [List.forall_mem_cons] at ih
      rw [obstacleInFields?] at h
      split at h
      · rcases Option.or_eq_some_iff.1 h with hv | ⟨-, hrest⟩
        · exact ih.1 hv
        · exact ihrest ih.2 hrest
      · exact .inr (Option.some.inj h).symm
  | _ => simp [obstacle?] at h

/-! ### Reading documents -/

theorem put_of_not_mem {d : StoredSchema} {done : List StoredSchema}
    (h : d.name ∉ done.map StoredSchema.name) : put d done = done ++ [d] := by
  induction done with
  | nil => rfl
  | cons e rest ih =>
    rw [List.map_cons, List.mem_cons, not_or] at h
    rw [put, if_neg (Ne.symm h.1), ih h.2]
    rfl

/-- Documents with different names are read back one by one. -/
theorem readDocuments_toValue {documents : List StoredSchema}
    (hutc : ∀ d ∈ documents, d.createdAt.offset = some .utc) (done : List StoredSchema)
    (hnames : (done.map StoredSchema.name ++ documents.map StoredSchema.name).Nodup) :
    readDocuments done (documents.map StoredSchema.toValue) =
      .ok (done ++ documents.map StoredSchema.keptForm) := by
  induction documents generalizing done with
  | nil => simp [readDocuments]
  | cons d rest ih =>
    rw [List.forall_mem_cons] at hutc
    have hd : d.keptForm.name ∉ done.map StoredSchema.name := by
      intro hmem
      exact (List.nodup_append.1 hnames).2.2 _ hmem _ List.mem_cons_self rfl
    have hshift : ((done ++ [d.keptForm]).map StoredSchema.name ++
        rest.map StoredSchema.name).Nodup := by simpa [StoredSchema.keptForm] using hnames
    -- the name of the document is new, so it goes to the end of those read before
    rw [List.map_cons, readDocuments, StoredSchema.ofValue_toValue hutc.1]
    simp only [mapError_ok, bind, Except.bind, put_of_not_mem hd]
    rw [ih hutc.2 _ hshift]
    simp

theorem itemsOf_documents (documents : List StoredSchema) :
    itemsOf (.array (documents.map StoredSchema.toValue)) =
      .ok (documents.map StoredSchema.toValue) := rfl

variable {documents : List StoredSchema}

theorem documents_plain (h : ∀ d ∈ documents, d.toValue.Plain) :
    (Value.array (documents.map StoredSchema.toValue)).Plain :=
  Value.plainItems_iff.2 (List.forall_mem_map.2 h)

theorem nesting_documents_le (h : ∀ d ∈ documents, d.isShallow = true) :
    (Value.array (documents.map StoredSchema.toValue)).nesting ≤ Json.nestingLimit := by
  have hitems : Value.nestingItems (documents.map StoredSchema.toValue) ≤
      StoredSchema.levelLimit + 2 := by
    apply Value.nestingItems_le_iff.2
    intro v hv
    obtain ⟨d, hd, rfl⟩ := List.mem_map.1 hv
    exact StoredSchema.nesting_toValue_le (h d hd)
  refine Nat.le_trans (Nat.succ_le_succ hitems) ?_
  decide

theorem obstacle?_documents :
    obstacle? (.array (documents.map StoredSchema.toValue)) = none ↔
      ∀ d ∈ documents, obstacle? d.toValue = none := by
  rw [obstacle?, obstacleInItems?_eq_none_iff]
  exact List.forall_mem_map

/-- The text of a file that can be written holds the documents in their kept form. -/
theorem exists_fileText (hsealed : ∀ d ∈ documents, d.Sealed)
    (hnames : (documents.map StoredSchema.name).Nodup) :
    ∃ text, fileText documents = .ok text ∧
      readText text = .ok (documents.map StoredSchema.keptForm) := by
  have hobstacle := obstacle?_documents.2 fun d hd =>
    (obstacle?_eq_none_iff (hsealed d hd).plain).2 (hsealed d hd).writable.2
  have hvalue := documents_plain fun d hd => (hsealed d hd).plain
  obtain ⟨text, htext⟩ := Json.exists_print Json.indented hvalue.shortIntegers
  have hread : Json.read true text = .ok (.array (documents.map StoredSchema.toValue)) :=
    Json.read_print true Json.isSpace_of_mem_indented hvalue
      (nesting_documents_le fun d hd => (hsealed d hd).writable.1) htext
  have hdocuments := readDocuments_toValue (fun d hd => (hsealed d hd).createdAt) [] hnames
  refine ⟨text, by simp only [fileText, hobstacle, htext], ?_⟩
  simp only [readText, hread, mapError_ok, bind, Except.bind, itemsOf_documents]
  exact hdocuments

/-- A text that is finished had no obstacle in it. -/
theorem unobstructed_of_fileText {text : String} (h : fileText documents = .ok text) :
    ∀ d ∈ documents, obstacle? d.toValue = none := by
  rw [← obstacle?_documents]
  unfold fileText at h
  dsimp only at h
  split at h
  · cases h
  · assumption
  · cases h

/-- A text breaks off at the first obstacle. -/
theorem obstacle?_of_fileText
    (hplain : ∀ d ∈ documents, obstacle? d.toValue = none → d.toValue.Plain) {problem : Problem}
    (h : fileText documents = .error problem) :
    obstacle? (.array (documents.map StoredSchema.toValue)) = some problem := by
  unfold fileText at h
  dsimp only at h
  split at h
  · rename_i hproblem
    rw [hproblem, Except.error.inj h]
  · cases h
  · -- without an obstacle the text can be printed
    rename_i hnone hprint
    rw [obstacle?_documents] at hnone
    have hvalue := documents_plain fun d hd => hplain d hd (hnone d hd)
    obtain ⟨text, htext⟩ := Json.exists_print Json.indented hvalue.shortIntegers
    rw [htext] at hprint
    cases hprint

/-! ### The place -/

variable {p : Place}

/-- What a write can come to. -/
inductive Written (p : Place) (documents : List StoredSchema) : Except Problem Unit × Place → Prop
  | tooDeep (h : ¬∀ d ∈ documents, d.isShallow = true) :
    Written p documents (.error tooManyLevels, p)
  | prevented (h : p.blocked = true ∨ p.entry = .folder) :
    Written p documents (.error writeFailed, p)
  /-- The text breaks off, and the second file stays behind. -/
  | brokenOff (hfree : p.blocked = false) {problem : Problem}
    (h : fileText documents = .error problem) :
    Written p documents (.error problem, { p with leftovers := p.leftovers + 1 })
  | done (hfree : p.blocked = false) (hnoFolder : p.entry ≠ .folder)
    (hshallow : ∀ d ∈ documents, d.isShallow = true) {text : String}
    (h : fileText documents = .ok text) :
    Written p documents (.ok (), { p with entry := .text text })

theorem openSecond?_eq_some {opened : Place} (h : p.openSecond? = some opened) :
    p.blocked = false ∧ opened = { p with leftovers := p.leftovers + 1 } := by
  unfold openSecond? at h
  split at h
  · cases h
  · rename_i hfree
    exact ⟨by simpa using hfree, (Option.some.inj h).symm⟩

theorem write_written (p : Place) (documents : List StoredSchema) :
    Written p documents (p.write documents) := by
  unfold write
  split
  · rename_i h
    exact .tooDeep (by simpa using h)
  · rename_i hshallow
    split
    · rename_i h
      exact .prevented (.inl (by simpa [openSecond?] using h))
    · rename_i opened hopened
      obtain ⟨hfree, rfl⟩ := openSecond?_eq_some hopened
      cases htext : fileText documents with
      | error problem => exact .brokenOff hfree htext
      | ok text =>
        -- taking the second file away restores the place
        by_cases hfolder : p.entry = .folder
        · have hmove : ({ p with leftovers := p.leftovers + 1 } : Place).moveSecond? text = none :=
            if_pos hfolder
          simp only [hmove]
          exact .prevented (.inr hfolder)
        · have hmove : ({ p with leftovers := p.leftovers + 1 } : Place).moveSecond? text =
            some { p with entry := .text text } := if_neg hfolder
          simp only [hmove]
          exact .done hfree hfolder (by simpa using hshallow) htext

/-- The file at a place, if there is one, keeps some documents. -/
structure Keeps (p : Place) (documents : List StoredSchema) : Prop where
  free : p.blocked = false
  noFolder : p.entry ≠ .folder
  read : p.read = .ok (documents.map StoredSchema.keptForm)

theorem Keeps.not_prevented (h : p.Keeps documents) :
    ¬(p.blocked = true ∨ p.entry = .folder) := by
  simp [h.free, h.noFolder]

theorem write_writable {old : List StoredSchema} (hp : p.Keeps old)
    (hsealed : ∀ d ∈ documents, d.Sealed) (hnames : (documents.map StoredSchema.name).Nodup) :
    ∃ p', p.write documents = (.ok (), p') ∧ p'.Keeps documents := by
  obtain ⟨text, htext, hread⟩ := exists_fileText hsealed hnames
  have hwritten := p.write_written documents
  generalize p.write documents = outcome at hwritten ⊢
  cases hwritten with
  | tooDeep hdeep => exact absurd (fun d hd => (hsealed d hd).writable.1) hdeep
  | prevented hprevented => exact absurd hprevented hp.not_prevented
  | brokenOff _ hproblem => cases htext.symm.trans hproblem
  | done _ _ _ htext' =>
    cases htext.symm.trans htext'
    refine ⟨_, rfl, hp.free, nofun, ?_⟩
    simp only [Place.read, hp.free]
    exact hread

/-- What cannot be written leaves the file as it was. -/
theorem write_unwritable {old : List StoredSchema} (hp : p.Keeps old)
    (hplain : ∀ d ∈ documents, d.Plain) (hwritable : ¬∀ d ∈ documents, d.Writable) :
    ∃ problem p', p.write documents = (.error problem, p') ∧ (∀ f, problem ≠ .failure f) ∧
      p'.Keeps old := by
  have hvalues := fun d hd => StoredSchema.toValue_plain (hplain d hd)
  have hwritten := p.write_written documents
  generalize p.write documents = outcome at hwritten ⊢
  cases hwritten with
  | tooDeep => exact ⟨_, _, rfl, nofun, hp⟩
  | prevented hprevented => exact absurd hprevented hp.not_prevented
  | brokenOff _ hproblem =>
    -- the second file is left behind where its text breaks off
    refine ⟨_, _, rfl, ?_, hp.free, hp.noFolder, hp.read⟩
    have hobstacle := obstacle?_of_fileText (fun d hd _ => hvalues d hd) hproblem
    rcases obstacle?_eq_some hobstacle with rfl | rfl <;> simp [Problem.longInteger]
  | done _ _ hshallow htext =>
    refine absurd (fun d hd => ⟨hshallow d hd, ?_⟩) hwritable
    exact (obstacle?_eq_none_iff (hvalues d hd)).1 (unobstructed_of_fileText htext d hd)

end Place

end Extraction
