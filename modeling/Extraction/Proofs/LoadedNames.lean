import Extraction.Proofs.AtomicWrites
import Extraction.Proofs.Trimming

/-!
Names in a store that was loaded. A file may hold any names, and they are taken as they stand; a
store trims a name only when it is asked for it. So a document is found and removed under its own
name exactly if that name is trimmed, and only a file can bring in one that is not.
-/

namespace Extraction

/-! ### Obstacles and texts -/

namespace Value

theorem shortIntegers_of_unobstructed {v : Value} (h : Place.obstacle? v = none) :
    v.ShortIntegers := by
  induction v using induction_parts with
  | array items ih =>
    rw [Place.obstacle?, Place.obstacleInItems?_eq_none_iff] at h
    exact itemsShort_iff.2 fun w hw => ih w hw (h w hw)
  | object fields ih =>
    rw [Place.obstacle?, Place.obstacleInFields?_eq_none_iff] at h
    exact fieldsShort_iff.2 fun field hfield => ih field hfield (h field hfield).2
  | int n =>
    have hshort : Number.digitCount n.natAbs ≤ Number.digitLimit := by
      simpa [Place.obstacle?, Number.intText?] using h
    exact hshort
  | _ => trivial

end Value

namespace StoredSchema

theorem allFinite_toValue (d : StoredSchema) : d.toValue.allFinite = true := by
  have hdescription : (descriptionValue d.description).allFinite = true := by
    cases d.description <;> rfl
  simp [toValue, Value.allFinite, Value.allFiniteFields, hdescription, Value.kept_allFinite]

theorem distinctNames_toValue (d : StoredSchema) : d.toValue.DistinctNames := by
  have hdescription : (descriptionValue d.description).DistinctNames := by
    cases d.description <;> trivial
  have hnames : ["schemaName", "description", "jsonSchema", "createdAt"].Nodup := by decide
  exact ⟨hnames, trivial, hdescription, Value.kept_distinctNames _, trivial, trivial⟩

/-- Whatever is read from a document, its name is. -/
theorem name_of_reread {d e : StoredSchema} (h : ofValue d.toValue.reread = .ok e) :
    e.name = d.name := by
  have hname : required nameKey readText (Value.rereadFields
      [(nameKey.main, .string d.name), (descriptionKey.main, descriptionValue d.description),
        (definitionKey.main, (Value.object d.definition).kept),
        (createdAtKey.main, .string (Calendar.Timestamp.text d.createdAt))]) = .ok d.name := rfl
  simp only [toValue, Value.reread, ofValue, hname] at h
  split at h
  · rename_i heq _ _ _
    cases h
    exact (Except.ok.inj heq).symm
  · cases h

end StoredSchema

namespace Place

variable {documents : List StoredSchema}

/-- Documents that can be kept have a text. -/
theorem exists_fileText_of_keepable (h : ∀ d ∈ documents, d.Keepable) :
    ∃ text, fileText documents = .ok text := by
  have hobstacle := obstacle?_documents.2 fun d hd => (h d hd).unobstructed
  obtain ⟨text, htext⟩ :=
    Json.exists_print Json.indented (Value.shortIntegers_of_unobstructed hobstacle)
  exact ⟨text, by simp only [fileText, hobstacle, htext]⟩

/-! ### Names that are read -/

theorem mem_put {d e : StoredSchema} {done : List StoredSchema} (h : e ∈ put d done) :
    e = d ∨ e ∈ done := by
  induction done with
  | nil => exact .inl (List.mem_singleton.1 h)
  | cons first rest ih =>
    unfold put at h
    split at h
    · exact (List.mem_cons.1 h).imp_right (List.mem_cons_of_mem _)
    · rcases List.mem_cons.1 h with rfl | h
      · exact .inr List.mem_cons_self
      · exact (ih h).imp_right (List.mem_cons_of_mem _)

theorem nodup_put {done : List StoredSchema} (h : (done.map StoredSchema.name).Nodup)
    (d : StoredSchema) : ((put d done).map StoredSchema.name).Nodup := by
  induction done with
  | nil => exact List.nodup_singleton _
  | cons first rest ih =>
    rw [List.map_cons, List.nodup_cons] at h
    unfold put
    split
    · rename_i hname
      rw [List.map_cons, List.nodup_cons, ← hname]
      exact h
    · rename_i hname
      rw [List.map_cons, List.nodup_cons]
      refine ⟨fun hmem => ?_, ih h.2⟩
      obtain ⟨e, he, hsame⟩ := List.mem_map.1 hmem
      rcases mem_put he with rfl | he
      · exact hname hsame.symm
      · exact h.1 (hsame ▸ List.mem_map_of_mem he)

theorem readDocuments_ok {items : List Value} {done : List StoredSchema}
    (hdone : (done.map StoredSchema.name).Nodup) (h : readDocuments done items = .ok documents) :
    (documents.map StoredSchema.name).Nodup ∧
      ∀ d ∈ documents, d ∈ done ∨ ∃ v ∈ items, StoredSchema.ofValue v = .ok d := by
  induction items generalizing done with
  | nil =>
    cases h
    exact ⟨hdone, fun d hd => .inl hd⟩
  | cons v rest ih =>
    simp only [readDocuments, bind_eq_ok_iff, mapError_eq_ok_iff] at h
    obtain ⟨d, hd, hrest⟩ := h
    obtain ⟨hnodup, hmem⟩ := ih (nodup_put hdone d) hrest
    refine ⟨hnodup, fun e he => ?_⟩
    rcases hmem e he with hput | ⟨w, hw, hread⟩
    · rcases mem_put hput with rfl | hdone
      · exact .inr ⟨v, List.mem_cons_self, hd⟩
      · exact .inl hdone
    · exact .inr ⟨w, List.mem_cons_of_mem _ hw, hread⟩

theorem readText_ok {text : String} (h : readText text = .ok documents) :
    ∃ v items, Json.read true text = .ok v ∧ itemsOf v = .ok items ∧
      readDocuments [] items = .ok documents := by
  simp only [readText, bind_eq_ok_iff, mapError_eq_ok_iff] at h
  obtain ⟨v, hv, items, hitems, hdocuments⟩ := h
  exact ⟨v, items, hv, hitems, hdocuments⟩

theorem nodup_readText {text : String} (h : readText text = .ok documents) :
    (documents.map StoredSchema.name).Nodup := by
  obtain ⟨v, items, -, -, hdocuments⟩ := readText_ok h
  have hnone : (([] : List StoredSchema).map StoredSchema.name).Nodup := List.nodup_nil
  exact (readDocuments_ok hnone hdocuments).1

/-- From a file that was written no names are read but those that were written. -/
theorem names_of_fileText {text : String} (hshallow : ∀ d ∈ documents, d.isShallow = true)
    (htext : fileText documents = .ok text) {documents' : List StoredSchema}
    (h : readText text = .ok documents') :
    ∀ d ∈ documents', d.name ∈ documents.map StoredSchema.name := by
  have hprint : Json.print? Json.indented (.array (documents.map StoredSchema.toValue)) =
      some text := by
    unfold fileText at htext
    dsimp only at htext
    split at htext
    · cases htext
    · rename_i hprint
      exact hprint.trans (congrArg some (Except.ok.inj htext))
    · cases htext
  have hfinite : (Value.array (documents.map StoredSchema.toValue)).allFinite = true :=
    Value.allFiniteItems_iff.2 (List.forall_mem_map.2 fun d _ => d.allFinite_toValue)
  have hnames : (Value.array (documents.map StoredSchema.toValue)).DistinctNames :=
    Value.itemNames_iff.2 (List.forall_mem_map.2 fun d _ => d.distinctNames_toValue)
  have hread := Json.read_print_reread true Json.isSpace_of_mem_indented hfinite hnames
    (nesting_documents_le hshallow) hprint
  obtain ⟨v, items, hv, hitems, hdocuments⟩ := readText_ok h
  cases hread.symm.trans hv
  cases hitems
  intro e he
  have hnone : (([] : List StoredSchema).map StoredSchema.name).Nodup := List.nodup_nil
  obtain ⟨v, hv, hread⟩ :=
    ((readDocuments_ok hnone hdocuments).2 e he).resolve_left List.not_mem_nil
  rw [Value.rereadItems_eq_map, List.map_map] at hv
  obtain ⟨d, hd, rfl⟩ := List.mem_map.1 hv
  rw [StoredSchema.name_of_reread hread]
  exact List.mem_map_of_mem hd

/-- Every name that the file at a place gives satisfies `p`. -/
def GivesNames (p : String → Prop) (place : Place) : Prop :=
  ∀ text, place.entry = .text text → ∀ documents, readText text = .ok documents →
    ∀ d ∈ documents, p d.name

theorem GivesNames.of_read {p : String → Prop} {place : Place} (h : place.GivesNames p)
    (hread : place.read = .ok documents) :
    (documents.map StoredSchema.name).Nodup ∧ ∀ d ∈ documents, p d.name := by
  obtain rfl | ⟨text, htext, hread⟩ := read_eq_ok hread
  · exact ⟨List.nodup_nil, nofun⟩
  · exact ⟨nodup_readText hread, h text htext documents hread⟩

theorem GivesNames.suffer {p : String → Prop} {place : Place} (h : place.GivesNames p)
    (mishap : Mishap) : (place.suffer mishap).GivesNames p :=
  fun text htext => h text (entry_of_suffer htext)

theorem GivesNames.write {p : String → Prop} {place : Place} (h : place.GivesNames p)
    (hdocuments : ∀ d ∈ documents, p d.name) : (place.write documents).2.GivesNames p := by
  have hwritten := place.write_written documents
  generalize place.write documents = outcome at hwritten ⊢
  cases hwritten with
  | tooDeep | prevented => exact h
  | brokenOff => exact h
  | done _ _ hshallow htext =>
    rintro _ ⟨⟩ documents' hread d hd
    obtain ⟨e, he, hname⟩ := List.mem_map.1 (names_of_fileText hshallow htext hread d hd)
    exact hname ▸ hdocuments e he

/-- Nothing stands in the way of writing some documents. -/
structure Takes (place : Place) (documents : List StoredSchema) : Prop where
  free : place.blocked = false
  noFolder : place.entry ≠ .folder
  keepable : ∀ d ∈ documents, d.Keepable

theorem write_eq_ok_iff {place : Place} :
    (∃ place', place.write documents = (.ok (), place')) ↔ place.Takes documents := by
  constructor
  · rintro ⟨place', hok⟩
    have hwritten := place.write_written documents
    rw [hok] at hwritten
    cases hwritten with
    | done hfree hnoFolder hshallow htext =>
      exact ⟨hfree, hnoFolder, fun d hd =>
        ⟨hshallow d hd, unobstructed_of_fileText htext d hd⟩⟩
  · intro h
    obtain ⟨text, htext⟩ := exists_fileText_of_keepable h.keepable
    have hwritten := place.write_written documents
    generalize place.write documents = outcome at hwritten ⊢
    cases hwritten with
    | tooDeep hdeep => exact absurd (fun d hd => (h.keepable d hd).shallow) hdeep
    | prevented hprevented => simp [h.free, h.noFolder] at hprevented
    | brokenOff _ hproblem => cases htext.symm.trans hproblem
    | done => exact ⟨_, rfl⟩

end Place

namespace Store

variable {s : Store} {documents : List StoredSchema} {p : String → Prop}

/-- A store in which names differ, and in which every name, also of the file, satisfies `p`. -/
structure Names (p : String → Prop) (s : Store) : Prop where
  nodup : (s.documents.map StoredSchema.name).Nodup
  listed : ∀ d ∈ s.documents, p d.name
  place : ∀ place, s.place = some place → place.GivesNames p

theorem Names.ticked (h : s.Names p) : ({ s with clock := s.clock.advance } : Store).Names p :=
  ⟨h.nodup, h.listed, h.place⟩

theorem Names.commit (h : s.Names p) (hnodup : (documents.map StoredSchema.name).Nodup)
    (hlisted : ∀ d ∈ documents, p d.name) : (s.commit documents).2.Names p := by
  have hwritten : ∀ {place place' : Place} {result : Except Problem Unit}, s.place = some place →
      place.write documents = (result, place') → ∀ q, some place' = some q → q.GivesNames p := by
    rintro place place' result hplace hwrite _ ⟨⟩
    have hgives := (h.place place hplace).write hlisted
    rwa [hwrite] at hgives
  have henacted := s.commit_enacted documents
  generalize s.commit documents = outcome at henacted ⊢
  cases henacted with
  | inMemory hplace => exact ⟨hnodup, hlisted, by rw [hplace]; exact nofun⟩
  | written hplace hwrite => exact ⟨hnodup, hlisted, hwritten hplace hwrite⟩
  | unwritten hplace hwrite => exact ⟨h.nodup, h.listed, hwritten hplace hwrite⟩

theorem Names.create (h : s.Names p) (htrimmed : ∀ name, p (Text.trim name)) (name : String)
    (description definition : Value) : (s.create name description definition).2.Names p := by
  refine create_keeps h h.ticked fun d hasked hnew => ?_
  refine h.ticked.commit (nodup_names_append h.nodup hnew)
    (List.forall_mem_append.2 ⟨h.listed, List.forall_mem_singleton.2 ?_⟩)
  rw [(asked_eq_ok hasked).1]
  exact htrimmed name

theorem Names.delete (h : s.Names p) (name : String) : (s.delete name).2.Names p :=
  delete_keeps h
    (h.commit (nodup_others h.nodup _) fun d hd => h.listed d (others_subset s _ hd))

theorem Names.reopen (h : s.Names p) : s.reopen.2.Names p := by
  unfold Store.reopen
  split
  · exact ⟨List.nodup_nil, nofun, h.place⟩
  · rename_i place hplace
    split
    · rename_i documents hread
      obtain ⟨hnodup, hlisted⟩ := (h.place place hplace).of_read hread
      exact ⟨hnodup, hlisted, h.place⟩
    · exact h

theorem Names.undergo (h : s.Names p) (htrimmed : ∀ name, p (Text.trim name)) (event : Event) :
    (s.undergo event).Names p := by
  cases event with
  | create name description definition => exact h.create htrimmed name description definition
  | delete name => exact h.delete name
  | reopen => exact h.reopen
  | mishap m =>
    refine ⟨h.nodup, h.listed, fun place hplace => ?_⟩
    obtain ⟨q, hq, rfl⟩ := Option.map_eq_some_iff.1 hplace
    exact (h.place q hq).suffer m

/-- Whatever happens to the store, its names differ and satisfy `p`. -/
theorem Names.after (h : s.Names p) (htrimmed : ∀ name, p (Text.trim name)) (events : List Event) :
    (s.after events).Names p :=
  after_keeps h fun _ hs event _ => hs.undergo htrimmed event

/-! ### Finding and removing -/

/-- Nothing stands in the way of writing some documents. -/
def Takes (s : Store) (documents : List StoredSchema) : Prop :=
  ∀ place, s.place = some place → place.Takes documents

/-- A change is made exactly if nothing stands in its way, and is not made in part. -/
theorem commit_iff (s : Store) (documents : List StoredSchema) :
    (s.Takes documents → (s.commit documents).1 = .ok () ∧
      (s.commit documents).2.documents = documents) ∧
    (¬s.Takes documents → (∃ problem, (s.commit documents).1 = .error problem) ∧
      (s.commit documents).2.documents = s.documents) := by
  have henacted := s.commit_enacted documents
  generalize s.commit documents = outcome at henacted ⊢
  cases henacted with
  | inMemory hplace =>
    have htakes : s.Takes documents := by
      intro place hsome
      rw [hplace] at hsome
      cases hsome
    exact ⟨fun _ => ⟨rfl, rfl⟩, fun h => absurd htakes h⟩
  | @written place place' hplace hwrite =>
    have htakes : s.Takes documents := by
      intro q hq
      cases hplace.symm.trans hq
      exact Place.write_eq_ok_iff.1 ⟨place', hwrite⟩
    exact ⟨fun _ => ⟨rfl, rfl⟩, fun h => absurd htakes h⟩
  | @unwritten place place' _ hplace hwrite =>
    refine ⟨fun h => ?_, fun _ => ⟨⟨_, rfl⟩, rfl⟩⟩
    obtain ⟨_, hok⟩ := Place.write_eq_ok_iff.2 (h place hplace)
    cases hwrite.symm.trans hok

/-- What stands in a store and in a change of it stands in what the change comes to. -/
theorem mem_commit {d : StoredSchema} (hd : d ∈ s.documents) (hdocuments : d ∈ documents) :
    d ∈ (s.commit documents).2.documents := by
  obtain ⟨hmade, hfailed⟩ := s.commit_iff documents
  by_cases htakes : s.Takes documents
  · rwa [(hmade htakes).2]
  · rwa [(hfailed htakes).2]

/-- Deleting a document takes no other away. -/
theorem mem_delete {d : StoredSchema} (hd : d ∈ s.documents) {name : String}
    (hname : Text.trim name ≠ d.name) : d ∈ (s.delete name).2.documents := by
  have hothers : d ∈ s.others (Text.trim name) :=
    List.mem_filter.2 ⟨hd, decide_eq_true hname.symm⟩
  exact delete_keeps (motive := fun s' => d ∈ s'.documents) hd (mem_commit hd hothers)

/-- A document with a trimmed name is removed under its name if the others can be written. -/
theorem delete_iff {d : StoredSchema} (hd : d ∈ s.documents) (hname : Text.trim d.name = d.name) :
    (s.Takes (s.others d.name) → (s.delete d.name).1 = .ok () ∧
      (s.delete d.name).2.documents = s.others d.name) ∧
    (¬s.Takes (s.others d.name) → (∃ problem, (s.delete d.name).1 = .error problem) ∧
      (s.delete d.name).2.documents = s.documents) := by
  have hlisted : Text.trim d.name ∈ s.documents.map StoredSchema.name :=
    hname.symm ▸ List.mem_map_of_mem hd
  rw [delete_known hlisted, hname]
  exact s.commit_iff (s.others d.name)

/-- A document whose name is not trimmed is neither found nor removed under any name. -/
theorem untrimmed_stays {d : StoredSchema} (hd : d ∈ s.documents)
    (hname : Text.trim d.name ≠ d.name) (name : String) :
    s.find? name ≠ some d ∧ d ∈ (s.delete name).2.documents := by
  have hne : Text.trim name ≠ d.name := by
    intro h
    exact hname (by rw [← h, Text.trim_trim])
  exact ⟨fun h => hne (name_of_named? h).symm, mem_delete hd hne⟩

/-- A store on disk before its file is read. -/
def onFile (fileName text : String) (clock : Clock) : Store :=
  ⟨[], some ⟨fileName, .text text, false, 0⟩, clock⟩

/-- A store that was opened has the names that its file gives. -/
theorem names_of_opened {fileName text : String} {clock : Clock} {count : Nat} {opened : Store}
    (hopen : (onFile fileName text clock).reopen = (.ok count, opened))
    (hlisted : ∀ d ∈ opened.documents, p d.name) : opened.Names p := by
  have hread : (onFile fileName text clock).place.map Place.read =
      some (Place.readText text) := rfl
  simp only [reopen, onFile, Place.read, Bool.false_eq_true, if_false] at hopen
  cases hdocuments : Place.readText text with
  | error => simp [hdocuments] at hopen
  | ok documents =>
    simp only [hdocuments, Prod.mk.injEq] at hopen
    obtain ⟨-, rfl⟩ := hopen
    refine ⟨Place.nodup_readText hdocuments, hlisted, ?_⟩
    rintro _ ⟨⟩ _ ⟨⟩ documents' hdocuments'
    cases hdocuments.symm.trans hdocuments'
    exact hlisted

end Store

open Store in
/-- Whatever happens to a store after its file was opened, the names of its documents differ; a
document is found and removed under its own name exactly if that name is trimmed, and one with a
name that is not trimmed was in the file and stays out of reach. -/
theorem reached_iff_trimmed {fileName text : String} {clock : Clock} {count : Nat} {opened : Store}
    (hopen : (onFile fileName text clock).reopen = (.ok count, opened)) (events : List Event) :
    let s := opened.after events
    (s.documents.map StoredSchema.name).Nodup ∧
    (∀ d ∈ s.documents, Text.trim d.name = d.name → s.find? d.name = some d ∧
      (s.Takes (s.others d.name) → (s.delete d.name).1 = .ok () ∧
        (s.delete d.name).2.documents = s.others d.name) ∧
      (¬s.Takes (s.others d.name) → (∃ problem, (s.delete d.name).1 = .error problem) ∧
        (s.delete d.name).2.documents = s.documents)) ∧
    (∀ d ∈ s.documents, Text.trim d.name ≠ d.name →
      d.name ∈ opened.documents.map StoredSchema.name ∧
      ∀ name, s.find? name ≠ some d ∧ d ∈ (s.delete name).2.documents) ∧
    (∀ d ∈ s.documents, ∀ e ∈ s.documents, Text.trim d.name = Text.trim e.name →
      d = e ∨ Text.trim d.name ≠ d.name ∨ Text.trim e.name ≠ e.name) := by
  intro s
  have hopened : opened.Names fun name =>
      Text.trim name ≠ name → name ∈ opened.documents.map StoredSchema.name :=
    names_of_opened hopen fun d hd _ => List.mem_map_of_mem hd
  have hnames := hopened.after (fun name h => absurd (Text.trim_trim name) h) events
  refine ⟨hnames.nodup, fun d hd hname => ?_, fun d hd hname => ?_, fun d hd e he hsame => ?_⟩
  · refine ⟨?_, delete_iff hd hname⟩
    rw [find?, hname]
    exact named?_of_mem hnames.nodup hd
  · exact ⟨hnames.listed d hd hname, untrimmed_stays hd hname⟩
  · by_cases hd' : Text.trim d.name = d.name
    · by_cases he' : Text.trim e.name = e.name
      · rw [hd', he'] at hsame
        exact .inl (List.inj_on_of_nodup_map hnames.nodup hd he hsame)
      · exact .inr (.inr he')
    · exact .inr (.inl hd')

/-- A file with two documents whose names differ in blanks alone. -/
def twinText : String :=
  "[\x7b\"schemaName\":\" a \",\"jsonSchema\":\x7b\x7d,\"createdAt\":0\x7d," ++
    "\x7b\"schemaName\":\"a\",\"jsonSchema\":\x7b\x7d,\"createdAt\":0\x7d]"

/-- The store that is opened on the file. -/
def twins : Store :=
  ((Store.onFile "schemas.json" twinText stoppedClock).reopen).2

theorem twins_opened :
    (Store.onFile "schemas.json" twinText stoppedClock).reopen = (.ok 2, twins) := by
  have hcount : (Store.onFile "schemas.json" twinText stoppedClock).reopen.1.toOption = some 2 := by
    decide +kernel
  unfold twins
  generalize (Store.onFile "schemas.json" twinText stoppedClock).reopen = opened at hcount ⊢
  obtain ⟨_ | count, s⟩ := opened
  · cases hcount
  · cases hcount
    rfl

/-- The document that is left is out of reach. -/
theorem twin_out_of_reach :
    ((twins.after [.delete "a"]).documents.map StoredSchema.name) = [" a "] ∧
    ∀ d ∈ (twins.after [.delete "a"]).documents, ∀ name,
      (twins.after [.delete "a"]).find? name ≠ some d := by
  have hnames : ((twins.after [.delete "a"]).documents.map StoredSchema.name) = [" a "] := by
    decide +kernel
  refine ⟨hnames, fun d hd name => ?_⟩
  have hname : d.name = " a " := by
    have hmem := List.mem_map_of_mem (f := StoredSchema.name) hd
    rwa [hnames, List.mem_singleton] at hmem
  have huntrimmed : Text.trim d.name ≠ d.name := by
    rw [hname]
    decide
  exact (((reached_iff_trimmed twins_opened [.delete "a"]).2.2.1 d hd huntrimmed).2 name).1

/-- Of two names that are equal after trimming, one leads to the document of the other; when that is
removed the name leads nowhere, although the document is still listed. -/
theorem twins_confused :
    twins.documents.map StoredSchema.name = [" a ", "a"] ∧
    (twins.find? " a ").map StoredSchema.name = some "a" ∧
    (twins.delete " a ").2.documents.map StoredSchema.name = [" a "] ∧
    (twins.delete " a ").2.find? " a " = none ∧
    ((twins.delete " a ").2.delete " a ").1 = .error (.failure (.unknownSchema "a")) := by
  have hdecided : twins.documents.map StoredSchema.name = [" a ", "a"] ∧
      (twins.find? " a ").map StoredSchema.name = some "a" ∧
      (twins.delete " a ").2.documents.map StoredSchema.name = [" a "] := by
    decide +kernel
  obtain ⟨hlisted, hfound, hleft⟩ := hdecided
  refine ⟨hlisted, hfound, hleft, ?_⟩
  have htrim : Text.trim " a " = "a" := by decide
  have hfree : Store.has "a" (twins.delete " a ").2.documents = false := by
    rw [Bool.eq_false_iff, Ne, Store.has_iff, hleft]
    decide
  generalize (twins.delete " a ").2 = left at hfree
  have hnone : left.find? " a " = none := by
    rw [Store.find?, htrim]
    refine List.find?_eq_none.2 fun d hd hname => ?_
    have hhas := List.any_eq_false.1 hfree d hd
    exact hhas hname
  refine ⟨hnone, ?_⟩
  simp only [Store.delete, htrim, hfree, Bool.false_eq_true, if_false]

end Extraction
