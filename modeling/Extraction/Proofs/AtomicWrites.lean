import Extraction.Proofs.Catalog
import Extraction.Proofs.Leaves

/-!
Changes that fail. A store on disk may lose its file, find a folder in its place, or an ordinary
file in the place of its folder. Through all of this a change either is made, and then the file is a
snapshot of all documents, or it fails and leaves the documents and the file as they were. Of a
document whose text breaks off, though, a second file stays behind.
-/

namespace Extraction

/-! ### Values without doubles -/

namespace Value

/-- Is a leaf null, a boolean, an integer or a text? -/
def isExact : Value → Bool
  | .null | .bool _ | .int _ | .string _ => true
  | _ => false

/-- A JSON value without doubles. -/
structure Exact (v : Value) : Prop where
  names : v.DistinctNames
  leaves : v.AllLeaves fun leaf => leaf.isExact = true

theorem Exact.allFinite {v : Value} (h : v.Exact) : v.allFinite = true := by
  refine allFinite_iff_allLeaves.2 (h.leaves.imp fun leaf hleaf => ?_)
  cases leaf <;> first | rfl | cases hleaf

theorem Exact.kept {v : Value} (h : v.Exact) : v.kept.Exact := by
  refine ⟨v.kept_distinctNames, ?_⟩
  have hleaves := h.leaves
  clear h
  induction v using induction_parts with
  | array items ih =>
    rw [Value.kept, keptItems_eq_map]
    refine itemLeaves_iff.2 (List.forall_mem_map.2 fun w hw => ?_)
    exact ih w hw (itemLeaves_iff.1 hleaves w hw)
  | object fields ih =>
    rw [Value.kept]
    refine fieldLeaves_iff.2 fun field hfield => ?_
    obtain ⟨original, horiginal, rfl⟩ := exists_of_mem_kept hfield
    exact ih original horiginal (fieldLeaves_iff.1 hleaves original horiginal)
  | float => cases hleaves
  | _ => exact hleaves

/-- A value without doubles that can be written is plain. -/
theorem Exact.plain {v : Value} (h : v.Exact) (hwritten : Place.obstacle? v = none) : v.Plain := by
  obtain ⟨hnames, hleaves⟩ := h
  induction v using induction_parts with
  | array items ih =>
    rw [Place.obstacle?, Place.obstacleInItems?_eq_none_iff] at hwritten
    exact plainItems_iff.2 fun w hw => ih w hw (hwritten w hw) (itemNames_iff.1 hnames w hw)
      (itemLeaves_iff.1 hleaves w hw)
  | object fields ih =>
    rw [Place.obstacle?, Place.obstacleInFields?_eq_none_iff] at hwritten
    refine ⟨hnames.1, plainFields_iff.2 fun field hfield => ?_⟩
    exact ih field hfield (hwritten field hfield).2 (fieldNames_iff.1 hnames.2 field hfield)
      (fieldLeaves_iff.1 hleaves field hfield)
  | int n =>
    have hshort : Number.digitCount n.natAbs ≤ Number.digitLimit := by
      simpa [Place.obstacle?, Number.intText?] using hwritten
    exact hshort
  | float | date | dateTime => cases hleaves
  | _ => trivial

end Value

namespace StoredSchema

/-- A document that was made in UTC, with a definition without doubles. -/
structure Exact (d : StoredSchema) : Prop where
  definition : (Value.object d.definition).Exact
  createdAt : d.createdAt.offset = some .utc

/-- A document that can be written to its end. -/
structure Keepable (d : StoredSchema) : Prop where
  shallow : d.isShallow = true
  unobstructed : Place.obstacle? d.toValue = none

variable {d : StoredSchema}

theorem Exact.keptForm (h : d.Exact) : d.keptForm.Exact where
  definition := by
    rw [← kept_definition]
    exact h.definition.kept
  createdAt := h.createdAt

theorem Keepable.keptForm (h : d.Keepable) : d.keptForm.Keepable where
  shallow := isShallow_keptForm h.shallow
  unobstructed := by
    rw [toValue_keptForm]
    exact h.unobstructed

theorem Exact.toValue (h : d.Exact) : d.toValue.Exact := by
  have hkept := h.definition.kept
  have hdescription : (descriptionValue d.description).Exact := by
    cases d.description <;> exact ⟨trivial, rfl⟩
  have hnames : ["schemaName", "description", "jsonSchema", "createdAt"].Nodup := by decide
  exact ⟨⟨hnames, trivial, hdescription.names, hkept.names, trivial, trivial⟩,
    ⟨rfl, hdescription.leaves, hkept.leaves, rfl, trivial⟩⟩

theorem Exact.isSealed (h : d.Exact) (hd : d.Keepable) : d.Sealed := by
  have hplain := h.toValue.plain hd.unobstructed
  exact ⟨hplain, ⟨hd.shallow, (Place.obstacle?_eq_none_iff hplain).1 hd.unobstructed⟩, h.createdAt⟩

/-- A document comes back as it was if all names in its definition can be sent. -/
theorem Exact.keptForm_eq_self (h : d.Exact) (hnames : (Value.object d.definition).WholeNames) :
    d.keptForm = d :=
  keptForm_of_kept (Value.kept_eq_self h.definition.names h.definition.allFinite hnames)

end StoredSchema

/-! ### Files -/

namespace Place

variable {p : Place} {documents : List StoredSchema}

/-- Documents come from nowhere but the file. -/
theorem read_eq_ok (h : p.read = .ok documents) :
    documents = [] ∨ ∃ text, p.entry = .text text ∧ readText text = .ok documents := by
  unfold Place.read at h
  split at h
  · cases h
    exact .inl rfl
  · split at h
    · cases h
      exact .inl rfl
    · cases h
    · rename_i text htext
      exact .inr ⟨text, htext, h⟩

/-- The file at a place, if there is one, is a snapshot of some documents. -/
def HoldsSnapshot (p : Place) : Prop :=
  ∀ text, p.entry = .text text → ∃ documents : List StoredSchema,
    readText text = .ok documents ∧ (∀ d ∈ documents, d.Exact ∧ d.Keepable) ∧
      (documents.map StoredSchema.name).Nodup

/-- What is read from a snapshot. -/
theorem HoldsSnapshot.of_read (h : p.HoldsSnapshot) (hread : p.read = .ok documents) :
    (∀ d ∈ documents, d.Exact ∧ d.Keepable) ∧ (documents.map StoredSchema.name).Nodup := by
  obtain rfl | ⟨text, htext, hread⟩ := read_eq_ok hread
  · exact ⟨nofun, List.nodup_nil⟩
  · obtain ⟨documents', hread', hdocuments, hnames⟩ := h text htext
    cases hread.symm.trans hread'
    exact ⟨hdocuments, hnames⟩

/-! ### What happens to a place from outside -/

inductive Mishap where
  /-- What stands under the name of the file is taken away. -/
  | removed
  | folderPutThere
  /-- An ordinary file takes the place of the folder, with all that was in it. -/
  | parentReplaced
  /-- The folder can be made again. -/
  | parentFreed
deriving DecidableEq, Repr

def suffer (p : Place) : Mishap → Place
  | .removed => { p with entry := .absent }
  | .folderPutThere => if p.blocked then p else p.block
  | .parentReplaced => { p with entry := .absent, blocked := true, leftovers := 0 }
  | .parentFreed => { p with blocked := false }

/-- No mishap brings a text. -/
theorem entry_of_suffer {mishap : Mishap} {text : String}
    (h : (p.suffer mishap).entry = .text text) : p.entry = .text text := by
  cases mishap with
  | removed | parentReplaced => cases h
  | parentFreed => exact h
  | folderPutThere =>
    unfold Place.suffer at h
    dsimp only at h
    split at h
    · exact h
    · cases h

theorem HoldsSnapshot.suffer (h : p.HoldsSnapshot) (mishap : Mishap) :
    (p.suffer mishap).HoldsSnapshot :=
  fun text htext => h text (entry_of_suffer htext)

end Place

namespace Store

/-- What happens to a store. -/
inductive Event where
  | create (name : String) (description definition : Value)
  | delete (name : String)
  | reopen
  | mishap (m : Place.Mishap)

/-- The definition that a create is asked for is a JSON value without doubles. -/
def Event.Exact : Event → Prop
  | .create _ _ definition => definition.Exact
  | _ => True

def undergo (s : Store) : Event → Store
  | .create name description definition => (s.create name description definition).2
  | .delete name => (s.delete name).2
  | .reopen => s.reopen.2
  | .mishap m => { s with place := s.place.map fun p => p.suffer m }

/-- The store after one event after another. -/
def after (s : Store) (events : List Event) : Store :=
  events.foldl undergo s

/-- A store on disk whose documents have been written, and whose file, if there is one, is a
snapshot. -/
structure Steady (s : Store) : Prop where
  exact : ∀ d ∈ s.documents, d.Exact
  keepable : ∀ d ∈ s.documents, d.Keepable
  names : (s.documents.map StoredSchema.name).Nodup
  utc : ∀ n, (s.clock.time n).offset = some .utc
  place : ∃ p, s.place = some p ∧ p.HoldsSnapshot

theorem onDisk_steady {clock : Clock} (h : ∀ n, (clock.time n).offset = some .utc)
    (fileName : String) : (onDisk fileName clock).Steady where
  exact _ hd := absurd hd List.not_mem_nil
  keepable _ hd := absurd hd List.not_mem_nil
  names := List.nodup_nil
  utc := h
  place := ⟨_, rfl, nofun⟩

variable {s : Store} {documents : List StoredSchema}

/-- What a change of the documents can come to. -/
inductive Committed (s : Store) (documents : List StoredSchema) :
    Except Problem Unit × Store → Prop
  /-- The change is not made, and nothing is left of it. -/
  | refused {problem : Problem} (h : problem = Place.writeFailed ∨
      problem = Place.tooManyLevels ∧ ¬∀ d ∈ documents, d.isShallow = true) :
    Committed s documents (.error problem, s)
  /-- The change is not made, but a second file is left of it. -/
  | brokenOff {p : Place} (hp : s.place = some p) {problem : Problem}
    (h : Place.obstacle? (.array (documents.map StoredSchema.toValue)) = some problem) :
    Committed s documents
      (.error problem, { s with place := some { p with leftovers := p.leftovers + 1 } })
  | made {p : Place} (hkeepable : ∀ d ∈ documents, d.Keepable)
    (hread : p.read = .ok (documents.map StoredSchema.keptForm)) (hplace : p.HoldsSnapshot) :
    Committed s documents (.ok (), { s with documents, place := some p })

theorem commit_committed (h : s.Steady) (hexact : ∀ d ∈ documents, d.Exact)
    (hnames : (documents.map StoredSchema.name).Nodup) :
    Committed s documents (s.commit documents) := by
  obtain ⟨p, hp, hsnapshots⟩ := h.place
  have hsame : ({ s with place := some p } : Store) = s := by rw [← hp]
  have hwritten := p.write_written documents
  simp only [commit, hp]
  generalize p.write documents = outcome at hwritten ⊢
  cases hwritten with
  | tooDeep hdeep =>
    simp only [hsame]
    exact .refused (.inr ⟨rfl, hdeep⟩)
  | prevented =>
    simp only [hsame]
    exact .refused (.inl rfl)
  | brokenOff _ hproblem =>
    have hplain := fun d hd => (hexact d hd).toValue.plain
    exact .brokenOff hp (Place.obstacle?_of_fileText hplain hproblem)
  | @done hfree _ hshallow text htext =>
    have hkeepable : ∀ d ∈ documents, d.Keepable := fun d hd =>
      ⟨hshallow d hd, Place.unobstructed_of_fileText htext d hd⟩
    have hsealed := fun d hd => (hexact d hd).isSealed (hkeepable d hd)
    obtain ⟨text', htext', hread⟩ := Place.exists_fileText hsealed hnames
    rw [htext] at htext'
    cases htext'
    refine .made hkeepable ?_ ?_
    · simp only [Place.read, hfree]
      exact hread
    · intro other hother
      cases hother
      refine ⟨_, hread, List.forall_mem_map.2 fun d hd => ?_, ?_⟩
      · exact ⟨(hexact d hd).keptForm, (hkeepable d hd).keptForm⟩
      · rw [names_keptForm]
        exact hnames

theorem Steady.ticked (h : s.Steady) : ({ s with clock := s.clock.advance } : Store).Steady :=
  ⟨h.exact, h.keepable, h.names, h.utc, h.place⟩

/-- The documents change, and the file with them. -/
theorem Steady.made (h : s.Steady) (hexact : ∀ d ∈ documents, d.Exact)
    (hnames : (documents.map StoredSchema.name).Nodup) (hkeepable : ∀ d ∈ documents, d.Keepable)
    {p : Place} (hp : p.HoldsSnapshot) : ({ s with documents, place := some p } : Store).Steady :=
  ⟨hexact, hkeepable, hnames, h.utc, p, rfl, hp⟩

/-- The place changes, and the file not at all. -/
theorem Steady.moved (h : s.Steady) {p p' : Place} (hp : s.place = some p)
    (hsame : p'.entry = p.entry) : ({ s with place := some p' } : Store).Steady := by
  obtain ⟨q, hq, hsnapshots⟩ := h.place
  cases hp.symm.trans hq
  refine ⟨h.exact, h.keepable, h.names, h.utc, p', rfl, fun text htext => ?_⟩
  exact hsnapshots text (hsame ▸ htext)

/-- Whatever a change comes to, the store stays steady. -/
theorem Committed.steady {outcome : Except Problem Unit × Store} (h : Committed s documents outcome)
    (hs : s.Steady) (hexact : ∀ d ∈ documents, d.Exact)
    (hnames : (documents.map StoredSchema.name).Nodup) : outcome.2.Steady := by
  cases h with
  | refused => exact hs
  | brokenOff hp => exact hs.moved hp rfl
  | made hkeepable _ hplace => exact hs.made hexact hnames hkeepable hplace

/-! ### Requests -/

theorem asked_exact (h : s.Steady) {name : String} {description definition : Value}
    (hexact : definition.Exact) {d : StoredSchema}
    (hasked : s.asked name description definition = .ok d) : d.Exact := by
  obtain ⟨-, hdefinition, hcreatedAt⟩ := asked_eq_ok hasked
  exact ⟨hdefinition ▸ hexact, hcreatedAt ▸ h.utc _⟩

/-- The same for a steady store and exact data. -/
inductive Created (s : Store) (name : String) (description definition : Value) :
    Except Problem StoredSchema × Store → Prop
  | taken : Created s name description definition
      (.error (.failure (.schemaExists (Text.trim name))), s)
  | faulty {problem : Problem} (h : s.asked name description definition = .error problem) :
    Created s name description definition
      (.error problem, { s with clock := s.clock.advance })
  | committed {d : StoredSchema} (h : s.asked name description definition = .ok d)
    (hall : ∀ e ∈ s.documents ++ [d], e.Exact)
    (hnames : ((s.documents ++ [d]).map StoredSchema.name).Nodup)
    {outcome : Except Problem Unit} {store : Store}
    (hcommitted : Committed { s with clock := s.clock.advance } (s.documents ++ [d])
      (outcome, store)) :
    Created s name description definition (outcome.map fun () => d, store)

theorem create_created (h : s.Steady) (name : String) (description : Value) {definition : Value}
    (hexact : definition.Exact) :
    Created s name description definition (s.create name description definition) := by
  have htried := s.create_tried name description definition
  generalize s.create name description definition = outcome at htried ⊢
  cases htried with
  | taken => exact .taken
  | faulty hasked => exact .faulty hasked
  | @committed d hasked hnew _ _ hcommit =>
    have hall : ∀ e ∈ s.documents ++ [d], e.Exact := by
      rw [List.forall_mem_append]
      exact ⟨h.exact, List.forall_mem_singleton.2 (asked_exact h hexact hasked)⟩
    have hnames := nodup_names_append h.names hnew
    exact .committed hasked hall hnames (hcommit ▸ commit_committed h.ticked hall hnames)

theorem obstacle?_append {items : List Value} (h : ∀ v ∈ items, Place.obstacle? v = none)
    (v : Value) : Place.obstacle? (.array (items ++ [v])) = Place.obstacle? v := by
  rw [Place.obstacle?]
  induction items with
  | nil => simp [Place.obstacleInItems?]
  | cons w rest ih =>
    rw [List.forall_mem_cons] at h
    rw [List.cons_append, Place.obstacleInItems?, h.1, Option.none_or, ih h.2]

theorem Steady.exact_others (h : s.Steady) (name : String) : ∀ d ∈ s.others name, d.Exact :=
  fun d hd => h.exact d (others_subset s name hd)

theorem Steady.commit_others (h : s.Steady) (name : String) :
    Committed s (s.others name) (s.commit (s.others name)) :=
  commit_committed h (h.exact_others name) (nodup_others h.names name)

theorem delete_cases (h : s.Steady) (name : String) :
    s.delete name = (.error (.failure (.unknownSchema (Text.trim name))), s) ∨
    Committed s (s.others (Text.trim name)) (s.delete name) := by
  by_cases hname : Text.trim name ∈ s.documents.map StoredSchema.name
  · rw [delete_known hname]
    exact .inr (h.commit_others _)
  · exact .inl (delete_unknown hname)

/-! ### Histories -/

theorem create_steady (h : s.Steady) (name : String) (description : Value) {definition : Value}
    (hexact : definition.Exact) : (s.create name description definition).2.Steady := by
  have hcreated := create_created h name description hexact
  generalize s.create name description definition = outcome at hcreated ⊢
  cases hcreated with
  | taken => exact h
  | faulty => exact h.ticked
  | committed _ hall hnames hcommitted => exact hcommitted.steady h.ticked hall hnames

theorem delete_steady (h : s.Steady) (name : String) : (s.delete name).2.Steady :=
  delete_keeps h ((h.commit_others _).steady h (h.exact_others _) (nodup_others h.names _))

theorem reopen_steady (h : s.Steady) : s.reopen.2.Steady := by
  obtain ⟨p, hp, hsnapshots⟩ := h.place
  simp only [reopen, hp]
  cases hread : p.read with
  | error => exact h
  | ok documents =>
    obtain ⟨hdocuments, hnames⟩ := hsnapshots.of_read hread
    exact ⟨fun d hd => (hdocuments d hd).1, fun d hd => (hdocuments d hd).2, hnames, h.utc, p, rfl,
      hsnapshots⟩

/-- Whatever happens, the store stays steady. -/
theorem undergo_steady (h : s.Steady) {event : Event} (hevent : event.Exact) :
    (s.undergo event).Steady := by
  cases event with
  | create name description definition => exact create_steady h name description hevent
  | delete name => exact delete_steady h name
  | reopen => exact reopen_steady h
  | mishap m =>
    obtain ⟨p, hp, hsnapshots⟩ := h.place
    refine ⟨h.exact, h.keepable, h.names, h.utc, p.suffer m, ?_, hsnapshots.suffer m⟩
    simp only [undergo, hp, Option.map_some]

/-- What every event keeps holds after them all. -/
theorem after_keeps {motive : Store → Prop} {events : List Event} (h : motive s)
    (hkeeps : ∀ s, motive s → ∀ event ∈ events, motive (s.undergo event)) :
    motive (s.after events) :=
  List.foldlRecOn events undergo h hkeeps

theorem after_steady (h : s.Steady) {events : List Event} (hevents : ∀ e ∈ events, e.Exact) :
    (s.after events).Steady :=
  after_keeps h fun _ hs event hevent => undergo_steady hs (hevents event hevent)

/-- A change is not made, and no trace of it is left. -/
structure Untouched (s s' : Store) : Prop where
  documents : s'.documents = s.documents
  place : s'.place = s.place

/-- A change is not made, but a second file is left of it. -/
structure LeftBehind (s s' : Store) : Prop where
  documents : s'.documents = s.documents
  place : ∃ p, s.place = some p ∧ s'.place = some { p with leftovers := p.leftovers + 1 }

/-- The file is a snapshot of the documents: loaded anew they are the same, in their kept forms. -/
def Mirrored (s : Store) : Prop :=
  s.reopen = (.ok s.documents.length,
    { s with documents := s.documents.map StoredSchema.keptForm }) ∧
  ∀ d ∈ s.documents, (Value.object d.definition).WholeNames → d.keptForm = d

/-- A change that was made left a snapshot behind. -/
theorem Committed.mirrored {store : Store} (h : Committed s documents (.ok (), store))
    (hexact : ∀ d ∈ documents, d.Exact) : store.Mirrored := by
  cases h with
  | @made p hkeepable hread hplace =>
    refine ⟨?_, fun d hd => (hexact d hd).keptForm_eq_self⟩
    simp only [reopen, hread, List.length_map]

/-- Documents that can be kept are written, or the write is prevented and leaves no trace. -/
theorem Committed.of_keepable {problem : Problem} {store : Store}
    (h : Committed s documents (.error problem, store)) (hkeepable : ∀ d ∈ documents, d.Keepable) :
    Untouched s store ∧ problem = Place.writeFailed := by
  cases h with
  | refused hproblem =>
    refine ⟨⟨rfl, rfl⟩, hproblem.resolve_right fun hdeep => ?_⟩
    exact hdeep.2 fun d hd => (hkeepable d hd).shallow
  | brokenOff _ hobstacle =>
    rw [Place.obstacle?_documents.2 fun d hd => (hkeepable d hd).unobstructed] at hobstacle
    cases hobstacle

theorem failed_delete (h : s.Steady) {name : String} {problem : Problem}
    (hdelete : (s.delete name).1 = .error problem) :
    Untouched s (s.delete name).2 ∧ (problem = .failure (.unknownSchema (Text.trim name)) ∨
      problem = Place.writeFailed) := by
  rcases delete_cases h name with hdeleted | hcommitted
  · rw [hdeleted] at hdelete ⊢
    exact ⟨⟨rfl, rfl⟩, .inl (Except.error.inj hdelete).symm⟩
  · rcases hresult : s.delete name with ⟨outcome, store⟩
    rw [hresult] at hdelete hcommitted
    cases hdelete
    obtain ⟨huntouched, hproblem⟩ :=
      hcommitted.of_keepable fun d hd => h.keepable d (others_subset s _ hd)
    exact ⟨huntouched, .inr hproblem⟩

theorem failed_create (h : s.Steady) {name : String} {description definition : Value}
    (hexact : definition.Exact) {problem : Problem} {store : Store}
    (hcreate : s.create name description definition = (.error problem, store)) :
    (Untouched s store ∧ (problem = .failure (.schemaExists (Text.trim name)) ∨
      s.asked name description definition = .error problem ∨ problem = Place.writeFailed ∨
      problem = Place.tooManyLevels ∧
        ∃ d, s.asked name description definition = .ok d ∧ d.isShallow = false)) ∨
    (LeftBehind s store ∧ ∃ d, s.asked name description definition = .ok d ∧
      Place.obstacle? d.toValue = some problem) := by
  have hcreated := create_created h name description hexact
  rw [hcreate] at hcreated
  generalize houtcome : (Except.error problem, store) = outcome at hcreated
  cases hcreated with
  | taken =>
    cases houtcome
    exact .inl ⟨⟨rfl, rfl⟩, .inl rfl⟩
  | faulty hfaulty =>
    cases houtcome
    exact .inl ⟨⟨rfl, rfl⟩, .inr (.inl hfaulty)⟩
  | @committed d hasked hall hnames outcome store' hcommitted =>
    obtain ⟨hproblem, rfl⟩ := Prod.mk.inj houtcome
    cases outcome with
    | ok => cases hproblem
    | error problem =>
      cases hproblem
      cases hcommitted with
      | refused hrefused =>
        refine .inl ⟨⟨rfl, rfl⟩, .inr (.inr (hrefused.imp_right fun ⟨hproblem, hdeep⟩ => ?_))⟩
        refine ⟨hproblem, d, hasked, ?_⟩
        -- the documents stored before are not too deep, so the new one is
        rw [← Bool.not_eq_true]
        intro hshallow
        refine hdeep (List.forall_mem_append.2 ⟨fun d hd => (h.keepable d hd).shallow, ?_⟩)
        exact List.forall_mem_singleton.2 hshallow
      | @brokenOff p hp _ hobstacle =>
        refine .inr ⟨⟨rfl, p, hp, rfl⟩, d, hasked, ?_⟩
        rw [List.map_append, List.map_singleton, obstacle?_append] at hobstacle
        · exact hobstacle
        · exact List.forall_mem_map.2 fun d hd => (h.keepable d hd).unobstructed

theorem successful_create (h : s.Steady) {name : String} {description definition : Value}
    (hexact : definition.Exact) {d : StoredSchema} {store : Store}
    (hcreate : s.create name description definition = (.ok d, store)) : store.Mirrored := by
  have hcreated := create_created h name description hexact
  rw [hcreate] at hcreated
  generalize houtcome : (Except.ok d, store) = outcome at hcreated
  cases hcreated with
  | taken | faulty => cases houtcome
  | @committed _ _ hall _ outcome _ hcommitted =>
    obtain ⟨hok, rfl⟩ := Prod.mk.inj houtcome
    cases outcome with
    | error => cases hok
    | ok => exact hcommitted.mirrored hall

theorem successful_delete (h : s.Steady) {name : String} {store : Store}
    (hdelete : s.delete name = (.ok (), store)) : store.Mirrored := by
  rcases delete_cases h name with hdeleted | hcommitted
  · cases hdelete.symm.trans hdeleted
  · rw [hdelete] at hcommitted
    exact hcommitted.mirrored (h.exact_others _)

end Store

open Store in
/-- Whatever happened to a store on disk and to its file, a change that fails leaves the documents
and the file as they were, and a change that is made leaves a snapshot behind. A delete fails
without a trace; so does a create, unless the text of its document breaks off, which leaves a second
file behind. -/
theorem changes_are_atomic {clock : Clock} (hclock : ∀ n, (clock.time n).offset = some .utc)
    (fileName : String) {events : List Event} (hevents : ∀ e ∈ events, e.Exact) :
    let s := (onDisk fileName clock).after events
    (∀ name problem, (s.delete name).1 = .error problem →
      Untouched s (s.delete name).2 ∧ (problem = .failure (.unknownSchema (Text.trim name)) ∨
        problem = Place.writeFailed)) ∧
    (∀ name description definition problem store, definition.Exact →
      s.create name description definition = (.error problem, store) →
      (Untouched s store ∧ (problem = .failure (.schemaExists (Text.trim name)) ∨
        s.asked name description definition = .error problem ∨ problem = Place.writeFailed ∨
        problem = Place.tooManyLevels ∧
          ∃ d, s.asked name description definition = .ok d ∧ d.isShallow = false)) ∨
      (LeftBehind s store ∧ ∃ d, s.asked name description definition = .ok d ∧
        Place.obstacle? d.toValue = some problem)) ∧
    (∀ name store, s.delete name = (.ok (), store) → store.Mirrored) ∧
    (∀ name description definition d store, definition.Exact →
      s.create name description definition = (.ok d, store) → store.Mirrored) := by
  have hsteady := after_steady (onDisk_steady hclock fileName) hevents
  refine ⟨?_, ?_, ?_, ?_⟩
  · intro name problem hdelete
    exact failed_delete hsteady hdelete
  · intro name description definition problem store hexact hcreate
    exact failed_create hsteady hexact hcreate
  · intro name store hdelete
    exact successful_delete hsteady hdelete
  · intro name description definition d store hexact hcreate
    exact successful_create hsteady hexact hcreate

/-- A schema is stored, and then the file suffers. -/
def damaged (mishaps : List Place.Mishap) : Store :=
  (Store.onDisk "schemas.json" stoppedClock).after
    (.create "draft" .null (.object [("a", .string "string")]) :: mishaps.map .mishap)

theorem obstructed_delete :
    ((damaged [.folderPutThere]).delete "draft").1 = .error Place.writeFailed ∧
    Store.Untouched (damaged [.folderPutThere]) ((damaged [.folderPutThere]).delete "draft").2 ∧
    ∃ store, (damaged [.folderPutThere, .removed]).delete "draft" = (.ok (), store) ∧
      store.Mirrored := by
  have hexact : (Value.object [("a", .string "string")]).Exact :=
    ⟨⟨by simp, trivial, trivial⟩, ⟨rfl, trivial⟩⟩
  have hevents : ∀ mishaps : List Place.Mishap,
      ∀ e ∈ .create "draft" .null (.object [("a", .string "string")]) :: mishaps.map .mishap,
        Store.Event.Exact e := by
    simpa [Store.Event.Exact] using hexact
  have hclock : ∀ n, (stoppedClock.time n).offset = some .utc := fun _ => rfl
  have hatomic := fun mishaps => changes_are_atomic hclock "schemas.json" (hevents mishaps)
  have hfailed : ((damaged [.folderPutThere]).delete "draft").1 = .error Place.writeFailed := rfl
  refine ⟨hfailed, ((hatomic [.folderPutThere]).1 "draft" _ hfailed).1, _, rfl, ?_⟩
  exact (hatomic [.folderPutThere, .removed]).2.2.1 "draft" _ rfl

/-- A half in the description breaks the text off, which is reported as no failure of the store, and
a second file is left in the folder. -/
theorem second_file_left :
    let s := Store.onDisk "schemas.json" stoppedClock
    let failed := s.create "draft" (.string half) (.object [("a", .string "string")])
    failed.1 = .error .brokenText ∧ s.place.map Place.names = some [] ∧
      failed.2.place.map Place.names = some [".schemas.json.0"] :=
  ⟨rfl, rfl, rfl⟩

end Extraction
