import Extraction.Proofs.Snapshot
import Extraction.Proofs.StoreChanges

/-!
A catalog is what a store is to its users: documents under names, in the order of their creation. A
store that is kept on disk answers every sequence of requests as the catalog does, also when it is
loaded anew in between.
-/

namespace Extraction

open Calendar (DateTime)

inductive Request where
  | create (name : String) (description : Option String) (definition : Fields)
  | find (name : String)
  | list
  | delete (name : String)
  | reopen

inductive Answer where
  | created (d : StoredSchema)
  | found (d : Option StoredSchema)
  | listed (documents : List StoredSchema)
  | deleted
  | reopened (count : Nat)
  | conflict (name : String)
  | missing (name : String)
  | failed

/-- The definition in a request is plain. -/
def Request.Plain : Request → Prop
  | .create _ _ definition => (Value.object definition).Plain
  | _ => True

/-- A map from names to documents that remembers the order in which the names were added. -/
structure Catalog where
  names : List String
  document : String → Option StoredSchema
  clock : Clock

namespace Catalog

def empty (clock : Clock) : Catalog :=
  ⟨[], fun _ => none, clock⟩

def add (k : Catalog) (d : StoredSchema) : Catalog :=
  { k with
    names := k.names ++ [d.name]
    document := fun name => if name = d.name then some d else k.document name }

def remove (k : Catalog) (name : String) : Catalog :=
  { k with
    names := k.names.filter (· ≠ name)
    document := fun other => if other = name then none else k.document other }

def documents (k : Catalog) : List StoredSchema :=
  k.names.filterMap k.document

/-- The answer of a catalog. A document that cannot be written is not taken, and what comes back
from the file are the documents in their kept form. -/
def answer (k : Catalog) : Request → Answer × Catalog
  | .create name description definition =>
    let name := Text.trim name
    let d : StoredSchema := ⟨name, description, definition, k.clock.now⟩
    let ticked := { k with clock := k.clock.advance }
    if name ∈ k.names then (.conflict name, k)
    else if d.Writable then (.created d, ticked.add d)
    else (.failed, ticked)
  | .find name => (.found (k.document (Text.trim name)), k)
  | .list => (.listed k.documents, k)
  | .delete name =>
    let name := Text.trim name
    if name ∈ k.names then (.deleted, k.remove name) else (.missing name, k)
  | .reopen =>
    (.reopened k.names.length,
      { k with document := fun name => (k.document name).map StoredSchema.keptForm })

/-- The answers to one request after another, and what the catalog is then. -/
def answers : Catalog → List Request → List Answer × Catalog
  | k, [] => ([], k)
  | k, request :: rest =>
    let first := k.answer request
    let more := answers first.2 rest
    (first.1 :: more.1, more.2)

end Catalog

namespace Store

/-- An empty store on disk, whose file does not exist yet. -/
def onDisk (fileName : String) (clock : Clock) : Store :=
  ⟨[], some ⟨fileName, .absent, false, 0⟩, clock⟩

/-- The answer of a store. -/
def answer (s : Store) : Request → Answer × Store
  | .create name description definition =>
    match s.create name (StoredSchema.descriptionValue description) (.object definition) with
    | (.ok d, s) => (.created d, s)
    | (.error (.failure (.schemaExists name)), s) => (.conflict name, s)
    | (.error _, s) => (.failed, s)
  | .find name => (.found (s.find? name), s)
  | .list => (.listed s.documents, s)
  | .delete name =>
    match s.delete name with
    | (.ok (), s) => (.deleted, s)
    | (.error (.failure (.unknownSchema name)), s) => (.missing name, s)
    | (.error _, s) => (.failed, s)
  | .reopen =>
    match s.reopen with
    | (.ok count, s) => (.reopened count, s)
    | (.error _, s) => (.failed, s)

def answers : Store → List Request → List Answer × Store
  | s, [] => ([], s)
  | s, request :: rest =>
    let first := s.answer request
    let more := answers first.2 rest
    (first.1 :: more.1, more.2)

/-! ### Documents by name -/

variable {documents : List StoredSchema}

theorem named?_map (name : String) :
    named? name (documents.map StoredSchema.keptForm) =
      (named? name documents).map StoredSchema.keptForm := by
  unfold named?
  rw [List.find?_map]
  rfl

/-- Documents with different names are found one by one, in their order. -/
theorem filterMap_named? (h : (documents.map StoredSchema.name).Nodup) :
    (documents.map StoredSchema.name).filterMap (fun name => named? name documents) =
      documents := by
  induction documents with
  | nil => rfl
  | cons d rest ih =>
    rw [List.map_cons, List.nodup_cons] at h
    have hrest : ∀ name ∈ rest.map StoredSchema.name,
        named? name (d :: rest) = named? name rest := by
      intro name hname
      have hne : d.name ≠ name := by
        rintro rfl
        exact h.1 hname
      simp [named?, hne]
    have hfirst : named? d.name (d :: rest) = some d := by simp [named?]
    rw [List.map_cons, List.filterMap_cons, hfirst, List.filterMap_congr hrest, ih h.2]

/-! ### The invariant -/

/-- A store on disk whose file keeps its documents, all of which were taken under different
names. -/
structure Sound (s : Store) : Prop where
  plain : ∀ d ∈ s.documents, d.Plain
  writable : ∀ d ∈ s.documents, d.Writable
  names : (s.documents.map StoredSchema.name).Nodup
  utc : ∀ n, (s.clock.time n).offset = some .utc
  kept : ∃ p, s.place = some p ∧ p.Keeps s.documents

theorem onDisk_sound {clock : Clock} (h : ∀ n, (clock.time n).offset = some .utc)
    (fileName : String) : (onDisk fileName clock).Sound where
  plain _ hd := absurd hd List.not_mem_nil
  writable _ hd := absurd hd List.not_mem_nil
  names := List.nodup_nil
  utc := h
  kept := ⟨_, rfl, rfl, by simp, rfl⟩

variable {s : Store}

theorem Sound.ticked (h : s.Sound) : ({ s with clock := s.clock.advance } : Store).Sound :=
  ⟨h.plain, h.writable, h.names, h.utc, h.kept⟩

theorem commit_writable (h : s.Sound) (hplain : ∀ d ∈ documents, d.Plain)
    (hwritable : ∀ d ∈ documents, d.Writable) (hnames : (documents.map StoredSchema.name).Nodup) :
    ∃ place, s.commit documents = (.ok (), { s with documents, place }) ∧
      ({ s with documents, place } : Store).Sound := by
  obtain ⟨p, hp, hkeeps⟩ := h.kept
  obtain ⟨p', hwrite, hkeeps'⟩ := Place.write_writable hkeeps
    (fun d hd => (hplain d hd).isSealed (hwritable d hd)) hnames
  refine ⟨some p', commit_written hp hwrite, ?_⟩
  exact ⟨hplain, hwritable, hnames, h.utc, p', rfl, hkeeps'⟩

theorem commit_unwritable (h : s.Sound) (hplain : ∀ d ∈ documents, d.Plain)
    (hwritable : ¬∀ d ∈ documents, d.Writable) :
    ∃ problem place, s.commit documents = (.error problem, { s with place }) ∧
      (∀ f, problem ≠ .failure f) ∧ ({ s with place } : Store).Sound := by
  obtain ⟨p, hp, hkeeps⟩ := h.kept
  obtain ⟨problem, p', hwrite, hproblem, hkeeps'⟩ :=
    Place.write_unwritable hkeeps hplain hwritable
  refine ⟨problem, some p', commit_unwritten hp hwrite, hproblem, ?_⟩
  exact ⟨h.plain, h.writable, h.names, h.utc, p', rfl, hkeeps'⟩

/-! ### One request -/

/-- To its users a store is this catalog. -/
structure Shows (s : Store) (k : Catalog) : Prop where
  names : k.names = s.documents.map StoredSchema.name
  document : ∀ name, k.document name = named? name s.documents
  clock : k.clock = s.clock

theorem onDisk_shows (fileName : String) (clock : Clock) :
    (onDisk fileName clock).Shows (.empty clock) where
  names := rfl
  document _ := rfl
  clock := rfl

/-- The same answer, and again a store that shows the catalog. -/
structure Matches (left : Answer × Store) (right : Answer × Catalog) : Prop where
  answer : left.1 = right.1
  sound : left.2.Sound
  shows : left.2.Shows right.2

variable {k : Catalog}

theorem Shows.ticked (hk : s.Shows k) :
    ({ s with clock := s.clock.advance } : Store).Shows { k with clock := s.clock.advance } :=
  ⟨hk.names, hk.document, rfl⟩

theorem Shows.add (hk : s.Shows k) {d : StoredSchema}
    (hd : d.name ∉ s.documents.map StoredSchema.name) (place : Option Place) :
    ({ s with documents := s.documents ++ [d], place } : Store).Shows (k.add d) where
  names := by simp [Catalog.add, hk.names]
  document name := by rw [named?_append hd, ← hk.document]; rfl
  clock := hk.clock

theorem Shows.remove (hk : s.Shows k) (name : String) (place : Option Place) :
    ({ s with documents := s.others name, place } : Store).Shows (k.remove name) where
  names := by
    simp only [Catalog.remove, hk.names, List.filter_map]
    rfl
  document other := by rw [others, named?_filter, ← hk.document]; rfl
  clock := hk.clock

theorem create_matches (h : s.Sound) (hk : s.Shows k) (name : String)
    (description : Option String) {definition : Fields}
    (hplain : (Value.object definition).Plain) :
    Matches (s.answer (.create name description definition))
      (k.answer (.create name description definition)) := by
  by_cases hname : Text.trim name ∈ k.names
  · rw [Catalog.answer, if_pos hname, answer, create_taken (hk.names ▸ hname)]
    exact ⟨rfl, h, hk⟩
  · have hnew : Text.trim name ∉ s.documents.map StoredSchema.name := hk.names ▸ hname
    have hasked := s.asked_document name description definition
    rw [Catalog.answer, if_neg hname, answer, hk.clock]
    generalize hd : (⟨Text.trim name, description, definition, s.clock.now⟩ : StoredSchema) = d
      at hasked
    have hdname : d.name ∉ s.documents.map StoredSchema.name := by rwa [← hd]
    have hdplain : ∀ e ∈ s.documents ++ [d], e.Plain := by
      rw [List.forall_mem_append]
      refine ⟨h.plain, List.forall_mem_singleton.2 ?_⟩
      rw [← hd]
      exact ⟨hplain, h.utc _⟩
    -- the documents stored before can all be written, so the new one decides
    by_cases hwritable : d.Writable
    · have hall : ∀ e ∈ s.documents ++ [d], e.Writable := by
        rw [List.forall_mem_append]
        exact ⟨h.writable, List.forall_mem_singleton.2 hwritable⟩
      obtain ⟨place, hcommit, hsound⟩ := commit_writable h.ticked hdplain hall
        (nodup_names_append h.names hdname)
      rw [if_pos hwritable, create_new hnew hasked hcommit]
      exact ⟨rfl, hsound, hk.ticked.add hdname place⟩
    · have hnot : ¬∀ e ∈ s.documents ++ [d], e.Writable := by
        intro hall
        exact hwritable (hall d (by simp))
      obtain ⟨problem, place, hcommit, hproblem, hsound⟩ :=
        commit_unwritable h.ticked hdplain hnot
      rw [if_neg hwritable, create_new hnew hasked hcommit]
      -- a problem of the file is none of the failures that an answer tells apart
      cases problem with
      | failure f => exact absurd rfl (hproblem f)
      | _ => exact ⟨rfl, hsound, hk.ticked.names, hk.ticked.document, rfl⟩

theorem delete_matches (h : s.Sound) (hk : s.Shows k) (name : String) :
    Matches (s.answer (.delete name)) (k.answer (.delete name)) := by
  by_cases hname : Text.trim name ∈ k.names
  · have hsub := others_subset s (Text.trim name)
    obtain ⟨place, hcommit, hsound⟩ := commit_writable h (fun d hd => h.plain d (hsub hd))
      (fun d hd => h.writable d (hsub hd)) (nodup_others h.names (Text.trim name))
    rw [Catalog.answer, if_pos hname, answer, delete_known (hk.names ▸ hname), hcommit]
    exact ⟨rfl, hsound, hk.remove _ place⟩
  · rw [Catalog.answer, if_neg hname, answer, delete_unknown (hk.names ▸ hname)]
    exact ⟨rfl, h, hk⟩

theorem reopen_eq (h : s.Sound) :
    s.reopen = (.ok s.documents.length,
      { s with documents := s.documents.map StoredSchema.keptForm }) := by
  obtain ⟨p, hp, hkeeps⟩ := h.kept
  simp only [reopen, hp, hkeeps.read, List.length_map]

theorem names_keptForm (documents : List StoredSchema) :
    (documents.map StoredSchema.keptForm).map StoredSchema.name =
      documents.map StoredSchema.name := by
  rw [List.map_map]
  rfl

theorem Sound.reopened (h : s.Sound) :
    ({ s with documents := s.documents.map StoredSchema.keptForm } : Store).Sound where
  plain := List.forall_mem_map.2 fun d hd => (h.plain d hd).keptForm
  writable := List.forall_mem_map.2 fun d hd => (h.writable d hd).keptForm
  names := by
    rw [names_keptForm]
    exact h.names
  utc := h.utc
  kept := by
    obtain ⟨p, hp, hkeeps⟩ := h.kept
    refine ⟨p, hp, hkeeps.free, hkeeps.noFolder, ?_⟩
    -- the file is untouched, and what was read from it is in its kept form already
    rw [hkeeps.read, List.map_map]
    exact congrArg Except.ok
      (List.map_congr_left fun d _ => (StoredSchema.keptForm_keptForm d).symm)

theorem reopen_matches (h : s.Sound) (hk : s.Shows k) :
    Matches (s.answer .reopen) (k.answer .reopen) := by
  simp only [answer, Catalog.answer, reopen_eq h]
  refine ⟨by simp [hk.names], h.reopened, ?_, fun name => ?_, hk.clock⟩
  · rw [names_keptForm]
    exact hk.names
  · rw [named?_map, ← hk.document]

theorem list_matches (h : s.Sound) (hk : s.Shows k) :
    Matches (s.answer .list) (k.answer .list) := by
  refine ⟨?_, h, hk⟩
  have hdocument : k.document = fun name => named? name s.documents := by
    funext name
    exact hk.document name
  rw [answer, Catalog.answer, Catalog.documents, hk.names, hdocument, filterMap_named? h.names]

theorem find_matches (h : s.Sound) (hk : s.Shows k) (name : String) :
    Matches (s.answer (.find name)) (k.answer (.find name)) := by
  refine ⟨?_, h, hk⟩
  rw [answer, Catalog.answer, hk.document]
  rfl

theorem answer_matches (h : s.Sound) (hk : s.Shows k) {request : Request}
    (hplain : request.Plain) : Matches (s.answer request) (k.answer request) := by
  cases request with
  | create name description definition => exact create_matches h hk name description hplain
  | find name => exact find_matches h hk name
  | list => exact list_matches h hk
  | delete name => exact delete_matches h hk name
  | reopen => exact reopen_matches h hk

/-! ### Many requests -/

theorem answers_match (h : s.Sound) (hk : s.Shows k) {requests : List Request}
    (hplain : ∀ request ∈ requests, request.Plain) :
    (s.answers requests).1 = (k.answers requests).1 ∧ (s.answers requests).2.Sound := by
  induction requests generalizing s k with
  | nil => exact ⟨rfl, h⟩
  | cons request rest ih =>
    rw [List.forall_mem_cons] at hplain
    obtain ⟨hanswer, hsound, hshows⟩ := answer_matches h hk hplain.1
    obtain ⟨hrest, hend⟩ := ih hsound hshows hplain.2
    exact ⟨by simp only [answers, Catalog.answers, hanswer, hrest], hend⟩

end Store

/-- A store on disk answers every sequence of requests as the catalog does. At the end it can be
loaded anew: it then has the same documents in the same order, each in its kept form, which is the
document itself if all names in its definition can be sent. -/
theorem store_refines_catalog {clock : Clock} (hclock : ∀ n, (clock.time n).offset = some .utc)
    (fileName : String) {requests : List Request} (hplain : ∀ request ∈ requests, request.Plain) :
    let final := (Store.onDisk fileName clock).answers requests
    final.1 = ((Catalog.empty clock).answers requests).1 ∧
    final.2.reopen = (.ok final.2.documents.length,
      { final.2 with documents := final.2.documents.map StoredSchema.keptForm }) ∧
    (∀ d ∈ final.2.documents, (Value.object d.definition).WholeNames → d.keptForm = d) := by
  obtain ⟨hanswers, hsound⟩ := Store.answers_match (Store.onDisk_sound hclock fileName)
    (Store.onDisk_shows fileName clock) hplain
  exact ⟨hanswers, Store.reopen_eq hsound,
    fun d hd hnames => StoredSchema.keptForm_eq_self (hsound.plain d hd) hnames⟩

/-- A clock that stands still. -/
def stoppedClock : Clock :=
  ⟨fun _ => ⟨⟨2024, 1, 1, by decide⟩, .midnight, some .utc⟩, 0⟩

def draft (definition : Fields) : StoredSchema :=
  ⟨"draft", none, definition, stoppedClock.now⟩

theorem answers_about_draft :
    ((Store.onDisk "schemas.json" stoppedClock).answers
      [.create " draft " none [("a", .array [.string "string"])], .reopen, .list,
        .delete "other"]).1 =
    [.created (draft [("a", .array [.string "string"])]), .reopened 1,
      .listed [draft [("a", .array [.string "string"])]], .missing "other"] := by
  have hplain : (Value.object [("a", .array [.string "string"])]).Plain :=
    ⟨by simp, ⟨trivial, trivial⟩, trivial⟩
  have hrequests : ∀ request ∈ [Request.create " draft " none [("a", .array [.string "string"])],
      .reopen, .list, .delete "other"], request.Plain := by
    simpa [Request.Plain] using hplain
  exact (store_refines_catalog (fun _ => rfl) "schemas.json" hrequests).1.trans rfl

/-- Half of a surrogate pair. -/
def half : String :=
  String.singleton (Text.unitChar 0xD800)

/-- A half in the description keeps a document out of the store, although its name is free; a half
in a name of the definition is replaced when the store is loaded anew. -/
theorem half_refused_or_replaced :
    ((Store.onDisk "schemas.json" stoppedClock).answers
      [.create "draft" (some half) [("a", .string "string")], .list]).1 = [.failed, .listed []] ∧
    ((Store.onDisk "schemas.json" stoppedClock).answers
      [.create "draft" none [(half, .string "string")], .reopen, .list]).1 =
      [.created (draft [(half, .string "string")]), .reopened 1,
        .listed [draft [("\uFFFD\uFFFD\uFFFD", .string "string")]]] := by
  have hplain : ∀ name, (Value.object [(name, .string "string")]).Plain := fun name =>
    ⟨by simp, trivial, trivial⟩
  have hanswers : ∀ requests : List Request, (∀ request ∈ requests, request.Plain) →
      ((Store.onDisk "schemas.json" stoppedClock).answers requests).1 =
        ((Catalog.empty stoppedClock).answers requests).1 := fun requests hrequests =>
    (Store.answers_match (Store.onDisk_sound (fun _ => rfl) _) (Store.onDisk_shows _ _)
      hrequests).1
  constructor
  · exact (hanswers _ (by simpa [Request.Plain] using hplain "a")).trans rfl
  · exact (hanswers _ (by simpa [Request.Plain] using hplain half)).trans rfl

end Extraction
