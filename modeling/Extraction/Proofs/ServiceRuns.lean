import Extraction.Proofs.LoadedNames
import Extraction.Proofs.Processing

/-!
Runs of the service. Whatever the requests are, only storing and deleting a schema touch the store,
and no other request is answered with a status that says so. A store with nothing in its way stays
so; a document stays in it until it is deleted.
-/

namespace Extraction

/-! ### Stores with nothing in their way -/

namespace Place

variable {place : Place} {documents kept : List StoredSchema}

/-- A write that is given up leaves the place as free as it was. -/
theorem Takes.write (h : place.Takes kept) (documents : List StoredSchema) :
    (place.write documents).2.Takes kept := by
  have hwritten := place.write_written documents
  generalize place.write documents = outcome at hwritten ⊢
  cases hwritten with
  | tooDeep | prevented => exact h
  | brokenOff => exact ⟨h.free, h.noFolder, h.keepable⟩
  | done => exact ⟨h.free, nofun, h.keepable⟩

end Place

namespace Store

variable {s : Store} {documents : List StoredSchema} {d : StoredSchema}

/-- A store whose names differ, and in which nothing stands in the way of writing its documents. -/
structure Ready (s : Store) : Prop where
  nodup : (s.documents.map StoredSchema.name).Nodup
  takes : s.Takes s.documents

theorem empty_ready (clock : Clock) : (empty clock).Ready :=
  ⟨List.nodup_nil, nofun⟩

/-- The documents but one can be written as well as all of them. -/
theorem Ready.takes_others (h : s.Ready) (name : String) : s.Takes (s.others name) := by
  intro place hplace
  have htakes := h.takes place hplace
  exact ⟨htakes.free, htakes.noFolder, fun d hd => htakes.keepable d (others_subset s name hd)⟩

theorem Ready.ticked (h : s.Ready) : ({ s with clock := s.clock.advance } : Store).Ready :=
  ⟨h.nodup, h.takes⟩

theorem Ready.commit (h : s.Ready) (hnodup : (documents.map StoredSchema.name).Nodup) :
    (s.commit documents).2.Ready := by
  have hfree : ∀ {place place' : Place} {result : Except Problem Unit}, s.place = some place →
      place.write documents = (result, place') → place'.Takes s.documents := by
    intro place place' result hplace hwrite
    have hkept := (h.takes place hplace).write documents
    rwa [hwrite] at hkept
  have henacted := s.commit_enacted documents
  generalize s.commit documents = outcome at henacted ⊢
  cases henacted with
  | inMemory hplace =>
    refine ⟨hnodup, fun q hq => ?_⟩
    cases hplace.symm.trans hq
  | @written place place' hplace hwrite =>
    refine ⟨hnodup, ?_⟩
    rintro _ ⟨⟩
    have hmade := Place.write_eq_ok_iff.1 ⟨place', hwrite⟩
    exact ⟨(hfree hplace hwrite).free, (hfree hplace hwrite).noFolder, hmade.keepable⟩
  | unwritten hplace hwrite =>
    refine ⟨h.nodup, ?_⟩
    rintro _ ⟨⟩
    exact hfree hplace hwrite

theorem Ready.create (h : s.Ready) (name : String) (description definition : Value) :
    (s.create name description definition).2.Ready :=
  create_keeps h h.ticked fun _ _ hnew => h.ticked.commit (nodup_names_append h.nodup hnew)

theorem Ready.delete (h : s.Ready) (name : String) : (s.delete name).2.Ready :=
  delete_keeps h (h.commit (nodup_others h.nodup _))

/-- A document that was created stands behind the others. -/
theorem create_eq_ok {name : String} {description definition : Value} {store : Store}
    (h : s.create name description definition = (.ok d, store)) :
    d.name = Text.trim name ∧ store.documents = s.documents ++ [d] := by
  have htried := s.create_tried name description definition
  rw [h] at htried
  generalize houtcome : (Except.ok d, store) = outcome at htried
  cases htried with
  | taken => cases houtcome
  | faulty => cases houtcome
  | @committed e hasked _ result _ hcommit =>
    cases result with
    | error => cases houtcome
    | ok =>
      cases houtcome
      obtain ⟨hmade, hfailed⟩ :=
        commit_iff { s with clock := s.clock.advance } (s.documents ++ [e])
      rw [hcommit] at hmade hfailed
      refine ⟨(asked_eq_ok hasked).1, (hmade ?_).2⟩
      by_contra htakes
      obtain ⟨problem, hproblem⟩ := (hfailed htakes).1
      cases hproblem

/-- Creating a document takes none away. -/
theorem mem_create (hd : d ∈ s.documents) (name : String) (description definition : Value) :
    d ∈ (s.create name description definition).2.documents :=
  create_keeps (motive := fun s' => d ∈ s'.documents) hd hd
    fun _ _ _ => mem_commit hd (List.mem_append_left _ hd)

end Store

/-! ### Statuses -/

namespace Service

/-- The response tells neither that something was stored nor that something was deleted. -/
structure Response.Idle (response : Response) : Prop where
  notStored : response.status ≠ 201
  notDeleted : response.status ≠ 204

theorem Response.status_json (status : Nat) (v : Value) :
    (json status v).status = status ∨ (json status v).status = 500 := by
  unfold json
  split
  · exact .inl rfl
  · exact .inr rfl

theorem Response.idle_internalError : internalError.Idle :=
  ⟨nofun, nofun⟩

theorem Response.idle_json {status : Nat} (hstored : status ≠ 201) (hdeleted : status ≠ 204)
    (v : Value) : (json status v).Idle := by
  unfold json
  split
  · exact ⟨hstored, hdeleted⟩
  · exact idle_internalError

theorem Response.idle_ok (v : Value) : (json 200 v).Idle :=
  idle_json (by decide) (by decide) v

theorem Response.idle_faults (fs : List FieldFault) : (faults fs).Idle := by
  unfold faults
  split
  · exact ⟨nofun, nofun⟩
  · exact idle_internalError

theorem Response.idle_ofProblem (p : Problem) : (ofProblem p).Idle := by
  cases p with
  | failure f =>
    have hclass : ∀ a : Failure.Class, a.status ≠ 201 ∧ a.status ≠ 204 := by
      intro a
      cases a <;> decide
    exact idle_json (hclass f.failureClass).1 (hclass f.failureClass).2 _
  | _ => exact idle_internalError

theorem Creation.idle_of_ofPayload {payload : Payload} {response : Response}
    (h : Creation.ofPayload payload = .error response) : response.Idle := by
  unfold Creation.ofPayload at h
  split at h
  · cases h
    exact Response.idle_faults _
  · cases h
    exact Response.idle_faults _
  · cases h
    exact Response.idle_faults _
  · split at h
    · unfold Creation.ofText at h
      split at h
      · cases h
        unfold Creation.unreadableAt
        split
        · exact Response.idle_faults _
        · exact ⟨nofun, nofun⟩
      · obtain ⟨fs, -, rfl⟩ := mapError_eq_error_iff.1 h
        exact Response.idle_faults _
    · cases h
      exact ⟨nofun, nofun⟩

theorem Submission.idle_of_ofPayload {payload : Payload} {response : Response}
    (h : Submission.ofPayload payload = .error response) : response.Idle := by
  unfold Submission.ofPayload at h
  split at h
  · cases h
    exact ⟨nofun, nofun⟩
  · obtain ⟨fs, -, rfl⟩ := mapError_eq_error_iff.1 h
    exact Response.idle_faults fs

theorem Submission.idle_of_checkFile {maxBytes : Int} {file : Upload} {response : Response}
    (h : Submission.checkFile maxBytes file = .error response) : response.Idle := by
  unfold Submission.checkFile at h
  split at h
  · cases h
    exact ⟨nofun, nofun⟩
  split at h
  · cases h
    exact ⟨nofun, nofun⟩
  split at h
  · cases h
    exact ⟨nofun, nofun⟩
  · cases h

theorem idle_showing (documents : List StoredSchema) (v : Value) :
    (showing 200 documents v).Idle := by
  unfold showing
  split
  · exact Response.idle_ok v
  · exact Response.idle_internalError

theorem idle_respondTo (r : Result) : (respondTo r).Idle := by
  unfold respondTo
  split
  · unfold Response.markdown
    split
    · exact ⟨nofun, nofun⟩
    · exact Response.idle_internalError
  · exact Response.idle_ok _

theorem Response.idle_ofOutcome (outcome : Except Problem Result) :
    (Response.ofOutcome outcome).Idle := by
  cases outcome with
  | ok r => exact idle_respondTo r
  | error p => exact Response.idle_ofProblem p

end Service

/-! ### Single requests -/

namespace Service

variable {s : Service} {c : Collaborators} {r : Request} {payload : Payload}

theorem sentFor_eq_self {method : String} (h : method ≠ "HEAD") (response : Response) :
    response.sentFor method = response :=
  if_neg h

theorem handle_eq {method : String} {resource : Resource} (hmethod : Text.upper r.method = method)
    (hhead : method ≠ "HEAD") (hresource : Resource.ofAddress? r.address = some resource) :
    s.handle c r = s.dispatch c method resource r.payload := by
  simp only [handle, hmethod, hresource, sentFor_eq_self hhead]

theorem handle_nowhere (h : Resource.ofAddress? r.address = none)
    (hmethod : Text.upper r.method ≠ "HEAD") : s.handle c r = s.answer notFound := by
  simp only [handle, h, sentFor_eq_self hmethod, answer]

/-- Processing a document leaves the service as it is. -/
theorem processDocument_kept (s : Service) (c : Collaborators) (payload : Payload) :
    (s.processDocument c payload).service = s ∧ (s.processDocument c payload).response.Idle := by
  unfold processDocument
  split
  · rename_i hform
    exact ⟨rfl, Submission.idle_of_ofPayload hform⟩
  · split
    · rename_i hfile
      exact ⟨rfl, Submission.idle_of_checkFile hfile⟩
    · split
      · exact ⟨rfl, Response.idle_ofProblem _⟩
      · rw [carryOut_eq]
        exact ⟨rfl, Response.idle_ofOutcome _⟩

theorem fetchSchema_kept (s : Service) (name : String) :
    (s.fetchSchema name).service = s ∧ (s.fetchSchema name).response.Idle := by
  unfold fetchSchema
  split
  · exact ⟨rfl, idle_showing _ _⟩
  · exact ⟨rfl, Response.idle_ofProblem (.failure _)⟩

/-- What a request can come to: the service stays as it is and the response tells of no change, or
it is a POST that stores a schema or a DELETE that deletes one. -/
inductive Handled (s : Service) (c : Collaborators) (r : Request) : Exchange → Prop
  | kept {e : Exchange} (h : e.service = s) (hidle : e.response.Idle) : Handled s c r e
  | stored (hmethod : Text.upper r.method = "POST")
    (hresource : Resource.ofAddress? r.address = some .schemas) :
    Handled s c r (s.createSchema r.payload)
  | deleted {name : String} (hmethod : Text.upper r.method = "DELETE")
    (hresource : Resource.ofAddress? r.address = some (.schema name)) :
    Handled s c r (s.deleteSchema name)

theorem handle_handled (s : Service) (c : Collaborators) (r : Request) :
    Handled s c r (s.handle c r) := by
  cases hresource : Resource.ofAddress? r.address with
  | none =>
    simp only [handle, hresource]
    refine .kept rfl ?_
    unfold Response.sentFor
    split <;> exact ⟨nofun, nofun⟩
  | some resource =>
    -- HEAD changes nothing, and every other method is answered as it is dispatched
    by_cases hhead : Text.upper r.method = "HEAD"
    · simp only [handle, hresource, hhead]
      cases resource <;> exact .kept rfl ⟨nofun, nofun⟩
    · rw [handle_eq rfl hhead hresource]
      generalize hmethod : Text.upper r.method = method
      unfold dispatch
      split
      · refine .kept rfl ?_
        simp only [health, answer, Response.idle_ok]
      · exact .kept (s.processDocument_kept c r.payload).1 (s.processDocument_kept c r.payload).2
      · exact .kept rfl (idle_showing _ _)
      · exact .stored hmethod hresource
      · exact .kept (s.fetchSchema_kept _).1 (s.fetchSchema_kept _).2
      · exact .deleted hmethod hresource
      all_goals exact .kept rfl ⟨nofun, nofun⟩

/-- A POST that stores a schema leaves the store as it is or has it create a document. -/
theorem store_createSchema (s : Service) (payload : Payload) :
    (s.createSchema payload).service.store = s.store ∨ ∃ name description definition,
      (s.createSchema payload).service.store =
        (s.store.create name description definition).2 := by
  unfold createSchema
  split
  · exact .inl rfl
  · rename_i creation _
    refine .inr ⟨creation.name, StoredSchema.descriptionValue creation.description,
      .object creation.definition, ?_⟩
    split <;> rename_i hcreate <;> rw [hcreate]

theorem store_deleteSchema (s : Service) (name : String) :
    (s.deleteSchema name).service.store = (s.store.delete name).2 := by
  unfold deleteSchema
  split <;> rename_i hdelete <;> rw [hdelete]

/-- What holds of a store holds after a request if it is kept by every create, and by the delete
that the request asks for. -/
theorem handle_keeps {motive : Store → Prop} (h : motive s.store)
    (hcreate : ∀ name description definition,
      motive (s.store.create name description definition).2)
    (hdelete : ∀ name, Text.upper r.method = "DELETE" →
      Resource.ofAddress? r.address = some (.schema name) → motive (s.store.delete name).2)
    (c : Collaborators) : motive (s.handle c r).service.store := by
  have hhandled := s.handle_handled c r
  generalize s.handle c r = exchange at hhandled ⊢
  cases hhandled with
  | kept hsame => exact hsame ▸ h
  | stored =>
    obtain hsame | ⟨name, description, definition, hstore⟩ := s.store_createSchema r.payload
    · exact hsame ▸ h
    · exact hstore ▸ hcreate name description definition
  | @deleted name hmethod hresource =>
    exact s.store_deleteSchema name ▸ hdelete name hmethod hresource

theorem ready_handle (h : s.store.Ready) (c : Collaborators) (r : Request) :
    (s.handle c r).service.store.Ready :=
  handle_keeps h h.create (fun name _ _ => h.delete name) c

/-- The request does not delete the schema of this name. -/
def Request.Spares (r : Request) (name : String) : Prop :=
  ∀ other, Text.upper r.method = "DELETE" →
    Resource.ofAddress? r.address = some (.schema other) → Text.trim other ≠ name

theorem mem_handle {d : StoredSchema} (hd : d ∈ s.store.documents) (hspares : r.Spares d.name)
    (c : Collaborators) : d ∈ (s.handle c r).service.store.documents :=
  handle_keeps (motive := fun store => d ∈ store.documents) hd (Store.mem_create hd)
    (fun name hmethod hresource => Store.mem_delete hd (hspares name hmethod hresource)) c

/-! ### Runs -/

/-- The service after one request after another, each with those who are asked for it. -/
def after (s : Service) (requests : List (Collaborators × Request)) : Service :=
  requests.foldl (fun s entry => (s.handle entry.1 entry.2).service) s

/-- What every request keeps of a service holds after them all. -/
theorem after_keeps {motive : Service → Prop} {requests : List (Collaborators × Request)}
    (h : motive s)
    (hkeeps : ∀ s, motive s → ∀ entry ∈ requests, motive (s.handle entry.1 entry.2).service) :
    motive (s.after requests) :=
  List.foldlRecOn requests _ h hkeeps

theorem ready_after (h : s.store.Ready) (requests : List (Collaborators × Request)) :
    (s.after requests).store.Ready :=
  after_keeps (motive := fun s => s.store.Ready) h
    fun _ hs entry _ => ready_handle hs entry.1 entry.2

/-- A document that is not deleted stays. -/
theorem mem_after {d : StoredSchema} (hd : d ∈ s.store.documents)
    {requests : List (Collaborators × Request)}
    (hspares : ∀ entry ∈ requests, entry.2.Spares d.name) :
    d ∈ (s.after requests).store.documents :=
  after_keeps (motive := fun s => d ∈ s.store.documents) hd
    fun _ hs entry hentry => mem_handle hs (hspares entry hentry) entry.1

end Service

end Extraction
