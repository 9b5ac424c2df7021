import Extraction.Proofs.SchemaAddresses
import Extraction.Proofs.ServiceRuns

/-!
Schemas that were created. A POST that is answered with 201 has stored exactly the document that it
shows. As long as the document is not deleted, its address reaches it if the name is one that an
address can lead to; if not, the document is listed, but can be neither fetched nor deleted there.
-/

namespace Extraction

open Service

theorem Text.isWhole_append (s t : String) : isWhole (s ++ t) = (isWhole s && isWhole t) := by
  rw [isWhole, String.toList_append, List.all_append]
  rfl

/-! ### Requests to store a schema -/

namespace Service.Creation

/-- A name that is taken is trimmed and long enough. -/
structure GoodName (name : String) : Prop where
  trimmed : Text.trim name = name
  long : leastNameLength ≤ name.length

variable {name : String} {creation : Creation}

theorem goodName_of_readName {v : Value} (h : readName v = .ok name) : GoodName name := by
  unfold readName at h
  split at h
  · split at h
    · cases h
    split at h
    · cases h
    split at h
    · cases h
    · rename_i hlength
      cases h
      exact ⟨Text.trim_trim _, Nat.le_of_not_lt hlength⟩
  · cases h

theorem nonempty_of_readDefinition {v : Value} {definition : Fields}
    (h : readDefinition v = .ok definition) : definition ≠ [] := by
  unfold readDefinition at h
  split at h
  · cases h
  · rename_i hfields
    cases h
    rintro rfl
    exact hfields rfl
  · cases h

/-- What is taken has a good name and a definition that is not empty. -/
structure WellFormed (creation : Creation) : Prop where
  goodName : GoodName creation.name
  nonempty : creation.definition ≠ []

theorem read_of_required {α : Type} {key : StoredSchema.Key} {read : Value → Except FieldFault.Kind α}
    {fields : Fields} {a : α} (h : StoredSchema.required key read fields = .ok a) :
    ∃ v, read v = .ok a := by
  unfold StoredSchema.required at h
  split at h
  · cases h
  · exact ⟨_, mapError_eq_ok_iff.1 h⟩

theorem wellFormed_of_ofValue {v : Value} (h : ofValue v = .ok creation) :
    creation.WellFormed := by
  unfold ofValue at h
  split at h
  · dsimp only at h
    split at h
    · rename_i hname _ hdefinition
      cases h
      obtain ⟨_, hreadName⟩ := read_of_required hname
      obtain ⟨_, hreadDefinition⟩ := read_of_required hdefinition
      exact ⟨goodName_of_readName hreadName, nonempty_of_readDefinition hreadDefinition⟩
    · cases h
  · cases h

theorem wellFormed_of_ofPayload {payload : Payload} (h : ofPayload payload = .ok creation) :
    creation.WellFormed := by
  unfold ofPayload at h
  split at h
  · cases h
  · cases h
  · cases h
  · split at h
    · unfold ofText at h
      split at h
      · cases h
      · exact wellFormed_of_ofValue (mapError_eq_ok_iff.1 h)
    · cases h

end Service.Creation

namespace Service

/-! ### The response to a creation -/

variable {s : Service} {c : Collaborators} {payload : Payload} {d : StoredSchema}

theorem eq_of_json {v w : Value} (h : Response.json 200 v = ⟨200, .json w⟩) : v = w := by
  unfold Response.json at h
  split at h
  · cases h
    rfl
  · cases h

theorem eq_of_showing {documents : List StoredSchema} {v w : Value}
    (h : showing 200 documents v = ⟨200, .json w⟩) : v = w := by
  unfold showing at h
  split at h
  · exact eq_of_json h
  · cases h

/-- Nothing stands in the way of showing a document. -/
structure Shown (d : StoredSchema) : Prop where
  shallow : d.isShallow = true
  sendable : Response.canSend d.toValue = true

theorem Shown.showing (h : Shown d) (status : Nat) :
    showing status [d] d.toValue = ⟨status, .json d.toValue⟩ := by
  have hshallow : [d].all StoredSchema.isShallow = true := by simp [h.shallow]
  rw [Service.showing, if_pos hshallow, Response.json_of_canSend h.sendable]

theorem shown_of_status (h : (showing 201 [d] d.toValue).status = 201) : Shown d := by
  unfold Service.showing at h
  split at h
  · rename_i hshallow
    unfold Response.json at h
    split at h
    · rename_i hsend
      exact ⟨by simpa using hshallow, hsend⟩
    · cases h
  · cases h

/-- What a POST that is answered with 201 has done. -/
structure Creates (s : Service) (e : Exchange) (d : StoredSchema) : Prop where
  response : e.response = ⟨201, .json d.toValue⟩
  documents : e.service.store.documents = s.store.documents ++ [d]
  shown : Shown d
  goodName : Creation.GoodName d.name

theorem exists_creates (h : (s.createSchema payload).response.status = 201) :
    ∃ d, Creates s (s.createSchema payload) d := by
  unfold createSchema at h ⊢
  split at h
  · rename_i hpayload
    exact absurd h (Creation.idle_of_ofPayload hpayload).notStored
  · rename_i creation hpayload
    have hgood := (Creation.wellFormed_of_ofPayload hpayload).goodName
    split at h
    · rename_i d store hcreate
      obtain ⟨hname, hdocuments⟩ := Store.create_eq_ok hcreate
      have hshown := shown_of_status h
      exact ⟨d, hshown.showing 201, hdocuments, hshown, (hname.trans hgood.trimmed).symm ▸ hgood⟩
    · exact absurd h (Response.idle_ofProblem _).notStored

/-! ### Reaching a document -/

/-- A GET of an address shows a document. A DELETE removes the document and no other, and then
another GET finds nothing. -/
structure Reaches (s : Service) (a : Address) (d : StoredSchema) : Prop where
  fetched : ∀ c payload, s.handle c ⟨"GET", a, payload⟩ = s.answer ⟨200, .json d.toValue⟩
  deleted : ∀ c payload, ∃ left : Service,
    s.handle c ⟨"DELETE", a, payload⟩ = ⟨⟨204, .nothing⟩, [], left⟩ ∧
    left.store.documents = s.store.others d.name ∧
    ∀ c' payload', left.handle c' ⟨"GET", a, payload'⟩ =
      left.answer ⟨404, .json (.object (Failure.unknownSchema d.name).payload)⟩

/-- No GET of an address shows a document, and no DELETE removes it. -/
structure Misses (s : Service) (a : Address) (d : StoredSchema) : Prop where
  notFetched : ∀ c payload, (s.handle c ⟨"GET", a, payload⟩).response ≠ ⟨200, .json d.toValue⟩
  stays : ∀ c payload, d ∈ (s.handle c ⟨"DELETE", a, payload⟩).service.store.documents

theorem handle_get {a : Address} {resource : Resource}
    (h : Resource.ofAddress? a = some resource) :
    s.handle c ⟨"GET", a, payload⟩ = s.dispatch c "GET" resource payload :=
  handle_eq (by decide : Text.upper "GET" = "GET") (by decide) h

theorem handle_get_nowhere {a : Address} (h : Resource.ofAddress? a = none) :
    s.handle c ⟨"GET", a, payload⟩ = s.answer notFound :=
  handle_nowhere h (by decide : Text.upper "GET" ≠ "HEAD")

theorem handle_delete {a : Address} {resource : Resource}
    (h : Resource.ofAddress? a = some resource) :
    s.handle c ⟨"DELETE", a, payload⟩ = s.dispatch c "DELETE" resource payload :=
  handle_eq (by decide : Text.upper "DELETE" = "DELETE") (by decide) h

theorem fetchSchema_of_mem (hready : s.store.Ready) (hd : d ∈ s.store.documents)
    (hshown : Shown d) (hname : Text.trim d.name = d.name) :
    s.fetchSchema d.name = s.answer ⟨200, .json d.toValue⟩ := by
  have hfind : s.store.find? d.name = some d := by
    rw [Store.find?, hname]
    exact Store.named?_of_mem hready.nodup hd
  simp only [fetchSchema, hfind, hshown.showing]

/-- A name that is not in use is reported as unknown. -/
theorem fetchSchema_of_unused {name : String} (hwhole : Text.isWhole name = true)
    (h : Text.trim name ∉ s.store.documents.map StoredSchema.name) :
    s.fetchSchema name = s.answer ⟨404, .json (.object (Failure.unknownSchema name).payload)⟩ := by
  have hfind : s.store.find? name = none := Store.named?_eq_none h
  have hencode : encode (.object (Failure.unknownSchema name).payload) =
      .object (Failure.unknownSchema name).payload := by
    simp [Failure.payload, Failure.extra, encode, encodeFields, isBookkeeping]
  have hsend : Response.canSend (.object (Failure.unknownSchema name).payload) = true := by
    have hmessage : Text.isWhole (Failure.unknownText name) = true := by
      rw [Failure.unknownText, Text.isWhole_append, Text.isWhole_append, hwhole]
      decide
    have hnames : (["error", "message", "schemaName", "SchemaNotFound"].all Text.isWhole) =
        true := by
      decide
    simp_all [Response.canSend, Failure.payload, Failure.extra, Failure.kind, Failure.message,
      Failure.failureClass, Failure.Class.kind, Value.allFinite, Value.allFiniteFields,
      Value.isWhole, Value.isWholeFields]
  simp only [fetchSchema, hfind, Response.ofFailure, hencode, Response.json_of_canSend hsend]
  rfl

theorem deleteSchema_of_mem (hready : s.store.Ready) (hd : d ∈ s.store.documents)
    (hname : Text.trim d.name = d.name) :
    ∃ left : Service, s.deleteSchema d.name = ⟨⟨204, .nothing⟩, [], left⟩ ∧
      left.store.documents = s.store.others d.name := by
  obtain ⟨hmade, -⟩ := Store.delete_iff hd hname
  obtain ⟨hok, hdocuments⟩ := hmade (hready.takes_others d.name)
  rcases hdelete : s.store.delete d.name with ⟨_ | _, store⟩
  · rw [hdelete] at hok
    cases hok
  · rw [hdelete] at hdocuments
    exact ⟨{ s with store }, by simp only [deleteSchema, hdelete], hdocuments⟩

theorem Shown.isWhole_name (h : Shown d) : Text.isWhole d.name = true := by
  have hsend := h.sendable
  rw [Response.canSend, Bool.and_eq_true] at hsend
  have hwhole := hsend.2
  simp only [StoredSchema.toValue, Value.isWhole, Value.isWholeFields, Bool.and_eq_true] at hwhole
  exact hwhole.1.2

/-- A GET that shows a document asks for the schema of its name. -/
theorem trim_of_fetched {resource : Resource}
    (h : (s.dispatch c "GET" resource payload).response = ⟨200, .json d.toValue⟩) :
    ∃ other, resource = .schema other ∧ Text.trim other = d.name := by
  cases resource with
  | health =>
    simp only [dispatch, health, answer] at h
    have hvalue := eq_of_json h
    simp [StoredSchema.toValue, StoredSchema.nameKey] at hvalue
  | schemas =>
    simp only [dispatch, listSchemas, answer] at h
    cases eq_of_showing h
  | schema other =>
    refine ⟨other, rfl, ?_⟩
    change (s.fetchSchema other).response = _ at h
    unfold fetchSchema at h
    split at h
    · rename_i e hfind
      have hvalue := eq_of_showing h
      simp only [StoredSchema.toValue, Value.object.injEq, List.cons.injEq, Prod.mk.injEq,
        Value.string.injEq, true_and] at hvalue
      rw [← hvalue.1]
      exact (Store.name_of_named? hfind).symm
    · rcases Response.status_json 404 (encode (.object (Failure.unknownSchema other).payload))
        with hstatus | hstatus
      · cases hstatus.symm.trans (congrArg Response.status h)
      · cases hstatus.symm.trans (congrArg Response.status h)
  | process | page | description => cases h

/-- An address that leads to the name of a document reaches the document. -/
theorem reaches_of_ofAddress? (hready : s.store.Ready) (hd : d ∈ s.store.documents)
    (hshown : Shown d) (hname : Text.trim d.name = d.name) {a : Address}
    (h : Resource.ofAddress? a = some (.schema d.name)) : s.Reaches a d where
  fetched c payload := by
    rw [handle_get h]
    exact fetchSchema_of_mem hready hd hshown hname
  deleted c payload := by
    obtain ⟨left, hdelete, hdocuments⟩ := deleteSchema_of_mem hready hd hname
    refine ⟨left, ?_, hdocuments, fun c' payload' => ?_⟩
    · rw [handle_delete h]
      exact hdelete
    · rw [handle_get h]
      refine fetchSchema_of_unused hshown.isWhole_name ?_
      rw [hname, hdocuments]
      simp [Store.others]

/-- An address that leads to no name that is the one of a document misses the document. -/
theorem misses_of_ofAddress? (hd : d ∈ s.store.documents) {a : Address}
    (h : ∀ other, Resource.ofAddress? a = some (.schema other) → Text.trim other ≠ d.name) :
    s.Misses a d where
  notFetched c payload hfetched := by
    cases hresource : Resource.ofAddress? a with
    | none =>
      rw [handle_get_nowhere hresource] at hfetched
      cases hfetched
    | some resource =>
      rw [handle_get hresource] at hfetched
      obtain ⟨other, rfl, hother⟩ := trim_of_fetched hfetched
      exact h other hresource hother
  stays c payload := mem_handle hd (fun other _ hresource => h other hresource) c

/-- No address leads to a name with a slash in it. -/
theorem trim_ne_of_slash {name other : String} (h : '/' ∈ name.toList) {a : Address}
    (hresource : Resource.ofAddress? a = some (.schema other)) : Text.trim other ≠ name := by
  rintro rfl
  rw [Text.trim, String.toList_ofList] at h
  exact (Resource.find?_eq_schema hresource).1 ((Text.trimChars_isInfix other.toList).subset h)

end Service

open Service in
/-- After any requests, a POST to store a schema that is answered with 201 has stored the document
that it shows. As long as no request deletes the document, it stays, and it is reached under the
address of its name if the name is reachable, and missed there if not. A document with a slash in
its name stays whatever the requests are, and is missed under every address. -/
theorem created_reached_iff {s : Service} (hready : s.store.Ready)
    (before : List (Collaborators × Service.Request)) {c : Collaborators} {r : Service.Request}
    (hmethod : Text.upper r.method = "POST")
    (hresource : Resource.ofAddress? r.address = some .schemas)
    (hstatus : ((s.after before).handle c r).response.status = 201) :
    let stored := (s.after before).handle c r
    ∃ d, stored.response = ⟨201, .json d.toValue⟩ ∧
      stored.service.store.documents = (s.after before).store.documents ++ [d] ∧
      (∀ later, (∀ entry ∈ later, entry.2.Spares d.name) →
        let s' := stored.service.after later
        d ∈ s'.store.documents ∧
        (Reachable d.name → s'.Reaches (schemaAddress d.name) d) ∧
        (¬Reachable d.name → s'.Misses (schemaAddress d.name) d)) ∧
      ('/' ∈ d.name.toList → ∀ later a, (stored.service.after later).Misses a d) := by
  intro stored
  have hcreate : (s.after before).handle c r = (s.after before).createSchema r.payload :=
    handle_eq hmethod (by decide) hresource
  rw [hcreate] at hstatus
  obtain ⟨d, hcreates⟩ := exists_creates hstatus
  rw [← hcreate] at hcreates
  obtain ⟨hname, hlength⟩ := hcreates.goodName
  have hmem : d ∈ stored.service.store.documents := by
    rw [hcreates.documents]
    exact List.mem_append_right _ List.mem_cons_self
  have hready' : stored.service.store.Ready := ready_handle (ready_after hready before) c r
  refine ⟨d, hcreates.response, hcreates.documents, fun later hspares => ?_,
    fun hslash later a => ?_⟩
  · have hstays := mem_after hmem hspares
    refine ⟨hstays, fun hreachable => ?_, fun hunreachable => ?_⟩
    · exact reaches_of_ofAddress? (ready_after hready' later) hstays hcreates.shown hname
        (hreachable.ofAddress?_eq hlength)
    · exact misses_of_ofAddress? hstays fun other hother htrim =>
        hunreachable (reachable_of_ofAddress? hlength hother htrim).2
  · have hstays : d ∈ (stored.service.after later).store.documents :=
      mem_after hmem fun _ _ _ _ hother => trim_ne_of_slash hslash hother
    exact misses_of_ofAddress? hstays fun _ hother => trim_ne_of_slash hslash hother

open Service in
/-- A request to store a schema with one field under a name. -/
def creation (name : String) : Service.Request :=
  ⟨"POST", .ofPath "/file-schemas".toList, .json (Text.octets
    ("\x7b\"schemaName\":\"" ++ name ++ "\",\"jsonSchema\":\x7b\"a\":\"string\"\x7d\x7d"))⟩

open Service in
/-- A name with a blank and a letter outside ASCII in it is reached under its address. -/
theorem accented_reached :
    (bareService.handle (replying "") (creation "a é")).response.status = 201 ∧
    Address.ofText? "/file-schemas/a%20%C3%A9" = some (schemaAddress "a é") ∧
    ∃ d, d.name = "a é" ∧ (bareService.handle (replying "") (creation "a é")).service.Reaches
      (schemaAddress "a é") d := by
  have hdecided : (bareService.handle (replying "") (creation "a é")).response.status = 201 ∧
      (bareService.handle (replying "") (creation "a é")).service.store.documents.map
        StoredSchema.name = ["a é"] ∧
      Resource.ofAddress? (creation "a é").address = some .schemas ∧
      Address.ofText? "/file-schemas/a%20%C3%A9" = some (schemaAddress "a é") := by
    decide +kernel
  obtain ⟨hstatus, hnames, hresource, haddress⟩ := hdecided
  obtain ⟨d, -, hdocuments, hreached, -⟩ := created_reached_iff (s := bareService)
    (Store.empty_ready stoppedClock) [] (by decide) hresource hstatus
  have hname : d.name = "a é" := by
    have hlisted := congrArg (List.map StoredSchema.name) hdocuments
    exact (List.cons.inj (hlisted.symm.trans hnames)).1
  have hreachable : Reachable d.name := by
    rw [hname]
    exact reachable_of_plain (by decide) (by decide)
  have hreaches := (hreached [] (List.forall_mem_nil _)).2.1 hreachable
  rw [hname] at hreaches
  exact ⟨hstatus, haddress, d, hname, hreaches⟩

open Service in
/-- A name with a slash in it is taken and listed, but under its address nothing is found, and
nothing is deleted. -/
theorem slash_missed :
    let stored := (bareService.handle (replying "") (creation "abc/def"))
    let get := stored.service.handle (replying "") ⟨"GET", schemaAddress "abc/def", .nothing⟩
    let delete := stored.service.handle (replying "") ⟨"DELETE", schemaAddress "abc/def", .nothing⟩
    stored.response.status = 201 ∧ get.response.status = 404 ∧ delete.response.status = 404 ∧
    delete.service.store.documents.map StoredSchema.name = ["abc/def"] := by
  decide +kernel

end Extraction
