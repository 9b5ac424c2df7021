import Extraction.Proofs.CreatedSchemas
import Extraction.Proofs.Wrappers

/-!
The list of schemas over whole runs of the service. Whatever the requests are, the documents have
different names, in the order of their creation, and change only when one is stored or deleted. A
document that cannot be shown is stored all the same; as long as it is there, the list cannot be
shown either.
-/

namespace Extraction

open Service

/-! ### Stores in memory -/

namespace Store

variable {s : Store} {before after : List StoredSchema} {d : StoredSchema}

/-- A store in memory takes every document under a new name. -/
theorem create_inMemory (hplace : s.place = none) {name : String}
    (hname : Text.trim name ∉ s.documents.map StoredSchema.name) (description : Option String)
    (definition : Fields) :
    let d : StoredSchema := ⟨Text.trim name, description, definition, s.clock.now⟩
    s.create name (StoredSchema.descriptionValue description) (.object definition) =
      (.ok d, { s with documents := s.documents ++ [d], clock := s.clock.advance }) := by
  have hticked : ({ s with clock := s.clock.advance } : Store).place = none := hplace
  exact create_new hname (s.asked_document name description definition)
    (commit_inMemory hticked _)

theorem delete_inMemory (hplace : s.place = none) {name : String}
    (hname : Text.trim name ∈ s.documents.map StoredSchema.name) :
    s.delete name = (.ok (), { s with documents := s.others (Text.trim name) }) := by
  rw [delete_known hname, commit_inMemory hplace]

/-- The documents but one, in their order. -/
theorem others_eq (hnodup : (s.documents.map StoredSchema.name).Nodup)
    (h : s.documents = before ++ d :: after) : s.others d.name = before ++ after := by
  rw [h, List.map_append, List.map_cons, List.nodup_middle, List.nodup_cons,
    ← List.map_append] at hnodup
  have hne : ∀ e ∈ before ++ after, decide (e.name ≠ d.name) = true := by
    intro e he
    refine decide_eq_true ?_
    intro hname
    exact hnodup.1 (hname ▸ List.mem_map_of_mem he)
  rw [List.forall_mem_append] at hne
  have hd : decide (d.name ≠ d.name) = false := decide_eq_false (not_not_intro rfl)
  rw [others, h, List.filter_append, List.filter_cons, hd, List.filter_eq_self.2 hne.1,
    List.filter_eq_self.2 hne.2]
  rfl

/-- What a run of requests keeps of a store in memory with a clock. -/
structure Orderly (clock : Clock) (s : Store) : Prop where
  inMemory : s.place = none
  time : s.clock.time = clock.time
  nodup : (s.documents.map StoredSchema.name).Nodup
  goodName : ∀ d ∈ s.documents, Creation.GoodName d.name
  nonempty : ∀ d ∈ s.documents, d.definition ≠ []
  /-- The documents stand in the order of the readings at their creation, all of them past. -/
  chronological : ∃ readings : List Nat, readings.Pairwise (· < ·) ∧
    (∀ k ∈ readings, k < s.clock.readings) ∧
    s.documents.map StoredSchema.createdAt = readings.map clock.time

theorem empty_orderly (clock : Clock) : (empty clock).Orderly clock where
  inMemory := rfl
  time := rfl
  nodup := List.nodup_nil
  goodName := nofun
  nonempty := nofun
  chronological := ⟨[], .nil, nofun, rfl⟩

variable {clock : Clock}

theorem Orderly.append (h : s.Orderly clock) (hnew : d.name ∉ s.documents.map StoredSchema.name)
    (hname : Creation.GoodName d.name) (hdefinition : d.definition ≠ [])
    (hcreated : d.createdAt = s.clock.now) :
    ({ s with documents := s.documents ++ [d], clock := s.clock.advance } : Store).Orderly
      clock where
  inMemory := h.inMemory
  time := h.time
  nodup := nodup_names_append h.nodup hnew
  goodName := List.forall_mem_append.2 ⟨h.goodName, List.forall_mem_singleton.2 hname⟩
  nonempty := List.forall_mem_append.2 ⟨h.nonempty, List.forall_mem_singleton.2 hdefinition⟩
  chronological := by
    obtain ⟨readings, hpairwise, hpast, hreadings⟩ := h.chronological
    refine ⟨readings ++ [s.clock.readings], ?_, ?_, ?_⟩
    · rw [List.pairwise_append]
      refine ⟨hpairwise, List.pairwise_singleton _ _, fun k hk => ?_⟩
      exact List.forall_mem_singleton.2 (hpast k hk)
    · refine List.forall_mem_append.2 ⟨fun k hk => Nat.lt_succ_of_lt (hpast k hk), ?_⟩
      exact List.forall_mem_singleton.2 (Nat.lt_succ_self _)
    · simp only [List.map_append, List.map_singleton, hreadings, hcreated, Clock.now, h.time]

theorem Orderly.sublist (h : s.Orderly clock) {documents : List StoredSchema}
    (hdocuments : documents.Sublist s.documents) :
    ({ s with documents } : Store).Orderly clock where
  inMemory := h.inMemory
  time := h.time
  nodup := h.nodup.sublist (hdocuments.map _)
  goodName d hd := h.goodName d (hdocuments.subset hd)
  nonempty d hd := h.nonempty d (hdocuments.subset hd)
  chronological := by
    obtain ⟨readings, hpairwise, hpast, hreadings⟩ := h.chronological
    have hkept := hdocuments.map StoredSchema.createdAt
    rw [hreadings, List.sublist_map_iff] at hkept
    obtain ⟨kept, hsublist, hkept⟩ := hkept
    exact ⟨kept, hpairwise.sublist hsublist, fun k hk => hpast k (hsublist.subset hk), hkept⟩

end Store

/-! ### Showing documents -/

namespace Service

theorem canSend_documents (documents : List StoredSchema) :
    Response.canSend (.array (documents.map StoredSchema.toValue)) = true ↔
      ∀ d ∈ documents, Response.canSend d.toValue = true := by
  simp only [Response.canSend, Value.allFinite, Value.isWhole, Bool.and_eq_true,
    Value.allFiniteItems_iff, Value.isWholeItems_iff, List.forall_mem_map]
  exact forall₂_and.symm

/-- A value is shown if all the documents in it can be shown, and else there is an error. -/
theorem showing_iff (status : Nat) {documents : List StoredSchema} {v : Value}
    (hsend : Response.canSend v = true ↔ ∀ d ∈ documents, Response.canSend d.toValue = true) :
    ((∀ d ∈ documents, Shown d) → showing status documents v = ⟨status, .json v⟩) ∧
    ((¬∀ d ∈ documents, Shown d) → showing status documents v = .internalError) := by
  constructor
  · intro h
    have hshallow : documents.all StoredSchema.isShallow = true :=
      List.all_eq_true.2 fun d hd => (h d hd).shallow
    rw [showing, if_pos hshallow, Response.json_of_canSend (hsend.2 fun d hd => (h d hd).sendable)]
  · intro h
    unfold showing
    split
    · rename_i hshallow
      refine Response.json_of_not_canSend (Bool.eq_false_iff.2 fun hv => h fun d hd => ?_)
      exact ⟨List.all_eq_true.1 hshallow d hd, hsend.1 hv d hd⟩
    · rfl

theorem showing_one (status : Nat) (d : StoredSchema) :
    (Shown d → showing status [d] d.toValue = ⟨status, .json d.toValue⟩) ∧
    (¬Shown d → showing status [d] d.toValue = .internalError) := by
  have hsend : Response.canSend d.toValue = true ↔
      ∀ e ∈ [d], Response.canSend e.toValue = true := by
    rw [List.forall_mem_singleton]
  have h := showing_iff status hsend
  rwa [List.forall_mem_singleton] at h

/-! ### Single requests -/

variable {s : Service} {clock : Clock}

/-- The service with one document more, at whose creation the clock was read. -/
def adding (s : Service) (d : StoredSchema) : Service :=
  { s with store :=
    { s.store with documents := s.store.documents ++ [d], clock := s.store.clock.advance } }

/-- The service with these documents. -/
def holding (s : Service) (documents : List StoredSchema) : Service :=
  { s with store := { s.store with documents } }

/-- What a request does to the documents of a service. Nothing is said to be stored or deleted that
is not. A document that was stored is shown if it can be shown. -/
inductive Changes (s : Service) (r : Request) (e : Exchange) : Prop
  | kept (hservice : e.service = s) (hidle : e.response.Idle)
  | added (d : StoredSchema) (hmethod : Text.upper r.method = "POST")
    (hresource : Resource.ofAddress? r.address = some .schemas)
    (hservice : e.service = s.adding d)
    (hnew : d.name ∉ s.store.documents.map StoredSchema.name)
    (hname : Creation.GoodName d.name) (hdefinition : d.definition ≠ [])
    (hcreated : d.createdAt = s.store.clock.now)
    (hshown : Shown d → e.response = ⟨201, .json d.toValue⟩)
    (hhidden : ¬Shown d → e.response = .internalError)
  | removed (name : String) (before after : List StoredSchema) (d : StoredSchema)
    (hmethod : Text.upper r.method = "DELETE")
    (hresource : Resource.ofAddress? r.address = some (.schema name))
    (hname : Text.trim name = d.name) (hdocuments : s.store.documents = before ++ d :: after)
    (hservice : e.service = s.holding (before ++ after)) (hresponse : e.response = ⟨204, .nothing⟩)

theorem createSchema_changes (h : s.store.Orderly clock) {r : Request}
    (hmethod : Text.upper r.method = "POST")
    (hresource : Resource.ofAddress? r.address = some .schemas) :
    Changes s r (s.createSchema r.payload) := by
  unfold createSchema
  split
  · rename_i hpayload
    exact .kept rfl (Creation.idle_of_ofPayload hpayload)
  · rename_i creation hpayload
    obtain ⟨hgood, hdefinition⟩ := Creation.wellFormed_of_ofPayload hpayload
    by_cases hname : Text.trim creation.name ∈ s.store.documents.map StoredSchema.name
    · rw [Store.create_taken hname]
      exact .kept rfl (Response.idle_ofProblem (.failure (.schemaExists (Text.trim creation.name))))
    · rw [Store.create_inMemory h.inMemory hname]
      obtain ⟨hshown, hhidden⟩ := showing_one 201 ⟨Text.trim creation.name, creation.description,
        creation.definition, s.store.clock.now⟩
      refine .added _ hmethod hresource rfl hname ?_ hdefinition rfl hshown hhidden
      rwa [← hgood.trimmed] at hgood

theorem deleteSchema_changes (h : s.store.Orderly clock) {r : Request} {name : String}
    (hmethod : Text.upper r.method = "DELETE")
    (hresource : Resource.ofAddress? r.address = some (.schema name)) :
    Changes s r (s.deleteSchema name) := by
  unfold deleteSchema
  by_cases hname : Text.trim name ∈ s.store.documents.map StoredSchema.name
  · obtain ⟨d, hd, hdname⟩ := List.mem_map.1 hname
    obtain ⟨before, after, hdocuments⟩ := List.append_of_mem hd
    have hothers := Store.others_eq h.nodup hdocuments
    rw [Store.delete_inMemory h.inMemory hname, ← hdname, hothers]
    exact .removed name before after d hmethod hresource hdname.symm hdocuments rfl rfl
  · rw [Store.delete_unknown hname]
    exact .kept rfl (Response.idle_ofProblem (.failure (.unknownSchema (Text.trim name))))

theorem handle_changes (h : s.store.Orderly clock) (c : Collaborators) (r : Request) :
    Changes s r (s.handle c r) := by
  have hhandled := s.handle_handled c r
  generalize s.handle c r = exchange at hhandled ⊢
  cases hhandled with
  | kept hservice hidle => exact .kept hservice hidle
  | stored hmethod hresource => exact createSchema_changes h hmethod hresource
  | deleted hmethod hresource => exact deleteSchema_changes h hmethod hresource

theorem Changes.orderly {r : Request} {e : Exchange} (hchanges : Changes s r e)
    (h : s.store.Orderly clock) : e.service.store.Orderly clock := by
  cases hchanges with
  | kept hservice => exact hservice ▸ h
  | added d _ _ hservice hnew hname hdefinition hcreated =>
    rw [hservice]
    exact h.append hnew hname hdefinition hcreated
  | removed name before after d _ _ _ hdocuments hservice =>
    rw [hservice]
    refine h.sublist ?_
    rw [hdocuments]
    exact (List.Sublist.refl before).append (List.sublist_cons_self d after)

/-! ### Runs -/

theorem orderly_after (h : s.store.Orderly clock) (requests : List (Collaborators × Request)) :
    (s.after requests).store.Orderly clock :=
  after_keeps (motive := fun s => s.store.Orderly clock) h
    fun _ hs entry _ => (handle_changes hs entry.1 entry.2).orderly hs

/-- What a service shows of its documents, and how they are. -/
structure Lists (clock : Clock) (s : Service) : Prop where
  nodup : (s.store.documents.map StoredSchema.name).Nodup
  goodName : ∀ d ∈ s.store.documents, Creation.GoodName d.name
  nonempty : ∀ d ∈ s.store.documents, (Value.object d.definition).kept ≠ .object []
  /-- The documents stand in the order in which the clock was read at their creation. -/
  chronological : ∃ readings : List Nat, readings.Pairwise (· < ·) ∧
    s.store.documents.map StoredSchema.createdAt = readings.map clock.time
  counted : ∀ (c : Collaborators) (r : Request), Text.upper r.method = "GET" →
    Resource.ofAddress? r.address = some .health → (s.handle c r).response =
      ⟨200, .json (.object [("status", .string "ok"),
        ("stored_schemas", .int s.store.documents.length)])⟩
  listed : ∀ (c : Collaborators) (r : Request), Text.upper r.method = "GET" →
    Resource.ofAddress? r.address = some .schemas →
    ((∀ d ∈ s.store.documents, Shown d) → (s.handle c r).response =
      ⟨200, .json (.array (s.store.documents.map StoredSchema.toValue))⟩) ∧
    ((¬∀ d ∈ s.store.documents, Shown d) → (s.handle c r).response = .internalError)

theorem lists_of_orderly (h : s.store.Orderly clock) : Lists clock s where
  nodup := h.nodup
  goodName := h.goodName
  nonempty d hd hempty := by
    rw [StoredSchema.kept_definition] at hempty
    exact StoredSchema.keptForm_ne_nil (h.nonempty d hd) (Value.object.inj hempty)
  chronological := by
    obtain ⟨readings, hpairwise, -, hreadings⟩ := h.chronological
    exact ⟨readings, hpairwise, hreadings⟩
  counted c r hmethod hresource := by
    rw [handle_eq hmethod (by decide) hresource]
    rfl
  listed c r hmethod hresource := by
    rw [handle_eq hmethod (by decide) hresource]
    exact showing_iff 200 (canSend_documents s.store.documents)

/-- After any requests to a service that started with an empty store in memory, the documents have
different names, trimmed and long enough, definitions that are not empty and the order of their
creation; they are counted, and listed if all of them can be shown. Only a POST that stores a schema
adds a document, at the end, and only a DELETE removes one, and leaves the others in their order. A
POST is answered with the document that it added, and with an error if it cannot be shown. -/
theorem listed_after_requests (pipeline : Pipeline) (maxUploadBytes : Int) (clock : Clock)
    (requests : List (Collaborators × Request)) :
    let s := Service.after ⟨pipeline, maxUploadBytes, .empty clock⟩ requests
    Lists clock s ∧ ∀ c r, Changes s r (s.handle c r) := by
  intro s
  have horderly : s.store.Orderly clock := orderly_after (Store.empty_orderly clock) requests
  exact ⟨lists_of_orderly horderly, handle_changes horderly⟩

/-- A request to store a schema whose description is half of a surrogate pair. -/
def halfDescribed : Request :=
  ⟨"POST", .ofPath "/file-schemas".toList, .json (Text.octets
    ("\x7b\"schemaName\":\"abc\",\"description\":\"\\ud800\"," ++
      "\"jsonSchema\":\x7b\"a\":\"string\"\x7d\x7d"))⟩

/-- It ends with an error although the schema is stored, and then the list cannot be shown. -/
theorem hidden_stored :
    let stored := bareService.handle (replying "") halfDescribed
    let list := stored.service.handle (replying "")
      ⟨"GET", .ofPath "/file-schemas".toList, .nothing⟩
    stored.response.status = 500 ∧ list.response.status = 500 ∧
    bareService.store.documents.map StoredSchema.name = [] ∧
    stored.service.store.documents.map StoredSchema.name = ["abc"] := by
  decide +kernel

end Service

end Extraction
