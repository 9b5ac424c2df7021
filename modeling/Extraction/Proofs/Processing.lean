import Extraction.Proofs.RunStages
import Extraction.Proofs.Wrappers
import Extraction.Service

/-!
Requests to process a document, and the schema that comes in their form. A schema field with
anything but an object in it is turned down before anyone is asked, with two exceptions: null counts
as no schema at all, and a text nested too deeply is not read to its end.
-/

namespace Extraction

open Service

theorem Failure.Class.kind_eq_badDefinition (a : Failure.Class) :
    a.kind = badDefinition.kind ↔ a = badDefinition := by
  cases a <;> decide

namespace Run

variable {p : Pipeline} {find : String → Option StoredSchema} {c : Collaborators} {o : Order}
  {definition : Option Fields} {node : Option Schema.Node} {kind : FileKind}

/-- Whoever needs the text of a document asks for it. -/
theorem extract_calls_ne_nil (c : Collaborators) (o : Order) (kind : FileKind) :
    (extract c o kind).2 ≠ [] := by
  cases hsource : source c o kind with
  | error problem =>
    -- only the image service can keep the content back
    rw [extract_of_lost_image hsource]
    unfold source at hsource
    split at hsource
    · rename_i process hprocess
      simp [imageCalls, hprocess]
    · cases hsource
  | ok content =>
    cases htext : c.readText kind content with
    | error problem => simp [extract_of_lost_text hsource htext]
    | ok text => simp [extract_eq_ok hsource htext (used_iff.2 rfl)]

theorem proceed_calls_ne_nil : (proceed p c o definition node kind).2 ≠ [] := by
  have hcalls := extract_calls_ne_nil c o kind
  rcases hextract : extract c o kind with ⟨f | text, calls⟩
  · rw [hextract] at hcalls
    rwa [proceed_of_lost_text hextract]
  · rw [hextract] at hcalls
    cases hprompt : Prompt.extraction? text (definition.map .object) o.format.name with
    | none => rwa [proceed_unprompted hextract hprompt]
    | some prompt => simp [proceed_prompted hextract hprompt]

/-- Without an inline schema there is no fault in a definition itself. -/
theorem resolve_fault {f : Failure} (hinline : o.inlineSchema = none)
    (h : resolve find o = .error f) : ∃ name, f = .unknownSchema name := by
  unfold resolve at h
  rw [hinline] at h
  split at h
  · rename_i hsome
    cases hsome
  · split at h
    · cases h
    · cases h
      exact ⟨_, rfl⟩
  · rename_i hsome
    cases hsome
  · cases h

/-- The only fault of a definition that resolves is its depth. -/
theorem compile_fault {f : Failure} (h : compile p definition = .error f) :
    ∃ cap, f = .tooDeep cap := by
  cases definition with
  | none => cases h
  | some fields =>
    simp only [compile] at h
    split at h
    · cases h
    · cases h
      exact ⟨_, rfl⟩

/-- What is no object with a field is no schema, under whatever name it is sent. -/
theorem resolve_of_no_definition (find : String → Option StoredSchema) {v : Value}
    (hinline : o.inlineSchema = some v) (hv : ∀ field fields, v ≠ .object (field :: fields)) :
    ∃ message, Text.isWhole message = true ∧
      resolve find o = .error (.badDefinition message) := by
  unfold resolve
  rw [hinline]
  cases givenName o.schemaName with
  | some name => exact ⟨_, by decide, rfl⟩
  | none =>
    cases v with
    | object fields =>
      cases fields with
      | nil => exact ⟨_, by decide, rfl⟩
      | cons field rest => exact absurd rfl (hv field rest)
    | _ => exact ⟨_, by decide, rfl⟩

/-- A run without an inline schema asks someone, or fails for another reason than a faulty
definition. -/
theorem run_without_inline (p : Pipeline) (find : String → Option StoredSchema)
    (c : Collaborators) (hinline : o.inlineSchema = none) :
    (run p find c o).2 ≠ [] ∨
      ∃ f, run p find c o = (.error (.failure f), []) ∧ f.failureClass ≠ .badDefinition := by
  cases hresolve : resolve find o with
  | error f =>
    obtain ⟨name, rfl⟩ := resolve_fault hinline hresolve
    exact .inr ⟨_, run_of_fault (plan_of_unresolved hresolve), nofun⟩
  | ok definition =>
    cases hcompile : compile p definition with
    | error f =>
      obtain ⟨cap, rfl⟩ := compile_fault hcompile
      exact .inr ⟨_, run_of_fault (plan_of_uncompiled hresolve hcompile), nofun⟩
    | ok node =>
      cases hkind : o.fileName.bind FileKind.ofName? with
      | none => exact .inr ⟨_, run_of_fault (plan_of_unsupported hresolve hcompile hkind), nofun⟩
      | some kind =>
        rw [run_of_plan (plan_eq_ok hresolve hcompile hkind)]
        exact .inl proceed_calls_ne_nil

end Run

namespace Service

theorem Response.json_of_canSend {status : Nat} {v : Value} (h : canSend v = true) :
    json status v = ⟨status, .json v⟩ :=
  if_pos h

theorem Response.json_of_not_canSend {status : Nat} {v : Value} (h : canSend v = false) :
    json status v = internalError :=
  if_neg (Bool.not_eq_true _ ▸ h)

variable {s : Service} {c : Collaborators} {payload : Payload} {submission : Submission}

/-- The form of a request is complete, and its file is accepted. -/
structure Accepts (s : Service) (payload : Payload) (submission : Submission) : Prop where
  form : Submission.ofPayload payload = .ok submission
  file : Submission.checkFile s.maxUploadBytes submission.file = .ok ()

theorem Accepts.process (h : s.Accepts payload submission) (c : Collaborators) :
    s.processDocument c payload =
      match submission.order with
      | .error p => s.answer (.ofProblem p)
      | .ok o => s.carryOut c o := by
  cases horder : submission.order <;> simp only [processDocument, h.form, h.file, horder]

theorem ofPayload_form {parts : List Part} {entries : List (String × FormEntry)}
    (h : Form.entries parts = .ok entries) :
    Submission.ofPayload (.form parts) = (Submission.ofEntries entries).mapError .faults := by
  have hentries : Submission.entriesOf (.form parts) = .ok entries := h
  rw [Submission.ofPayload, hentries]

/-- The response to the outcome of a run. -/
def Response.ofOutcome : Except Problem Result → Response
  | .ok r => respondTo r
  | .error p => .ofProblem p

theorem carryOut_eq (s : Service) (c : Collaborators) (o : Order) :
    s.carryOut c o = ⟨.ofOutcome (run s.pipeline s.store.find? c o).1,
      (run s.pipeline s.store.find? c o).2, s⟩ := by
  rcases hrun : run s.pipeline s.store.find? c o with ⟨_ | _, calls⟩ <;>
    simp only [carryOut, hrun, Response.ofOutcome]

/-! ### Schemas that are turned down -/

/-- The exchange in which a schema is turned down: nobody is asked, and nothing changes. -/
def refusal (s : Service) (message : String) : Exchange :=
  s.answer ⟨400, .json (.object
    [("error", .string "InvalidSchemaDefinition"), ("message", .string message)])⟩

theorem answer_badDefinition {message : String} (h : Text.isWhole message = true) :
    s.answer (.ofProblem (.failure (.badDefinition message))) = s.refusal message := by
  have hbody : encode (.object (Failure.badDefinition message).payload) = .object
      [("error", .string "InvalidSchemaDefinition"), ("message", .string message)] := rfl
  have hnames : (["error", "InvalidSchemaDefinition", "message"].all Text.isWhole) = true := by
    decide
  have hsend : Response.canSend (.object
      [("error", .string "InvalidSchemaDefinition"), ("message", .string message)]) = true := by
    simp_all [Response.canSend, Value.allFinite, Value.allFiniteFields, Value.isWhole,
      Value.isWholeFields]
  rw [Response.ofProblem, Response.ofFailure, hbody, Response.json_of_canSend hsend]
  rfl

/-- A response that names a failure tells the kind of the failure. -/
theorem kind_of_ofFailure {f : Failure} {status : Nat} {kind : String} {rest : Fields}
    (h : Response.ofFailure f = ⟨status, .json (.object (("error", .string kind) :: rest))⟩) :
    f.kind = kind := by
  have hname : isBookkeeping "error" = false := by decide
  obtain ⟨more, hbody⟩ :
      ∃ more, encode (.object f.payload) = .object (("error", .string f.kind) :: more) := by
    simp [Failure.payload, encode, encodeFields, hname]
  cases hsend : Response.canSend (encode (.object f.payload)) with
  | false =>
    rw [Response.ofFailure, Response.json_of_not_canSend hsend] at h
    cases h
  | true =>
    rw [Response.ofFailure, Response.json_of_canSend hsend, hbody] at h
    cases h
    rfl

/-- A run without an inline schema never ends with a schema turned down. -/
theorem carryOut_ne_refusal {o : Order} (hinline : o.inlineSchema = none) (message : String) :
    s.carryOut c o ≠ s.refusal message := by
  intro h
  rw [carryOut_eq] at h
  rcases Run.run_without_inline s.pipeline s.store.find? c hinline with hcalls | ⟨f, hrun, hclass⟩
  · exact hcalls (congrArg Exchange.calls h)
  · rw [hrun] at h
    have hname : f.failureClass.kind = Failure.Class.badDefinition.kind :=
      kind_of_ofFailure (congrArg Exchange.response h)
    exact hclass ((Failure.Class.kind_eq_badDefinition _).1 hname)

/-- The order for a submission, with this schema in it. -/
def Submission.orderWith (submission : Submission) (schema : Option Value) : Order :=
  ⟨some submission.file.fileName, submission.file.content, submission.format,
    Submission.trimmedName submission.schemaName, schema⟩

variable {text : String}

/-- The order when there is a text in the schema field. -/
theorem order_of_text (htext : submission.schemaText = some text)
    (hblank : Text.isBlankText text = false) :
    submission.order =
      match Json.read true text with
      | .ok v => .ok (submission.orderWith (Submission.present v))
      | .error .nesting => .error .nesting
      | .error _ => .error (.failure (.badDefinition "The 'schema' field is not valid JSON.")) := by
  simp only [Submission.order, Submission.inlineSchema, htext, hblank]
  rcases Json.read true text with (_ | _ | _ | _) | v <;> rfl

theorem Accepts.process_text (h : s.Accepts payload submission) (c : Collaborators)
    (htext : submission.schemaText = some text) (hblank : Text.isBlankText text = false) :
    s.processDocument c payload =
      match Json.read true text with
      | .ok v => s.carryOut c (submission.orderWith (Submission.present v))
      | .error .nesting => s.answer .internalError
      | .error _ => s.refusal "The 'schema' field is not valid JSON." := by
  have hrefusal := answer_badDefinition (s := s)
    (by decide : Text.isWhole "The 'schema' field is not valid JSON." = true)
  rw [h.process, order_of_text htext hblank]
  rcases Json.read true text with (_ | _ | _ | _) | v
  · exact hrefusal
  · exact hrefusal
  · exact hrefusal
  · rfl
  · rfl

theorem internalError_ne_refusal (message : String) :
    s.answer .internalError ≠ s.refusal message := by
  intro h
  cases congrArg (fun e => e.response.status) h

/-- A value other than null and other than an object with a field is turned down. -/
theorem carryOut_of_no_definition (s : Service) (c : Collaborators) (submission : Submission)
    {v : Value} (hnull : v ≠ .null) (hobject : ∀ field fields, v ≠ .object (field :: fields)) :
    ∃ message, s.carryOut c (submission.orderWith (Submission.present v)) = s.refusal message := by
  have hinline : (submission.orderWith (Submission.present v)).inlineSchema = some v := by
    cases v <;> first | exact absurd rfl hnull | rfl
  obtain ⟨message, hwhole, hresolve⟩ := Run.resolve_of_no_definition s.store.find? hinline hobject
  refine ⟨message, ?_⟩
  rw [← answer_badDefinition hwhole, carryOut_eq,
    Run.run_of_fault (Run.plan_of_unresolved hresolve)]
  rfl

end Service

open Service

/-- A schema field with a text that is not the JSON text of an object with a field is turned down
with nobody asked, but for two cases: the text of null counts as no schema, and a text nested too
deeply comes to an internal error. -/
theorem schema_refused_iff {s : Service} {payload : Payload} {submission : Submission}
    (h : s.Accepts payload submission) (c : Collaborators) {text : String}
    (htext : submission.schemaText = some text) (hblank : Text.isBlankText text = false)
    (hobject : ∀ field fields, Json.read true text ≠ .ok (.object (field :: fields))) :
    ((∃ message, s.processDocument c payload = s.refusal message) ↔
      Json.read true text ≠ .ok .null ∧ Json.read true text ≠ .error .nesting) ∧
    (Json.read true text = .ok .null →
      s.processDocument c payload = s.carryOut c (submission.orderWith none)) ∧
    (Json.read true text = .error .nesting →
      s.processDocument c payload = s.answer .internalError) := by
  rw [h.process_text c htext hblank]
  cases hread : Json.read true text with
  | error fault =>
    cases fault with
    | nesting => simp [internalError_ne_refusal]
    | malformed | longInteger | constant =>
      refine ⟨iff_of_true ⟨_, rfl⟩ ⟨nofun, nofun⟩, nofun, nofun⟩
  | ok v =>
    rw [hread] at hobject
    by_cases hnull : v = .null
    · subst hnull
      have hrefused := carryOut_ne_refusal (s := s) (c := c)
        (o := submission.orderWith (Submission.present .null)) rfl
      exact ⟨iff_of_false (not_exists.2 hrefused) fun hne => hne.1 rfl, fun _ => rfl, nofun⟩
    · have hrefused := carryOut_of_no_definition s c submission hnull
        fun field fields hv => hobject field fields (congrArg Except.ok hv)
      have hread' : Except.ok v ≠ (.ok .null : Except Json.Fault Value) :=
        fun hv => hnull (Except.ok.inj hv)
      exact ⟨iff_of_true hrefused ⟨hread', nofun⟩, fun hv => absurd hv hread', nofun⟩

/-- A service that accepts files of one octet and has no schemas. -/
def bareService : Service :=
  ⟨⟨none, false⟩, 1, .empty stoppedClock⟩

/-- A form with a file and a text in the schema field. -/
def schemaForm (schema : String) : List Part :=
  [⟨"file", some "invoice.pdf", [37]⟩, ⟨"schema", none, Text.octets schema⟩]

def schemaSubmission (schema : String) : Submission :=
  ⟨⟨"invoice.pdf", [37]⟩, .json, none, some schema⟩

theorem accepts_schemaForm (schema : String) (h : schema ≠ "")
    (hentries : Form.entries (schemaForm schema) =
      .ok [("file", .file ⟨"invoice.pdf", [37]⟩), ("schema", .text schema)]) :
    bareService.Accepts (.form (schemaForm schema)) (schemaSubmission schema) := by
  refine ⟨?_, rfl⟩
  rw [ofPayload_form hentries]
  have hschema : Submission.field? "schema" [("file", .file ⟨"invoice.pdf", [37]⟩),
      ("schema", .text schema)] = some (.text schema) := by
    simp [Submission.field?, h]
  simp only [Submission.ofEntries, Submission.read, hschema]
  rfl

theorem list_refused :
    bareService.Accepts (.form (schemaForm "[1]")) (schemaSubmission "[1]") ∧
    ∃ message, bareService.processDocument (replying "\x7b\x7d") (.form (schemaForm "[1]")) =
      bareService.refusal message := by
  have haccepts := accepts_schemaForm "[1]" (by decide) (by decide +kernel)
  have hread : Json.read true "[1]" = .ok (.array [.int 1]) := rfl
  refine ⟨haccepts, (schema_refused_iff haccepts _ rfl (by decide) ?_).1.2 ⟨?_, ?_⟩⟩
  · rw [hread]
    nofun
  · rw [hread]
    nofun
  · rw [hread]
    nofun

/-- With null in the schema field the document is processed as if there were no such field. -/
theorem null_schema_processed :
    bareService.Accepts (.form (schemaForm "null")) (schemaSubmission "null") ∧
    Text.isBlankText "null" = false ∧ Json.read true "null" = .ok .null ∧
    (bareService.processDocument (replying "\x7b\x7d") (.form (schemaForm "null"))).response =
      ⟨200, .json (.object [])⟩ ∧
    (bareService.processDocument (replying "\x7b\x7d") (.form (schemaForm "null"))).calls ≠ [] := by
  have haccepts := accepts_schemaForm "null" (by decide) (by decide +kernel)
  rw [haccepts.process]
  exact ⟨haccepts, by decide, rfl, rfl, List.cons_ne_nil _ _⟩

end Extraction
