import Extraction.Proofs.Chaining
import Extraction.Proofs.JsonPrinter
import Extraction.Run

/-!
The stages of a run: who is asked what, in which order, and which fault wins. Nobody is asked before
the schema is compiled and the kind of the file is known; the image service is asked before the text
is extracted, and the model last.
-/

namespace Extraction

open Text (Octets)

namespace Run

variable {p : Pipeline} {find : String → Option StoredSchema} {c : Collaborators} {o : Order}
  {definition : Option Fields} {node : Option Schema.Node} {kind : FileKind}

/-! ### The plan -/

theorem plan_of_unresolved {f : Failure} (h : resolve find o = .error f) :
    plan p find o = .error f := by
  rw [plan, h]
  rfl

theorem plan_of_uncompiled {f : Failure} (hresolve : resolve find o = .ok definition)
    (h : compile p definition = .error f) : plan p find o = .error f := by
  simp only [plan, hresolve, bind, Except.bind, h]

theorem plan_of_unsupported (hresolve : resolve find o = .ok definition)
    (hcompile : compile p definition = .ok node) (h : o.fileName.bind FileKind.ofName? = none) :
    plan p find o = .error (.unsupportedFile o.fileName) := by
  simp only [plan, hresolve, bind, Except.bind, hcompile]
  rw [h]

theorem plan_eq_ok (hresolve : resolve find o = .ok definition)
    (hcompile : compile p definition = .ok node)
    (h : o.fileName.bind FileKind.ofName? = some kind) :
    plan p find o = .ok (definition, node, kind) := by
  simp only [plan, hresolve, bind, Except.bind, hcompile]
  rw [h]

/-! ### The text -/

/-- What the text is extracted from: what the image service returns for an image, if there is such
a service, and else the content of the file. -/
def source (c : Collaborators) (o : Order) (kind : FileKind) : Except Problem Octets :=
  match kind, c.processImage with
  | .image, some process =>
    process o.content (o.fileName.getD "") (FileName.mediaType (o.fileName.getD ""))
  | _, _ => .ok o.content

/-- The question to the image service; none unless the file is an image and there is a service. -/
def imageCalls (c : Collaborators) (o : Order) (kind : FileKind) : List Call :=
  if kind = .image ∧ c.processImage.isSome = true then
    [.processImage o.content (o.fileName.getD "") (FileName.mediaType (o.fileName.getD ""))]
  else []

/-- The text that is used of what was extracted: the extracted text itself, or the empty one if
there is none or all its characters are blank. -/
inductive Used : Option String → String → Prop
  | text {t : String} (hink : ∃ ch ∈ t.toList, Text.isBlank ch = false) : Used (some t) t
  | blank {t : String} (hblank : ∀ ch ∈ t.toList, Text.isBlank ch = true) : Used (some t) ""
  | none : Used .none ""

theorem used_iff {text : Option String} {used : String} :
    Used text used ↔ used = usableText text := by
  cases text with
  | none =>
    constructor
    · rintro ⟨⟩
      rfl
    · rintro rfl
      exact .none
  | some t =>
    rw [usableText, Text.isBlankText]
    constructor
    · rintro (⟨ch, hch, hink⟩ | hblank)
      · rw [if_neg fun hall => ?_]
        rw [List.all_eq_true.1 hall ch hch] at hink
        cases hink
      · rw [if_pos (List.all_eq_true.2 hblank)]
    · rintro rfl
      split
      · rename_i hall
        exact .blank (List.all_eq_true.1 hall)
      · rename_i hsome
        obtain ⟨ch, hch, hink⟩ := List.all_eq_false.1 (Bool.eq_false_iff.2 hsome)
        exact .text ⟨ch, hch, Bool.eq_false_iff.2 hink⟩

theorem prepare_eq (c : Collaborators) (o : Order) (kind : FileKind) :
    prepare c o kind = (source c o kind, imageCalls c o kind) := by
  unfold prepare source imageCalls
  cases kind <;> cases c.processImage <;> simp

theorem extract_of_lost_image {problem : Problem} (h : source c o kind = .error problem) :
    extract c o kind = (.error (problem.asFailure extractionFailed), imageCalls c o kind) := by
  rw [extract, prepare_eq, h]

theorem extract_of_lost_text {content : Octets} {problem : Problem}
    (hsource : source c o kind = .ok content) (h : c.readText kind content = .error problem) :
    extract c o kind = (.error (problem.asFailure extractionFailed),
      imageCalls c o kind ++ [.readText kind content]) := by
  simp only [extract, prepare_eq, hsource, h]

theorem extract_eq_ok {content : Octets} {text : Option String} {used : String}
    (hsource : source c o kind = .ok content) (h : c.readText kind content = .ok text)
    (hused : Used text used) :
    extract c o kind = (.ok used, imageCalls c o kind ++ [.readText kind content]) := by
  simp only [extract, prepare_eq, hsource, h, used_iff.1 hused]

theorem extract_eq_ok_iff {used : String} {calls : List Call} :
    extract c o kind = (.ok used, calls) ↔
      ∃ content text, source c o kind = .ok content ∧ c.readText kind content = .ok text ∧
        Used text used ∧ calls = imageCalls c o kind ++ [.readText kind content] := by
  cases hsource : source c o kind with
  | error problem => simp [extract_of_lost_image hsource]
  | ok content =>
    cases htext : c.readText kind content with
    | error problem => simp [extract_of_lost_text hsource htext, htext]
    | ok text =>
      have hextract := extract_eq_ok hsource htext (used_iff.2 rfl)
      simp [hextract, htext, used_iff, eq_comm]

/-! ### The reply -/

/-- The data that a parsed reply yields: its normal form if there is a schema, else the reply. -/
def Yields (p : Pipeline) (node : Option Schema.Node) (parsed data : Value) : Prop :=
  match node with
  | none => data = parsed
  | some node => verdict p node parsed = .accepted data

theorem check_eq_ok_iff {parsed data : Value} :
    check p node parsed = .ok data ↔ Yields p node parsed data := by
  cases node with
  | none => simp [check, Yields, eq_comm]
  | some node =>
    simp only [check, Yields]
    cases verdict p node parsed <;> simp

/-- The schema holds an integer that is too long to be written. -/
def Unwritable (definition : Option Fields) : Prop :=
  ∃ fields, definition = some fields ∧ ¬(Value.object fields).ShortIntegers

theorem unwritable_of_no_prompt {text format : String}
    (h : Prompt.extraction? text (definition.map .object) format = none) :
    Unwritable definition := by
  cases definition with
  | none => simp [Prompt.extraction?] at h
  | some fields =>
    refine ⟨fields, rfl, ?_⟩
    intro hshort
    obtain ⟨json, hjson⟩ := Json.exists_print Json.indented hshort
    simp [Prompt.extraction?, hjson] at h

theorem proceed_unprompted {text : String} {calls : List Call}
    (hextract : extract c o kind = (.ok text, calls))
    (hprompt : Prompt.extraction? text (definition.map .object) o.format.name = none) :
    proceed p c o definition node kind = (.error .longInteger, calls) := by
  simp only [proceed, hextract, hprompt]

theorem proceed_prompted {text prompt : String} {calls : List Call}
    (hextract : extract c o kind = (.ok text, calls))
    (hprompt : Prompt.extraction? text (definition.map .object) o.format.name = some prompt) :
    proceed p c o definition node kind =
      (finish p c o definition node kind text prompt, calls ++ [.complete prompt]) := by
  simp only [proceed, hextract, hprompt]

theorem proceed_of_lost_text {f : Failure} {calls : List Call}
    (h : extract c o kind = (.error f, calls)) :
    proceed p c o definition node kind = (.error (.failure f), calls) := by
  simp only [proceed, h]

theorem run_of_fault {f : Failure} (h : plan p find o = .error f) :
    run p find c o = (.error (.failure f), []) := by
  rw [run, h]

theorem run_of_plan (h : plan p find o = .ok (definition, node, kind)) :
    run p find c o = proceed p c o definition node kind := by
  rw [run, h]

end Run

open Run

end Extraction
