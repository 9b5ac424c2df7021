import Extraction.Failure.Report
import Extraction.Proofs.FencedReplies
import Extraction.Proofs.InlineReach
import Extraction.Proofs.JsonResponse
import Extraction.Proofs.ReplyNumbers

/-!
Runs end with a result or with a failure, but for one case. Integers that are too long to be written
get as far as neither the prompt nor the outline. Data that were nested just deep enough to be read
may be too deep to be written inline, and then nothing is told. Of a problem that is no failure
nothing is told but where it came up.
-/

namespace Extraction

open Run

/-! ### Definitions -/

namespace Run

variable {find : String → Option StoredSchema} {o : Order} {fields definition : Fields}

/-- No integer in a stored definition, or in an inline schema, is too long to be written. -/
structure Writable (find : String → Option StoredSchema) (o : Order) : Prop where
  stored : ∀ name d, find name = some d → (Value.object d.definition).ShortIntegers
  inline : ∀ v ∈ o.inlineSchema, v.ShortIntegers

theorem wrapped_short (hfields : (Value.object fields).ShortIntegers)
    (h : wrapped? fields = some definition) : (Value.object definition).ShortIntegers := by
  -- whatever stands inside a wrapper is short, under either name
  have hinner : ((Value.lookup? "jsonSchema" fields).getD
      (Value.fieldOrNull "json_schema" fields)).ShortIntegers := by
    have hmain := Value.shortIntegers_fieldOrNull hfields "jsonSchema"
    cases hlookup : Value.lookup? "jsonSchema" fields with
    | none => exact Value.shortIntegers_fieldOrNull hfields "json_schema"
    | some v => rwa [Value.fieldOrNull, hlookup] at hmain
  unfold wrapped? at h
  dsimp only at h
  split at h
  · rename_i hobject
    cases h
    rwa [hobject] at hinner
  · cases h

theorem unwrap_short (h : (Value.object fields).ShortIntegers) :
    (Value.object (unwrap fields)).ShortIntegers := by
  unfold unwrap
  split
  · cases hwrapped : wrapped? fields with
    | none => exact h
    | some definition => exact wrapped_short h hwrapped
  · exact h

theorem inlineDefinition_short {v : Value} (hv : v.ShortIntegers)
    (h : inlineDefinition v = .ok definition) : (Value.object definition).ShortIntegers := by
  unfold inlineDefinition at h
  split at h
  · dsimp only at h
    split at h
    · cases h
    · cases h
      exact unwrap_short hv
  · cases h

theorem resolve_short (hwritable : Writable find o)
    (h : resolve find o = .ok (some definition)) : (Value.object definition).ShortIntegers := by
  unfold resolve at h
  split at h
  · cases h
  · split at h
    · rename_i hfind
      cases h
      exact hwritable.stored _ _ hfind
    · cases h
  · rename_i v _ hinline
    obtain ⟨_, hdefinition, heq⟩ := map_eq_ok_iff.1 h
    cases heq
    exact inlineDefinition_short (hwritable.inline v hinline) hdefinition
  · cases h

end Run

/-! ### Replies -/

theorem Reply.read_short {raw : String} {v : Value} (h : Reply.read raw = .ok v) :
    v.ShortIntegers := by
  refine Value.shortIntegers_iff_allLeaves.2 ?_
  refine (Json.readChars_leaves (Reply.read_ok h)).imp fun leaf hleaf => ?_
  cases leaf with
  | int k => exact hleaf
  | array | object => exact hleaf.elim
  | _ => trivial

/-! ### Outcomes -/

namespace Run

variable {p : Pipeline} {find : String → Option StoredSchema} {c : Collaborators} {o : Order}
  {definition : Option Fields} {node : Option Schema.Node} {kind : FileKind} {data : Value}

/-- An operation has a result, or ends with a failure that its client is told about. -/
def Told {α : Type} (outcome : Except Problem α) : Prop :=
  ∀ problem, outcome = .error problem → ∃ f, problem = .failure f

theorem told_failure {α : Type} (f : Failure) : Told (.error (.failure f) : Except Problem α) := by
  rintro _ ⟨⟩
  exact ⟨f, rfl⟩

/-- A part that is written inline reaches as deep as can be read. -/
def Overreaches (cap : Option Int) (v : Value) : Prop :=
  ∃ place part, v.part? place = some part ∧ Markdown.WrittenInline cap v place ∧
    Json.nestingLimit ≤ place.length + part.2.nesting

/-- The data that a run comes to, if it gets through all stages but the last. -/
inductive ComesTo (p : Pipeline) (find : String → Option StoredSchema) (c : Collaborators)
    (o : Order) : Value → Prop
  | of {definition : Option Fields} {node : Option Schema.Node} {kind : FileKind}
    {content : Text.Octets} {text : Option String} {used prompt reply : String}
    {parsed data : Value} (hresolve : resolve find o = .ok definition)
    (hcompile : compile p definition = .ok node)
    (hkind : o.fileName.bind FileKind.ofName? = some kind) (hsource : source c o kind = .ok content)
    (htext : c.readText kind content = .ok text) (hused : Used text used)
    (hprompt : Prompt.extraction? used (definition.map .object) o.format.name = some prompt)
    (hreply : c.complete prompt = .ok reply) (hparsed : Reply.read reply = .ok parsed)
    (hdata : Yields p node parsed data) : ComesTo p find c o data

/-- Integers that were read are short enough to be written, and so are those in the normal form. -/
theorem ComesTo.shortIntegers (h : ComesTo p find c o data) : data.ShortIntegers := by
  obtain ⟨-, -, -, -, -, -, -, -, hparsed, hdata⟩ := h
  exact hdata.shortIntegers (Reply.read_short hparsed)

theorem finish_of_data {text prompt reply : String} {parsed : Value}
    (hreply : c.complete prompt = .ok reply) (hparsed : Reply.read reply = .ok parsed)
    (hdata : Yields p node parsed data) :
    ∃ result : Value → Result,
      finish p c o definition node kind text prompt = (format p o.format data).map result := by
  have hask : ask c prompt = .ok reply := by rw [ask, hreply, mapError_ok]
  refine ⟨fun answer => ⟨o.fileName.getD "", o.format, kind, definition, text, reply, parsed, data,
    answer⟩, ?_⟩
  simp only [finish, hask, hparsed, check_eq_ok_iff.2 hdata, mapError_ok, bind, Except.bind]
  cases format p o.format data <;> rfl

/-- Once a run has come to data, what is left is to format them. -/
theorem ComesTo.run_eq (h : ComesTo p find c o data) :
    ∃ result : Value → Result, (run p find c o).1 = (format p o.format data).map result := by
  obtain ⟨hresolve, hcompile, hkind, hsource, htext, hused, hprompt, hreply, hparsed, hdata⟩ := h
  rw [run_of_plan (plan_eq_ok hresolve hcompile hkind),
    proceed_prompted (extract_eq_ok hsource htext hused) hprompt]
  exact finish_of_data hreply hparsed hdata

/-- A step that can only fail in ways that are told leads where what follows it leads. -/
theorem fails_or_bind {α β : Type} {x : Except Failure α} {f : α → Except Problem β} {q : Prop}
    (h : ∀ a, x = .ok a → (∃ e, f a = .error (.failure e)) ∨ q) :
    (∃ e, x.mapError .failure >>= f = .error (.failure e)) ∨ q := by
  cases x with
  | ok a => exact h a rfl
  | error e => exact .inl ⟨e, rfl⟩

theorem finish_cases (text prompt : String) :
    (∃ f, finish p c o definition node kind text prompt = .error (.failure f)) ∨
      ∃ reply parsed data, c.complete prompt = .ok reply ∧ Reply.read reply = .ok parsed ∧
        Yields p node parsed data := by
  unfold finish
  refine fails_or_bind fun reply hask => fails_or_bind fun parsed hparsed =>
    fails_or_bind fun data hcheck => .inr ?_
  exact ⟨reply, parsed, data, mapError_eq_ok_iff.1 hask, hparsed, check_eq_ok_iff.1 hcheck⟩

theorem of_plan (h : plan p find o = .ok (definition, node, kind)) :
    resolve find o = .ok definition ∧ compile p definition = .ok node ∧
      o.fileName.bind FileKind.ofName? = some kind := by
  obtain ⟨resolved, hresolve, h⟩ := bind_eq_ok_iff.1 h
  obtain ⟨compiled, hcompile, h⟩ := bind_eq_ok_iff.1 h
  split at h
  · cases h
  · rename_i hkind
    cases h
    exact ⟨hresolve, hcompile, hkind⟩

/-- Up to the last stage a run can only fail in ways that are told. -/
theorem fails_or_comesTo (p : Pipeline) (c : Collaborators) (hwritable : Writable find o) :
    (∃ f, (run p find c o).1 = .error (.failure f)) ∨ ∃ data, ComesTo p find c o data := by
  cases hplan : plan p find o with
  | error f => exact .inl ⟨f, by rw [run_of_fault hplan]⟩
  | ok planned =>
    obtain ⟨definition, node, kind⟩ := planned
    obtain ⟨hresolve, hcompile, hkind⟩ := of_plan hplan
    rw [run_of_plan hplan]
    rcases hextract : extract c o kind with ⟨f | used, calls⟩
    · exact .inl ⟨f, by rw [proceed_of_lost_text hextract]⟩
    · obtain ⟨content, text, hsource, htext, hused, -⟩ := extract_eq_ok_iff.1 hextract
      cases hprompt : Prompt.extraction? used (definition.map .object) o.format.name with
      | none =>
        obtain ⟨fields, rfl, hlong⟩ := unwritable_of_no_prompt hprompt
        exact absurd (resolve_short hwritable hresolve) hlong
      | some prompt =>
        rw [proceed_prompted hextract hprompt]
        rcases finish_cases used prompt with hfails | ⟨reply, parsed, data, hreply, hparsed, hdata⟩
        · exact .inl hfails
        · exact .inr ⟨data, .of hresolve hcompile hkind hsource htext hused hprompt hreply hparsed
            hdata⟩

theorem format_nesting_iff {f : OutputFormat} :
    format p f data = .error .nesting ↔ f = .markdown ∧ Overreaches p.cap data := by
  have hpositive : 0 < Json.nestingLimit := by decide
  have hreach : Json.nestingLimit ≤ Markdown.inlineReach p.cap data ↔ Overreaches p.cap data :=
    Markdown.le_inlineReach_iff hpositive
  cases f with
  | json => simp [format]
  | markdown =>
    rw [format, ← hreach]
    constructor
    · intro h
      split at h
      · exact ⟨rfl, ‹_›⟩
      · split at h <;> cases h
    · rintro ⟨-, hle⟩
      exact if_pos hle

theorem exists_format (f : OutputFormat) (h : data.ShortIntegers)
    (hroom : format p f data ≠ .error .nesting) : ∃ answer, format p f data = .ok answer := by
  cases f with
  | json => exact ⟨data, rfl⟩
  | markdown =>
    obtain ⟨text, htext⟩ := Markdown.exists_render p.cap h
    rw [format] at hroom ⊢
    split at hroom
    · exact absurd rfl hroom
    · rename_i hlow
      exact ⟨.string text, by rw [if_neg hlow, htext]⟩

theorem run_told (p : Pipeline) (c : Collaborators) (hwritable : Writable find o) :
    Told (run p find c o).1 ∨ (run p find c o).1 = .error .nesting := by
  rcases fails_or_comesTo p c hwritable with ⟨f, hf⟩ | ⟨data, hdata⟩
  · rw [hf]
    exact .inl (told_failure f)
  · obtain ⟨result, hrun⟩ := hdata.run_eq
    rw [hrun]
    by_cases hroom : format p o.format data = .error .nesting
    · exact .inr (by rw [hroom]; rfl)
    · obtain ⟨answer, hanswer⟩ := exists_format o.format hdata.shortIntegers hroom
      exact .inl (by rw [hanswer]; nofun)

/-- The one thing that stops a run and is not told. -/
theorem run_nesting_iff (p : Pipeline) (c : Collaborators) (hwritable : Writable find o) :
    (run p find c o).1 = .error .nesting ↔
      o.format = .markdown ∧ ∃ data, ComesTo p find c o data ∧ Overreaches p.cap data := by
  constructor
  · intro h
    rcases fails_or_comesTo p c hwritable with ⟨f, hf⟩ | ⟨data, hdata⟩
    · rw [hf] at h
      cases h
    · obtain ⟨result, hrun⟩ := hdata.run_eq
      rw [hrun, map_eq_error_iff] at h
      obtain ⟨hmarkdown, hdeep⟩ := format_nesting_iff.1 h
      exact ⟨hmarkdown, data, hdata, hdeep⟩
  · rintro ⟨hmarkdown, data, hdata, hdeep⟩
    obtain ⟨result, hrun⟩ := hdata.run_eq
    rw [hrun, map_eq_error_iff]
    exact format_nesting_iff.2 ⟨hmarkdown, hdeep⟩

end Run

/-! ### Causes -/

/-- What a client may know of a problem: a failure as it is, and of any other problem nothing. -/
def Problem.masked : Problem → Problem
  | failure f => failure f
  | _ => foreign "" ""

theorem Problem.asFailure_masked (f : Failure) (problem : Problem) :
    problem.masked.asFailure f = problem.asFailure f := by
  cases problem <;> rfl

/-- The collaborators with their problems masked. -/
def Collaborators.masked (c : Collaborators) : Collaborators where
  processImage := c.processImage.map fun process content fileName mediaType =>
    (process content fileName mediaType).mapError Problem.masked
  readText kind content := (c.readText kind content).mapError Problem.masked
  complete prompt := (c.complete prompt).mapError Problem.masked

theorem Collaborators.masked_readText (c : Collaborators) (kind : FileKind)
    (content : Text.Octets) :
    c.masked.readText kind content = (c.readText kind content).mapError Problem.masked := rfl

theorem Collaborators.masked_complete (c : Collaborators) (prompt : String) :
    c.masked.complete prompt = (c.complete prompt).mapError Problem.masked := rfl

namespace Run

variable (p : Pipeline) (find : String → Option StoredSchema) (c : Collaborators) (o : Order)

theorem source_masked (kind : FileKind) :
    source c.masked o kind = (source c o kind).mapError Problem.masked := by
  unfold source Collaborators.masked
  cases kind <;> cases c.processImage <;> rfl

theorem imageCalls_masked (kind : FileKind) : imageCalls c.masked o kind = imageCalls c o kind := by
  unfold imageCalls Collaborators.masked
  cases c.processImage <;> rfl

theorem extract_masked (kind : FileKind) : extract c.masked o kind = extract c o kind := by
  cases hsource : source c o kind with
  | error problem =>
    have hmasked : source c.masked o kind = .error problem.masked := by
      rw [source_masked, hsource, mapError_error]
    rw [extract_of_lost_image hsource, extract_of_lost_image hmasked, imageCalls_masked,
      problem.asFailure_masked]
  | ok content =>
    have hmasked : source c.masked o kind = .ok content := by
      rw [source_masked, hsource, mapError_ok]
    cases htext : c.readText kind content with
    | error problem =>
      have hlost : c.masked.readText kind content = .error problem.masked := by
        rw [c.masked_readText, htext, mapError_error]
      rw [extract_of_lost_text hsource htext, extract_of_lost_text hmasked hlost,
        imageCalls_masked, problem.asFailure_masked]
    | ok text =>
      have hread : c.masked.readText kind content = .ok text := by
        rw [c.masked_readText, htext, mapError_ok]
      have hused : Used text (usableText text) := used_iff.2 rfl
      rw [extract_eq_ok hsource htext hused, extract_eq_ok hmasked hread hused, imageCalls_masked]

theorem ask_masked (prompt : String) : ask c.masked prompt = ask c prompt := by
  rw [ask, ask, c.masked_complete]
  cases c.complete prompt with
  | ok reply => rfl
  | error problem => simp only [mapError_error, problem.asFailure_masked]

/-- A run does not depend on what is masked. -/
theorem run_masked : run p find c.masked o = run p find c o := by
  have hproceed : ∀ definition node kind, proceed p c.masked o definition node kind =
      proceed p c o definition node kind := by
    intro definition node kind
    simp only [proceed, extract_masked, finish, ask_masked]
  simp only [run, hproceed]

end Run

/-- A report with a cause is, but for the cause, the report without one. -/
theorem Failure.Report.ofDetails?_of_cause {a : Failure.Class} {details : List Value}
    {cause : String} {r : Report} (h : ofDetails? a details (some cause) = some r) :
    ofDetails? a details none = some { r with cause := none } := by
  -- beside the cause a class that takes one takes exactly one detail
  rcases details with _ | ⟨v, _ | ⟨w, rest⟩⟩
  · cases a <;> cases h
  · cases a <;> cases h <;> rfl
  · have hcause : causeOf? (w :: rest) (some cause) = none := by cases rest <;> rfl
    cases a <;> simp [ofDetails?, hcause] at h

open Run

/-- A run has a result or ends with a failure, if the integers in its definition can be written and
no part of its data that is written inline reaches too deep. Which problem came up, if it was no
failure, makes no difference to anything in the outcome; and a failure is told as it would be
without a cause. -/
theorem failures_typed {find : String → Option StoredSchema} {o : Order}
    (hwritable : Writable find o) (p : Pipeline) (c : Collaborators) :
    (Told (run p find c o).1 ∨ (run p find c o).1 = .error .nesting) ∧
    ((run p find c o).1 = .error .nesting ↔
      o.format = .markdown ∧ ∃ data, ComesTo p find c o data ∧ Overreaches p.cap data) ∧
    (∀ c' : Collaborators, c'.masked = c.masked → run p find c' o = run p find c o) ∧
    ∀ a details cause r, Failure.Report.ofDetails? a details (some cause) = some r →
      ∃ r', Failure.Report.ofDetails? a details none = some r' ∧
        r'.failureClass = r.failureClass ∧ r'.payload = r.payload := by
  refine ⟨run_told p c hwritable, run_nesting_iff p c hwritable, ?_, ?_⟩
  · intro c' hc
    rw [← run_masked p find c', hc, run_masked]
  · intro a details cause r h
    exact ⟨_, Failure.Report.ofDetails?_of_cause h, rfl, rfl⟩

/-- Collaborators of which the model cannot be reached, with what it says then. -/
def unreachable (said : Problem) : Collaborators :=
  ⟨none, fun _ _ => .ok none, fun _ => .error said⟩

theorem unreachable_untold :
    Writable (fun _ => some optionalDraft)
      { plainOrder with schemaName := some "draft", format := .markdown } ∧
    run ⟨some 1, true⟩ (fun _ => some optionalDraft) (unreachable (.badValue "secret key"))
        { plainOrder with schemaName := some "draft", format := .markdown } =
      run ⟨some 1, true⟩ (fun _ => some optionalDraft) (unreachable (.foreign "OpenAIError" ""))
        { plainOrder with schemaName := some "draft", format := .markdown } ∧
    (run ⟨some 1, true⟩ (fun _ => some optionalDraft) (unreachable (.badValue "secret key"))
        { plainOrder with schemaName := some "draft", format := .markdown }).1 =
      .error (.failure .lostModel) := by
  have hwritable : Writable (fun _ => some optionalDraft)
      { plainOrder with schemaName := some "draft", format := .markdown } := by
    refine ⟨?_, nofun⟩
    rintro name d ⟨⟩
    exact ⟨trivial, trivial⟩
  exact ⟨hwritable, (failures_typed hwritable _ _).2.2.1 _ rfl, rfl⟩

/-- A text of so many opening brackets, and as many closing ones. -/
def brackets (n : Nat) : String :=
  String.ofList (List.replicate n '[' ++ List.replicate n ']')

theorem Json.valueChars_nested (level n : Nat) :
    valueChars compact level (.nested n (.array [])) = some (brackets (n + 1)).toList := by
  induction n generalizing level with
  | zero => rfl
  | succ n ih =>
    have hopen : List.replicate (n + 1 + 1) '[' = '[' :: List.replicate (n + 1) '[' :=
      List.replicate_succ
    have hclose : List.replicate (n + 1 + 1) ']' = List.replicate (n + 1) ']' ++ [']'] :=
      List.replicate_succ'
    rw [Value.nested, valueChars_array_cons, ih (level + 1), itemChars, brackets, brackets, hopen,
      hclose]
    simp [compact, Layout.newline]

/-- A list of lists that are nested just deep enough to be read. -/
def deepLists : Value :=
  .nested 989 (.array [])

theorem read_brackets : Reply.read (brackets Json.nestingLimit) = .ok deepLists := by
  have hempty : (Value.array []).Plain := trivial
  have hplain : deepLists.Plain := Value.plain_nested hempty 989
  have hnesting : deepLists.nesting ≤ Json.nestingLimit := by
    rw [deepLists, Value.nesting_nested]
    decide
  have hchars : Json.valueChars Json.compact 0 deepLists =
      some (brackets Json.nestingLimit).toList := Json.valueChars_nested 0 989
  have hspace : ∀ c ∈ ([] : List Char), Json.isSpace c = true := nofun
  have hblank : ∀ c ∈ ([] : List Char), Text.isBlank c = true := nofun
  have hread := Json.readChars_valueChars false hspace hplain hnesting hchars hspace
  have hbody := Reply.body_bare (Json.inked_valueChars hplain hchars) hblank hblank
  rw [List.append_nil] at hread
  rw [List.nil_append, List.append_nil] at hbody
  exact Reply.read_of_body (by rw [hbody, hread])

/-- A reply that can just be read stops a run and is not told, if there is a cap and the data are to
be outlined. -/
theorem deepLists_untold :
    (run ⟨some 1, false⟩ (fun _ => none) (replying (brackets Json.nestingLimit))
        { plainOrder with format := .markdown }).1 = .error .nesting ∧
      ¬Told (.error .nesting : Except Problem Result) := by
  have hwritable : Writable (fun _ => none) { plainOrder with format := .markdown } :=
    ⟨nofun, nofun⟩
  refine ⟨(run_nesting_iff _ _ hwritable).2 ⟨rfl, deepLists, ?_, ?_⟩, ?_⟩
  · have hink : ∃ ch ∈ "Invoice".toList, Text.isBlank ch = false := ⟨'I', by decide, by decide⟩
    exact .of rfl rfl rfl rfl rfl (.text hink) rfl rfl read_brackets rfl
  · refine ⟨[0], _, rfl, ⟨List.cons_ne_nil _ _, ⟨_, rfl, by nofun⟩, 1, rfl, by decide⟩, ?_⟩
    rw [Value.nesting_nested]
    decide
  · intro htold
    obtain ⟨f, hf⟩ := htold _ rfl
    cases hf

end Extraction
