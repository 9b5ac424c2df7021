import Extraction.Proofs.Base64RoundTrip
import Extraction.Proofs.Chaining
import Extraction.Proofs.Trimming
import Extraction.Recognition
import Mathlib.Data.List.Forall2

/-!
The chain of recognition over a whole document. A page with a text layer asks nobody; a scan asks
the vision model once, if there is one, and the engine once or twice if that does not see enough.
Which answer belongs to which page is fixed by the number of calls that the earlier pages made.
-/

namespace Extraction.Recognition

open Text (Octets isBlankText trim)

/-- Calls, and those that were made after them. -/
instance : Append Calls :=
  ⟨fun earlier later => ⟨earlier.vision ++ later.vision, earlier.engine ++ later.engine⟩⟩

namespace Calls

theorem append_vision (earlier later : Calls) :
    (earlier ++ later).vision = earlier.vision ++ later.vision :=
  rfl

theorem append_engine (earlier later : Calls) :
    (earlier ++ later).engine = earlier.engine ++ later.engine :=
  rfl

theorem append_assoc (a b c : Calls) : a ++ b ++ c = a ++ (b ++ c) := by
  show (⟨a.vision ++ b.vision ++ c.vision, a.engine ++ b.engine ++ c.engine⟩ : Calls) =
    ⟨a.vision ++ (b.vision ++ c.vision), a.engine ++ (b.engine ++ c.engine)⟩
  rw [List.append_assoc, List.append_assoc]

theorem append_nothing (calls : Calls) : calls ++ ⟨[], []⟩ = calls := by
  show (⟨calls.vision ++ [], calls.engine ++ []⟩ : Calls) = calls
  rw [List.append_nil, List.append_nil]

end Calls

variable {o : Oracle} {r : Recognizer} {before : Calls} {page : Page} {pages : List Page}
  {image : Octets} {n : Nat} {made : Calls} {outcome : Except Problem String} {text : String}
  {problem : Problem}

/-! ### What the answers come to -/

/-- The answer of the vision model after `n` calls has a text of more than twenty characters. -/
def Sees (o : Oracle) (n : Nat) (text : String) : Prop :=
  ∃ answers raw, o.vision = some answers ∧ answers n = .content (some raw) ∧ text = trim raw ∧
    20 < text.length

/-- What the answers of the engine about an image come to after `n` calls, and the calls they take:
the image is shown after its enhancement, and then as it is exactly if the text of the enhanced one
is blank. -/
inductive EngineReads (o : Oracle) (image : Octets) (n : Nat) :
    Except Problem String → List EngineCall → Prop
  | enhanced {text : String} (hanswer : o.engine n = .ok text) (hink : isBlankText text = false) :
      EngineReads o image n (.ok (trim text)) [⟨.enhanced image, "--oem 3 --psm 6"⟩]
  | raw {blank text : String} (hanswer : o.engine n = .ok blank)
      (hblank : isBlankText blank = true) (hraw : o.engine (n + 1) = .ok text) :
      EngineReads o image n (.ok (trim text))
        [⟨.enhanced image, "--oem 3 --psm 6"⟩, ⟨.raw image, ""⟩]
  | enhanced_lost {problem : Problem} (hanswer : o.engine n = .error problem) :
      EngineReads o image n (.error problem) [⟨.enhanced image, "--oem 3 --psm 6"⟩]
  | raw_lost {blank : String} {problem : Problem} (hanswer : o.engine n = .ok blank)
      (hblank : isBlankText blank = true) (hraw : o.engine (n + 1) = .error problem) :
      EngineReads o image n (.error problem)
        [⟨.enhanced image, "--oem 3 --psm 6"⟩, ⟨.raw image, ""⟩]

/-- The question about a page to the vision model, if there is one: the image of the page at the
resolution for scans. -/
def visionCalls (o : Oracle) (r : Recognizer) (page : Page) : List Chat.Request :=
  if o.vision.isSome then [visionRequest r.visionModel "image/png" (page.render r.renderDpi)]
  else []

/-- What a page comes to, and the calls it takes. The engine reads the image that the vision model
was shown. -/
inductive PageReads (o : Oracle) (r : Recognizer) (before : Calls) (page : Page) :
    Except Problem String → Calls → Prop
  | layer (hink : isBlankText page.text = false) :
      PageReads o r before page (.ok (trim page.text)) ⟨[], []⟩
  | seen {text : String} (hblank : isBlankText page.text = true)
      (hsees : Sees o before.vision.length text) :
      PageReads o r before page (.ok text) ⟨visionCalls o r page, []⟩
  | unseen {outcome : Except Problem String} {engine : List EngineCall}
      (hblank : isBlankText page.text = true) (hunseen : ∀ text, ¬Sees o before.vision.length text)
      (hengine : EngineReads o (page.render r.renderDpi) before.engine.length outcome engine) :
      PageReads o r before page outcome ⟨visionCalls o r page, engine⟩

/-- What the pages come to, one after the other up to the first problem, and the calls they take. -/
inductive PagesRead (o : Oracle) (r : Recognizer) :
    Calls → List Page → Except Problem (List String) → Calls → Prop
  | done {before : Calls} : PagesRead o r before [] (.ok []) ⟨[], []⟩
  | lost {before : Calls} {page : Page} {rest : List Page} {problem : Problem} {made : Calls}
      (hpage : PageReads o r before page (.error problem) made) :
      PagesRead o r before (page :: rest) (.error problem) made
  | next {before : Calls} {page : Page} {rest : List Page} {text : String} {made more : Calls}
      {outcome : Except Problem (List String)} (hpage : PageReads o r before page (.ok text) made)
      (hrest : PagesRead o r (before ++ made) rest outcome more) :
      PagesRead o r before (page :: rest) (outcome.map (text :: ·)) (made ++ more)

/-! ### The engine -/

theorem askEngine_eq (o : Oracle) (call : EngineCall) (before : Calls) :
    askEngine o call before =
      ((o.engine before.engine.length).map trim, before ++ ⟨[], [call]⟩) := by
  show (_, (⟨before.vision, before.engine ++ [call]⟩ : Calls)) =
    (_, ⟨before.vision ++ [], before.engine ++ [call]⟩)
  rw [List.append_nil]

theorem trim_ne_empty (hink : isBlankText text = false) : trim text ≠ "" := by
  rw [← Text.isEmpty_trim] at hink
  rintro htrim
  rw [htrim] at hink
  cases hink

theorem trim_eq_empty (hblank : isBlankText text = true) : trim text = "" := by
  rwa [← Text.isEmpty_trim, String.isEmpty_iff] at hblank

theorem engineText_of_ink (hanswer : o.engine before.engine.length = .ok text)
    (hink : isBlankText text = false) :
    engineText o image before =
      (.ok (trim text), before ++ ⟨[], [⟨.enhanced image, blockOptions⟩]⟩) := by
  rw [engineText, askEngine_eq, hanswer]
  simp [Except.map, trim_ne_empty hink]

theorem engineText_of_lost (hanswer : o.engine before.engine.length = .error problem) :
    engineText o image before =
      (.error problem, before ++ ⟨[], [⟨.enhanced image, blockOptions⟩]⟩) := by
  rw [engineText, askEngine_eq, hanswer]
  rfl

theorem engineText_of_blank (hanswer : o.engine before.engine.length = .ok text)
    (hblank : isBlankText text = true) :
    engineText o image before = ((o.engine (before.engine.length + 1)).map trim,
      before ++ ⟨[], [⟨.enhanced image, blockOptions⟩, ⟨.raw image, ""⟩]⟩) := by
  have hlength : (before ++ ⟨[], [⟨.enhanced image, blockOptions⟩]⟩).engine.length =
      before.engine.length + 1 := by
    rw [Calls.append_engine, List.length_append]
    rfl
  rw [engineText, askEngine_eq, hanswer]
  simp only [Except.map, trim_eq_empty hblank]
  rw [askEngine_eq, hlength, Calls.append_assoc]
  rfl

theorem EngineReads.engineText_eq {engine : List EngineCall}
    (h : EngineReads o image before.engine.length outcome engine) :
    engineText o image before = (outcome, before ++ ⟨[], engine⟩) := by
  cases h with
  | enhanced hanswer hink => exact engineText_of_ink hanswer hink
  | raw hanswer hblank hraw =>
    rw [engineText_of_blank hanswer hblank, hraw]
    rfl
  | enhanced_lost hanswer => exact engineText_of_lost hanswer
  | raw_lost hanswer hblank hraw =>
    rw [engineText_of_blank hanswer hblank, hraw]
    rfl

theorem exists_engineReads (o : Oracle) (image : Octets) (n : Nat) :
    ∃ outcome engine, EngineReads o image n outcome engine := by
  cases hanswer : o.engine n with
  | error problem => exact ⟨_, _, .enhanced_lost hanswer⟩
  | ok text =>
    cases hblank : isBlankText text with
    | false => exact ⟨_, _, .enhanced hanswer hblank⟩
    | true =>
      cases hraw : o.engine (n + 1) with
      | error problem => exact ⟨_, _, .raw_lost hanswer hblank hraw⟩
      | ok text => exact ⟨_, _, .raw hanswer hblank hraw⟩

/-! ### A page -/

theorem askVision_eq (o : Oracle) (r : Recognizer) (page : Page) (before : Calls) :
    askVision o r.visionModel "image/png" (page.render r.renderDpi) before =
      (o.vision.bind fun answers => visionText (answers before.vision.length),
        before ++ ⟨visionCalls o r page, []⟩) := by
  cases hvision : o.vision with
  | none => simp [askVision, visionCalls, hvision, Calls.append_nothing]
  | some answers =>
    simp only [askVision, visionCalls, hvision, Option.isSome_some, if_true, Option.bind_some]
    show (_, (⟨before.vision ++ [_], before.engine⟩ : Calls)) =
      (_, ⟨before.vision ++ [_], before.engine ++ []⟩)
    rw [List.append_nil]

theorem enoughText_eq_some_iff :
    enoughText (o.vision.bind fun answers => visionText (answers n)) = some text ↔
      Sees o n text := by
  have hanswer : ∀ answer : Chat.Answer,
      visionText answer = some text ↔ ∃ raw, answer = .content (some raw) ∧ text = trim raw := by
    intro answer
    unfold visionText
    split
    · simp [eq_comm]
    · rename_i hno
      refine iff_of_false (Option.some_ne_none _).symm ?_
      rintro ⟨raw, hraw, -⟩
      exact hno raw hraw
  simp only [enoughText, Option.filter_eq_some_iff, Option.bind_eq_some_iff, hanswer,
    leastVisionLength, Sees]
  constructor
  · rintro ⟨⟨answers, hvision, raw, hraw, htext⟩, hlong⟩
    exact ⟨answers, raw, hvision, hraw, htext, of_decide_eq_true hlong⟩
  · rintro ⟨answers, raw, hvision, hraw, htext, hlong⟩
    exact ⟨⟨answers, hvision, raw, hraw, htext⟩, decide_eq_true hlong⟩

theorem enoughText_eq_none (hunseen : ∀ text, ¬Sees o n text) :
    enoughText (o.vision.bind fun answers => visionText (answers n)) = none :=
  Option.eq_none_iff_forall_ne_some.2 fun text htext =>
    hunseen text (enoughText_eq_some_iff.1 htext)

theorem pageText_of_blank (hblank : isBlankText page.text = true) :
    pageText o r page before =
      imageText o r.visionModel "image/png" (page.render r.renderDpi) before := by
  simp [pageText, Text.isEmpty_trim, hblank]

theorem PageReads.pageText_eq (h : PageReads o r before page outcome made) :
    pageText o r page before = (outcome, before ++ made) := by
  cases h with
  | layer hink =>
    rw [Calls.append_nothing]
    simp [pageText, Text.isEmpty_trim, hink]
  | seen hblank hsees =>
    rw [pageText_of_blank hblank, imageText, askVision_eq]
    simp only [enoughText_eq_some_iff.2 hsees]
  | unseen hblank hunseen hengine =>
    rename_i engine
    have hlength : (before ++ ⟨visionCalls o r page, []⟩).engine = before.engine :=
      List.append_nil _
    rw [← hlength] at hengine
    rw [pageText_of_blank hblank, imageText, askVision_eq]
    simp only [enoughText_eq_none hunseen]
    rw [hengine.engineText_eq, Calls.append_assoc]
    show (_, before ++ (⟨visionCalls o r page ++ [], engine⟩ : Calls)) = _
    rw [List.append_nil]

theorem exists_pageReads (o : Oracle) (r : Recognizer) (before : Calls) (page : Page) :
    ∃ outcome made, PageReads o r before page outcome made := by
  cases hblank : isBlankText page.text with
  | false => exact ⟨_, _, .layer hblank⟩
  | true =>
    by_cases hsees : ∃ text, Sees o before.vision.length text
    · obtain ⟨text, hsees⟩ := hsees
      exact ⟨_, _, .seen hblank hsees⟩
    · obtain ⟨outcome, engine, hengine⟩ :=
        exists_engineReads o (page.render r.renderDpi) before.engine.length
      exact ⟨_, _, .unseen hblank (not_exists.1 hsees) hengine⟩

/-! ### The pages -/

variable {texts : Except Problem (List String)}

theorem PagesRead.pageTexts_eq (h : PagesRead o r before pages texts made) :
    pageTexts o r pages before = (texts, before ++ made) := by
  induction h with
  | done => rw [Calls.append_nothing, pageTexts]
  | lost hpage => simp only [pageTexts, hpage.pageText_eq]
  | next hpage _ ih =>
    rename_i outcome _
    simp only [pageTexts, hpage.pageText_eq, ih, Calls.append_assoc]
    cases outcome <;> rfl

theorem exists_pagesRead (o : Oracle) (r : Recognizer) (pages : List Page) (before : Calls) :
    ∃ texts made, PagesRead o r before pages texts made := by
  induction pages generalizing before with
  | nil => exact ⟨_, _, .done⟩
  | cons page rest ih =>
    obtain ⟨outcome, made, hpage⟩ := exists_pageReads o r before page
    cases outcome with
    | error problem => exact ⟨_, _, .lost hpage⟩
    | ok text =>
      obtain ⟨texts, more, hrest⟩ := ih (before ++ made)
      exact ⟨_, _, .next hpage hrest⟩

/-! ### Failures -/

/-- One of the calls of the engine that are made after `n` others meets with this problem. -/
def Meets (o : Oracle) (n : Nat) (calls : List EngineCall) (problem : Problem) : Prop :=
  ∃ i < calls.length, o.engine (n + i) = .error problem

theorem meets_cons {call : EngineCall} {calls : List EngineCall} :
    Meets o n (call :: calls) problem ↔
      o.engine n = .error problem ∨ Meets o (n + 1) calls problem := by
  simp only [Meets, List.length_cons, Nat.exists_lt_succ_left, Nat.add_zero, Nat.add_assoc,
    Nat.add_comm 1]

theorem not_meets_nil : ¬Meets o n [] problem := by
  rintro ⟨i, hi, -⟩
  exact Nat.not_lt_zero i hi

theorem meets_append {earlier later : List EngineCall} :
    Meets o n (earlier ++ later) problem ↔
      Meets o n earlier problem ∨ Meets o (n + earlier.length) later problem := by
  induction earlier generalizing n with
  | nil => simp [not_meets_nil]
  | cons call earlier ih =>
    rw [List.cons_append, meets_cons, meets_cons, ih, or_assoc, List.length_cons,
      Nat.add_assoc, Nat.add_comm 1]

theorem EngineReads.error_iff {engine : List EngineCall}
    (h : EngineReads o image n outcome engine) :
    outcome = .error problem ↔ Meets o n engine problem := by
  cases h with
  | enhanced hanswer | enhanced_lost hanswer => simp [meets_cons, not_meets_nil, hanswer]
  | raw hanswer _ hraw | raw_lost hanswer _ hraw =>
    simp [meets_cons, not_meets_nil, hanswer, hraw]

theorem PageReads.error_iff (h : PageReads o r before page outcome made) :
    outcome = .error problem ↔ Meets o before.engine.length made.engine problem := by
  cases h with
  | layer | seen => simp [not_meets_nil]
  | unseen _ _ hengine => exact hengine.error_iff

/-- The pages cannot be read exactly if the engine is asked and fails. -/
theorem PagesRead.error_iff (h : PagesRead o r before pages texts made) :
    texts = .error problem ↔ Meets o before.engine.length made.engine problem := by
  induction h with
  | done => simp [not_meets_nil]
  | lost hpage =>
    rw [← hpage.error_iff]
    simp
  | @next before page rest text made more outcome hpage _ ih =>
    have hnone : ¬Meets o before.engine.length made.engine problem := by
      rw [← hpage.error_iff]
      nofun
    rw [Calls.append_engine, List.length_append] at ih
    rw [Calls.append_engine, meets_append, or_iff_right hnone, ← ih]
    cases outcome <;> simp [Except.map]

/-! ### What is asked -/

theorem PageReads.vision_eq (h : PageReads o r before page outcome made) :
    made.vision = if isBlankText page.text then visionCalls o r page else [] := by
  cases h with
  | layer hink => simp [hink]
  | seen hblank | unseen hblank => simp [hblank]

/-- The questions about the scans among some pages, in their order. -/
def scanCalls (o : Oracle) (r : Recognizer) (pages : List Page) : List Chat.Request :=
  (pages.filter fun page => isBlankText page.text).flatMap (visionCalls o r)

theorem scanCalls_cons (o : Oracle) (r : Recognizer) (page : Page) (rest : List Page) :
    scanCalls o r (page :: rest) =
      (if isBlankText page.text then visionCalls o r page else []) ++ scanCalls o r rest := by
  by_cases hblank : isBlankText page.text = true <;> simp [scanCalls, hblank]

/-- The vision model is asked about the scans up to the page at which the reading ends. -/
theorem PagesRead.exists_reached (h : PagesRead o r before pages texts made) :
    ∃ reached, reached <+: pages ∧ made.vision = scanCalls o r reached ∧
      ∀ read, texts = .ok read → reached = pages := by
  induction h with
  | done => exact ⟨[], List.prefix_refl _, rfl, fun _ _ => rfl⟩
  | @lost before page rest problem made hpage =>
    refine ⟨[page], List.prefix_append [page] rest, ?_, nofun⟩
    rw [scanCalls_cons, hpage.vision_eq]
    exact (List.append_nil _).symm
  | @next before page rest text made more outcome hpage _ ih =>
    obtain ⟨reached, hprefix, hvision, hall⟩ := ih
    refine ⟨page :: reached, (List.prefix_cons_inj page).2 hprefix, ?_, ?_⟩
    · rw [Calls.append_vision, scanCalls_cons, hpage.vision_eq, hvision]
    · intro read hread
      obtain ⟨others, hothers, -⟩ := map_eq_ok_iff.1 hread
      rw [hall others hothers]

/-- A request shows an image as the data of an address in one of its messages. -/
def Shows (request : Chat.Request) (image : Octets) : Prop :=
  ∃ message ∈ request.messages, ∃ parts, message.content = .parts parts ∧
    ∃ data, .image ("data:image/png;base64," ++ data) ∈ parts ∧
      Text.Base64.decode? data = some image

theorem shows_of_mem_visionCalls {request : Chat.Request} (h : request ∈ visionCalls o r page) :
    Shows request (page.render r.renderDpi) := by
  unfold visionCalls at h
  split at h
  · obtain rfl := List.mem_singleton.1 h
    exact ⟨_, List.mem_singleton_self _, _, rfl, Text.Base64.encode (page.render r.renderDpi),
      by simp [dataUrl], Text.Base64.decode?_encode _⟩
  · cases h

/-! ### What is contributed -/

theorem PageReads.eq_layer (h : PageReads o r before page (.ok text) made)
    (hink : isBlankText page.text = false) : text = trim page.text := by
  cases h with
  | layer => rfl
  | seen hblank | unseen hblank => simp [hink] at hblank

/-- Every page contributes one text, in the order of the pages. -/
theorem PagesRead.forall₂_layer (h : PagesRead o r before pages texts made) :
    ∀ read, texts = .ok read → List.Forall₂
      (fun page text => isBlankText page.text = false → text = trim page.text) pages read := by
  induction h with
  | done =>
    rintro read ⟨⟩
    exact .nil
  | lost => nofun
  | next hpage _ ih =>
    intro read hread
    obtain ⟨others, hothers, rfl⟩ := map_eq_ok_iff.1 hread
    exact .cons hpage.eq_layer (ih others hothers)

theorem joinPages_eq (read : List String) :
    joinPages read = "\n\n".intercalate (read.filter fun text => text ≠ "") := by
  have hempty : ∀ text : String, (!text.isEmpty) = decide (text ≠ "") := by
    intro text
    rw [Bool.eq_iff_iff]
    simp
  simp only [joinPages, hempty]

theorem PagesRead.pdfText_eq (h : PagesRead o r before pages texts made) :
    pdfText o r (.ok pages) before =
      (texts.map fun read => "\n\n".intercalate (read.filter fun text => text ≠ ""),
        before ++ made) := by
  simp only [pdfText, h.pageTexts_eq]
  cases texts with
  | error problem => rfl
  | ok read => exact congrArg (fun text => (Except.ok text, before ++ made)) (joinPages_eq read)

/-! ### Documents -/

/-- What is known of a document whose pages came to these texts by these calls. -/
structure DocumentRead (o : Oracle) (r : Recognizer) (before : Calls) (pages : List Page)
    (texts : Except Problem (List String)) (made : Calls) : Prop where
  /-- The texts that are not empty stand in the order of the pages, with a blank line between. -/
  text : pdfText o r (.ok pages) before =
    (texts.map fun read => "\n\n".intercalate (read.filter fun text => text ≠ ""), before ++ made)
  /-- A page with a text layer contributes it. -/
  layer : ∀ read, texts = .ok read → List.Forall₂
    (fun page text => isBlankText page.text = false → text = trim page.text) pages read
  /-- The vision model, if there is one, is asked once about each scan that is reached. -/
  vision : ∃ reached, reached <+: pages ∧ made.vision = scanCalls o r reached ∧
    ∀ read, texts = .ok read → reached = pages
  /-- Only a failure of the engine, at a call that is made, makes the reading fail. -/
  failure : ∀ problem, texts = .error problem ↔
    ∃ i < made.engine.length, o.engine (before.engine.length + i) = .error problem

end Extraction.Recognition

namespace Extraction

open Recognition

/-- Whatever a document and the answers are, its pages come to texts by the chain of recognition,
and what they come to is the text of the document; each scan that is reached is shown to the vision
model. -/
theorem document_read (o : Oracle) (r : Recognizer) (pages : List Page) (before : Calls) :
    (∃ texts made, PagesRead o r before pages texts made) ∧
    (∀ texts made, PagesRead o r before pages texts made →
      DocumentRead o r before pages texts made) ∧
    ∀ page, ∀ request ∈ visionCalls o r page, Shows request (page.render r.renderDpi) := by
  refine ⟨exists_pagesRead o r pages before, ?_, fun page request => shows_of_mem_visionCalls⟩
  intro texts made h
  exact ⟨h.pdfText_eq, h.forall₂_layer, h.exists_reached, fun problem => h.error_iff⟩

/-- A scan, a page with a text layer, and another scan. -/
def mixedPages : List Page :=
  [⟨"", fun _ => [1]⟩, ⟨" Terms ", fun _ => [2]⟩, ⟨" ", fun _ => [3]⟩]

/-- Of either kind only the second answer is of use. -/
def lateOracle : Oracle where
  vision := some fun n => .content (some (if n = 0 then "Total" else "Thank you for your order."))
  engine n := .ok (if n = 0 then "" else " Total 7 ")

def plainRecognizer : Recognizer := ⟨"key", "gpt", true, none, 300⟩

/-- The engine is shown the first scan twice, enhanced and as it is; the other scan is seen by the
vision model. -/
theorem mixedPages_read :
    pdfText lateOracle plainRecognizer (.ok mixedPages) ⟨[], []⟩ =
      (.ok "Total 7\n\nTerms\n\nThank you for your order.",
        ⟨scanCalls lateOracle plainRecognizer mixedPages,
          [⟨.enhanced [1], "--oem 3 --psm 6"⟩, ⟨.raw [1], ""⟩]⟩) := by
  have hunseen : ∀ text, ¬Sees lateOracle 0 text := by
    rintro _ ⟨_, _, ⟨⟩, ⟨⟩, rfl, hlong⟩
    exact absurd hlong (by decide)
  have hseen : Sees lateOracle 1 "Thank you for your order." :=
    ⟨_, _, rfl, rfl, by decide, by decide⟩
  have hread : PagesRead lateOracle plainRecognizer ⟨[], []⟩ mixedPages _ _ :=
    .next (.unseen (by decide) hunseen (.raw rfl (by decide) rfl))
      (.next (.layer (by decide)) (.next (.seen (by decide) hseen) .done))
  obtain ⟨-, hdocument, -⟩ := document_read lateOracle plainRecognizer mixedPages ⟨[], []⟩
  exact (hdocument _ _ hread).text

end Extraction
