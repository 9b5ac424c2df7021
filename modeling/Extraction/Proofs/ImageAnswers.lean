import Extraction.ImageService
import Extraction.Proofs.Base64RoundTrip
import Extraction.Proofs.JsonRoundTrip

/-!
Answers of the image service. Whatever the status and the body are, an answer comes to an image or
to one kind of failure, with one exception: a body that is nested too deeply to be read.
-/

namespace Extraction

namespace Json

/-- An array that is opened as often as the limit allows cannot be opened once more. -/
theorem readValue_brackets (allow : Bool) (depth : Nat) (rest : List Char) :
    readValue allow depth (List.replicate (depth + 1) '[' ++ rest) = .error .nesting := by
  induction depth with
  | zero => rw [List.replicate_one, List.singleton_append, readValue]
  | succ depth ih =>
    rw [List.replicate_succ, List.cons_append] at ih ⊢
    rw [List.replicate_succ, List.cons_append,
      readValue_array allow depth (skipSpace_cons (by decide) _) (by decide), List.length_cons,
      readItems, ih]
    rfl

theorem read_brackets (allow : Bool) {n : Nat} (h : nestingLimit < n) :
    read allow (String.ofList (List.replicate n '[')) = .error .nesting := by
  obtain ⟨k, rfl⟩ := Nat.exists_eq_add_of_lt h
  have hsplit : List.replicate (nestingLimit + k + 1) '[' =
      List.replicate (nestingLimit + 1) '[' ++ List.replicate k '[' := by
    rw [List.replicate_append_replicate, Nat.add_right_comm]
  have hread := readValue_brackets allow nestingLimit (List.replicate k '[')
  rw [← hsplit, List.replicate_succ] at hread
  have hhead : (('[' :: List.replicate (nestingLimit + k) '[').head? == some '\uFEFF') = false :=
    rfl
  rw [read, String.toList_ofList, readChars, List.replicate_succ, hhead,
    skipSpace_cons (by decide), hread]
  rfl

end Json

namespace ImageService

open Text (Octets)

variable {status : Int} {body : String}

/-- The body is the JSON text of an object that holds a text under this name. -/
def HoldsText (body name text : String) : Prop :=
  ∃ fields, Json.read true body = .ok (.object fields) ∧
    Value.lookup? name fields = some (.string text)

/-- The body can be read, or is no JSON for another reason than its depth. -/
def Shallow (body : String) : Prop :=
  Json.read true body ≠ .error .nesting

theorem textField?_eq_some_iff {name text : String} {v : Value} :
    textField? name v = some text ↔
      ∃ fields, v = .object fields ∧ Value.lookup? name fields = some (.string text) := by
  unfold textField?
  split
  · split
    · rename_i hlookup
      simp [hlookup]
    · rename_i hlookup
      refine iff_of_false (Option.some_ne_none _).symm ?_
      rintro ⟨fields, ⟨⟩, hfields⟩
      exact hlookup text hfields
  · rename_i hobject
    refine iff_of_false (Option.some_ne_none _).symm ?_
    rintro ⟨fields, rfl, -⟩
    exact hobject fields rfl

theorem HoldsText.unique {name text other : String} (h : HoldsText body name text)
    (hother : HoldsText body name other) : text = other := by
  obtain ⟨fields, hread, hlookup⟩ := h
  obtain ⟨others, hread', hlookup'⟩ := hother
  cases hread.symm.trans hread'
  cases hlookup.symm.trans hlookup'
  rfl

theorem HoldsText.shallow {name text : String} (h : HoldsText body name text) : Shallow body := by
  obtain ⟨fields, hread, -⟩ := h
  rw [Shallow, hread]
  nofun

theorem exists_bodyValue (hbody : Shallow body) : ∃ found, bodyValue? body = .ok found ∧
    ∀ name text, found.bind (textField? name) = some text ↔ HoldsText body name text := by
  unfold HoldsText
  cases hread : Json.read true body with
  | ok v =>
    refine ⟨some v, by simp only [bodyValue?, hread], fun name text => ?_⟩
    simp [textField?_eq_some_iff]
  | error fault =>
    cases fault with
    | nesting => exact absurd hread hbody
    | malformed | longInteger | constant =>
      exact ⟨none, by simp only [bodyValue?, hread], by simp⟩

/-- The text that is found under a name is the one that the body holds, if it holds one. -/
theorem exists_field (hbody : Shallow body) (name : String) : ∃ found, bodyValue? body = .ok found ∧
    ((∃ text, found.bind (textField? name) = some text ∧ HoldsText body name text) ∨
      found.bind (textField? name) = none ∧ ∀ text, ¬HoldsText body name text) := by
  obtain ⟨found, hfound, hholds⟩ := exists_bodyValue hbody
  refine ⟨found, hfound, ?_⟩
  cases htext : found.bind (textField? name) with
  | some text => exact .inl ⟨text, rfl, (hholds name text).1 htext⟩
  | none =>
    refine .inr ⟨rfl, fun text hbodyText => ?_⟩
    rw [(hholds name text).2 hbodyText] at htext
    cases htext

/-! ### Answers with an image -/

/-- The image is what the text in the body stands for, if there is one and it is Base64. -/
theorem image_cases (hbody : Shallow body) :
    (∃ text octets, HoldsText body "image_base64" text ∧ Text.Base64.decode? text = some octets ∧
      image body = .ok octets) ∨
    (∀ text, HoldsText body "image_base64" text → Text.Base64.decode? text = none) ∧
      image body = .error (.failure unexpectedBody) := by
  obtain ⟨found, hfound, hfield⟩ := exists_field hbody "image_base64"
  rw [image, hfound]
  simp only [bind, Except.bind]
  obtain ⟨text, htext, hholds⟩ | ⟨htext, hnone⟩ := hfield
  · simp only [htext, Option.bind_some]
    cases hdecode : Text.Base64.decode? text with
    | some octets => exact .inl ⟨text, octets, hholds, hdecode, rfl⟩
    | none =>
      refine .inr ⟨fun other hother => ?_, rfl⟩
      rwa [hother.unique hholds]
  · rw [htext]
    exact .inr ⟨fun text hholds => absurd hholds (hnone text), rfl⟩

/-! ### Answers with another status -/

/-- What is told of such an answer: the detail in its body, or the same for all without one. -/
def Tells (body detail : String) : Prop :=
  HoldsText body "detail" detail ∨
    (∀ text, ¬HoldsText body "detail" text) ∧ detail = unexpectedText

theorem exists_refusal (status : Int) (hbody : Shallow body) :
    ∃ detail, Tells body detail ∧ refusal status body = .error (.failure (.textExtraction
      ("Error " ++ String.ofList (Number.intChars status) ++ ": " ++ detail))) := by
  obtain ⟨found, hfound, hfield⟩ := exists_field hbody "detail"
  have hrefusal : refusal status body = .error (.failure (.textExtraction
      ("Error " ++ String.ofList (Number.intChars status) ++ ": " ++
        (found.bind (textField? "detail")).getD unexpectedText))) := by
    rw [refusal, hfound]
    rfl
  rw [hrefusal]
  obtain ⟨text, htext, hholds⟩ | ⟨htext, hnone⟩ := hfield
  · rw [htext]
    exact ⟨text, .inl hholds, rfl⟩
  · rw [htext]
    exact ⟨unexpectedText, .inr ⟨hnone, rfl⟩, rfl⟩

/-! ### Bodies that are nested too deeply -/

theorem bodyValue?_of_nesting (h : Json.read true body = .error .nesting) :
    bodyValue? body = .error .nesting := by
  rw [bodyValue?, h]

theorem receive_of_nesting (status : Int) (h : Json.read true body = .error .nesting) :
    receive (.response status body) = .error .nesting := by
  have himage : image body = .error .nesting := by
    rw [image, bodyValue?_of_nesting h]
    rfl
  have hrefusal : refusal status body = .error .nesting := by
    rw [refusal, bodyValue?_of_nesting h]
    rfl
  rw [receive, himage, hrefusal, ite_self]

/-! ### What is sent by the service -/

/-- The body with an image, as the service writes it. -/
def imageBody? (fileName mediaType : String) (octets : Octets) : Option String :=
  Json.print? Json.compact (.object [("filename", .string fileName),
    ("content_type", .string mediaType), ("image_base64", .string (Text.Base64.encode octets))])

theorem exists_imageBody (fileName mediaType : String) (octets : Octets) :
    ∃ body, imageBody? fileName mediaType octets = some body ∧
      HoldsText body "image_base64" (Text.Base64.encode octets) := by
  have hplain : (Value.object [("filename", .string fileName), ("content_type", .string mediaType),
      ("image_base64", .string (Text.Base64.encode octets))]).Plain :=
    ⟨(by decide : ["filename", "content_type", "image_base64"].Nodup), trivial, trivial, trivial,
      trivial⟩
  obtain ⟨body, hprint⟩ := Json.exists_print Json.compact hplain.shortIntegers
  refine ⟨body, hprint, _, Json.read_print true (by simp [Json.compact]) hplain ?_ hprint, rfl⟩
  exact (by decide : 1 ≤ Json.nestingLimit)

/-! ### Answers -/

def IsSuccess (status : Int) : Prop :=
  200 ≤ status ∧ status < 300

/-- What an answer comes to. -/
structure Answered (status : Int) (body : String) (result : Except Problem Octets) : Prop where
  /-- An image comes back exactly if the answer is a success and holds one in Base64. -/
  image_iff : ∀ octets, result = .ok octets ↔ IsSuccess status ∧
    ∃ text, HoldsText body "image_base64" text ∧ Text.Base64.decode? text = some octets
  encoded : IsSuccess status → ∀ octets,
    HoldsText body "image_base64" (Text.Base64.encode octets) → result = .ok octets
  /-- Without an image the extraction of the text fails, unless the body is nested too deeply. -/
  typed : Shallow body → (∃ octets, result = .ok octets) ∨
    ∃ message, result = .error (.failure (.textExtraction message))
  nested : ¬Shallow body → result = .error .nesting
  unexpected : IsSuccess status → Shallow body → (∃ octets, result = .ok octets) ∨
    result = .error (.failure unexpectedBody)
  refused : ¬IsSuccess status → Shallow body → ∃ detail, Tells body detail ∧
    result = .error (.failure (.textExtraction
      ("Error " ++ String.ofList (Number.intChars status) ++ ": " ++ detail)))

theorem receive_eq_image (h : IsSuccess status) : receive (.response status body) = image body := by
  simp [receive, h.1, h.2]

theorem receive_eq_refusal (h : ¬IsSuccess status) :
    receive (.response status body) = refusal status body := by
  rw [receive, if_neg]
  simpa [IsSuccess] using h

/-- A success without an image is told in one way. -/
theorem receive_of_success (hstatus : IsSuccess status) (hbody : Shallow body) :
    (∃ octets, receive (.response status body) = .ok octets) ∨
      receive (.response status body) = .error (.failure unexpectedBody) := by
  rw [receive_eq_image hstatus]
  obtain ⟨text, octets, -, -, heq⟩ | ⟨-, heq⟩ := image_cases hbody
  · exact .inl ⟨octets, heq⟩
  · exact .inr heq

theorem receive_image_iff (status : Int) (body : String) (octets : Octets) :
    receive (.response status body) = .ok octets ↔ IsSuccess status ∧
      ∃ text, HoldsText body "image_base64" text ∧ Text.Base64.decode? text = some octets := by
  by_cases hbody : Shallow body
  · by_cases hstatus : IsSuccess status
    · rw [receive_eq_image hstatus]
      obtain ⟨text, image, htext, hdecode, heq⟩ | ⟨hnone, heq⟩ := image_cases hbody
      · rw [heq]
        constructor
        · rintro ⟨⟩
          exact ⟨hstatus, text, htext, hdecode⟩
        · rintro ⟨-, other, hother, hoctets⟩
          rw [hother.unique htext, hdecode] at hoctets
          rw [Option.some.inj hoctets]
      · rw [heq]
        refine iff_of_false nofun ?_
        rintro ⟨-, text, htext, hdecode⟩
        rw [hnone text htext] at hdecode
        cases hdecode
    · obtain ⟨detail, -, heq⟩ := exists_refusal status hbody
      rw [receive_eq_refusal hstatus, heq]
      exact iff_of_false nofun fun h => hstatus h.1
  · rw [receive_of_nesting status (not_not.1 hbody)]
    refine iff_of_false nofun ?_
    rintro ⟨-, text, htext, -⟩
    exact hbody htext.shallow

theorem receive_answered (status : Int) (body : String) :
    Answered status body (receive (.response status body)) where
  image_iff := receive_image_iff status body
  encoded hstatus octets hbody := (receive_image_iff status body octets).2
    ⟨hstatus, _, hbody, Text.Base64.decode?_encode octets⟩
  typed hbody := by
    by_cases hstatus : IsSuccess status
    · exact (receive_of_success hstatus hbody).imp_right fun heq => ⟨_, heq⟩
    · obtain ⟨detail, -, heq⟩ := exists_refusal status hbody
      exact .inr ⟨_, (receive_eq_refusal hstatus).trans heq⟩
  nested hbody := receive_of_nesting status (not_not.1 hbody)
  unexpected := receive_of_success
  refused hstatus hbody := by
    rw [receive_eq_refusal hstatus]
    exact exists_refusal status hbody

end ImageService

open ImageService

/-- An image that is not empty is sent once and unchanged, and what is answered comes to an image or
to a failed extraction, unless it is nested too deeply; an empty image is not sent. Every image can
be answered. -/
theorem image_answers (s : ImageService) (respond : ImageService.Request → Answer)
    (fileName mediaType : String) :
    s.process respond [] fileName mediaType =
      (.error (.failure (.textExtraction "The file is empty or corrupted.")), []) ∧
    (∀ content, content ≠ [] →
      (s.process respond content fileName mediaType).2 =
        [⟨s.url, fileName, content, mediaType, s.timeout⟩] ∧
      ∀ status body, respond ⟨s.url, fileName, content, mediaType, s.timeout⟩ =
        .response status body →
        Answered status body (s.process respond content fileName mediaType).1) ∧
    ∀ octets, ∃ body, imageBody? fileName mediaType octets = some body ∧
      HoldsText body "image_base64" (Text.Base64.encode octets) := by
  refine ⟨rfl, fun content hcontent => ?_, exists_imageBody fileName mediaType⟩
  have hprocess : s.process respond content fileName mediaType =
      (receive (respond (s.request content fileName mediaType)),
        [s.request content fileName mediaType]) := by
    rw [process, if_neg (by simpa using hcontent)]
  rw [hprocess]
  refine ⟨rfl, fun status body hrespond => ?_⟩
  rw [request, hrespond]
  exact receive_answered status body

/-- A service at an address of its own, with the usual patience. -/
def processor : ImageService where
  url := "http://processor"

/-- An image in padded Base64, answered with a success that is not the usual one. -/
theorem two_octets_answered :
    (processor.process (fun _ => .response 202 "\x7b\"image_base64\": \"AP8=\"\x7d") [1] "a.png"
      "image/png").1 = .ok [0, 255] := by
  have hbody : HoldsText "\x7b\"image_base64\": \"AP8=\"\x7d" "image_base64"
      (Text.Base64.encode [0, 255]) := ⟨_, rfl, rfl⟩
  have hanswer := ((image_answers processor
    (fun _ => .response 202 "\x7b\"image_base64\": \"AP8=\"\x7d") "a.png" "image/png").2.1 [1]
      (List.cons_ne_nil _ _)).2 202 _ rfl
  exact hanswer.encoded ⟨by decide, by decide⟩ [0, 255] hbody

/-- A body of nothing but opening brackets, in an answer of either kind, comes neither to an image
nor to a failed extraction. -/
theorem nested_body_unreported :
    (processor.process (fun _ => .response 200 (String.ofList (List.replicate 3000 '['))) [1]
      "a.png" "image/png").1 = .error .nesting ∧
    (processor.process (fun _ => .response 502 (String.ofList (List.replicate 3000 '['))) [1]
      "a.png" "image/png").1 = .error .nesting := by
  have hread : Json.read true (String.ofList (List.replicate 3000 '[')) = .error .nesting :=
    Json.read_brackets true (by decide)
  exact ⟨receive_of_nesting 200 hread, receive_of_nesting 502 hread⟩

end Extraction
