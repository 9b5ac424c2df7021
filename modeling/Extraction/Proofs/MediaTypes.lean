import Extraction.Proofs.RunStages
import Mathlib.Data.List.TakeWhile

/-!
The media type that is declared for an image. The kind of a file is found by its extension alone,
the media type by reading the name as an address; the two agree unless the name has a scheme that
hides its extension, or the scheme of data.
-/

namespace Extraction

namespace FileName

variable {sep : Char} {cs tail stem ext scheme rest : List Char}

/-! ### What stands behind the last mark -/

theorem exists_last (h : sep ∈ cs) : ∃ before behind, cs = before ++ sep :: behind ∧ sep ∉ behind := by
  obtain ⟨behind, before, hsplit, hbehind⟩ := List.eq_append_cons_of_mem (List.mem_reverse.2 h)
  refine ⟨before.reverse, behind.reverse, ?_, by simpa using hbehind⟩
  simpa using congrArg List.reverse hsplit

theorem behindLast_append (h : sep ∉ tail) (cs : List Char) :
    behindLast sep (cs ++ tail) = behindLast sep cs ++ tail := by
  have htail : ∀ c ∈ tail.reverse, decide (c ≠ sep) = true := by
    intro c hc
    refine decide_eq_true ?_
    rintro rfl
    exact h (List.mem_reverse.1 hc)
  rw [behindLast, List.reverse_append, List.takeWhile_append_of_pos htail, List.reverse_append,
    List.reverse_reverse, behindLast]

theorem behindLast_of_not_mem (h : sep ∉ tail) : behindLast sep tail = tail :=
  behindLast_append h []

theorem behindLast_mark (cs : List Char) : behindLast sep (cs ++ [sep]) = [] := by
  simp [behindLast]

theorem behindLast_separated (h : sep ∉ tail) (cs : List Char) :
    behindLast sep (cs ++ sep :: tail) = tail := by
  rw [List.append_cons, behindLast_append h, behindLast_mark, List.nil_append]

theorem behindLast_append_of_mem (h : sep ∈ tail) (cs : List Char) :
    behindLast sep (cs ++ tail) = behindLast sep tail := by
  obtain ⟨before, behind, rfl, hbehind⟩ := exists_last h
  rw [← List.append_assoc, behindLast_separated hbehind, behindLast_separated hbehind]

theorem behindLast_isSuffix (sep : Char) (cs : List Char) : behindLast sep cs <:+ cs := by
  have hprefix := List.takeWhile_prefix (l := cs.reverse) fun c => decide (c ≠ sep)
  rwa [← List.reverse_suffix, List.reverse_reverse] at hprefix

theorem not_mem_behindLast (sep : Char) (cs : List Char) : sep ∉ behindLast sep cs := by
  intro h
  have hne := List.mem_takeWhile_imp (List.mem_reverse.1 h)
  simp at hne

/-! ### Extensions -/

theorem behindLast_dotted (hslash : '/' ∉ ext) (stem : List Char) :
    behindLast '/' (stem ++ '.' :: ext) = behindLast '/' stem ++ '.' :: ext :=
  behindLast_append (by simpa using hslash) stem

/-- Behind nothing but dots in the last segment there is no extension. -/
theorem extensionChars_of_dots (hdot : '.' ∉ ext) (hslash : '/' ∉ ext)
    (hdots : ∀ c ∈ behindLast '/' stem, c = '.') : extensionChars (stem ++ '.' :: ext) = [] := by
  have hext : ext.dropWhile (· = '.') = ext := by
    cases ext with
    | nil => rfl
    | cons c ext =>
      rw [List.dropWhile_cons_of_neg]
      simpa [eq_comm] using List.ne_of_not_mem_cons hdot
  have hstem : ∀ c ∈ behindLast '/' stem, decide (c = '.') = true := fun c hc =>
    decide_eq_true (hdots c hc)
  simp only [extensionChars, behindLast_dotted hslash]
  rw [List.dropWhile_append_of_pos hstem, List.dropWhile_cons_of_pos (by decide), hext, if_neg hdot]

/-- Otherwise what stands behind the last dot is the extension. -/
theorem extensionChars_of_stem (hdot : '.' ∉ ext) (hslash : '/' ∉ ext)
    (hstem : ¬∀ c ∈ behindLast '/' stem, c = '.') :
    extensionChars (stem ++ '.' :: ext) = '.' :: ext := by
  -- the dots at the start end before the last one
  have hrest : (behindLast '/' stem ++ '.' :: ext).dropWhile (· = '.') =
      (behindLast '/' stem).dropWhile (· = '.') ++ '.' :: ext := by
    rw [List.dropWhile_append, if_neg]
    simpa [List.dropWhile_eq_nil_iff] using hstem
  simp only [extensionChars, behindLast_dotted hslash]
  rw [hrest, if_pos (by simp), behindLast_separated hdot]

theorem exists_stem (h : extensionChars cs ≠ []) : ∃ stem ext, cs = stem ++ '.' :: ext ∧
    '.' ∉ ext ∧ '/' ∉ ext ∧ extensionChars cs = '.' :: ext := by
  have hdot : '.' ∈ behindLast '/' cs := by
    by_contra hdot
    refine h (if_neg fun hmem => hdot ?_)
    exact (List.dropWhile_suffix _).subset hmem
  obtain ⟨segment, ext, hsplit, hext⟩ := exists_last hdot
  obtain ⟨front, hfront⟩ := behindLast_isSuffix '/' cs
  rw [hsplit, ← List.append_assoc] at hfront
  have hslash : '/' ∉ ext := by
    intro hslash
    refine not_mem_behindLast '/' cs ?_
    rw [hsplit]
    exact List.mem_append_right _ (List.mem_cons_of_mem _ hslash)
  refine ⟨front ++ segment, ext, hfront.symm, hext, hslash, ?_⟩
  rw [← hfront] at h ⊢
  exact extensionChars_of_stem hext hslash fun hdots =>
    h (extensionChars_of_dots hext hslash hdots)

/-! ### Schemes -/

/-- A name that is read as an address: a scheme stands before its first colon. -/
structure IsAddress (name scheme rest : List Char) : Prop where
  split : name = scheme ++ ':' :: rest
  nonempty : scheme ≠ []
  plain : ∀ c ∈ scheme, c ≠ '/' ∧ c ≠ ':'

theorem IsAddress.splitScheme_eq (h : IsAddress cs scheme rest) :
    splitScheme cs = (Text.lower (String.ofList scheme), rest) := by
  obtain ⟨rfl, hne, hplain⟩ := h
  have hscheme : ∀ c ∈ scheme, (c ≠ '/' && c ≠ ':') = true := by
    intro c hc
    simpa using hplain c hc
  have htake : (scheme ++ ':' :: rest).takeWhile (fun c => c ≠ '/' && c ≠ ':') = scheme := by
    rw [List.takeWhile_append_of_pos hscheme, List.takeWhile_cons_of_neg (by decide),
      List.append_nil]
  simp only [splitScheme, htake, List.drop_left]
  rw [if_neg (by simpa using hne)]

theorem splitScheme_of_no_address (h : ∀ scheme rest, ¬IsAddress cs scheme rest) :
    splitScheme cs = ("", cs) := by
  simp only [splitScheme]
  split
  · rename_i rest hdrop
    split
    · rfl
    · rename_i hne
      refine absurd ⟨?_, by simpa using hne, ?_⟩ (h (cs.takeWhile fun c => c ≠ '/' && c ≠ ':') rest)
      · rw [← hdrop]
        exact (List.prefix_iff_eq_append.1 (List.takeWhile_prefix _)).symm
      · intro c hc
        simpa using List.mem_takeWhile_imp hc
  · rfl

/-! ### Extensions behind a scheme -/

/-- Nothing but dots stands before the last dot, so that there is no extension. -/
def HidesExtension (rest : List Char) : Prop :=
  ∃ dots ext, rest = dots ++ '.' :: ext ∧ (∀ c ∈ dots, c = '.') ∧ '.' ∉ ext ∧ '/' ∉ ext

theorem HidesExtension.extensionChars_eq (h : HidesExtension rest) : extensionChars rest = [] := by
  obtain ⟨dots, ext, rfl, hdots, hext, hslash⟩ := h
  exact extensionChars_of_dots hext hslash fun c hc =>
    hdots c ((behindLast_isSuffix '/' dots).subset hc)

/-- A colon that is not in the extension stands before its dot. -/
theorem exists_stem_behind_colon (h : scheme ++ ':' :: rest = stem ++ '.' :: ext)
    (hcolon : ':' ∉ ext) :
    ∃ behind, rest = behind ++ '.' :: ext ∧ stem = scheme ++ ':' :: behind := by
  rcases List.append_eq_append_iff.1 h with ⟨between, hstem, hrest⟩ | ⟨between, -, hext⟩
  · cases between with
    | nil => simp at hrest
    | cons c behind =>
      rw [List.cons_append, List.cons.injEq] at hrest
      obtain ⟨rfl, hrest⟩ := hrest
      exact ⟨behind, hrest, hstem⟩
  · cases between with
    | nil => simp at hext
    | cons c behind =>
      rw [List.cons_append, List.cons.injEq] at hext
      exact absurd (by simp [hext.2]) hcolon

theorem IsAddress.extensionChars_eq (h : IsAddress cs scheme rest) (hext : extensionChars cs ≠ [])
    (hcolon : ':' ∉ extensionChars cs) (hrest : ¬HidesExtension rest) :
    extensionChars rest = extensionChars cs := by
  obtain ⟨stem, ext, hcs, hdot, hslash, heq⟩ := exists_stem hext
  rw [heq] at hcolon
  obtain ⟨behind, rfl, rfl⟩ := exists_stem_behind_colon (h.split.symm.trans hcs)
    fun hmem => hcolon (List.mem_cons_of_mem _ hmem)
  rw [heq]
  refine extensionChars_of_stem hdot hslash fun hdots => ?_
  by_cases hmem : '/' ∈ behind
  · -- the last segment of the name begins behind the colon, so that it has no extension either
    have hnone : extensionChars cs = [] := by
      rw [hcs]
      refine extensionChars_of_dots hdot hslash ?_
      rwa [List.append_cons, behindLast_append_of_mem hmem]
    exact hext hnone
  · rw [behindLast_of_not_mem hmem] at hdots
    exact hrest ⟨behind, ext, rfl, hdots, hdot, hslash⟩

/-! ### Types that are written out -/

/-- The part of an address of data that stands before its first comma: a type, and what follows
behind a semicolon. -/
structure IsHeader (type params : List Char) : Prop where
  type : ∀ c ∈ type, c ≠ ',' ∧ c ≠ ';'
  comma : ',' ∉ params
  semicolon : ∀ c ∈ params.head?, c = ';'

theorem dataType?_of_no_comma (h : ',' ∉ rest) : dataType? rest = none :=
  if_neg h

theorem IsHeader.dataType?_eq {type params : List Char} (h : IsHeader type params)
    (data : List Char) : dataType? (type ++ params ++ ',' :: data) =
      some (if '=' ∈ type || '/' ∉ type then "text/plain" else String.ofList type) := by
  have hhead : ∀ c ∈ type ++ params, decide (c ≠ ',') = true := by
    intro c hc
    rw [decide_eq_true_eq]
    rintro rfl
    rcases List.mem_append.1 hc with hc | hc
    · exact (h.type _ hc).1 rfl
    · exact h.comma hc
  have htype : ∀ c ∈ type, decide (c ≠ ';') = true := fun c hc => decide_eq_true (h.type c hc).2
  have hparams : params.takeWhile (· ≠ ';') = [] := by
    cases params with
    | nil => rfl
    | cons c params =>
      rw [List.takeWhile_cons_of_neg]
      simpa using h.semicolon c rfl
  rw [dataType?, if_pos (by simp), List.takeWhile_append_of_pos hhead,
    List.takeWhile_cons_of_neg (by decide), List.append_nil, List.takeWhile_append_of_pos htype,
    hparams, List.append_nil]

theorem exists_header (h : ',' ∈ rest) :
    ∃ type params data, rest = type ++ params ++ ',' :: data ∧ IsHeader type params := by
  obtain ⟨head, data, rfl, hhead⟩ := List.eq_append_cons_of_mem h
  have hsplit : head.takeWhile (· ≠ ';') ++ head.dropWhile (· ≠ ';') = head :=
    List.takeWhile_append_dropWhile
  refine ⟨head.takeWhile (· ≠ ';'), head.dropWhile (· ≠ ';'), data, by rw [hsplit], ?_, ?_, ?_⟩
  · intro c hc
    refine ⟨?_, by simpa using List.mem_takeWhile_imp hc⟩
    rintro rfl
    exact hhead ((List.takeWhile_prefix _).subset hc)
  · exact fun hc => hhead ((List.dropWhile_suffix _).subset hc)
  · intro c hc
    have hnot := List.head?_dropWhile_not (fun c : Char => decide (c ≠ ';')) head
    rw [Option.mem_def.1 hc] at hnot
    simpa using hnot

/-! ### Media types -/

variable {name : String}

theorem mediaType?_of_no_address (h : ∀ scheme rest, ¬IsAddress name.toList scheme rest) :
    mediaType? name = imageType? (extension name.toList) := by
  rw [mediaType?, splitScheme_of_no_address h]
  exact if_neg (by decide)

theorem IsAddress.mediaType?_eq (h : IsAddress name.toList scheme rest) :
    mediaType? name = if Text.lower (String.ofList scheme) = "data" then dataType? rest
      else imageType? (extension rest) := by
  rw [mediaType?, h.splitScheme_eq]

/-- The media type of a name as an address, where it does not go by the extension of the name. -/
inductive AddressType (name : String) : String → Prop
  | hidden {scheme rest : List Char} (h : IsAddress name.toList scheme rest)
      (hscheme : Text.lower (String.ofList scheme) ≠ "data") (hrest : HidesExtension rest) :
      AddressType name "application/octet-stream"
  | bare {scheme rest : List Char} (h : IsAddress name.toList scheme rest)
      (hscheme : Text.lower (String.ofList scheme) = "data") (hcomma : ',' ∉ rest) :
      AddressType name "application/octet-stream"
  | unnamed {scheme type params data : List Char}
      (h : IsAddress name.toList scheme (type ++ params ++ ',' :: data))
      (hscheme : Text.lower (String.ofList scheme) = "data") (hheader : IsHeader type params)
      (hunnamed : '=' ∈ type ∨ '/' ∉ type) : AddressType name "text/plain"
  | named {scheme type params data : List Char}
      (h : IsAddress name.toList scheme (type ++ params ++ ',' :: data))
      (hscheme : Text.lower (String.ofList scheme) = "data") (hheader : IsHeader type params)
      (hnamed : '=' ∉ type ∧ '/' ∈ type) : AddressType name (String.ofList type)

theorem AddressType.mediaType_eq {type : String} (h : AddressType name type) :
    mediaType name = type := by
  cases h with
  | hidden h hscheme hrest =>
    rw [mediaType, h.mediaType?_eq, if_neg hscheme, extension, hrest.extensionChars_eq]
    rfl
  | bare h hscheme hcomma =>
    rw [mediaType, h.mediaType?_eq, if_pos hscheme, dataType?_of_no_comma hcomma]
    rfl
  | unnamed h hscheme hheader hunnamed =>
    rw [mediaType, h.mediaType?_eq, if_pos hscheme, hheader.dataType?_eq, if_pos]
    · rfl
    · simpa using hunnamed
  | named h hscheme hheader hnamed =>
    rw [mediaType, h.mediaType?_eq, if_pos hscheme, hheader.dataType?_eq, if_neg]
    · rfl
    · simpa using hnamed

/-- An image goes by its extension, if its name has no media type as an address. -/
theorem mediaType?_of_no_addressType (hext : extensionChars name.toList ≠ [])
    (hcolon : ':' ∉ extensionChars name.toList) (h : ∀ type, ¬AddressType name type) :
    mediaType? name = imageType? (extension name.toList) := by
  by_cases haddress : ∃ scheme rest, IsAddress name.toList scheme rest
  · obtain ⟨scheme, rest, haddress⟩ := haddress
    have hscheme : Text.lower (String.ofList scheme) ≠ "data" := by
      intro hscheme
      by_cases hcomma : ',' ∈ rest
      · obtain ⟨type, params, data, rfl, hheader⟩ := exists_header hcomma
        by_cases hunnamed : '=' ∈ type ∨ '/' ∉ type
        · exact h _ (.unnamed haddress hscheme hheader hunnamed)
        · exact h _ (.named haddress hscheme hheader (by simpa using hunnamed))
      · exact h _ (.bare haddress hscheme hcomma)
    have hrest : ¬HidesExtension rest := fun hrest => h _ (.hidden haddress hscheme hrest)
    rw [haddress.mediaType?_eq, if_neg hscheme, extension,
      haddress.extensionChars_eq hext hcolon hrest, extension]
  · exact mediaType?_of_no_address fun scheme rest hname => haddress ⟨scheme, rest, hname⟩

/-! ### Images -/

theorem map_toLower_extensionChars (cs : List Char) :
    (extensionChars cs).map Char.toLower = (extension cs).toList := by
  rw [extension, Text.lower, String.toList_ofList, String.toList_ofList]

/-- The extension of an image is not empty and has no colon. -/
theorem extensionChars_of_image (h : FileKind.ofName? name = some .image) :
    extensionChars name.toList ≠ [] ∧ ':' ∉ extensionChars name.toList := by
  have hext : extension name.toList ∈ [".png", ".jpg", ".jpeg"] := by
    unfold FileKind.ofName? at h
    simp only at h
    split at h
    · cases h
    · split at h
      · rename_i hext
        simpa [or_assoc] using hext
      · cases h
  have hchars := map_toLower_extensionChars name.toList
  have hword : ∀ word ∈ [".png", ".jpg", ".jpeg"], word.toList ≠ [] ∧ ':' ∉ word.toList := by
    decide
  obtain ⟨hne, hcolon⟩ := hword _ hext
  rw [← hchars] at hne hcolon
  exact ⟨fun hnil => hne (by rw [hnil]; rfl), fun hmem => hcolon (List.mem_map_of_mem hmem)⟩

end FileName

namespace Run

variable {p : Pipeline} {find : String → Option StoredSchema} {c : Collaborators} {o : Order}
  {definition : Option Fields} {node : Option Schema.Node} {kind : FileKind} {content : Text.Octets}
  {name type : String}

theorem plan_kind (h : plan p find o = .ok (definition, node, kind)) :
    o.fileName.bind FileKind.ofName? = some kind := by
  simp only [plan, bind_eq_ok_iff] at h
  obtain ⟨_, -, _, -, h⟩ := h
  split at h
  · cases h
  · rename_i hkind
    cases h
    exact hkind

/-- The image service is asked before all else or not at all. -/
theorem processImage_mem_proceed :
    Call.processImage content name type ∈ (proceed p c o definition node kind).2 ↔
      Call.processImage content name type ∈ imageCalls c o kind := by
  rcases hsource : source c o kind with problem | octets
  · rw [proceed_of_lost_text (extract_of_lost_image hsource)]
  · rcases htext : c.readText kind octets with problem | text
    · simp [proceed_of_lost_text (extract_of_lost_text hsource htext)]
    · have hextract := extract_eq_ok hsource htext (used_iff.2 rfl)
      cases hprompt : Prompt.extraction? (usableText text) (definition.map .object)
          o.format.name with
      | none => simp [proceed_unprompted hextract hprompt]
      | some prompt => simp [proceed_prompted hextract hprompt]

theorem processImage_mem_run (h : Call.processImage content name type ∈ (run p find c o).2) :
    FileKind.ofName? name = some .image ∧ type = FileName.mediaType name := by
  cases hplan : plan p find o with
  | error f =>
    rw [run_of_fault hplan] at h
    cases h
  | ok found =>
    obtain ⟨definition, node, kind⟩ := found
    obtain ⟨fileName, hname, hkind⟩ := Option.bind_eq_some_iff.1 (plan_kind hplan)
    rw [run_of_plan hplan, processImage_mem_proceed, imageCalls, hname] at h
    split at h
    · rename_i hservice
      cases List.mem_singleton.1 h
      rw [hservice.1] at hkind
      exact ⟨hkind, rfl⟩
    · cases h

/-- An image is sent to the service under its name, whatever its content. -/
theorem exists_processImage (p : Pipeline) (find : String → Option StoredSchema)
    (hservice : c.processImage.isSome = true) (hkind : FileKind.ofName? name = some .image)
    (content : Text.Octets) :
    Call.processImage content name (FileName.mediaType name) ∈
      (run p find c ⟨some name, content, .json, none, none⟩).2 := by
  have hresolve : resolve find ⟨some name, content, .json, none, none⟩ = .ok none := rfl
  have hcompile : compile p none = .ok none := rfl
  have hplan : plan p find ⟨some name, content, .json, none, none⟩ = .ok (none, none, .image) :=
    plan_eq_ok hresolve hcompile (by rw [Option.bind_some, hkind])
  rw [run_of_plan hplan, processImage_mem_proceed, imageCalls, if_pos ⟨rfl, hservice⟩]
  exact List.mem_singleton_self _

end Run

open FileName Run

/-- The media type is the one of the extension, in either case of its letters. -/
def RightType (name type : String) : Prop :=
  (extension name.toList = ".png" → type = "image/png") ∧
    (extension name.toList = ".jpg" ∨ extension name.toList = ".jpeg" → type = "image/jpeg")

theorem rightType_of_imageType? {name type : String}
    (h : (imageType? (extension name.toList)).getD "application/octet-stream" = type) :
    RightType name type := by
  subst h
  refine ⟨fun hpng => by rw [hpng]; rfl, ?_⟩
  rintro (hjpg | hjpeg)
  · rw [hjpg]
    rfl
  · rw [hjpeg]
    rfl

/-- What is declared for an image is right, unless its name has another media type as an address. -/
theorem rightType_iff {name : String} (h : FileKind.ofName? name = some .image) :
    RightType name (mediaType name) ↔ ∀ type, AddressType name type → RightType name type := by
  constructor
  · intro hright type htype
    rwa [← htype.mediaType_eq]
  · intro hright
    by_cases haddress : ∃ type, AddressType name type
    · obtain ⟨type, htype⟩ := haddress
      rw [htype.mediaType_eq]
      exact hright type htype
    · obtain ⟨hext, hcolon⟩ := extensionChars_of_image h
      refine rightType_of_imageType? ?_
      rw [mediaType, mediaType?_of_no_addressType hext hcolon (not_exists.1 haddress)]

/-- Only images are sent to the image service, and each one can be. The media type that is declared
for one is that of its name as an address, if there is one, and otherwise that of its extension; so
it is right exactly if the name as an address has no other media type. -/
theorem declared_types (p : Pipeline) (find : String → Option StoredSchema) (c : Collaborators)
    (content : Text.Octets) (name : String) :
    (∀ o type, Call.processImage content name type ∈ (run p find c o).2 →
      FileKind.ofName? name = some .image ∧
      (∀ other, AddressType name other → type = other) ∧
      (RightType name type ↔ ∀ other, AddressType name other → RightType name other)) ∧
    (c.processImage.isSome = true → FileKind.ofName? name = some .image →
      ∃ type, Call.processImage content name type ∈
        (run p find c ⟨some name, content, .json, none, none⟩).2) := by
  constructor
  · intro o type h
    obtain ⟨hkind, rfl⟩ := processImage_mem_run h
    exact ⟨hkind, fun other hother => hother.mediaType_eq, rightType_iff hkind⟩
  · intro hservice hkind
    exact ⟨_, exists_processImage p find hservice hkind content⟩

/-- Collaborators of whom the image service returns what it is sent. -/
def patientCollaborators : Collaborators :=
  ⟨some fun content _ _ => .ok content, fun _ _ => .ok none, fun _ => .ok "null"⟩

/-- Behind a scheme the extension may be hidden, and an address of data has the type that is written
in it, or none at all. -/
theorem scheme_misleads :
    Call.processImage [1] "c:.png" "application/octet-stream" ∈
      (run ⟨none, false⟩ (fun _ => none) patientCollaborators
        ⟨some "c:.png", [1], .json, none, none⟩).2 ∧
    Call.processImage [1] "data:,scan.JPG" "text/plain" ∈
      (run ⟨none, false⟩ (fun _ => none) patientCollaborators
        ⟨some "data:,scan.JPG", [1], .json, none, none⟩).2 ∧
    ¬RightType "c:.png" "application/octet-stream" ∧ ¬RightType "data:,scan.JPG" "text/plain" := by
  have hcolon : mediaType "c:.png" = "application/octet-stream" := by decide
  have hdata : mediaType "data:,scan.JPG" = "text/plain" := by decide
  refine ⟨?_, ?_, fun hpng => ?_, fun hjpg => ?_⟩
  · rw [← hcolon]
    exact exists_processImage _ _ rfl (by decide) [1]
  · rw [← hdata]
    exact exists_processImage _ _ rfl (by decide) [1]
  · exact absurd (hpng.1 (by decide)) (by decide)
  · exact absurd (hjpg.2 (.inl (by decide))) (by decide)

end Extraction
