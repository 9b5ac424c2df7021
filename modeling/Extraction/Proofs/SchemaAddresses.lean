import Extraction.Proofs.PercentEncoding
import Extraction.Proofs.Trimming
import Extraction.Service.Resource

/-!
Addresses of schemas. The address made from a name leads to the resource of that name if the name
holds no slash and nothing that is taken for an encoded octet. Otherwise it leads to another
resource or to none, and no address at all leads to a name with a slash in it.
-/

namespace Extraction.Service

/-! ### Segments -/

variable {cs rest : List Char}

/-- The characters of some segments, with one more for each. -/
def weight : List (List Char) → Nat
  | [] => 0
  | segment :: segments => segment.length + 1 + weight segments

theorem weight_append (segments more : List (List Char)) :
    weight (segments ++ more) = weight segments + weight more := by
  induction segments with
  | nil => exact (Nat.zero_add _).symm
  | cons segment segments ih =>
    rw [List.cons_append, weight, ih, weight]
    omega

theorem weight_reverse (segments : List (List Char)) :
    weight segments.reverse = weight segments := by
  induction segments with
  | nil => rfl
  | cons segment segments ih =>
    rw [List.reverse_cons, weight_append, ih, weight, weight, weight]
    omega

theorem weight_splitChars (sep : Char) (cs : List Char) :
    weight (Text.splitChars sep cs) = cs.length + 1 := by
  induction cs with
  | nil => rfl
  | cons c cs ih =>
    rw [Text.splitChars]
    split
    · simp only [weight, List.length_nil, List.length_cons] at ih ⊢
      omega
    · cases hsplit : Text.splitChars sep cs with
      | nil => exact absurd hsplit (Text.splitChars_ne_nil sep cs)
      | cons piece pieces =>
        rw [hsplit] at ih
        simp only [weight, List.length_cons] at ih ⊢
        omega

theorem weight_foldl_addSegment_le (segments done : List (List Char)) :
    weight (segments.foldl addSegment done) ≤ weight done + weight segments := by
  induction segments generalizing done with
  | nil => exact le_rfl
  | cons segment segments ih =>
    have hstep : weight (addSegment done segment) ≤ weight done + (segment.length + 1) := by
      unfold addSegment
      split
      · exact Nat.le_add_right _ _
      split
      · split
        · exact Nat.le_add_right _ _
        · cases done with
          | nil => exact Nat.zero_le _
          | cons first done =>
            simp only [weight, List.tail_cons]
            omega
      · simp only [weight]
        omega
    have hrest := ih (addSegment done segment)
    simp only [weight, List.foldl_cons] at hstep hrest ⊢
    omega

theorem length_intercalate_le (segments : List (List Char)) :
    (['/'].intercalate segments).length ≤ weight segments - 1 := by
  induction segments with
  | nil => exact Nat.zero_le _
  | cons segment segments ih =>
    cases segments with
    | nil => simp [weight]
    | cons next segments =>
      rw [List.intercalate_cons_cons]
      simp only [weight, List.length_append, List.length_cons, List.length_nil] at ih ⊢
      omega

/-- Dot segments only ever shorten a path. -/
theorem length_withoutDots_le (path : List Char) : (withoutDots path).length ≤ path.length := by
  have hsplit := weight_splitChars '/' path
  have hfold := weight_foldl_addSegment_le (Text.splitChars '/' path) []
  have hlength := length_intercalate_le ((Text.splitChars '/' path).foldl addSegment []).reverse
  rw [weight_reverse] at hlength
  have hnil : weight [] = 0 := rfl
  rw [withoutDots]
  omega

theorem Address.length_decoded_le (path : List Char) :
    (Address.ofPath path).decoded.length ≤ path.length :=
  (length_percentDecode_le _).trans ((length_percentDecode_le _).trans (length_withoutDots_le path))

/-! ### Paths of schemas -/

namespace Resource

variable {path : List Char} {name : String}

theorem ofFixedPath?_schemaRoot (rest : List Char) : ofFixedPath? (schemaRoot ++ rest) = none := by
  have hfixed : ∀ entry ∈ fixed, ¬schemaRoot <+: entry.1 ∧ ¬schemaRoot <+: entry.1 ++ ['\n'] := by
    decide
  rw [ofFixedPath?, Option.map_eq_none_iff, List.find?_eq_none]
  intro entry hentry hpath
  rw [Bool.or_eq_true, decide_eq_true_eq, decide_eq_true_eq] at hpath
  rcases hpath with hpath | hpath
  · exact (hfixed entry hentry).1 ⟨rest, hpath⟩
  · exact (hfixed entry hentry).2 ⟨rest, hpath⟩

theorem ofFixedPath?_ne_schema : ofFixedPath? path ≠ some (.schema name) := by
  intro h
  obtain ⟨entry, hentry, hresource⟩ := Option.map_eq_some_iff.1 h
  have hmem := List.mem_of_find?_eq_some hentry
  simp only [fixed, List.mem_cons, List.not_mem_nil, or_false] at hmem
  rcases hmem with rfl | rfl | rfl | rfl | rfl | rfl | rfl <;> cases hresource

/-- The paths at which a schema stands. -/
theorem ofPath?_eq_schema_iff : ofPath? path = some (.schema name) ↔
    path = schemaRoot ++ name.toList ∧ name ≠ "" ∧ '/' ∉ name.toList := by
  constructor
  · intro h
    rw [ofPath?, Option.or_eq_some_iff] at h
    have hschema := (h.resolve_left ofFixedPath?_ne_schema).2
    unfold ofSchemaPath? at hschema
    split at hschema
    · rename_i rest hrest
      split at hschema
      · cases hschema
      · rename_i hname
        cases hschema
        rw [String.toList_ofList]
        simp only [Bool.or_eq_true, decide_eq_true_eq, not_or, List.isEmpty_iff] at hname
        refine ⟨Text.eq_append_of_after? hrest, fun hempty => hname.1 ?_, hname.2⟩
        rw [← String.toList_ofList (l := rest), hempty]
        rfl
    · cases hschema
  · rintro ⟨rfl, hne, hslash⟩
    have hempty : name.toList.isEmpty = false := by
      rw [List.isEmpty_eq_false_iff]
      exact fun h => hne (String.toList_inj.1 h)
    rw [ofPath?, ofFixedPath?_schemaRoot, Option.none_or, ofSchemaPath?, Text.after?_append]
    simp [hempty, hslash]

theorem length_withoutSlashes_lt (h : path.getLast? = some '/') :
    (withoutSlashes path).length < path.length := by
  obtain ⟨front, rfl⟩ := List.getLast?_eq_some_iff.1 h
  rw [withoutSlashes, List.reverse_append, List.reverse_singleton, List.singleton_append,
    List.dropWhile_cons_of_pos (by decide), List.length_reverse, List.length_append,
    List.length_singleton]
  exact Nat.lt_succ_of_le ((List.dropWhile_sublist _).length_le.trans_eq List.length_reverse)

theorem find?_of_path {resource : Resource} {a : Address} (h : ofPath? a.decoded = some resource)
    (redirections : Nat) : find? redirections a = some resource := by
  unfold find?
  simp only [h]

/-- Where there is nothing, the path without the slashes at its end may help. -/
theorem find?_of_none {resource : Resource} {redirections : Nat} {a : Address}
    (hpath : ofPath? a.decoded = none) (h : find? redirections a = some resource) :
    ∃ fewer, fewer < redirections ∧ a.decoded.getLast? = some '/' ∧
      find? fewer (.ofPath (withoutSlashes a.decoded)) = some resource := by
  cases redirections with
  | zero => simp [find?, hpath] at h
  | succ fewer =>
    unfold find? at h
    simp only [hpath, Option.ite_none_right_eq_some, Bool.and_eq_true, decide_eq_true_eq] at h
    exact ⟨fewer, Nat.lt_succ_self fewer, h.1.1, h.2⟩

/-- A schema is found at its own path, or at a longer one that leads to it by redirections. -/
theorem find?_eq_schema {redirections : Nat} {a : Address}
    (h : find? redirections a = some (.schema name)) : '/' ∉ name.toList ∧
      (a.decoded = schemaRoot ++ name.toList ∨
        schemaRoot.length + name.toList.length < a.decoded.length) := by
  induction redirections using Nat.strong_induction_on generalizing a with
  | _ redirections ih =>
    cases hpath : ofPath? a.decoded with
    | some resource =>
      rw [find?_of_path hpath] at h
      cases h
      obtain ⟨hdecoded, -, hslash⟩ := ofPath?_eq_schema_iff.1 hpath
      exact ⟨hslash, .inl hdecoded⟩
    | none =>
      obtain ⟨fewer, hfewer, hlast, hfound⟩ := find?_of_none hpath h
      have hshorter := length_withoutSlashes_lt hlast
      have hdecoded := Address.length_decoded_le (withoutSlashes a.decoded)
      obtain ⟨hslash, hself | hlonger⟩ := ih fewer hfewer hfound
      · rw [hself, List.length_append] at hdecoded
        exact ⟨hslash, .inr (by omega)⟩
      · exact ⟨hslash, .inr (by omega)⟩

end Resource

/-! ### The address of a name -/

/-- The path of the schema of a name, with the name encoded. -/
def schemaPath (name : String) : List Char :=
  Resource.schemaRoot ++ percentEncode name.toList

def schemaAddress (name : String) : Address :=
  .ofPath (schemaPath name)

variable {name other : String}

theorem slash_not_mem_percentEncode (cs : List Char) : '/' ∉ percentEncode cs := by
  intro h
  rcases mem_percentEncode h with h | h <;> cases h

example : schemaPath "a é" = "/file-schemas/a%20%C3%A9".toList := by decide +kernel

/-- The name is the last segment of its path, and of more than two characters, so no dot segment. -/
theorem withoutDots_schemaPath (h : 3 ≤ name.length) :
    withoutDots (schemaPath name) = schemaPath name := by
  have hslash : '/' ∉ percentEncode name.toList := slash_not_mem_percentEncode _
  have hdots : ∀ dots : List Char, dots.length < 3 → '%' ∉ dots →
      percentEncode name.toList ≠ dots := by
    rintro _ hdots hplain rfl
    have hdecoded := percentDecode_percentEncode name.toList
    rw [percentDecode_plain hplain] at hdecoded
    rw [hdecoded, String.length_toList] at hdots
    omega
  have hpath : schemaPath name = [] ++ '/' :: ("file-schemas".toList ++
      '/' :: percentEncode name.toList) := rfl
  have hsplit : Text.splitChars '/' (schemaPath name) =
      [[], "file-schemas".toList, percentEncode name.toList] := by
    rw [hpath, Text.splitChars_append List.not_mem_nil,
      Text.splitChars_append (by decide), Text.splitChars_self hslash]
  have hlast : addSegment ["file-schemas".toList, []] (percentEncode name.toList) =
      [percentEncode name.toList, "file-schemas".toList, []] := by
    rw [addSegment, if_neg (hdots _ (by decide) (by decide)),
      if_neg (hdots _ (by decide) (by decide))]
  have hfirst : addSegment (addSegment [] []) "file-schemas".toList =
      ["file-schemas".toList, []] := rfl
  have hreverse : [percentEncode name.toList, "file-schemas".toList, []].reverse =
      [[], "file-schemas".toList, percentEncode name.toList] := rfl
  rw [withoutDots, hsplit, List.foldl_cons, List.foldl_cons, List.foldl_cons, List.foldl_nil,
    hfirst, hlast, hreverse, List.intercalate_cons_cons, List.intercalate_cons_cons,
    List.intercalate_singleton, hpath]
  simp only [List.append_assoc, List.cons_append, List.nil_append]

/-- Decoded twice, the address holds the name decoded once. -/
theorem decoded_schemaAddress (h : 3 ≤ name.length) :
    (schemaAddress name).decoded = Resource.schemaRoot ++ percentDecode name.toList := by
  have hroot : '%' ∉ Resource.schemaRoot := by decide
  rw [Address.decoded, schemaAddress, Address.ofPath, withoutDots_schemaPath h, schemaPath,
    percentDecode_plain_append hroot, percentDecode_percentEncode,
    percentDecode_plain_append hroot]

/-- A name to which its own address leads: it holds no slash and nothing that is taken for an
encoded octet. -/
structure Reachable (name : String) : Prop where
  noSlash : '/' ∉ name.toList
  plain : percentDecode name.toList = name.toList

theorem reachable_of_plain (hslash : '/' ∉ name.toList) (hpercent : '%' ∉ name.toList) :
    Reachable name :=
  ⟨hslash, percentDecode_plain hpercent⟩

theorem Reachable.ofAddress?_eq (h : Reachable name) (hlength : 3 ≤ name.length) :
    Resource.ofAddress? (schemaAddress name) = some (.schema name) := by
  have hne : name ≠ "" := by
    rintro rfl
    cases hlength
  refine Resource.find?_of_path ?_ _
  rw [decoded_schemaAddress hlength, h.plain]
  exact Resource.ofPath?_eq_schema_iff.2 ⟨rfl, hne, h.noSlash⟩

/-- A name that its address leads to, blanks aside, is the name itself. -/
theorem reachable_of_ofAddress? (hlength : 3 ≤ name.length)
    (h : Resource.ofAddress? (schemaAddress name) = some (.schema other))
    (htrim : Text.trim other = name) : other = name ∧ Reachable name := by
  obtain ⟨hslash, hfound⟩ := Resource.find?_eq_schema h
  have hdecoded := length_percentDecode_le name.toList
  -- neither decoding nor trimming makes a name longer, so both leave it as it is
  rw [decoded_schemaAddress hlength] at hfound
  have hother : other.length ≤ name.length := by
    rw [← String.length_toList, ← String.length_toList]
    rcases hfound with hself | hlonger
    · rwa [← List.append_cancel_left hself]
    · rw [List.length_append] at hlonger
      omega
  have hsame : other = name := by
    rw [← htrim]
    exact (Text.trim_eq_self_of_length (htrim ▸ hother)).symm
  subst hsame
  refine ⟨rfl, hslash, ?_⟩
  rcases hfound with hself | hlonger
  · exact List.append_cancel_left hself
  · rw [List.length_append] at hlonger
    omega

end Extraction.Service
