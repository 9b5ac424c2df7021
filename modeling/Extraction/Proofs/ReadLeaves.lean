import Extraction.Json.Reader
import Extraction.Proofs.Chaining
import Extraction.Proofs.Leaves
import Extraction.Proofs.Numerals

/-!
What JSON readers yield. A reader goes through its text from left to right, so what it leaves is an
end of the text, and every leaf of what it yields is a string or was read as an atom somewhere in
the text.
-/

namespace Extraction

namespace Json

variable {cs rest : List Char}

/-! ### What is left -/

theorem skipSpace_suffix (cs : List Char) : skipSpace cs <:+ cs :=
  List.dropWhile_suffix _

/-- What is left behind a character behind blanks. -/
theorem suffix_of_skipSpace {c : Char} (h : skipSpace cs = c :: rest) : rest <:+ cs :=
  (List.suffix_cons c rest).trans (h ▸ skipSpace_suffix cs)

theorem readHex4_suffix {n : Nat} (h : readHex4 cs = some (n, rest)) : rest <:+ cs := by
  unfold readHex4 at h
  split at h
  · simp only [Option.bind_eq_bind, Option.bind_eq_some_iff] at h
    obtain ⟨_, -, _, -, _, -, _, -, h⟩ := h
    cases h
    exact ⟨[_, _, _, _], rfl⟩
  · cases h

theorem readUnit_suffix {c : Char} (h : readUnit cs = .ok (c, rest)) : rest <:+ cs := by
  unfold readUnit at h
  split at h
  · cases h
  · rename_i n after hfirst
    have hafter := readHex4_suffix hfirst
    split at h
    · split at h
      · rename_i tail
        split at h
        · cases h
          exact hafter
        · split at h
          · cases h
          · rename_i low behind hsecond
            split at h
            · obtain ⟨-, rfl⟩ := Prod.mk.inj (Except.ok.inj h)
              exact ((readHex4_suffix hsecond).trans (List.suffix_append ['\\', 'u'] tail)).trans
                hafter
            · cases h
              exact hafter
      · cases h
        exact hafter
    · cases h
      exact hafter

theorem readString_suffix {opening fuel : Nat} {text : List Char}
    (h : readString opening fuel cs = .ok (text, rest)) : rest <:+ cs := by
  fun_induction readString opening fuel cs generalizing text with
  | case3 =>
    cases h
    exact List.suffix_cons _ _
  | case5 fuel behind ih =>
    obtain ⟨⟨c, after⟩, hunit, h⟩ := bind_eq_ok_iff.1 h
    obtain ⟨⟨more, rest'⟩, hmore, heq⟩ := bind_eq_ok_iff.1 h
    cases heq
    exact ((ih after hmore).trans (readUnit_suffix hunit)).trans
      (List.suffix_append ['\\', 'u'] behind)
  | case7 fuel e behind _ c _ ih =>
    obtain ⟨⟨more, rest'⟩, hmore, heq⟩ := bind_eq_ok_iff.1 h
    cases heq
    exact (ih hmore).trans (List.suffix_append ['\\', e] behind)
  | case9 fuel c behind _ _ _ _ _ ih =>
    obtain ⟨⟨more, rest'⟩, hmore, heq⟩ := bind_eq_ok_iff.1 h
    cases heq
    exact (ih hmore).trans (List.suffix_cons c behind)
  | _ => cases h

theorem readText_suffix {s : String} (h : readText cs = .ok (s, rest)) : rest <:+ cs := by
  obtain ⟨⟨text, rest'⟩, hread, heq⟩ := map_eq_ok_iff.1 h
  cases heq
  exact readString_suffix hread

theorem after_suffix {word : List Char} (h : Text.after? word cs = some rest) : rest <:+ cs :=
  ⟨word, (Text.eq_append_of_after? h).symm⟩

theorem matchWord_cases {table : List (List Char × Value)} {v : Value}
    (h : matchWord table cs = some (v, rest)) : rest <:+ cs ∧ v ∈ table.map Prod.snd := by
  obtain ⟨⟨word, w⟩, hmem, hmatch⟩ := List.exists_of_findSome?_eq_some h
  obtain ⟨behind, hafter, heq⟩ := Option.map_eq_some_iff.1 hmatch
  cases heq
  exact ⟨after_suffix hafter, List.mem_map_of_mem hmem⟩

/-! ### Leaves -/

/-- What a leaf can be that is read from a text. An integer is short enough to be written, and a
double is that of a numeral in the text, unless constants are allowed. -/
def Leaf (allowConstants : Bool) (text : List Char) : Value → Prop
  | .int k => Number.digitCount k.natAbs ≤ Number.digitLimit
  | .float x => allowConstants = true ∨ ∃ n : Numeral, n.chars <:+: text ∧ x = n.double
  | .null | .bool _ | .string _ => True
  | _ => False

variable {allow : Bool} {v : Value}

theorem Leaf.mono {text : List Char} (h : cs <:+: text) (leaf : Value)
    (hleaf : Leaf allow cs leaf) : Leaf allow text leaf := by
  cases leaf with
  | float x => exact hleaf.imp_right fun ⟨n, hn, hx⟩ => ⟨n, hn.trans h, hx⟩
  | _ => exact hleaf

/-- What is left of a text is an end of it, and the leaves of what is read are leaves of the
text. -/
def ReadsLeaves (allow : Bool) (read : List Char → Except Fault (Value × List Char)) : Prop :=
  ∀ {cs v rest}, read cs = .ok (v, rest) → rest <:+ cs ∧ v.AllLeaves (Leaf allow cs)

theorem readAtom_leaves (allow : Bool) : ReadsLeaves allow (readAtom allow) := by
  intro cs v rest h
  unfold readAtom at h
  split at h
  · rename_i found hword
    cases h
    obtain ⟨hrest, hv⟩ := matchWord_cases hword
    simp only [words, List.map_cons, List.map_nil, List.mem_cons, List.not_mem_nil, or_false] at hv
    rcases hv with rfl | rfl | rfl
    all_goals exact ⟨hrest, trivial⟩
  · split at h
    · rename_i found hconstant
      split at h
      · rename_i hallow
        cases h
        obtain ⟨hrest, hv⟩ := matchWord_cases hconstant
        simp only [constants, List.map_cons, List.map_nil, List.mem_cons, List.not_mem_nil,
          or_false] at hv
        rcases hv with rfl | rfl | rfl
        all_goals exact ⟨hrest, .inl hallow⟩
      · cases h
    · obtain ⟨hrest, ⟨k, hshort, rfl⟩ | ⟨n, hchars, rfl⟩⟩ := readNumber_cases h
      · exact ⟨hrest, hshort⟩
      · exact ⟨hrest, .inr ⟨n, ⟨[], rest, hchars.symm⟩, rfl⟩⟩

/-- The leaves of what is read from an end of a text are leaves of the text. -/
theorem leaves_of_suffix {text : List Char} (hv : v.AllLeaves (Leaf allow cs)) (h : cs <:+ text) :
    v.AllLeaves (Leaf allow text) :=
  hv.imp (Leaf.mono h.isInfix)

theorem string_leaves
    (h : (readText cs).map (fun p => (Value.string p.1, p.2)) = .ok (v, rest)) :
    rest <:+ '"' :: cs ∧ v.AllLeaves (Leaf allow ('"' :: cs)) := by
  obtain ⟨⟨s, behind⟩, hread, heq⟩ := map_eq_ok_iff.1 h
  cases heq
  exact ⟨(readText_suffix hread).trans (List.suffix_cons _ _), trivial⟩

variable {value : List Char → Except Fault (Value × List Char)}

theorem readItems_leaves (h : ReadsLeaves allow value) {fuel : Nat} {items : List Value}
    (hread : readItems value fuel cs = .ok (items, rest)) :
    rest <:+ cs ∧ ∀ v ∈ items, v.AllLeaves (Leaf allow cs) := by
  induction fuel generalizing cs items with
  | zero => cases hread
  | succ fuel ih =>
    obtain ⟨⟨v, behind⟩, hvalue, hread⟩ := bind_eq_ok_iff.1 hread
    obtain ⟨hbehind, hv⟩ := h hvalue
    dsimp only at hread
    split at hread
    · rename_i hclose
      cases hread
      exact ⟨(suffix_of_skipSpace hclose).trans hbehind, by simpa using hv⟩
    · rename_i after hcomma
      obtain ⟨⟨more, rest'⟩, hmore, heq⟩ := bind_eq_ok_iff.1 hread
      cases heq
      obtain ⟨hrest, hitems⟩ := ih hmore
      have hafter : skipSpace after <:+ cs :=
        ((skipSpace_suffix after).trans (suffix_of_skipSpace hcomma)).trans hbehind
      refine ⟨hrest.trans hafter, List.forall_mem_cons.2 ⟨hv, fun w hw => ?_⟩⟩
      exact leaves_of_suffix (hitems w hw) hafter
    · cases hread

theorem readFields_leaves (h : ReadsLeaves allow value) {fuel : Nat} {fields : Fields}
    (hread : readFields value fuel cs = .ok (fields, rest)) :
    rest <:+ cs ∧ ∀ field ∈ fields, field.2.AllLeaves (Leaf allow cs) := by
  fun_induction readFields value fuel cs generalizing fields with
  | case1 => cases hread
  | case3 => cases hread
  | case2 fuel cs ih =>
    obtain ⟨⟨name, afterName⟩, hname, hread⟩ := bind_eq_ok_iff.1 hread
    have hafterName : afterName <:+ '"' :: cs :=
      (readText_suffix hname).trans (List.suffix_cons _ _)
    dsimp only at hread
    split at hread
    · rename_i afterColon hcolon
      obtain ⟨⟨v, behind⟩, hvalue, hread⟩ := bind_eq_ok_iff.1 hread
      obtain ⟨hbehind, hv⟩ := h hvalue
      have hstart : skipSpace afterColon <:+ '"' :: cs :=
        ((skipSpace_suffix _).trans (suffix_of_skipSpace hcolon)).trans hafterName
      have hfirst := leaves_of_suffix hv hstart
      dsimp only at hread
      split at hread
      · rename_i hclose
        cases hread
        exact ⟨((suffix_of_skipSpace hclose).trans hbehind).trans hstart, by simpa using hfirst⟩
      · rename_i after hcomma
        obtain ⟨⟨more, rest'⟩, hmore, heq⟩ := bind_eq_ok_iff.1 hread
        cases heq
        obtain ⟨hrest, hfields⟩ := ih after hmore
        have hafter : skipSpace after <:+ '"' :: cs :=
          (((skipSpace_suffix after).trans (suffix_of_skipSpace hcomma)).trans hbehind).trans hstart
        refine ⟨hrest.trans hafter, List.forall_mem_cons.2 ⟨hfirst, fun field hfield => ?_⟩⟩
        exact leaves_of_suffix (hfields field hfield) hafter
      · cases hread
    · cases hread

theorem array_leaves (hvalue : ReadsLeaves allow value)
    (h : (match skipSpace cs with
      | ']' :: rest => .ok (Value.array [], rest)
      | cs => (readItems value cs.length cs).map fun (items, rest) => (.array items, rest)) =
        Except.ok (v, rest)) :
    rest <:+ '[' :: cs ∧ v.AllLeaves (Leaf allow ('[' :: cs)) := by
  have hstart : skipSpace cs <:+ '[' :: cs :=
    (skipSpace_suffix cs).trans (List.suffix_cons _ _)
  split at h
  · rename_i hclose
    cases h
    exact ⟨(suffix_of_skipSpace hclose).trans (List.suffix_cons _ _), trivial⟩
  · obtain ⟨⟨items, behind⟩, hread, heq⟩ := map_eq_ok_iff.1 h
    cases heq
    obtain ⟨hrest, hitems⟩ := readItems_leaves hvalue hread
    exact ⟨hrest.trans hstart,
      Value.itemLeaves_iff.2 fun w hw => leaves_of_suffix (hitems w hw) hstart⟩

theorem object_leaves (hvalue : ReadsLeaves allow value)
    (h : (match skipSpace cs with
      | '\x7d' :: rest => .ok (Value.object [], rest)
      | cs => (readFields value (cs.length + 1) cs).map
          fun (fields, rest) => (.object (Value.fieldsOfPairs fields), rest)) =
        Except.ok (v, rest)) :
    rest <:+ '\x7b' :: cs ∧ v.AllLeaves (Leaf allow ('\x7b' :: cs)) := by
  have hstart : skipSpace cs <:+ '\x7b' :: cs :=
    (skipSpace_suffix cs).trans (List.suffix_cons _ _)
  split at h
  · rename_i hclose
    cases h
    exact ⟨(suffix_of_skipSpace hclose).trans (List.suffix_cons _ _), trivial⟩
  · obtain ⟨⟨fields, behind⟩, hread, heq⟩ := map_eq_ok_iff.1 h
    cases heq
    obtain ⟨hrest, hfields⟩ := readFields_leaves hvalue hread
    refine ⟨hrest.trans hstart, Value.fieldLeaves_iff.2 fun field hfield => ?_⟩
    exact leaves_of_suffix (hfields field (Value.mem_of_mem_fieldsOfPairs hfield)) hstart

theorem readValue_leaves (allow : Bool) (depth : Nat) :
    ReadsLeaves allow (readValue allow depth) := by
  induction depth using Nat.strongRecOn with
  | ind depth ih =>
    intro cs v rest h
    unfold readValue at h
    split at h
    · exact string_leaves h
    · cases h
    · cases h
    · exact array_leaves (ih _ (Nat.lt_succ_self _)) h
    · exact object_leaves (ih _ (Nat.lt_succ_self _)) h
    · exact readAtom_leaves allow h

/-- The leaves of what is read from a text are leaves of the text. -/
theorem readChars_leaves {text : List Char} (h : readChars allow text = .ok v) :
    v.AllLeaves (Leaf allow text) := by
  unfold readChars at h
  split at h
  · cases h
  · split at h
    · cases h
    · rename_i hread
      split at h
      · cases h
        exact leaves_of_suffix (readValue_leaves allow _ hread).2 (skipSpace_suffix text)
      · cases h

end Json

end Extraction
