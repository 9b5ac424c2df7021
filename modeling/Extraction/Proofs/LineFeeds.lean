import Extraction.Proofs.DoubleText
import Extraction.Proofs.IsoChars
import Extraction.Proofs.JsonPrinter
import Extraction.Proofs.OutlinePlaces

/-!
Texts that stand on one line. Compact JSON text is such a text, whatever is in the value, and so is
every part of an outline if no name and no string in the value has a line feed.
-/

namespace Extraction

open Bullet (Label)

namespace Markdown

/-! ### Texts without line feeds -/

/-- A text that stands on one line. -/
def OneLine (cs : List Char) : Prop :=
  '\n' ∉ cs

instance (cs : List Char) : Decidable (OneLine cs) :=
  inferInstanceAs (Decidable ('\n' ∉ cs))

theorem oneLine_append {cs ds : List Char} : OneLine (cs ++ ds) ↔ OneLine cs ∧ OneLine ds := by
  simp only [OneLine, List.mem_append, not_or]

theorem oneLine_cons {c : Char} {cs : List Char} : OneLine (c :: cs) ↔ c ≠ '\n' ∧ OneLine cs := by
  simp only [OneLine, List.mem_cons, not_or, ne_comm]

theorem oneLine_of_forall {q : Char → Prop} {cs : List Char} (hq : ¬q '\n') (h : ∀ c ∈ cs, q c) :
    OneLine cs :=
  fun hmem => hq (h _ hmem)

theorem oneLine_digits {cs : List Char} (h : Json.AllDigits cs) : OneLine cs :=
  oneLine_of_forall (q := fun c => c.isDigit = true) (by decide) h

theorem oneLine_iso {cs : List Char} (h : ∀ c ∈ cs, Calendar.IsIsoChar c) : OneLine cs :=
  oneLine_of_forall (by decide) h

theorem oneLine_intText {n : Int} {text : String} (h : Number.intText? n = some text) :
    OneLine text.toList := by
  unfold Number.intText? at h
  split at h
  · cases h
    have hdigits : OneLine (Number.digits n.natAbs) :=
      oneLine_digits fun _ => Number.isDigit_of_mem_digits
    rw [String.toList_ofList, Number.intChars]
    split_ifs
    · exact oneLine_cons.2 ⟨by decide, hdigits⟩
    · exact hdigits
  · cases h

theorem oneLine_numeral (n : Json.Numeral) : OneLine n.chars := by
  obtain ⟨hwhole, hfraction⟩ := List.forall_mem_append.1 n.allDigits
  have hbody : OneLine n.body := by
    refine oneLine_append.2 ⟨oneLine_append.2 ⟨oneLine_digits hwhole, ?_⟩, ?_⟩
    · unfold Json.Numeral.fractionChars
      split_ifs
      · exact List.not_mem_nil
      · exact oneLine_cons.2 ⟨by decide, oneLine_digits hfraction⟩
    · cases n.exponent with
      | none => exact List.not_mem_nil
      | some e =>
        have hsign : OneLine (Json.Exponent.signChars e.sign) := by
          match e.sign with
          | none | some true | some false => decide
        have hmark : (if e.upperCase then 'E' else 'e') ≠ '\n' := by split_ifs <;> decide
        exact oneLine_cons.2 ⟨hmark, oneLine_append.2 ⟨hsign, oneLine_digits e.allDigits⟩⟩
  unfold Json.Numeral.chars
  split_ifs
  · exact oneLine_cons.2 ⟨by decide, hbody⟩
  · exact hbody

theorem oneLine_double {style : Number.FloatStyle} (hinfinity : OneLine style.infinity.toList)
    (hnan : OneLine style.notANumber.toList) (x : Number.Binary64) :
    OneLine (x.text style).toList := by
  cases x with
  | finite negative m =>
    obtain ⟨n, -, htext⟩ := Number.exists_numeral style (x := .finite negative m) rfl
    exact htext ▸ oneLine_numeral n
  | infinite negative =>
    cases negative with
    | false => exact hinfinity
    | true =>
      rw [Number.Binary64.text, if_pos rfl, String.toList_append]
      exact oneLine_append.2 ⟨by decide, hinfinity⟩
  | nan => exact hnan

theorem oneLine_escapeChar (c : Char) : OneLine (Json.escapeChar c) := by
  have hhex : ∀ n < 16, '\n' ≠ Text.hexDigit n := by decide
  unfold OneLine Json.escapeChar
  split_ifs with _ _ hfeed _ _ _ _ hcontrol <;> try decide
  · simp only [List.mem_cons, List.not_mem_nil, or_false, not_or]
    exact ⟨by decide, by decide, by decide, by decide, hhex _ (by omega), hhex _ (by omega)⟩
  · exact fun hmem => hfeed (List.mem_singleton.1 hmem).symm

/-- A string in JSON text stands on one line, whatever is in it. -/
theorem oneLine_stringChars (s : String) : OneLine (Json.stringChars s) := by
  have hescaped : OneLine (s.toList.flatMap Json.escapeChar) := by
    intro hmem
    obtain ⟨c, -, hc⟩ := List.mem_flatMap.1 hmem
    exact oneLine_escapeChar c hc
  exact oneLine_cons.2 ⟨by decide, oneLine_append.2 ⟨hescaped, by decide⟩⟩

/-- What is put together from texts on one line stands on one line. -/
theorem oneLine_between {x y : Option (List Char)} {before after : List Char}
    (hbefore : OneLine before) (hafter : OneLine after) (hx : ∀ cs ∈ x, OneLine cs)
    (hy : ∀ cs ∈ y, OneLine cs) :
    ∀ cs ∈ (Option.map₂ (· ++ ·) x y).map fun cs => before ++ cs ++ after, OneLine cs := by
  rintro cs hcs
  obtain ⟨both, hboth, rfl⟩ := Option.map_eq_some_iff.1 hcs
  obtain ⟨first, others, hfirst, hothers, rfl⟩ := Option.map₂_eq_some_iff.1 hboth
  exact oneLine_append.2 ⟨oneLine_append.2 ⟨hbefore,
    oneLine_append.2 ⟨hx first hfirst, hy others hothers⟩⟩, hafter⟩

/-- What stands before the first part of a container in compact JSON text, or between two. -/
theorem oneLine_mark {c : Char} (hc : c ≠ '\n') (level : Nat) :
    OneLine (c :: Json.compact.newline level) :=
  oneLine_cons.2 ⟨hc, List.not_mem_nil⟩

theorem oneLine_closing {c : Char} (hc : c ≠ '\n') (level : Nat) :
    OneLine (Json.compact.newline level ++ [c]) :=
  oneLine_append.2 ⟨List.not_mem_nil, oneLine_cons.2 ⟨hc, List.not_mem_nil⟩⟩

theorem oneLine_named {c : Char} (hc : c ≠ '\n') (level : Nat) (name : String) :
    OneLine (c :: Json.compact.newline level ++ Json.stringChars name ++
      ':' :: Json.compact.afterColon) :=
  oneLine_append.2 ⟨oneLine_append.2 ⟨oneLine_mark hc level, oneLine_stringChars name⟩,
    oneLine_cons.2 ⟨by decide, List.not_mem_nil⟩⟩

mutual

/-- Compact JSON text stands on one line. -/
theorem oneLine_valueChars (level : Nat) : ∀ v : Value,
    ∀ cs ∈ Json.valueChars Json.compact level v, OneLine cs
  | .null => by rintro cs ⟨⟩; decide
  | .bool b => by rintro cs ⟨⟩; cases b <;> decide
  | .int n => by
    intro cs h
    obtain ⟨text, htext, rfl⟩ := Option.map_eq_some_iff.1 h
    exact oneLine_intText htext
  | .float x => by
    rintro cs ⟨⟩
    exact oneLine_double (by decide) (by decide) x
  | .string _ | .date _ | .dateTime _ => by rintro cs ⟨⟩; exact oneLine_stringChars _
  | .array [] | .object [] => by rintro cs ⟨⟩; decide
  | .array (v :: rest) => by
    rw [Json.valueChars_array_cons]
    exact oneLine_between (oneLine_mark (by decide) (level + 1)) (oneLine_closing (by decide) level)
      (oneLine_valueChars (level + 1) v) (oneLine_itemChars (level + 1) rest)
  | .object ((name, v) :: rest) => by
    rw [Json.valueChars_object_cons]
    exact oneLine_between (oneLine_named (by decide) (level + 1) name)
      (oneLine_closing (by decide) level)
      (oneLine_valueChars (level + 1) v) (oneLine_fieldChars (level + 1) rest)

theorem oneLine_itemChars (level : Nat) : ∀ items : List Value,
    ∀ cs ∈ Json.itemChars Json.compact level items, OneLine cs
  | [] => by rintro cs ⟨⟩; exact List.not_mem_nil
  | v :: rest => by
    rw [Json.itemChars_cons]
    exact oneLine_between (oneLine_mark (by decide) level) List.not_mem_nil
      (oneLine_valueChars level v) (oneLine_itemChars level rest)

theorem oneLine_fieldChars (level : Nat) : ∀ fields : List (String × Value),
    ∀ cs ∈ Json.fieldChars Json.compact level fields, OneLine cs
  | [] => by rintro cs ⟨⟩; exact List.not_mem_nil
  | (name, v) :: rest => by
    rw [Json.fieldChars_cons]
    exact oneLine_between (oneLine_named (by decide) level name) List.not_mem_nil
      (oneLine_valueChars level v) (oneLine_fieldChars level rest)

end

end Markdown

/-! ### Values without line feeds -/

namespace Value

open Markdown (OneLine)

/-- No name and no string in the value has a line feed. -/
def WithoutLineFeeds (v : Value) : Prop :=
  (v.AllNames fun names => ∀ name ∈ names, OneLine name.toList) ∧
    v.AllLeaves fun leaf => ∀ s, leaf = .string s → OneLine s.toList

end Value

/-- A label that puts no line feed into the line of its entry. -/
def Bullet.Label.OnOneLine : Label → Prop
  | .field name => Markdown.OneLine name.toList
  | .element _ => True

theorem Value.WithoutLineFeeds.part {v : Value} (h : v.WithoutLineFeeds) :
    ∀ part ∈ v.parts, part.1.OnOneLine ∧ part.2.WithoutLineFeeds := by
  intro part hpart
  have hleaves := h.2.part part hpart
  cases v with
  | array items =>
    obtain ⟨item, hitem, rfl⟩ := List.mem_map.1 hpart
    exact ⟨trivial, itemNames_iff.1 h.1 _ (List.fst_mem_of_mem_zipIdx hitem), hleaves⟩
  | object fields =>
    obtain ⟨field, hfield, rfl⟩ := List.mem_map.1 hpart
    exact ⟨h.1.1 _ (List.mem_map_of_mem hfield), fieldNames_iff.1 h.1.2 _ hfield, hleaves⟩
  | _ => exact absurd hpart List.not_mem_nil

namespace Markdown

theorem oneLine_heading {label : Label} (h : label.OnOneLine) : OneLine label.heading.toList := by
  have hstars : OneLine "**".toList := by decide
  cases label with
  | field name =>
    rw [Label.heading, String.toList_append, String.toList_append]
    exact oneLine_append.2 ⟨oneLine_append.2 ⟨hstars, h⟩, by decide⟩
  | element number =>
    have hnumber : OneLine (Number.natText number).toList := by
      rw [Number.natText, String.toList_ofList]
      exact oneLine_digits fun _ => Number.isDigit_of_mem_digits
    rw [Label.heading, String.toList_append, String.toList_append]
    exact oneLine_append.2 ⟨oneLine_append.2 ⟨by decide, hnumber⟩, hstars⟩

theorem oneLine_withContent {label : Label} (h : label.OnOneLine) {content : String}
    (hcontent : OneLine content.toList) : OneLine (label.withContent content).toList := by
  cases label with
  | field name =>
    have hstars : OneLine "**".toList := by decide
    have hcolon : OneLine "**: ".toList := by decide
    rw [Label.withContent, String.toList_append, String.toList_append, String.toList_append]
    exact oneLine_append.2 ⟨oneLine_append.2 ⟨oneLine_append.2 ⟨hstars, h⟩, hcolon⟩, hcontent⟩
  | element number => exact hcontent

theorem oneLine_scalarText {v : Value} (hscalar : v.nesting = 0) (h : v.WithoutLineFeeds)
    {text : String} (htext : scalarText? v = some text) : OneLine text.toList := by
  cases v with
  | null => cases htext; decide
  | bool b => cases htext; cases b <;> decide
  | int n => exact oneLine_intText htext
  | float x =>
    cases htext
    exact oneLine_double (by decide) (by decide) x
  | string s =>
    cases htext
    exact h.2 _ rfl
  | date d =>
    cases htext
    rw [Calendar.Date.isoText, String.toList_ofList]
    exact oneLine_iso (Calendar.isIso_date d)
  | dateTime t =>
    cases htext
    rw [Calendar.DateTime.isoText, String.toList_ofList]
    exact oneLine_iso (Calendar.isIso_dateTime t)
  | array | object => exact absurd hscalar (Nat.succ_ne_zero _)

theorem oneLine_inlineText {v : Value} {text : String} (h : inlineText? v = some text) :
    OneLine text.toList := by
  obtain ⟨json, hjson, rfl⟩ := Option.map_eq_some_iff.1 h
  obtain ⟨cs, hcs, rfl⟩ := Option.map_eq_some_iff.1 hjson
  have htick : OneLine "`".toList := by decide
  have hjson : OneLine (String.ofList cs).toList := by
    rw [String.toList_ofList]
    exact oneLine_valueChars 0 v cs hcs
  rw [String.toList_append, String.toList_append]
  exact oneLine_append.2 ⟨oneLine_append.2 ⟨htick, hjson⟩, htick⟩

end Markdown

end Extraction
