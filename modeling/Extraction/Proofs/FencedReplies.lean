import Extraction.Proofs.JsonRoundTrip
import Extraction.Proofs.Trimming
import Extraction.Reply

/-!
Replies that hold the JSON text of a plain value, bare or inside a code fence. Whatever blanks stand
around it, whatever the first line of the fence says and whether the fence is closed or not, the
value is read back.
-/

namespace Extraction

namespace Json

open Number

/-- A character that is neither trimmed away nor part of a fence. -/
def IsInk (c : Char) : Prop :=
  Text.isBlank c = false ∧ c ≠ '\x60'

instance (c : Char) : Decidable (IsInk c) :=
  inferInstanceAs (Decidable (Text.isBlank c = false ∧ c ≠ '\x60'))

theorem isInk_of_isDigit {c : Char} (h : c.isDigit = true) : IsInk c := by
  have hbounds : 48 ≤ c.toNat ∧ c.toNat ≤ 57 := by
    simpa [Char.isDigit, UInt32.le_iff_toNat_le] using h
  refine ⟨Bool.eq_false_iff.2 ?_, ?_⟩
  · simp only [Text.isBlank, Ne, Bool.or_eq_true, Bool.and_eq_true, decide_eq_true_eq, beq_iff_eq]
    omega
  · rintro rfl
    exact absurd h (by decide)

/-- Ink stands at both ends of a text. -/
structure Inked (cs : List Char) : Prop where
  first : ∃ c ∈ cs.head?, IsInk c
  last : ∃ c ∈ cs.getLast?, IsInk c

variable {layout : Layout} {cs : List Char}

theorem Inked.ne_nil (h : Inked cs) : cs ≠ [] := by
  rintro rfl
  obtain ⟨c, hc, -⟩ := h.first
  cases hc

theorem Inked.trimmed (h : Inked cs) : Text.Trimmed cs := by
  obtain ⟨⟨c, hc, hfirst, -⟩, d, hd, hlast, -⟩ := h
  rw [Option.mem_def] at hc hd
  exact ⟨by simpa [hc] using hfirst, by simpa [hd] using hlast⟩

theorem inked_between {c d : Char} (hc : IsInk c) (hd : IsInk d) (cs : List Char) :
    Inked (c :: cs ++ [d]) :=
  ⟨⟨c, rfl, hc⟩, d, List.getLast?_concat, hd⟩

theorem inked_intChars (n : Int) : Inked (intChars n) := by
  have hink : ∀ c ∈ intChars n, IsInk c := by
    have hdigits : ∀ c ∈ digits n.natAbs, IsInk c := fun c hc =>
      isInk_of_isDigit (isDigit_of_mem_digits hc)
    unfold intChars
    split
    · exact List.forall_mem_cons.2 ⟨by decide, hdigits⟩
    · exact hdigits
  have hne : intChars n ≠ [] := by
    unfold intChars
    split
    · exact List.cons_ne_nil _ _
    · exact digits_ne_nil _
  exact ⟨⟨_, List.head?_eq_some_head hne, hink _ (List.head_mem hne)⟩,
    _, List.getLast?_eq_some_getLast hne, hink _ (List.getLast_mem hne)⟩

/-- The text of a plain value neither starts nor ends with a blank or with a part of a fence. -/
theorem inked_valueChars {level : Nat} {v : Value} (hv : v.Plain)
    (h : valueChars layout level v = some cs) : Inked cs := by
  cases v with
  | null =>
    cases h
    exact ⟨⟨_, rfl, by decide⟩, _, rfl, by decide⟩
  | bool b =>
    cases h
    cases b <;> exact ⟨⟨_, rfl, by decide⟩, _, rfl, by decide⟩
  | int n =>
    rw [valueChars, Value.intText?_eq_some hv] at h
    cases h
    rw [String.toList_ofList]
    exact inked_intChars n
  | string s =>
    cases h
    exact inked_between (by decide) (by decide) _
  | array items =>
    cases items with
    | nil =>
      cases h
      exact inked_between (by decide) (by decide) []
    | cons v rest =>
      simp only [valueChars, bind, Option.bind_eq_some_iff, Option.some.injEq] at h
      obtain ⟨first, -, others, -, rfl⟩ := h
      exact inked_between (by decide) (by decide) _
  | object fields =>
    cases fields with
    | nil =>
      cases h
      exact inked_between (by decide) (by decide) []
    | cons field rest =>
      simp only [valueChars, bind, Option.bind_eq_some_iff, Option.some.injEq] at h
      obtain ⟨first, -, others, -, rfl⟩ := h
      exact inked_between (by decide) (by decide) _
  | float | date | dateTime => exact hv.elim

end Json

namespace Reply

open Json (IsInk Inked)
open Text (isBlank Trimmed trimChars trimRightChars)

variable {cs line rest before after : List Char}

/-! ### Texts between blanks -/

theorem not_isPrefixOf_fence (h : Inked cs) : fence.isPrefixOf cs = false := by
  obtain ⟨c, hc, -, hfence⟩ := h.first
  obtain ⟨rest, rfl⟩ := List.head?_eq_some_iff.1 (Option.mem_def.1 hc)
  simp [fence, List.isPrefixOf, Ne.symm hfence]

/-- A text that is not fenced is taken from between its blanks. -/
theorem body_bare (h : Inked cs) (hbefore : ∀ c ∈ before, isBlank c = true)
    (hafter : ∀ c ∈ after, isBlank c = true) : body (before ++ cs ++ after) = cs := by
  have htrim := h.trimmed.trimChars_between hbefore hafter h.ne_nil
  simp only [body, htrim, not_isPrefixOf_fence h, Bool.false_eq_true, if_false]

/-! ### Fences -/

theorem trimmed_opened (line : List Char) (hlast : ∃ c ∈ rest.getLast?, isBlank c = false) :
    Trimmed (fence ++ line ++ '\n' :: rest) := by
  obtain ⟨c, hc, hblank⟩ := hlast
  obtain ⟨ds, rfl⟩ := List.getLast?_eq_some_iff.1 (Option.mem_def.1 hc)
  have hsplit : fence ++ line ++ '\n' :: (ds ++ [c]) = (fence ++ line ++ '\n' :: ds) ++ [c] := by
    simp
  refine ⟨?_, ?_⟩
  · intro d hd
    obtain rfl : '\x60' = d := Option.some.inj hd
    decide
  · rw [hsplit, List.getLast?_concat]
    simpa using hblank

theorem behindFirstLine_append (hline : '\n' ∉ line) (rest : List Char) :
    behindFirstLine (line ++ '\n' :: rest) = rest := by
  have hchars : ∀ c ∈ line, decide (c ≠ '\n') = true := by
    intro c hc
    refine decide_eq_true ?_
    rintro rfl
    exact hline hc
  rw [behindFirstLine, List.dropWhile_append_of_pos hchars]
  rfl

/-- Behind the first line of an opened fence stands the text, possibly with a closing fence. -/
theorem body_opened (hline : '\n' ∉ line) (hlast : ∃ c ∈ rest.getLast?, isBlank c = false)
    (hbefore : ∀ c ∈ before, isBlank c = true) (hafter : ∀ c ∈ after, isBlank c = true) :
    body (before ++ (fence ++ line ++ '\n' :: rest) ++ after) = withoutClosing rest := by
  have htrim := (trimmed_opened line hlast).trimChars_between hbefore hafter (by simp)
  have hfirst : '\n' ∉ fence ++ line := by simpa [fence] using hline
  have hopened : fence.isPrefixOf (fence ++ line ++ '\n' :: rest) = true := by
    rw [List.append_assoc, List.isPrefixOf_iff_prefix]
    exact List.prefix_append _ _
  simp only [body, htrim, hopened, if_true, behindFirstLine_append hfirst]

theorem body_closed (hline : '\n' ∉ line) (hbefore : ∀ c ∈ before, isBlank c = true)
    (hafter : ∀ c ∈ after, isBlank c = true) (cs : List Char) :
    body (before ++ (fence ++ line ++ '\n' :: (cs ++ fence)) ++ after) = cs := by
  have hlast : (cs ++ fence).getLast? = some '\x60' := by simp [fence]
  have hclosing : isBlank '\x60' = false := by decide
  have htrim : trimRightChars (cs ++ fence) = cs ++ fence :=
    Text.trimRightChars_eq_self (by simpa [hlast] using hclosing)
  rw [body_opened hline ⟨_, hlast, hclosing⟩ hbefore hafter]
  simp [withoutClosing, htrim, dropLast, List.isSuffixOf_iff_suffix]

theorem body_unclosed (hline : '\n' ∉ line) (h : Inked cs)
    (hbefore : ∀ c ∈ before, isBlank c = true) (hafter : ∀ c ∈ after, isBlank c = true) :
    body (before ++ (fence ++ line ++ '\n' :: cs) ++ after) = cs := by
  obtain ⟨c, hc, hink⟩ := h.last
  have hopen : fence.isSuffixOf cs = false := by
    rw [Bool.eq_false_iff, Ne, List.isSuffixOf_iff_suffix]
    rintro ⟨ds, rfl⟩
    rw [Option.mem_def, fence, List.getLast?_append] at hc
    exact hink.2 (Option.some.inj hc).symm
  rw [body_opened hline ⟨c, hc, hink.1⟩ hbefore hafter]
  simp [withoutClosing, Text.trimRightChars_eq_self h.trimmed.last, hopen]

theorem read_of_body {raw : String} {v : Value}
    (h : Json.readChars false (body raw.toList) = .ok v) : read raw = .ok v := by
  rw [read, h]

end Reply

open Json (compact indented isSpace)

theorem Json.isBlank_of_isSpace {c : Char} (h : isSpace c = true) : Text.isBlank c = true := by
  simp only [isSpace, Bool.or_eq_true, beq_iff_eq] at h
  rcases h with ((rfl | rfl) | rfl) | rfl <;> decide

/-- The compact or indented JSON text of a plain value is read back from a reply: bare, inside a
code fence, and behind the first line of a fence that is never closed. -/
theorem reply_read_back {layout : Json.Layout} (hlayout : layout ∈ [compact, indented]) {v : Value}
    (hv : v.Plain) (hnesting : v.nesting ≤ Json.nestingLimit) :
    ∃ text, Json.print? layout v = some text ∧
      ∀ before info gap after : String,
        Text.isBlankText before = true → '\n' ∉ info.toList →
        (∀ c ∈ gap.toList, isSpace c = true) → Text.isBlankText after = true →
        Reply.read (before ++ text ++ after) = .ok v ∧
        Reply.read (before ++ "\x60\x60\x60" ++ info ++ "\n" ++ text ++ gap ++
          "\x60\x60\x60" ++ after) = .ok v ∧
        Reply.read (before ++ "\x60\x60\x60" ++ info ++ "\n" ++ text ++ gap ++ after) =
          .ok v := by
  obtain ⟨cs, hcs⟩ := Json.exists_valueChars layout 0 hv.shortIntegers
  refine ⟨String.ofList cs, by rw [Json.print?, hcs]; rfl, ?_⟩
  intro before info gap after hbefore hinfo hgap hafter
  rw [Text.isBlankText, List.all_eq_true] at hbefore hafter
  have hcolon : ∀ c ∈ layout.afterColon, isSpace c = true := by
    rcases List.mem_pair.1 hlayout with rfl | rfl
    · simp [compact]
    · exact Json.isSpace_of_mem_indented
  have hread : ∀ blanks : List Char, (∀ c ∈ blanks, isSpace c = true) →
      Json.readChars false (cs ++ blanks) = .ok v := fun blanks hblanks =>
    Json.readChars_valueChars false hcolon hv hnesting hcs hblanks
  have hbare : Json.readChars false cs = .ok v := by simpa using hread [] (by simp)
  have hinked := Json.inked_valueChars hv hcs
  refine ⟨Reply.read_of_body ?_, Reply.read_of_body ?_, Reply.read_of_body ?_⟩
  · have hraw : (before ++ String.ofList cs ++ after).toList =
        before.toList ++ cs ++ after.toList := by simp
    rw [hraw, Reply.body_bare hinked hbefore hafter]
    exact hbare
  · -- the blanks before the closing fence are left, and the reader skips them
    have hraw : (before ++ "\x60\x60\x60" ++ info ++ "\n" ++ String.ofList cs ++ gap ++
        "\x60\x60\x60" ++ after).toList = before.toList ++ (Reply.fence ++ info.toList ++
          '\n' :: (cs ++ gap.toList ++ Reply.fence)) ++ after.toList := by simp [Reply.fence]
    rw [hraw, Reply.body_closed hinfo hbefore hafter]
    exact hread _ hgap
  · have hraw : (before ++ "\x60\x60\x60" ++ info ++ "\n" ++ String.ofList cs ++ gap ++
        after).toList = before.toList ++ (Reply.fence ++ info.toList ++ '\n' :: cs) ++
          (gap.toList ++ after.toList) := by simp [Reply.fence]
    have hblanks : ∀ c ∈ gap.toList ++ after.toList, Text.isBlank c = true :=
      List.forall_mem_append.2 ⟨fun c hc => Json.isBlank_of_isSpace (hgap c hc), hafter⟩
    rw [hraw, Reply.body_unclosed hinfo hinked hbefore hblanks]
    exact hbare

/-- A value in whose texts a fence is opened and closed. -/
def fencedValue : Value :=
  .object [("\x60\x60\x60", .string "\n\x60\x60\x60\n"), ("n", .array [.int (-3), .null])]

theorem fencedValue_read : fencedValue.Plain ∧ fencedValue.nesting ≤ Json.nestingLimit ∧
    ∃ text, Json.print? indented fencedValue = some text ∧
      Reply.read ("\u2003" ++ "\x60\x60\x60" ++ "json \x60" ++ "\n" ++ text ++ "\r\n" ++
        "\x60\x60\x60" ++ "\x1f") = .ok fencedValue := by
  have hshort : Number.digitCount (-3 : Int).natAbs ≤ Number.digitLimit := by decide
  have hplain : fencedValue.Plain := ⟨by decide, trivial, ⟨hshort, trivial, trivial⟩, trivial⟩
  have hnesting : fencedValue.nesting ≤ Json.nestingLimit := by decide
  have hlayout : indented ∈ [compact, indented] := by simp
  obtain ⟨text, htext, hread⟩ := reply_read_back hlayout hplain hnesting
  have hmarks : Text.isBlankText "\u2003" = true ∧ '\n' ∉ "json \x60".toList ∧
      "\r\n".toList.all isSpace = true ∧ Text.isBlankText "\x1f" = true := by
    decide
  obtain ⟨hbefore, hmark, hend, hafter⟩ := hmarks
  exact ⟨hplain, hnesting, text, htext,
    (hread "\u2003" "json \x60" "\r\n" "\x1f" hbefore hmark (List.all_eq_true.1 hend)
      hafter).2.1⟩

end Extraction
