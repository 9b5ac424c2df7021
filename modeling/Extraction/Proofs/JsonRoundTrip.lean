import Extraction.Json.Reader
import Extraction.Proofs.DoubleText
import Extraction.Proofs.JsonPrinter
import Extraction.Proofs.JsonStrings
import Extraction.Proofs.PlainValues

/-!
JSON text reads back. Whatever the layout, the text of a finite value is read in front of anything
that cannot belong to a number, as the value itself if it holds no doubles and no dates.
-/

namespace Extraction

open Json Number

/-! ### What is read back -/

/-- The double that is read from the text of a double. -/
def Number.Binary64.reread (x : Binary64) : Binary64 :=
  match readNumber (x.text floatStyle).toList with
  | .ok (.float y, _) => y
  | _ => x

namespace Value

mutual

/-- What is read from the text of a value. Dates have become texts. -/
def reread : Value → Value
  | .float x => .float x.reread
  | .date d => .string d.isoText
  | .dateTime t => .string t.spacedText
  | .array items => .array (rereadItems items)
  | .object fields => .object (rereadFields fields)
  | v => v

def rereadItems : List Value → List Value
  | [] => []
  | v :: rest => reread v :: rereadItems rest

def rereadFields : List (String × Value) → List (String × Value)
  | [] => []
  | (name, v) :: rest => (name, reread v) :: rereadFields rest

end

theorem rereadItems_eq_map (items : List Value) : rereadItems items = items.map reread := by
  induction items with
  | nil => rfl
  | cons v rest ih => rw [rereadItems, ih, List.map_cons]

theorem rereadFields_eq_map (fields : Fields) :
    rereadFields fields = fields.map fun field => (field.1, reread field.2) := by
  induction fields with
  | nil => rfl
  | cons field rest ih => rw [rereadFields, ih, List.map_cons]

theorem keys_rereadFields (fields : Fields) :
    (rereadFields fields).map Prod.fst = fields.map Prod.fst := by
  rw [rereadFields_eq_map, List.map_map]
  rfl

/-- A plain value is read as it is. -/
theorem Plain.reread_eq {v : Value} (h : v.Plain) : v.reread = v := by
  induction v using induction_parts with
  | array items ih =>
    have hitems : items.map reread = items.map id :=
      List.map_congr_left fun v hv => ih v hv (plainItems_iff.1 h v hv)
    rw [reread, rereadItems_eq_map, hitems, List.map_id]
  | object fields ih =>
    have hfields : fields.map (fun field => (field.1, reread field.2)) = fields.map id :=
      List.map_congr_left fun field hfield =>
        Prod.ext rfl (ih field hfield (plainFields_iff.1 h.2 field hfield))
    rw [reread, rereadFields_eq_map, hfields, List.map_id]
  | float | date | dateTime => exact h.elim
  | _ => rfl

end Value

namespace Json

/-! ### Blanks -/

theorem skipSpace_append {blanks : List Char} (h : ∀ c ∈ blanks, isSpace c = true)
    (rest : List Char) : skipSpace (blanks ++ rest) = skipSpace rest :=
  List.dropWhile_append_of_pos h

theorem skipSpace_cons {c : Char} (h : isSpace c = false) (rest : List Char) :
    skipSpace (c :: rest) = c :: rest := by
  simp [skipSpace, h]

theorem isSpace_of_mem_newline {layout : Layout} {level : Nat} :
    ∀ c ∈ layout.newline level, isSpace c = true := by
  intro c hc
  unfold Layout.newline at hc
  split at hc
  · rcases List.mem_cons.1 hc with rfl | hspace
    · rfl
    · rw [List.eq_of_mem_replicate hspace]
      rfl
  · exact absurd hc List.not_mem_nil

theorem endsNumber_of_isSpace {c : Char} (h : isSpace c = true) (rest : List Char) :
    EndsNumber (c :: rest) := by
  apply endsNumber_cons
  simp only [isSpace, Bool.or_eq_true, beq_iff_eq] at h
  rcases h with ((rfl | rfl) | rfl) | rfl <;> decide

theorem endsNumber_append {blanks rest : List Char} (h : ∀ c ∈ blanks, isSpace c = true)
    (hrest : EndsNumber rest) : EndsNumber (blanks ++ rest) := by
  cases blanks with
  | nil => exact hrest
  | cons c blanks => exact endsNumber_of_isSpace (h c List.mem_cons_self) _

/-! ### Atoms -/

theorem readValue_atom (allow : Bool) (depth : Nat) {c : Char} (hquote : c ≠ '"')
    (hbracket : c ≠ '[') (hbrace : c ≠ '\x7b') (rest : List Char) :
    readValue allow depth (c :: rest) = readAtom allow (c :: rest) := by
  rw [readValue.eq_def]
  split <;> simp_all

/-- The start of a number. -/
def StartsNumber (cs : List Char) : Prop :=
  ∃ c ds, c.isDigit = true ∧ (cs = c :: ds ∨ cs = '-' :: c :: ds)

theorem startsNumber_intChars (n : Int) : StartsNumber (intChars n) := by
  obtain ⟨c, ds, hcons⟩ := List.exists_cons_of_ne_nil (digits_ne_nil n.natAbs)
  have hc : c.isDigit = true := isDigit_of_mem_digits (n := n.natAbs) (by simp [hcons])
  refine ⟨c, ds, hc, ?_⟩
  unfold intChars
  by_cases hneg : n < 0
  · exact .inr (by rw [if_pos hneg, hcons])
  · exact .inl (by rw [if_neg hneg, hcons])

theorem startsNumber_text {x : Binary64} (hx : x.isFinite = true) :
    StartsNumber (x.text floatStyle).toList := by
  obtain ⟨n, hdouble, htext⟩ := exists_numeral floatStyle hx
  obtain ⟨c, ds, hcons, hc⟩ := hdouble.exists_digit
  refine ⟨c, ds, hc, ?_⟩
  rw [htext, Numeral.chars, hcons]
  cases n.negative
  · exact .inl rfl
  · exact .inr rfl

theorem readNumber_text {x : Binary64} (hx : x.isFinite = true) {rest : List Char}
    (hrest : EndsNumber rest) :
    readNumber ((x.text floatStyle).toList ++ rest) = .ok (.float x.reread, rest) := by
  obtain ⟨n, hdouble, htext⟩ := exists_numeral floatStyle hx
  have hreread : x.reread = n.double := by
    have hend : EndsNumber [] := nofun
    have hread := Numeral.readNumber_chars hdouble hend
    rw [List.append_nil] at hread
    rw [Binary64.reread, htext, hread]
  rw [htext, Numeral.readNumber_chars hdouble hrest, hreread]

theorem matchWord_number {cs : List Char} (h : StartsNumber cs) (rest : List Char) :
    matchWord words (cs ++ rest) = none ∧ matchWord constants (cs ++ rest) = none := by
  obtain ⟨c, ds, hc, hcs⟩ := h
  have hne : ∀ d : Char, d.isDigit = false → d ≠ c := by
    rintro d hd rfl
    simp [hd] at hc
  have hn := hne 'n' (by decide)
  have ht := hne 't' (by decide)
  have hf := hne 'f' (by decide)
  have hN := hne 'N' (by decide)
  have hI := hne 'I' (by decide)
  have hminus := hne '-' (by decide)
  rcases hcs with rfl | rfl <;> simp [matchWord, words, constants, Text.after?, *]

theorem readAtom_number (allow : Bool) {cs : List Char} (h : StartsNumber cs) (rest : List Char) :
    readAtom allow (cs ++ rest) = readNumber (cs ++ rest) := by
  obtain ⟨hwords, hconstants⟩ := matchWord_number h rest
  simp only [readAtom, hwords, hconstants]

theorem readValue_number (allow : Bool) (depth : Nat) {cs : List Char} (h : StartsNumber cs)
    (rest : List Char) : readValue allow depth (cs ++ rest) = readAtom allow (cs ++ rest) := by
  obtain ⟨c, ds, hc, hcs⟩ := h
  have hne : ∀ d : Char, d.isDigit = false → c ≠ d := by
    rintro d hd rfl
    simp [hd] at hc
  rcases hcs with rfl | rfl
  · exact readValue_atom allow depth (hne _ (by decide)) (hne _ (by decide)) (hne _ (by decide)) _
  · exact readValue_atom allow depth (by decide) (by decide) (by decide) _

/-! ### Values -/

/-- The start of a value: no blank, no end of an array, and no mark of an encoding. -/
def StartsValue (cs : List Char) : Prop :=
  ∃ c rest, cs = c :: rest ∧ isSpace c = false ∧ c ≠ ']' ∧ c ≠ '\uFEFF'

theorem StartsNumber.startsValue {cs : List Char} (h : StartsNumber cs) : StartsValue cs := by
  obtain ⟨c, ds, hc, rfl | rfl⟩ := h
  · refine ⟨c, ds, rfl, ?_, ?_, ?_⟩
    · refine Bool.eq_false_iff.2 fun hspace => ?_
      have hdigit := (endsNumber_of_isSpace hspace [] c rfl).1
      simp [hc] at hdigit
    · rintro rfl
      exact absurd hc (by decide)
    · rintro rfl
      exact absurd hc (by decide)
  · exact ⟨'-', c :: ds, rfl, by decide⟩

/-- Only an integer that is short enough has a text. -/
theorem valueChars_int {layout : Layout} {level : Nat} {n : Int} {cs : List Char}
    (h : valueChars layout level (.int n) = some cs) :
    digitCount n.natAbs ≤ digitLimit ∧ cs = intChars n := by
  obtain ⟨_, htext, rfl⟩ := Option.map_eq_some_iff.1 h
  unfold intText? at htext
  split at htext
  · cases htext
    exact ⟨‹_›, String.toList_ofList⟩
  · cases htext

theorem startsValue_valueChars {layout : Layout} {level : Nat} {v : Value}
    (hv : v.allFinite = true) {cs : List Char} (h : valueChars layout level v = some cs) :
    StartsValue cs := by
  cases v with
  | int n =>
    obtain ⟨-, rfl⟩ := valueChars_int h
    exact (startsNumber_intChars n).startsValue
  | float x =>
    cases h
    exact (startsNumber_text hv).startsValue
  | bool b =>
    cases h
    cases b <;> exact ⟨_, _, rfl, by decide⟩
  | null | string | date | dateTime =>
    cases h
    exact ⟨_, _, rfl, by decide⟩
  | array items =>
    cases items with
    | nil =>
      cases h
      exact ⟨_, _, rfl, by decide⟩
    | cons v rest =>
      simp only [valueChars, bind, Option.bind_eq_some_iff, Option.some.injEq] at h
      obtain ⟨first, -, others, -, rfl⟩ := h
      exact ⟨_, _, rfl, by decide⟩
  | object fields =>
    cases fields with
    | nil =>
      cases h
      exact ⟨_, _, rfl, by decide⟩
    | cons field rest =>
      simp only [valueChars, bind, Option.bind_eq_some_iff, Option.some.injEq] at h
      obtain ⟨first, -, others, -, rfl⟩ := h
      exact ⟨_, _, rfl, by decide⟩

/-- A reader that takes the text of a value for what it stands for. -/
def Reads (value : List Char → Except Fault (Value × List Char)) (layout : Layout) (v : Value) :
    Prop :=
  ∀ level cs, valueChars layout level v = some cs →
    StartsValue cs ∧ ∀ rest, EndsNumber rest → value (cs ++ rest) = .ok (v.reread, rest)

variable {layout : Layout} {value : List Char → Except Fault (Value × List Char)}

/-- Fuel for a text that is not empty suffices for one step. -/
theorem exists_fuel {cs : List Char} {fuel : Nat} (h : cs.length ≤ fuel) (hcs : cs ≠ []) :
    ∃ n, fuel = n + 1 := by
  have hpos : 0 < cs.length := List.length_pos_iff.2 hcs
  exact Nat.exists_eq_add_one.2 (Nat.lt_of_lt_of_le hpos h)

theorem itemChars_cons_eq_some {level : Nat} {v : Value} {rest : List Value} {cs : List Char} :
    itemChars layout level (v :: rest) = some cs ↔
      ∃ first others, valueChars layout level v = some first ∧
        itemChars layout level rest = some others ∧
        cs = ',' :: layout.newline level ++ first ++ others := by
  simp only [itemChars, bind, Option.bind_eq_some_iff, Option.some.injEq, eq_comm (b := cs)]
  constructor
  · rintro ⟨first, hfirst, others, hothers, rfl⟩
    exact ⟨first, others, hfirst, hothers, rfl⟩
  · rintro ⟨first, others, hfirst, hothers, rfl⟩
    exact ⟨first, hfirst, others, hothers, rfl⟩

theorem readItems_itemChars {level : Nat} {v : Value} {items : List Value}
    (hreads : ∀ w ∈ v :: items, Reads value layout w) {first others blanks tail : List Char}
    (hfirst : valueChars layout level v = some first)
    (hothers : itemChars layout level items = some others)
    (hblanks : ∀ c ∈ blanks, isSpace c = true) {fuel : Nat}
    (hfuel : (first ++ (others ++ (blanks ++ ']' :: tail))).length ≤ fuel) :
    readItems value fuel (first ++ (others ++ (blanks ++ ']' :: tail))) =
      .ok (Value.rereadItems (v :: items), tail) := by
  induction items generalizing v first others fuel with
  | nil =>
    -- what follows the last element are blanks and the bracket, at which a number ends
    obtain rfl : others = [] := by simpa [itemChars, eq_comm] using hothers
    obtain ⟨fuel, rfl⟩ := exists_fuel hfuel (by simp)
    have hvalue := ((hreads v List.mem_cons_self) level first hfirst).2
      (blanks ++ ']' :: tail) (endsNumber_append hblanks (endsNumber_cons (by decide) tail))
    simp only [List.nil_append, readItems, hvalue, bind, Except.bind, skipSpace_append hblanks,
      skipSpace_cons (c := ']') (by decide), Value.rereadItems]
  | cons w items ih =>
    obtain ⟨next, more, hnext, hmore, rfl⟩ := itemChars_cons_eq_some.1 hothers
    rw [List.forall_mem_cons] at hreads
    obtain ⟨fuel, rfl⟩ := exists_fuel hfuel (by simp)
    have hvalue := (hreads.1 level first hfirst).2
      (',' :: (layout.newline level ++ (next ++ (more ++ (blanks ++ ']' :: tail)))))
      (endsNumber_cons (by decide) _)
    obtain ⟨c, ds, rfl, hc, -, -⟩ := (hreads.2 w List.mem_cons_self level next hnext).1
    -- the comma is gone, so the fuel that is left still covers the text
    have hshorter : (c :: ds ++ (more ++ (blanks ++ ']' :: tail))).length ≤ fuel := by
      simp only [List.length_append, List.length_cons] at hfuel ⊢
      omega
    have hrest := ih hreads.2 hnext hmore hshorter
    have hskip : skipSpace (layout.newline level ++ (c :: ds ++ (more ++ (blanks ++ ']' :: tail))))
        = c :: ds ++ (more ++ (blanks ++ ']' :: tail)) := by
      rw [skipSpace_append isSpace_of_mem_newline, List.cons_append, skipSpace_cons hc]
    simp only [List.cons_append, List.append_assoc, readItems] at hvalue hskip hrest ⊢
    simp only [hvalue, bind, Except.bind, skipSpace_cons (c := ',') (by decide), hskip, hrest]
    rfl

theorem fieldChars_cons_eq_some {level : Nat} {name : String} {v : Value} {rest : Fields}
    {cs : List Char} :
    fieldChars layout level ((name, v) :: rest) = some cs ↔
      ∃ first others, valueChars layout level v = some first ∧
        fieldChars layout level rest = some others ∧
        cs = ',' :: layout.newline level ++ stringChars name ++ ':' :: layout.afterColon ++ first ++
          others := by
  simp only [fieldChars, bind, Option.bind_eq_some_iff, Option.some.injEq, eq_comm (b := cs)]
  constructor
  · rintro ⟨first, hfirst, others, hothers, rfl⟩
    exact ⟨first, others, hfirst, hothers, rfl⟩
  · rintro ⟨first, others, hfirst, hothers, rfl⟩
    exact ⟨first, hfirst, others, hothers, rfl⟩

theorem stringChars_append (s : String) (rest : List Char) :
    stringChars s ++ rest = '"' :: (s.toList.flatMap escapeChar ++ '"' :: rest) := by
  simp [stringChars]

theorem skipSpace_afterColon (hcolon : ∀ c ∈ layout.afterColon, isSpace c = true)
    {first : List Char} (hstarts : StartsValue first) (rest : List Char) :
    skipSpace (layout.afterColon ++ (first ++ rest)) = first ++ rest := by
  obtain ⟨c, ds, rfl, hc, -, -⟩ := hstarts
  rw [skipSpace_append hcolon, List.cons_append, skipSpace_cons hc]

theorem readFields_last {v : Value} {first rest tail : List Char}
    (hcolon : ∀ c ∈ layout.afterColon, isSpace c = true) (hstarts : StartsValue first)
    (hvalue : value (first ++ rest) = .ok (v, rest)) (hrest : skipSpace rest = '\x7d' :: tail)
    (fuel : Nat) (name : String) :
    readFields value (fuel + 1)
        (stringChars name ++ ':' :: (layout.afterColon ++ (first ++ rest))) =
      .ok ([(name, v)], tail) := by
  rw [stringChars_append]
  simp only [readFields, readText_escaped, bind, Except.bind, skipSpace_cons (c := ':') (by decide),
    skipSpace_afterColon hcolon hstarts, hvalue, hrest]

theorem readFields_comma {v : Value} {first rest tail after : List Char} {fields : Fields}
    {fuel : Nat} (hcolon : ∀ c ∈ layout.afterColon, isSpace c = true)
    (hstarts : StartsValue first) (hvalue : value (first ++ rest) = .ok (v, rest))
    (hrest : skipSpace rest = ',' :: tail)
    (hfields : readFields value fuel (skipSpace tail) = .ok (fields, after)) (name : String) :
    readFields value (fuel + 1)
        (stringChars name ++ ':' :: (layout.afterColon ++ (first ++ rest))) =
      .ok ((name, v) :: fields, after) := by
  rw [stringChars_append]
  simp only [readFields, readText_escaped, bind, Except.bind, skipSpace_cons (c := ':') (by decide),
    skipSpace_afterColon hcolon hstarts, hvalue, hrest, hfields]

theorem readFields_fieldChars {level : Nat} {name : String} {v : Value} {fields : Fields}
    (hcolon : ∀ c ∈ layout.afterColon, isSpace c = true)
    (hreads : ∀ field ∈ (name, v) :: fields, Reads value layout field.2)
    {first others blanks tail : List Char} (hfirst : valueChars layout level v = some first)
    (hothers : fieldChars layout level fields = some others)
    (hblanks : ∀ c ∈ blanks, isSpace c = true) {fuel : Nat}
    (hfuel : (first ++ (others ++ (blanks ++ '\x7d' :: tail))).length ≤ fuel) :
    readFields value fuel (stringChars name ++
      ':' :: (layout.afterColon ++ (first ++ (others ++ (blanks ++ '\x7d' :: tail))))) =
      .ok (Value.rereadFields ((name, v) :: fields), tail) := by
  induction fields generalizing name v first others fuel with
  | nil =>
    obtain rfl : others = [] := by simpa [fieldChars, eq_comm] using hothers
    obtain ⟨fuel, rfl⟩ := exists_fuel hfuel (by simp)
    obtain ⟨hstarts, hvalue⟩ := hreads _ List.mem_cons_self level first hfirst
    have hend : EndsNumber (blanks ++ '\x7d' :: tail) :=
      endsNumber_append hblanks (endsNumber_cons (by decide) tail)
    have hskip : skipSpace (blanks ++ '\x7d' :: tail) = '\x7d' :: tail := by
      rw [skipSpace_append hblanks, skipSpace_cons (by decide)]
    exact readFields_last hcolon hstarts (hvalue _ hend) hskip fuel name
  | cons field fields ih =>
    obtain ⟨other, w⟩ := field
    obtain ⟨next, more, hnext, hmore, rfl⟩ := fieldChars_cons_eq_some.1 hothers
    rw [List.forall_mem_cons] at hreads
    obtain ⟨fuel, rfl⟩ := exists_fuel hfuel (by simp)
    obtain ⟨hstarts, hvalue⟩ := hreads.1 level first hfirst
    have hshorter : (next ++ (more ++ (blanks ++ '\x7d' :: tail))).length ≤ fuel := by
      simp only [List.length_append, List.length_cons] at hfuel ⊢
      omega
    have hrest := ih (v := w) hreads.2 hnext hmore hshorter
    have hskip : ∀ cs, skipSpace (layout.newline level ++ (stringChars other ++ cs))
        = stringChars other ++ cs := fun cs => by
      rw [skipSpace_append isSpace_of_mem_newline, stringChars_append, skipSpace_cons (by decide)]
    simp only [List.cons_append, List.append_assoc] at hrest ⊢
    rw [← hskip] at hrest
    exact readFields_comma hcolon hstarts (hvalue _ (endsNumber_cons (by decide) _))
      (skipSpace_cons (by decide) _) hrest name

theorem readValue_array (allow : Bool) (depth : Nat) {cs rest : List Char} {c : Char}
    (h : skipSpace cs = c :: rest) (hc : c ≠ ']') :
    readValue allow (depth + 1) ('[' :: cs) =
      (readItems (readValue allow depth) (c :: rest).length (c :: rest)).map
        fun (items, rest) => (.array items, rest) := by
  rw [readValue, h]
  split
  · rename_i heq
    exact absurd (List.cons.inj heq).1 hc
  · rfl

theorem readValue_object (allow : Bool) (depth : Nat) {cs rest : List Char} {c : Char}
    (h : skipSpace cs = c :: rest) (hc : c ≠ '\x7d') :
    readValue allow (depth + 1) ('\x7b' :: cs) =
      (readFields (readValue allow depth) ((c :: rest).length + 1) (c :: rest)).map
        fun (fields, rest) => (.object (Value.fieldsOfPairs fields), rest) := by
  rw [readValue, h]
  split
  · rename_i heq
    exact absurd (List.cons.inj heq).1 hc
  · rfl

theorem reads_array (allow : Bool) {depth : Nat} {items : List Value}
    (hfinite : (Value.array items).allFinite = true)
    (hreads : ∀ w ∈ items, Reads (readValue allow depth) layout w) :
    Reads (readValue allow (depth + 1)) layout (.array items) := by
  intro level cs hcs
  refine ⟨startsValue_valueChars hfinite hcs, ?_⟩
  intro rest _
  cases items with
  | nil =>
    simp only [valueChars, Option.some.injEq] at hcs
    subst hcs
    simp [readValue, skipSpace, isSpace, Value.reread, Value.rereadItems]
  | cons w items =>
    simp only [valueChars, bind, Option.bind_eq_some_iff, Option.some.injEq] at hcs
    obtain ⟨first, hfirst, others, hothers, rfl⟩ := hcs
    have hitems : ∀ text, text = first ++ (others ++ (layout.newline level ++ ']' :: rest)) →
        readItems (readValue allow depth) text.length text =
          .ok (Value.rereadItems (w :: items), rest) := by
      rintro text rfl
      exact readItems_itemChars hreads hfirst hothers isSpace_of_mem_newline (Nat.le_refl _)
    obtain ⟨c, ds, rfl, hc, hbracket, -⟩ := (hreads w List.mem_cons_self _ first hfirst).1
    have hskip : skipSpace (layout.newline (level + 1) ++
          (c :: ds ++ (others ++ (layout.newline level ++ ']' :: rest))))
        = c :: (ds ++ (others ++ (layout.newline level ++ ']' :: rest))) := by
      rw [skipSpace_append isSpace_of_mem_newline, List.cons_append, skipSpace_cons hc]
    simp only [List.cons_append, List.append_assoc, List.nil_append] at hskip hitems ⊢
    rw [readValue_array allow depth hskip hbracket, hitems _ rfl]
    rfl

theorem reads_object (allow : Bool) (hcolon : ∀ c ∈ layout.afterColon, isSpace c = true)
    {depth : Nat} {fields : Fields} (hfinite : (Value.object fields).allFinite = true)
    (hnames : (fields.map Prod.fst).Nodup)
    (hreads : ∀ field ∈ fields, Reads (readValue allow depth) layout field.2) :
    Reads (readValue allow (depth + 1)) layout (.object fields) := by
  intro level cs hcs
  refine ⟨startsValue_valueChars hfinite hcs, ?_⟩
  intro rest _
  cases fields with
  | nil =>
    simp only [valueChars, Option.some.injEq] at hcs
    subst hcs
    simp [readValue, skipSpace, isSpace, Value.reread, Value.rereadFields]
  | cons field fields =>
    obtain ⟨name, w⟩ := field
    simp only [valueChars, bind, Option.bind_eq_some_iff, Option.some.injEq] at hcs
    obtain ⟨first, hfirst, others, hothers, rfl⟩ := hcs
    have hfields : ∀ text, text = stringChars name ++ ':' :: (layout.afterColon ++
          (first ++ (others ++ (layout.newline level ++ '\x7d' :: rest)))) →
        readFields (readValue allow depth) (text.length + 1) text =
          .ok (Value.rereadFields ((name, w) :: fields), rest) := by
      rintro text rfl
      apply readFields_fieldChars hcolon hreads hfirst hothers isSpace_of_mem_newline
      simp only [List.length_append, List.length_cons]
      omega
    have hskip : ∀ cs, skipSpace (layout.newline (level + 1) ++ (stringChars name ++ cs))
        = '"' :: (name.toList.flatMap escapeChar ++ '"' :: cs) := by
      intro cs
      rw [skipSpace_append isSpace_of_mem_newline, stringChars_append, skipSpace_cons (by decide)]
    simp only [List.cons_append, List.append_assoc, List.nil_append] at hfields ⊢
    rw [readValue_object allow depth (hskip _) (by decide),
      hfields _ (stringChars_append name _).symm]
    -- no name is repeated, so no field is dropped
    rw [← Value.keys_rereadFields] at hnames
    simp only [Except.map, Value.fieldsOfPairs_of_nodup hnames, Value.reread]

theorem reads_string (allow : Bool) (depth : Nat) (s : String) (rest : List Char) :
    readValue allow depth (stringChars s ++ rest) = .ok (.string s, rest) := by
  rw [stringChars_append, readValue, readText_escaped]
  rfl

/-- The text of a value is read, if the reader goes as deep as the value. -/
theorem reads_valueChars (allow : Bool) (hcolon : ∀ c ∈ layout.afterColon, isSpace c = true)
    {v : Value} (hfinite : v.allFinite = true) (hnames : v.DistinctNames) {depth : Nat}
    (hdepth : v.nesting ≤ depth) : Reads (readValue allow depth) layout v := by
  induction v using Value.induction_parts generalizing depth with
  | array items ih =>
    -- a container is nested at least once, so the reader may still go down
    obtain ⟨depth, rfl⟩ := Nat.exists_eq_add_one.2 (Nat.lt_of_lt_of_le (Nat.succ_pos _) hdepth)
    have hnesting := Value.nestingItems_le_iff.1 (Nat.le_of_succ_le_succ hdepth)
    refine reads_array allow hfinite fun w hw => ?_
    exact ih w hw (Value.allFiniteItems_iff.1 hfinite w hw) (Value.itemNames_iff.1 hnames w hw)
      (hnesting w hw)
  | object fields ih =>
    obtain ⟨depth, rfl⟩ := Nat.exists_eq_add_one.2 (Nat.lt_of_lt_of_le (Nat.succ_pos _) hdepth)
    have hnesting := Value.nestingFields_le_iff.1 (Nat.le_of_succ_le_succ hdepth)
    refine reads_object allow hcolon hfinite hnames.1 fun field hfield => ?_
    exact ih field hfield (Value.allFiniteFields_iff.1 hfinite field hfield)
      (Value.fieldNames_iff.1 hnames.2 field hfield) (hnesting field hfield)
  | int n =>
    intro level cs hcs
    refine ⟨startsValue_valueChars hfinite hcs, fun rest hrest => ?_⟩
    obtain ⟨hshort, rfl⟩ := valueChars_int hcs
    rw [readValue_number allow depth (startsNumber_intChars n),
      readAtom_number allow (startsNumber_intChars n), readNumber_intChars hshort hrest]
    rfl
  | float x =>
    intro level cs hcs
    refine ⟨startsValue_valueChars hfinite hcs, fun rest hrest => ?_⟩
    cases hcs
    rw [readValue_number allow depth (startsNumber_text hfinite),
      readAtom_number allow (startsNumber_text hfinite), readNumber_text hfinite hrest]
    rfl
  | string | date | dateTime =>
    intro level cs hcs
    refine ⟨startsValue_valueChars hfinite hcs, fun rest _ => ?_⟩
    cases hcs
    exact reads_string allow depth _ rest
  | null =>
    intro level cs hcs
    refine ⟨startsValue_valueChars hfinite hcs, fun rest _ => ?_⟩
    cases hcs
    exact (readValue_atom allow depth (by decide) (by decide) (by decide) _).trans rfl
  | bool b =>
    intro level cs hcs
    refine ⟨startsValue_valueChars hfinite hcs, fun rest _ => ?_⟩
    cases hcs
    cases b <;> exact (readValue_atom allow depth (by decide) (by decide) (by decide) _).trans rfl

/-! ### Whole texts -/

theorem isSpace_of_mem_indented : ∀ c ∈ indented.afterColon, isSpace c = true := by
  intro c hc
  rw [List.mem_singleton.1 hc]
  rfl

/-- Blanks may follow the text of a value. -/
theorem readChars_reread (allow : Bool) (hcolon : ∀ c ∈ layout.afterColon, isSpace c = true)
    {v : Value} (hfinite : v.allFinite = true) (hnames : v.DistinctNames)
    (hdepth : v.nesting ≤ nestingLimit) {cs : List Char}
    (h : valueChars layout 0 v = some cs) {blanks : List Char}
    (hblanks : ∀ c ∈ blanks, isSpace c = true) : readChars allow (cs ++ blanks) = .ok v.reread := by
  obtain ⟨hstarts, hreads⟩ := reads_valueChars allow hcolon hfinite hnames hdepth 0 cs h
  have hend : EndsNumber (blanks ++ []) := endsNumber_append hblanks (by simp [EndsNumber])
  rw [List.append_nil] at hend
  have hread := hreads blanks hend
  have hskip : skipSpace blanks = [] := by
    rw [← List.append_nil blanks, skipSpace_append hblanks]
    rfl
  obtain ⟨c, ds, rfl, hc, -, hmark⟩ := hstarts
  rw [List.cons_append] at hread ⊢
  have hhead : ((c :: (ds ++ blanks)).head? == some '\uFEFF') = false := by simpa using hmark
  simp only [readChars, hhead, skipSpace_cons hc, hread, hskip, Bool.false_eq_true, if_false]

theorem readChars_valueChars (allow : Bool) (hcolon : ∀ c ∈ layout.afterColon, isSpace c = true)
    {v : Value} (hv : v.Plain) (hdepth : v.nesting ≤ nestingLimit) {cs : List Char}
    (h : valueChars layout 0 v = some cs) {blanks : List Char}
    (hblanks : ∀ c ∈ blanks, isSpace c = true) : readChars allow (cs ++ blanks) = .ok v := by
  rw [readChars_reread allow hcolon hv.allFinite hv.distinctNames hdepth h hblanks, hv.reread_eq]

/-- A finite value is read from its JSON text. -/
theorem read_print_reread (allow : Bool) (hcolon : ∀ c ∈ layout.afterColon, isSpace c = true)
    {v : Value} (hfinite : v.allFinite = true) (hnames : v.DistinctNames)
    (hdepth : v.nesting ≤ nestingLimit) {text : String} (h : print? layout v = some text) :
    read allow text = .ok v.reread := by
  obtain ⟨cs, hcs, rfl⟩ := Option.map_eq_some_iff.1 h
  rw [read, String.toList_ofList, ← List.append_nil cs]
  exact readChars_reread allow hcolon hfinite hnames hdepth hcs (by simp)

/-- A plain value comes back from its JSON text. -/
theorem read_print (allow : Bool) (hcolon : ∀ c ∈ layout.afterColon, isSpace c = true)
    {v : Value} (hv : v.Plain) (hdepth : v.nesting ≤ nestingLimit) {text : String}
    (h : print? layout v = some text) : read allow text = .ok v := by
  rw [read_print_reread allow hcolon hv.allFinite hv.distinctNames hdepth h, hv.reread_eq]

end Json

end Extraction
