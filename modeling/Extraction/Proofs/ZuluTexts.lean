import Extraction.Proofs.IsoText
import Extraction.Proofs.OffsetTexts

/-!
Texts that end in a `Z`. The letter is written out as `+00:00` before the text is read as a date
with a time, and so it means UTC behind a time. Three kinds of text are read otherwise: a date with
nothing behind it but the letter, a date that is as long with the letter as another kind of date,
and an offset that ends at a NUL in front of the letter.
-/

namespace Extraction

namespace Calendar

namespace Iso

/-- A text that is a date from its first character to its last. -/
def IsDateAlone (u : List Char) (d : Date) : Prop :=
  readDate u.length u = some d ∧ dateLength u = some u.length

variable {u w : List Char} {d : Date} {t : DateTime} {length : Nat}

/-! ### Dates alone -/

theorem IsDateAlone.shape (h : IsDateAlone u d) : DateShape u.length u := by
  obtain ⟨w, hstart, hshape⟩ := readDate_eq_some h.1
  obtain rfl := hstart.eq_of_length (hshape.length_eq hstart h.2)
  exact hshape

theorem DateShape.ascii (h : DateShape length w) : ∀ c ∈ w, c.toNat < 128 := by
  intro c hc
  rcases h.mem_cases c hc with hdigit | rfl | rfl
  · exact (IsIsoChar.toNat_bounds (.inl hdigit)).2
  · decide
  · decide

theorem DateShape.octetCount_eq (h : DateShape length w) : octetCount w = w.length :=
  octetCount_of_ascii h.ascii

theorem DateShape.seven_le (h : DateShape length w) : 7 ≤ w.length := by
  rcases h.length_cases with ⟨hw, -⟩ | ⟨hw, -⟩ | hw <;> omega

theorem DateShape.isDateAlone (h : DateShape length w) (hlength : w.length = length)
    (hread : readDate length w = some d) : IsDateAlone w d := by
  subst hlength
  refine ⟨hread, ?_⟩
  have hplace : dateLength (w ++ []) = some w.length := h.dateLength_append (by simp)
  rwa [List.append_nil] at hplace

/-! ### Half of a surrogate pair between date and time -/

theorem infix_of_infix_set {α : Type} {m l : List α} {place : Nat} {a : α}
    (h : m <:+: l.set place a) (ha : a ∉ m) : m <:+: l := by
  rw [List.infix_iff_getElem?] at h ⊢
  obtain ⟨k, hk, hm⟩ := h
  rw [List.length_set] at hk
  refine ⟨k, hk, fun i hi => ?_⟩
  have hset := hm i hi
  have hne : place ≠ i + k := by
    rintro rfl
    rw [List.getElem?_set_self (by omega)] at hset
    exact ha (Option.some.inj hset ▸ List.getElem_mem hi)
  rwa [List.getElem?_set_ne hne] at hset

theorem withoutHalf_append {v : List Char} (hv : v.any Text.isHalf = false) (u : List Char) :
    ∃ u', withoutHalf (u ++ v) = u' ++ v ∧ u'.length = u.length ∧
      ∀ m, m <:+: u' → 'T' ∉ m → m <:+: u := by
  unfold withoutHalf
  split
  · rename_i place hplace
    have hhalf := List.find?_some hplace
    have hshort : place < u.length := by
      by_contra hlong
      rw [List.getElem?_append_right (Nat.le_of_not_lt hlong), Option.any_eq_true] at hhalf
      obtain ⟨c, hc, hhalf⟩ := hhalf
      exact List.any_eq_false.1 hv c (List.mem_of_getElem? hc) hhalf
    refine ⟨u.set place 'T', List.set_append_left place 'T' hshort, List.length_set, ?_⟩
    exact fun m hm hT => infix_of_infix_set hm hT
  · exact ⟨u, rfl, rfl, fun m hm _ => hm⟩

/-! ### The written offset -/

/-- What a closing `Z` is written out as. -/
def zone : List Char :=
  ['+', '0', '0', ':', '0', '0']

theorem ascii_zone : ∀ c ∈ zone, c.toNat < 128 := by
  simp [zone]

/-- A time in front of the written offset is in UTC, or has an offset of its own up to a NUL. -/
theorem readTime_zone {time : Time} {offset : Option Offset}
    (h : readTime (u ++ zone) = some (time, offset)) :
    offset = some .utc ∨
      ∃ o w, offset = some o ∧ w ++ ['\x00'] <:+: u ∧ 'T' ∉ w ∧ readOffset w = some o := by
  obtain ⟨clock, -, h⟩ := Option.bind_eq_some_iff.1 h
  have hmark : (fun c => !startsOffset c) '+' = false := rfl
  rw [zone, dropWhile_append_mark hmark, if_neg (by simp)] at h
  obtain ⟨o, hoffset, h⟩ := Option.bind_eq_some_iff.1 h
  obtain ⟨clockTime, -, h⟩ := Option.map_eq_some_iff.1 h
  cases h
  rcases hrest : u.dropWhile (fun c => !startsOffset c) with _ | ⟨sign, rest⟩
  · rw [hrest] at hoffset
    have hzone : readOffset zone = some .utc := by decide +kernel
    exact .inl (hoffset.symm.trans hzone)
  · rw [hrest, List.cons_append] at hoffset
    rcases readOffset_before (by decide) hoffset with rfl | ⟨w, hw, hread⟩
    · exact .inl rfl
    · have hsign : sign ≠ 'T' := by
        rintro rfl
        have hhead := List.head?_dropWhile_not (fun c => !startsOffset c) u
        rw [hrest] at hhead
        cases hhead
      refine .inr ⟨o, sign :: w, rfl, ?_, ?_, hread⟩
      · have hstop : sign :: w ++ ['\x00'] <+: u.dropWhile (fun c => !startsOffset c) := by
          rw [hrest, List.cons_append, List.cons_prefix_cons]
          exact ⟨rfl, hw.stop⟩
        exact hstop.isInfix.trans (List.dropWhile_suffix _).isInfix
      · rw [List.mem_cons, not_or]
        exact ⟨hsign.symm, hw.clean⟩

/-- What a text with a closing `Z` written out can be read as. -/
inductive ZoneReading (u : List Char) : DateTime → Prop
  | utc (date : Date) (time : Time) : ZoneReading u ⟨date, time, some .utc⟩
  | naive {date : Date} (h : IsDateAlone u date) : ZoneReading u ⟨date, .midnight, none⟩
  | offset (date : Date) (time : Time) {o : Offset} {w : List Char}
    (hstop : w ++ ['\x00'] <:+: u) (hread : readOffset w = some o) :
    ZoneReading u ⟨date, time, some o⟩

theorem dateTimeText?_zone (h : dateTimeText? (u ++ zone) = some t) : ZoneReading u t := by
  obtain ⟨u', hhalf, hlength, hwithin⟩ := withoutHalf_append (any_isHalf_of_ascii ascii_zone) u
  unfold dateTimeText? at h
  rw [hhalf] at h
  dsimp only at h
  split_ifs at h
  obtain ⟨length, hplace, h⟩ := Option.bind_eq_some_iff.1 h
  obtain ⟨date, hdate, h⟩ := Option.bind_eq_some_iff.1 h
  obtain ⟨⟨time, offset⟩, htime, h⟩ := Option.bind_eq_some_iff.1 h
  cases h
  obtain ⟨w, hstart, hshape, hread⟩ := readDate_before outside_plus hdate
  have hw := hshape.length_eq (hstart.trans (List.prefix_append _ _)) hplace
  rcases Nat.lt_or_ge length u'.length with hshort | hall
  · rw [List.drop_append_of_le_length (by omega)] at htime
    rcases readTime_zone htime with rfl | ⟨o, w, rfl, hstop, hclean, hoffset⟩
    · exact .utc date time
    · refine .offset date time (hwithin _ (hstop.trans (List.drop_suffix _ _).isInfix) ?_) hoffset
      rw [List.mem_append, not_or]
      exact ⟨hclean, by decide⟩
  · -- the date takes all of the text, and what is left of the offset behind a sign is midnight
    have hlong := hstart.length_le
    obtain rfl := hstart.eq_of_length (by omega)
    have hsame : w <:+: u := hwithin w List.infix_rfl (hshape.not_mem (by decide))
    obtain rfl := hsame.eq_of_length hlength
    have hmidnight : readTime zone.tail = some (.midnight, none) := by decide +kernel
    rw [← hw, List.drop_length_add_append] at htime
    cases htime.symm.trans hmidnight
    exact .naive (hshape.isDateAlone hw hread)

/-- An offset that ends at a NUL is kept. -/
example : (dateTimeText? ("2033-04-05T10-05:00:00.123456\x00".toList ++ zone)).bind (·.offset) =
    some ⟨true, ⟨5, 0, 0, 123456, by decide⟩, by decide⟩ := by decide +kernel

/-- A date alone is read as a naive midnight: the sign of the offset separates date and time. -/
theorem IsDateAlone.dateTimeText?_zone (h : IsDateAlone u d) :
    dateTimeText? (u ++ zone) = some ⟨d, .midnight, none⟩ := by
  have hhalf : (u ++ zone).any Text.isHalf = false :=
    any_isHalf_of_ascii (List.forall_mem_append.2 ⟨h.shape.ascii, ascii_zone⟩)
  have hplace : dateLength (u ++ zone) = some u.length := by
    refine h.shape.dateLength_append ?_
    rintro c hc
    cases hc
    exact ⟨rfl, by decide⟩
  have hdate : readDate u.length (u ++ zone) = some d := (h.shape.readDate_append zone).trans h.1
  have hmidnight : readTime zone.tail = some (.midnight, none) := by decide +kernel
  have hdrop : (u ++ zone).drop (u.length + 1) = zone.tail := List.drop_length_add_append _
  simp only [dateTimeText?, withoutHalf_eq_self hhalf, hhalf, hplace, hdate, hdrop, hmidnight,
    Bool.false_eq_true, if_false, Option.bind_eq_bind, Option.bind_some]

/-! ### Dates as long as others -/

/-- A date of eight characters without hyphens and one more octet. A letter behind them makes the
text as long as a date with hyphens, and then what stands behind the date is not looked at. -/
def HidesZulu (u : List Char) (d : Date) : Prop :=
  ∃ w x, u = w ++ [x] ∧ x.toNat < 128 ∧ w.length = 8 ∧ '-' ∉ w ∧ IsDateAlone w d

theorem HidesZulu.length_eq (h : HidesZulu u d) : u.length = 9 := by
  obtain ⟨w, x, rfl, -, hw, -⟩ := h
  rw [List.length_append, hw]
  rfl

theorem IsDateAlone.not_hidesZulu (h : IsDateAlone u d) : ¬∃ d, HidesZulu u d := by
  rintro ⟨d', hd⟩
  have hnine := hd.length_eq
  rcases h.shape.length_cases with ⟨hu, -⟩ | ⟨hu, -⟩ | hu <;> omega

/-- The text of a date and time in UTC, up to the offset. -/
theorem charsWith_utc (h : t.offset = some .utc) :
    t.charsWith 'T' = t.date.isoChars ++ 'T' :: t.time.isoChars ++ zone := by
  have hutc : Offset.utc.isoChars = zone := by decide +kernel
  rw [DateTime.charsWith, DateTime.offsetChars, h]
  simp only [hutc]

theorem dateTimeText?_utc (h : t.offset = some .utc) :
    dateTimeText? (t.date.isoChars ++ 'T' :: t.time.isoChars ++ zone) = some t := by
  rw [← charsWith_utc h]
  refine dateTimeText?_charsWith t fun o ho => ?_
  cases h.symm.trans ho
  exact .inl rfl

theorem not_hidesZulu_isoChars (date : Date) (time : Time) :
    ¬∃ d, HidesZulu (date.isoChars ++ 'T' :: time.isoChars) d := by
  rintro ⟨d, hd⟩
  have hnine := hd.length_eq
  rw [List.length_append, date.length_isoChars] at hnine
  omega

theorem dateText?_eq_some_iff {cs : List Char} : dateText? cs = some d ↔
    cs.any Text.isHalf = false ∧
      (octetCount cs = 7 ∨ octetCount cs = 8 ∨ octetCount cs = 10) ∧
        readDate (octetCount cs) cs = some d := by
  unfold dateText?
  dsimp only
  split_ifs with hhalf hlength
  · simp [hhalf]
  · simp only [Bool.or_eq_true, decide_eq_true_eq, or_assoc] at hlength
    simp [hhalf, hlength]
  · simp only [Bool.or_eq_true, decide_eq_true_eq, or_assoc] at hlength
    simp [hlength]

/-- A sign is in no date, and there are not octets enough in front of the written offset. -/
theorem dateText?_zone (u : List Char) : dateText? (u ++ zone) = none := by
  rw [Option.eq_none_iff_forall_ne_some]
  intro d hd
  obtain ⟨-, hoctets, hread⟩ := dateText?_eq_some_iff.1 hd
  obtain ⟨w, hstart, hshape, -⟩ := readDate_before outside_plus hread
  have hzone : octetCount zone = 6 := by decide +kernel
  have hu := length_le_octetCount u
  have hw := hstart.length_le
  have hseven := hshape.seven_le
  rw [octetCount_append, hzone] at hoctets
  omega

variable {z : Char}

theorem outside_zulu (hz : z = 'Z' ∨ z = 'z') : Outside z := by
  rcases hz with rfl | rfl <;> decide

theorem ascii_zulu (hz : z = 'Z' ∨ z = 'z') : z.toNat < 128 := by
  rcases hz with rfl | rfl <;> decide

/-- Eight characters are all of a date that is no week alone. -/
theorem dateShape_of_length_eq_eight (hw : w.length = 8) (hlong : 7 < length)
    (hread : readDate length w = some d) : DateShape length w := by
  obtain ⟨v, hstart, hshape⟩ := readDate_eq_some hread
  have hshort := hstart.length_le
  have hv : v.length = w.length := by
    rcases hshape.length_cases with ⟨-, hlength⟩ | ⟨hlength, -⟩ | hlength <;> omega
  rwa [hstart.eq_of_length hv] at hshape

theorem HidesZulu.dateText?_eq (h : HidesZulu u d) (hz : z = 'Z' ∨ z = 'z') :
    dateText? (u ++ [z]) = some d := by
  obtain ⟨w, x, rfl, hx, hw, hhyphen, halone⟩ := h
  have hascii : ∀ c ∈ w ++ ([x] ++ [z]), c.toNat < 128 := by
    simp only [List.forall_mem_append, List.forall_mem_singleton]
    exact ⟨halone.shape.ascii, hx, ascii_zulu hz⟩
  have hoctets : octetCount (w ++ ([x] ++ [z])) = 10 := by
    rw [octetCount_of_ascii hascii, List.length_append, hw]
    rfl
  have hread : readDate 10 w = some d :=
    (readDate_eq_of_basic (by decide) (by omega) hhyphen).trans halone.1
  have hshape := dateShape_of_length_eq_eight hw (by decide) hread
  rw [List.append_assoc, dateText?_eq_some_iff, hoctets, hshape.readDate_append]
  exact ⟨any_isHalf_of_ascii hascii, .inr (.inr rfl), hread⟩

theorem hidesZulu_of_dateText? (hz : z = 'Z' ∨ z = 'z') (h : dateText? (u ++ [z]) = some d) :
    HidesZulu u d := by
  obtain ⟨-, hoctets, hread⟩ := dateText?_eq_some_iff.1 h
  obtain ⟨w, ⟨rest, rfl⟩, hshape, hread⟩ := readDate_before (outside_zulu hz) hread
  have hcount : octetCount (w ++ rest ++ [z]) = w.length + octetCount rest + 1 := by
    have hone : octetCount [z] = 1 := octetCount_of_ascii (by simpa using ascii_zulu hz)
    rw [octetCount_append, octetCount_append, hshape.octetCount_eq, hone]
  rw [hcount] at hoctets hshape hread
  -- of all shapes only a date without hyphens leaves room for the letter, with an octet between
  obtain ⟨hw, hhyphen, hrest⟩ : w.length = 8 ∧ '-' ∉ w ∧ octetCount rest = 1 := by
    rcases hshape.length_cases with ⟨hw, hlength⟩ | ⟨hw, hlength⟩ | hw
    · omega
    · have hrest : octetCount rest = 1 := by omega
      exact ⟨hw, fun hmem => absurd (hlength hmem) (by omega), hrest⟩
    · omega
  have hne : rest ≠ [] := by
    rintro rfl
    cases hrest
  have hshort := length_le_octetCount rest
  have hpos := List.length_pos_iff.2 hne
  obtain ⟨x, rfl⟩ := List.length_eq_one_iff.1 (show rest.length = 1 by omega)
  have hx : x.toNat < 128 := by
    have hsize : x.utf8Size = 1 := (octetCount_cons x []).symm.trans hrest
    rw [Char.utf8Size_eq_one_iff, UInt32.le_iff_toNat_le] at hsize
    exact Nat.lt_succ_of_le hsize
  have hread : readDate 8 w = some d :=
    (readDate_eq_of_basic (by decide) (by omega) hhyphen).trans hread
  have hshape := dateShape_of_length_eq_eight hw (by decide) hread
  exact ⟨w, x, rfl, hx, hw, hhyphen, hshape.isDateAlone hw hread⟩

theorem HidesZulu.dateTimeText?_zone (h : HidesZulu u d) : dateTimeText? (u ++ zone) = none := by
  obtain ⟨w, x, rfl, hx, hw, hhyphen, halone⟩ := h
  have hhalf : (w ++ [x] ++ zone).any Text.isHalf = false := by
    apply any_isHalf_of_ascii
    simp only [List.forall_mem_append, List.forall_mem_singleton]
    exact ⟨⟨halone.shape.ascii, hx⟩, ascii_zone⟩
  have hshape : DateShape 8 w := hw ▸ halone.shape
  have hplace : dateLength (w ++ [x] ++ zone) = some 8 := by
    rw [List.append_assoc]
    exact hshape.dateLength_basic hw hhyphen rfl _
  have hdate : readDate 8 (w ++ [x] ++ zone) = some d := by
    rw [List.append_assoc, hshape.readDate_append, ← hw]
    exact halone.1
  have hdrop : (w ++ [x] ++ zone).drop (8 + 1) = zone := List.drop_left' (by simp [hw])
  have htime : readTime zone = none := by decide +kernel
  simp only [dateTimeText?, withoutHalf_eq_self hhalf, hhalf, hplace, hdate, hdrop, htime,
    Bool.false_eq_true, if_false, Option.bind_eq_bind, Option.bind_some, Option.bind_none]

end Iso

end Calendar

open Calendar

/-- What a text can be read as whose last letter is a `Z`, with `u` in front of it. -/
inductive ZuluReading (u : List Char) : DateReading → Prop
  | date {d : Date} (h : Iso.HidesZulu u d) : ZuluReading u (.date d)
  | dateTime {t : DateTime} (h : Iso.ZoneReading u t) : ZuluReading u (.dateTime t)

variable {s : String} {u : List Char} {z : Char}

theorem spellOutZulu_append (hz : z = 'Z' ∨ z = 'z') (u : List Char) :
    spellOutZulu (u ++ [z]) = u ++ Iso.zone := by
  have hmark : (z == 'Z' || z == 'z') = true := by
    rcases hz with rfl | rfl <;> rfl
  simp only [spellOutZulu, List.getLast?_concat, List.dropLast_concat, hmark, if_true]
  rfl

theorem spellOutZulu_zone (u : List Char) : spellOutZulu (u ++ Iso.zone) = u ++ Iso.zone := by
  have hlast : (u ++ Iso.zone).getLast? = some '0' :=
    List.getLast?_append_of_ne_nil u (by decide)
  have hmark : ('0' == 'Z' || '0' == 'z') = false := rfl
  simp only [spellOutZulu, hlast, hmark, Bool.false_eq_true, if_false]

theorem readDateText?_zulu (hz : z = 'Z' ∨ z = 'z') (hs : Text.trimChars s.toList = u ++ [z])
    (h : ¬∃ d, Iso.HidesZulu u d) :
    readDateText? s = (Iso.dateTimeText? (u ++ Iso.zone)).map .dateTime := by
  have hdate : Iso.dateText? (u ++ [z]) = none := by
    rw [Option.eq_none_iff_forall_ne_some]
    exact fun d hd => h ⟨d, Iso.hidesZulu_of_dateText? hz hd⟩
  simp only [readDateText?, hs, hdate, spellOutZulu_append hz]

theorem readDateText?_zone (hs : Text.trimChars s.toList = u ++ Iso.zone) :
    readDateText? s = (Iso.dateTimeText? (u ++ Iso.zone)).map .dateTime := by
  simp only [readDateText?, hs, Iso.dateText?_zone, spellOutZulu_zone]

theorem readDateText?_hidden {d : Date} (hz : z = 'Z' ∨ z = 'z')
    (hs : Text.trimChars s.toList = u ++ [z]) (h : Iso.HidesZulu u d) :
    readDateText? s = some (.date d) := by
  simp only [readDateText?, hs, h.dateText?_eq hz]

/-- A text that ends in a `Z` is read in UTC if it is read at all, save for the three kinds of text;
that of a date and time is always read. Either letter reads alike, and so does the offset in its
place, except that no date hides that. -/
theorem asDate?_zulu (hz : z = 'Z' ∨ z = 'z') (hs : Text.trimChars s.toList = u ++ [z]) :
    (∀ r, Value.asDate? (.string s) = some r → ZuluReading u r) ∧
    (∀ t : DateTime, t.offset = some .utc → u = t.date.isoChars ++ 'T' :: t.time.isoChars →
      Value.asDate? (.string s) = some (.dateTime t)) ∧
    (∀ d, Iso.HidesZulu u d → Value.asDate? (.string s) = some (.date d)) ∧
    (∀ d, Iso.IsDateAlone u d →
      Value.asDate? (.string s) = some (.dateTime ⟨d, .midnight, none⟩)) ∧
    (∀ s' z', z' = 'Z' ∨ z' = 'z' → Text.trimChars s'.toList = u ++ [z'] →
      Value.asDate? (.string s') = Value.asDate? (.string s)) ∧
    ∀ s', Text.trimChars s'.toList = u ++ "+00:00".toList →
      ((¬∃ d, Iso.HidesZulu u d) → Value.asDate? (.string s') = Value.asDate? (.string s)) ∧
      ((∃ d, Iso.HidesZulu u d) → Value.asDate? (.string s') = none) := by
  simp only [Value.asDate?]
  refine ⟨fun r hr => ?_, fun t ht hu => ?_, fun d hd => readDateText?_hidden hz hs hd,
    fun d hd => ?_, fun s' z' hz' hs' => ?_, fun s' hs' => ⟨fun h => ?_, ?_⟩⟩
  · by_cases h : ∃ d, Iso.HidesZulu u d
    · obtain ⟨d, hd⟩ := h
      cases (readDateText?_hidden hz hs hd).symm.trans hr
      exact .date hd
    · rw [readDateText?_zulu hz hs h] at hr
      obtain ⟨t, ht, rfl⟩ := Option.map_eq_some_iff.1 hr
      exact .dateTime (Iso.dateTimeText?_zone ht)
  · subst hu
    rw [readDateText?_zulu hz hs (Iso.not_hidesZulu_isoChars _ _), Iso.dateTimeText?_utc ht]
    rfl
  · rw [readDateText?_zulu hz hs hd.not_hidesZulu, hd.dateTimeText?_zone]
    rfl
  · by_cases h : ∃ d, Iso.HidesZulu u d
    · obtain ⟨d, hd⟩ := h
      rw [readDateText?_hidden hz hs hd, readDateText?_hidden hz' hs' hd]
    · rw [readDateText?_zulu hz hs h, readDateText?_zulu hz' hs' h]
  · rw [readDateText?_zulu hz hs h]
    exact readDateText?_zone hs'
  · rintro ⟨d, hd⟩
    have hzone := readDateText?_zone hs'
    rwa [hd.dateTimeText?_zone] at hzone

/-- A letter behind eight digits and another character is not looked at. -/
theorem hidden_zulu :
    Text.trimChars " 20310506xZ".toList = "20310506x".toList ++ ['Z'] ∧
    Value.asDate? (.string " 20310506xZ") = some (.date ⟨2031, 5, 6, by decide⟩) :=
  have hs : Text.trimChars " 20310506xZ".toList = "20310506x".toList ++ ['Z'] := by decide +kernel
  have hidden : Iso.HidesZulu "20310506x".toList ⟨2031, 5, 6, by decide⟩ :=
    ⟨"20310506".toList, 'x', by decide, by decide, by decide, by decide, by decide +kernel,
      by decide +kernel⟩
  ⟨hs, (asDate?_zulu (.inl rfl) hs).2.2.1 _ hidden⟩

/-- A letter behind a date alone does not make it UTC. -/
theorem naive_zulu :
    Text.trimChars "2032-07-08Z".toList = "2032-07-08".toList ++ ['Z'] ∧
    ∃ t, Value.asDate? (.string "2032-07-08Z") = some (.dateTime t) ∧ t.offset = none :=
  ⟨by decide +kernel, ⟨⟨2032, 7, 8, by decide⟩, .midnight, none⟩, by decide +kernel⟩

end Extraction
