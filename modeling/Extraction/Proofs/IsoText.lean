import Extraction.Proofs.IsoChars
import Extraction.Proofs.Trimming
import Extraction.Value.AsDate
import Mathlib.Data.List.TakeWhile

/-!
ISO text read back. A date comes back from its text, and so does a date with a time, unless its
offset is a fraction of a second: such an offset would be read as none at all, but none is ever read
from a text or a number either.
-/

namespace Extraction

namespace Calendar

open Number

/-! ### Dates -/

namespace Iso

theorem readDate_isoChars (length : Nat) (d : Date) (rest : List Char) :
    readDate length (d.isoChars ++ rest) = some d := by
  obtain ⟨-, hmonth, hday⟩ := d.widths
  have hdate : Date.ofYmd? d.year d.month d.day = some d := dif_pos d.valid
  simp only [readDate, Date.isoChars, List.append_assoc, List.cons_append, readYear, bind,
    Option.bind, List.head?_cons, BEq.rfl, hyphen, if_true]
  -- a week would start with a letter, a month starts with a digit
  split
  · rename_i hweek
    obtain ⟨a, b, hab, ha, -⟩ := padded_two hmonth
    rw [hab, List.cons_append, List.cons.injEq] at hweek
    rw [hweek.1] at ha
    cases ha
  · simp only [readTwo hmonth, readTwo hday, hdate]

theorem dateText?_isoChars (d : Date) : dateText? d.isoChars = some d := by
  have hread := readDate_isoChars 10 d []
  rw [List.append_nil] at hread
  simp [dateText?, octetCount_eq_length (isIso_date d), d.length_isoChars,
    any_isHalf_eq_false (isIso_date d), hread]

/-! ### Times -/

theorem padded_ne_nil (width n : Nat) : padded width n ≠ [] := by
  simp [padded, digits_ne_nil]

theorem padded_append_ne_nil (width n : Nat) (rest : List Char) : padded width n ++ rest ≠ [] :=
  List.append_ne_nil_of_left_ne_nil (padded_ne_nil width n) rest

theorem readFields_last {n : Nat} (hn : n < 100) (fields : Nat) (colons : Option Bool) :
    readFields fields colons (padded 2 n) = some ([n], 0, false) := by
  have hread := readTwo hn []
  rw [List.append_nil] at hread
  unfold readFields
  simp only [hread, bind, Option.bind]

theorem readFields_colon {n : Nat} (hn : n < 100) (fields : Nat) (colons : Option Bool)
    (hcolons : colons.getD true = true) {next : List Char} (hnext : next ≠ []) :
    readFields (fields + 1) colons (padded 2 n ++ ':' :: next) =
      (readFields fields (some true) next).map fun found => (n :: found.1, found.2) := by
  have hempty : next.isEmpty = false := List.isEmpty_eq_false_iff.2 hnext
  have hmark : (':' == '.' || ':' == ',') = false := by decide
  rw [readFields]
  simp only [readTwo hn, bind, Option.bind, hempty, BEq.rfl, hcolons, hmark, bne_self_eq_false,
    Bool.false_and, Bool.and_false, Bool.false_eq_true, if_false, if_true]
  cases readFields fields (some true) next <;> rfl

theorem readFields_point {n micro : Nat} (hn : n < 100) (hmicro : micro < 1000000) (fields : Nat) :
    readFields fields (some true) (padded 2 n ++ '.' :: padded 6 micro) =
      some ([n], micro, false) := by
  have hlength : (padded 6 micro).length = 6 := length_padded (by decide) hmicro
  have hread : readDigits 0 6 (padded 6 micro ++ []) = some (micro, []) :=
    readDigits_padded (by decide) hmicro []
  rw [List.append_nil] at hread
  unfold readFields
  simp [readTwo hn, padded_ne_nil, readFraction, hlength, hread, tenPow]

theorem readFields_seconds {second micro : Nat} (hsecond : second < 100)
    (hmicro : micro < 1000000) (fields : Nat) :
    readFields fields (some true) (padded 2 second ++ Time.fractionChars micro) =
      some ([second], micro, false) := by
  unfold Time.fractionChars
  split_ifs with hzero
  · rw [List.append_nil, readFields_last hsecond, hzero]
  · exact readFields_point hsecond hmicro fields

theorem readClock_isoChars (t : Time) :
    readClock t.isoChars = some ⟨t.hour, t.minute, t.second, t.microsecond, false⟩ := by
  obtain ⟨hhour, hminute, hsecond, hmicro⟩ := t.valid
  have hs := readFields_seconds (show t.second < 100 by omega)
    (show t.microsecond < 1000000 by omega)
  have hm := fun fields => readFields_colon (n := t.minute) (by omega) fields (some true) rfl
    (padded_append_ne_nil 2 t.second (Time.fractionChars t.microsecond))
  have hh := fun fields => readFields_colon (n := t.hour) (by omega) fields none rfl
    (padded_append_ne_nil 2 t.minute
      (':' :: (padded 2 t.second ++ Time.fractionChars t.microsecond)))
  simp only [readClock, Time.isoChars, List.append_assoc, List.cons_append, hh, hm, hs]
  rfl

/-- The fields of an offset's clock are read, the seconds also where they are left out as zero. -/
theorem readClock_offset (t : Time) :
    readClock (padded 2 t.hour ++ ':' :: (padded 2 t.minute ++
      (if t.second = 0 && t.microsecond = 0 then []
      else ':' :: padded 2 t.second ++ Time.fractionChars t.microsecond))) =
      some ⟨t.hour, t.minute, t.second, t.microsecond, false⟩ := by
  obtain ⟨hhour, hminute, hsecond, hmicro⟩ := t.valid
  split_ifs with hzero
  · rw [Bool.and_eq_true, decide_eq_true_eq, decide_eq_true_eq] at hzero
    have hm := readFields_last (n := t.minute) (by omega) 1 (some true)
    have hh := readFields_colon (n := t.hour) (by omega) 1 none rfl
      (padded_append_ne_nil 2 t.minute [])
    simp only [List.append_nil] at hh ⊢
    simp only [readClock, hh, hm, hzero]
    rfl
  · have htime := readClock_isoChars t
    simpa only [Time.isoChars, List.append_assoc, List.cons_append] using htime

end Iso

/-- An offset that is read back: none at all, or at least a second. -/
def Offset.Readable (o : Offset) : Prop :=
  o = .utc ∨ 0 < o.time.hour * 3600 + o.time.minute * 60 + o.time.second

theorem Offset.of_time {o : Offset} (h : o.time ≠ .midnight) : Offset.of o.negative o.time = o :=
  dif_neg h

namespace Iso

theorem readOffset_isoChars {o : Offset} (h : o.Readable) : readOffset o.isoChars = some o := by
  obtain ⟨hhour, hminute, hsecond, hmicro⟩ := o.time.valid
  have hclock := readClock_offset o.time
  have hsign : (if o.negative then '-' else '+') ≠ 'Z' := by split_ifs <;> decide
  have hnegative : ((if o.negative then '-' else '+') == '-') = o.negative := by
    cases o.negative <;> rfl
  rw [Offset.isoChars]
  simp only [List.cons_append, List.append_assoc] at hclock ⊢
  rw [readOffset]
  · simp only [hclock, bind, Option.bind, Bool.false_eq_true, if_false, hnegative]
    rcases h with rfl | hlarge
    · exact if_pos rfl
    · -- the fields are those of a clock already, so their sum gives them back
      have htime : Time.of? ((o.time.hour * 3600 + o.time.minute * 60 + o.time.second) / 3600)
          ((o.time.hour * 3600 + o.time.minute * 60 + o.time.second) / 60 % 60)
          ((o.time.hour * 3600 + o.time.minute * 60 + o.time.second) % 60) o.time.microsecond =
          some o.time := by
        have hh : (o.time.hour * 3600 + o.time.minute * 60 + o.time.second) / 3600 =
            o.time.hour := by omega
        have hm : (o.time.hour * 3600 + o.time.minute * 60 + o.time.second) / 60 % 60 =
            o.time.minute := by omega
        have hs : (o.time.hour * 3600 + o.time.minute * 60 + o.time.second) % 60 =
            o.time.second := by omega
        rw [hh, hm, hs]
        exact dif_pos o.time.valid
      have hmidnight : o.time ≠ .midnight := by
        intro h
        rw [h] at hlarge
        exact absurd hlarge (by decide)
      rw [if_neg (by omega)]
      simp only [htime, Offset.of_time hmidnight]
  · exact hsign

/-! ### Dates with a time -/

theorem startsOffset_eq_false {c : Char} (h : c.isDigit = true ∨ c = ':' ∨ c = '.') :
    startsOffset c = false := by
  rcases h with h | rfl | rfl
  · have hmarks : ∀ mark ∈ ['+', '-', 'Z'], c ≠ mark := by
      rintro mark hmark rfl
      simp only [List.mem_cons, List.not_mem_nil, or_false] at hmark
      rcases hmark with rfl | rfl | rfl <;> cases h
    simp [startsOffset, hmarks]
  · decide
  · decide

theorem startsOffset_time (t : Time) : ∀ c ∈ t.isoChars, startsOffset c = false := by
  have hpadded : ∀ width n, ∀ c ∈ padded width n, startsOffset c = false := fun _ _ c hc =>
    startsOffset_eq_false (.inl (isDigit_of_mem_padded hc))
  have hfraction : ∀ c ∈ Time.fractionChars t.microsecond, startsOffset c = false := by
    unfold Time.fractionChars
    split_ifs
    · simp
    · exact List.forall_mem_cons.2 ⟨by decide, hpadded _ _⟩
  simp only [Time.isoChars, List.forall_mem_append, List.forall_mem_cons]
  exact ⟨⟨⟨hpadded _ _, by decide, hpadded _ _⟩, by decide, hpadded _ _⟩, hfraction⟩

/-- A time is read back with the offset behind it, if there is one. -/
theorem readTime_isoChars (t : DateTime) (h : ∀ o, t.offset = some o → o.Readable) :
    readTime (t.time.isoChars ++ t.offsetChars) = some (t.time, t.offset) := by
  obtain ⟨date, time, offset⟩ := t
  have hbody : ∀ c ∈ time.isoChars, (!startsOffset c) = true := fun c hc => by
    rw [startsOffset_time time c hc]
    rfl
  have htime : Time.of? time.hour time.minute time.second time.microsecond = some time :=
    dif_pos time.valid
  cases offset with
  | none =>
    have htake : time.isoChars.takeWhile (fun c => !startsOffset c) = time.isoChars :=
      List.takeWhile_eq_self_iff.2 hbody
    have hdrop : time.isoChars.dropWhile (fun c => !startsOffset c) = [] :=
      List.dropWhile_eq_nil_iff.2 hbody
    simp [readTime, DateTime.offsetChars, htake, hdrop, readClock_isoChars, htime]
  | some o =>
    obtain ⟨sign, rest, hchars, hsign⟩ : ∃ sign rest, o.isoChars = sign :: rest ∧
        startsOffset sign = true := by
      refine ⟨_, _, rfl, ?_⟩
      split_ifs <;> decide
    have htake : (time.isoChars ++ o.isoChars).takeWhile (fun c => !startsOffset c) =
        time.isoChars := by
      rw [List.takeWhile_append_of_pos hbody, hchars, List.takeWhile_cons, hsign]
      simp
    have hdrop : (time.isoChars ++ o.isoChars).dropWhile (fun c => !startsOffset c) =
        o.isoChars := by
      rw [List.dropWhile_append_of_pos hbody, hchars, List.dropWhile_cons, hsign]
      simp
    have hoffset := readOffset_isoChars (h o rfl)
    have hempty : o.isoChars.isEmpty = false := by rw [hchars]; rfl
    simp [readTime, DateTime.offsetChars, htake, hdrop, readClock_isoChars, htime, hoffset, hempty]

theorem length_charsWith (t : DateTime) : 11 < (t.charsWith 'T').length := by
  have hhour : 0 < (padded 2 t.time.hour).length := by
    rw [List.length_pos_iff]
    exact padded_ne_nil _ _
  simp only [DateTime.charsWith, Time.isoChars, List.length_append, List.length_cons,
    t.date.length_isoChars]
  omega

/-- The date is told from a week by the digit of the month. -/
theorem dateLength_charsWith (t : DateTime) : dateLength (t.charsWith 'T') = some 10 := by
  obtain ⟨hyear, hmonth, -⟩ := t.date.widths
  have hlong := length_charsWith t
  have hy : (padded 4 t.date.year).length = 4 := length_padded (by decide) hyear
  obtain ⟨a, b, hab, ha, -⟩ := padded_two hmonth
  have hweek : a ≠ 'W' := by
    rintro rfl
    cases ha
  have hfourth : (t.charsWith 'T')[4]? = some '-' := by
    simp [DateTime.charsWith, Date.isoChars, hy]
  have hfifth : (t.charsWith 'T')[5]? = some a := by
    simp [DateTime.charsWith, Date.isoChars, hab, List.getElem?_append_right, hy]
  unfold dateLength
  simp [octetCount_eq_length (isIso_dateTime t), hfourth, hfifth, hweek]
  omega

theorem withoutHalf_eq_self {cs : List Char} (h : cs.any Text.isHalf = false) :
    withoutHalf cs = cs := by
  have hnone : (separatorPlaces.find? fun place => cs[place]?.any Text.isHalf) = none := by
    rw [List.find?_eq_none]
    intro place _
    cases hc : cs[place]? with
    | none => exact Bool.false_ne_true
    | some c => exact List.any_eq_false.1 h c (List.mem_of_getElem? hc)
  rw [withoutHalf, hnone]

/-- A date with a time is read back. -/
theorem dateTimeText?_charsWith (t : DateTime) (h : ∀ o, t.offset = some o → o.Readable) :
    dateTimeText? (t.charsWith 'T') = some t := by
  have hchars : t.charsWith 'T' = t.date.isoChars ++ 'T' :: (t.time.isoChars ++ t.offsetChars) := by
    simp [DateTime.charsWith]
  have hdate : readDate 10 (t.charsWith 'T') = some t.date := by
    rw [hchars]
    exact readDate_isoChars 10 t.date _
  have hdrop : (t.charsWith 'T').drop 11 = t.time.isoChars ++ t.offsetChars := by
    rw [hchars]
    simp [List.drop_append, t.date.length_isoChars]
  have hhalf := any_isHalf_eq_false (isIso_dateTime t)
  simp [dateTimeText?, withoutHalf_eq_self hhalf, dateLength_charsWith, hdate, hdrop, hhalf,
    readTime_isoChars t h]

end Iso

end Calendar

open Calendar Number

/-! ### Values -/

theorem spellOutZulu_eq_self {cs : List Char} (h : ∀ c ∈ cs, IsIsoChar c) :
    spellOutZulu cs = cs := by
  unfold spellOutZulu
  split
  · rename_i c hlast
    have hc := h c (List.mem_of_getLast? hlast)
    have hZ : c ≠ 'Z' := by
      rintro rfl
      exact absurd hc (by decide)
    have hz : c ≠ 'z' := by
      rintro rfl
      exact absurd hc (by decide)
    simp [hZ, hz]
  · rfl

theorem trimChars_iso {cs : List Char} (h : ∀ c ∈ cs, IsIsoChar c) : Text.trimChars cs = cs :=
  Text.trimChars_eq_self fun c hc => (h c hc).isBlank_eq_false

theorem readDateText?_date (d : Date) : readDateText? d.isoText = some (.date d) := by
  rw [readDateText?, Date.isoText, String.toList_ofList, trimChars_iso (isIso_date d)]
  simp only [Iso.dateText?_isoChars]

theorem readDateText?_dateTime {t : DateTime} (h : ∀ o, t.offset = some o → o.Readable) :
    readDateText? t.isoText = some (.dateTime t) := by
  have hlong := Iso.length_charsWith t
  have hdate : Iso.dateText? (t.charsWith 'T') = none := by
    simp only [Iso.dateText?, Iso.octetCount_eq_length (isIso_dateTime t)]
    rw [any_isHalf_eq_false (isIso_dateTime t), if_neg Bool.false_ne_true, if_neg]
    simp only [Bool.or_eq_true, decide_eq_true_eq]
    omega
  rw [readDateText?, DateTime.isoText, String.toList_ofList, trimChars_iso (isIso_dateTime t)]
  simp only [hdate, spellOutZulu_eq_self (isIso_dateTime t), Iso.dateTimeText?_charsWith t h,
    Option.map_some]

/-! ### What is read can be read again -/

theorem Calendar.Offset.time_of (negative : Bool) (t : Time) : (Offset.of negative t).time = t := by
  unfold Offset.of
  split_ifs <;> rfl

theorem readOffset_readable {cs : List Char} {o : Offset} (h : Iso.readOffset cs = some o) :
    o.Readable := by
  unfold Iso.readOffset at h
  split at h
  · split_ifs at h
    cases h
    exact .inl rfl
  · obtain ⟨clock, -, h⟩ := Option.bind_eq_some_iff.1 h
    dsimp only at h
    split_ifs at h with hleftover hzero
    · cases h
      exact .inl rfl
    · obtain ⟨t, ht, h⟩ := Option.bind_eq_some_iff.1 h
      cases h
      unfold Time.of? at ht
      split_ifs at ht
      cases ht
      -- the time of the offset has the same seconds in all as were read
      refine .inr ?_
      rw [Offset.time_of]
      simp only
      omega
  · cases h

theorem dateTimeText?_readable {cs : List Char} {t : DateTime} (h : Iso.dateTimeText? cs = some t) :
    ∀ o, t.offset = some o → o.Readable := by
  unfold Iso.dateTimeText? at h
  dsimp only at h
  split_ifs at h
  obtain ⟨length, -, h⟩ := Option.bind_eq_some_iff.1 h
  obtain ⟨date, -, h⟩ := Option.bind_eq_some_iff.1 h
  obtain ⟨⟨time, offset⟩, htime, h⟩ := Option.bind_eq_some_iff.1 h
  cases h
  rintro o rfl
  obtain ⟨clock, -, htime⟩ := Option.bind_eq_some_iff.1 htime
  dsimp only at htime
  split_ifs at htime
  · simp at htime
  · obtain ⟨offset, hoffset, htime⟩ := Option.bind_eq_some_iff.1 htime
    obtain ⟨time, -, htime⟩ := Option.map_eq_some_iff.1 htime
    cases htime
    exact readOffset_readable hoffset

theorem ofEpoch?_offset {seconds : Int} {micro : Nat} {t : DateTime}
    (h : DateTime.ofEpoch? seconds micro = some t) : t.offset = some .utc := by
  unfold DateTime.ofEpoch? at h
  simp only at h
  split_ifs at h
  obtain ⟨date, -, h⟩ := Option.bind_eq_some_iff.1 h
  obtain ⟨time, -, h⟩ := Option.bind_eq_some_iff.1 h
  cases h
  rfl

theorem ofParts?_offset {negative : Bool} {whole : Int} {micro : Nat} {t : DateTime}
    (h : DateTime.ofParts? negative whole micro = some t) : t.offset = some .utc := by
  unfold DateTime.ofParts? at h
  split_ifs at h <;> exact ofEpoch?_offset h

theorem ofSeconds?_offset {x : Binary64} {t : DateTime} (h : DateTime.ofSeconds? x = some t) :
    t.offset = some .utc := by
  cases x with
  | finite negative m => exact ofParts?_offset h
  | _ => cases h

/-- A value that is no date itself is read as a date with a readable offset. -/
theorem asDate?_readable {v : Value} (hv : ∀ t, v ≠ .dateTime t) {t : DateTime}
    (h : v.asDate? = some (.dateTime t)) : ∀ o, t.offset = some o → o.Readable := by
  have hutc : t.offset = some .utc → ∀ o, t.offset = some o → o.Readable := by
    intro hoffset o ho
    rw [hoffset] at ho
    cases ho
    exact .inl rfl
  cases v with
  | int n =>
    obtain ⟨instant, hinstant, h⟩ := Option.map_eq_some_iff.1 h
    cases h
    exact hutc (ofSeconds?_offset hinstant)
  | float x =>
    obtain ⟨instant, hinstant, h⟩ := Option.map_eq_some_iff.1 h
    cases h
    exact hutc (ofSeconds?_offset hinstant)
  | string s =>
    rw [Value.asDate?, readDateText?] at h
    split at h
    · cases h
    · obtain ⟨instant, hinstant, h⟩ := Option.map_eq_some_iff.1 h
      cases h
      exact dateTimeText?_readable hinstant
  | dateTime t => exact absurd rfl (hv t)
  | _ => cases h

end Extraction
