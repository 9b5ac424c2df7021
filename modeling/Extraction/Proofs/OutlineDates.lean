import Extraction.Proofs.OutlineLines

/-!
Dates in outlines. A bullet has the same text for a date as for the string that is sent in its
place. Compact JSON text has a space where the string that is sent has a `T`, so that the outline of
a value is the outline of what is sent for it exactly if every date with a time has a line of its
own.
-/

namespace Extraction

open Bullet (Label)

namespace Value

variable {v : Value}

/-! ### What is sent for the parts of a value -/

theorem parts_wire (v : Value) :
    v.wire.parts = v.parts.map fun part => (part.1, part.2.wire) := by
  cases v with
  | array items =>
    rw [wire, wireItems_eq_map, parts, parts, List.zipIdx_map, List.map_map, List.map_map]
    rfl
  | object fields =>
    rw [wire, wireFields_eq_map, parts, parts, List.map_map, List.map_map]
    rfl
  | _ => rfl

theorem partFrom?_wire (label : Label) (v : Value) (p : Markdown.Place) :
    partFrom? (label, v.wire) p =
      (partFrom? (label, v) p).map fun part => (part.1, part.2.wire) := by
  induction p generalizing label v with
  | nil => rfl
  | cons i p ih =>
    rw [partFrom?, partFrom?, parts_wire, List.getElem?_map]
    cases v.parts[i]? with
    | none => rfl
    | some next => exact ih next.1 next.2

theorem part?_wire (v : Value) (p : Markdown.Place) :
    v.wire.part? p = (v.part? p).map fun part => (part.1, part.2.wire) :=
  partFrom?_wire (.element 1) v p

/-! ### Leaves and their places -/

theorem allLeaves_iff_parts {q : Value → Prop} :
    v.AllLeaves q ↔ (v.nesting = 0 → q v) ∧ ∀ part ∈ v.parts, part.2.AllLeaves q := by
  refine ⟨fun h => ⟨fun hleaf => ?_, h.part⟩, fun h => ?_⟩
  · cases v with
    | array | object => exact absurd hleaf (Nat.succ_ne_zero _)
    | _ => exact h
  · cases v with
    | array items =>
      refine itemLeaves_iff.2 fun w hw => ?_
      obtain ⟨i, hi⟩ := List.mem_iff_getElem?.1 hw
      exact h.2 _ (List.mem_map_of_mem (List.mk_mem_zipIdx_iff_getElem?.2 hi))
    | object fields =>
      exact fieldLeaves_iff.2 fun field hfield => h.2 _ (List.mem_map_of_mem hfield)
    | _ => exact h.1 rfl

theorem allLeaves_iff_places {q : Value → Prop} (label : Label) :
    v.AllLeaves q ↔
      ∀ p part, partFrom? (label, v) p = some part → part.2.nesting = 0 → q part.2 := by
  induction v using induction_on_parts generalizing label with
  | h v ih =>
    rw [allLeaves_iff_parts]
    constructor
    · rintro ⟨hleaf, hparts⟩ p part hp
      cases p with
      | nil =>
        cases hp
        exact hleaf
      | cons i p =>
        obtain ⟨next, hnext, hp⟩ := Option.bind_eq_some_iff.1 hp
        have hmem := List.mem_of_getElem? hnext
        exact (ih next hmem next.1).1 (hparts next hmem) p part hp
    · intro h
      refine ⟨h [] _ rfl, fun next hmem => (ih next hmem next.1).2 fun p part hp => ?_⟩
      obtain ⟨i, hi⟩ := List.mem_iff_getElem?.1 hmem
      exact h (i :: p) part (by rw [partFrom?, hi]; exact hp)

/-- No leaf of the value is a date with a time. -/
def NoTimes (v : Value) : Prop :=
  v.AllLeaves fun leaf => ∀ t, leaf ≠ .dateTime t

theorem noTimes_iff_places (label : Label) :
    v.NoTimes ↔ ∀ p label' t, partFrom? (label, v) p ≠ some (label', .dateTime t) := by
  rw [NoTimes, allLeaves_iff_places label]
  constructor
  · exact fun h p label' t hp => h p _ hp rfl t rfl
  · rintro h p ⟨label', w⟩ hp - t rfl
    exact h p label' t hp

end Value

namespace Markdown

/-! ### Texts that differ in spaces -/

/-- The texts differ at most in characters that are a space in the one and a `T` in the other. -/
def Spaced (cs ds : List Char) : Prop :=
  List.Forall₂ (fun c d => c = d ∨ c = ' ' ∧ d = 'T') cs ds

theorem Spaced.refl (cs : List Char) : Spaced cs cs :=
  List.forall₂_same.2 fun _ _ => .inl rfl

theorem Spaced.append {cs ds cs' ds' : List Char} (h : Spaced cs ds) (h' : Spaced cs' ds') :
    Spaced (cs ++ cs') (ds ++ ds') :=
  List.rel_append h h'

/-- Both texts can be written or neither can. If they can, they differ in spaces at most, and
exactly if `same` does not hold. -/
inductive Twins (same : Prop) : Option (List Char) → Option (List Char) → Prop
  | unwritten : Twins same none none
  | written {cs ds : List Char} (hspaced : Spaced cs ds) (hsame : cs = ds ↔ same) :
    Twins same (some cs) (some ds)

namespace Twins

variable {same same' : Prop} {x y x' y' : Option (List Char)}

theorem self (h : same) (x : Option (List Char)) : Twins same x x := by
  cases x with
  | none => exact .unwritten
  | some cs => exact .written (Spaced.refl cs) (iff_of_true rfl h)

theorem congr (h : Twins same x y) (hiff : same ↔ same') : Twins same' x y := by
  cases h with
  | unwritten => exact .unwritten
  | written hspaced hsame => exact .written hspaced (hsame.trans hiff)

theorem append (h : Twins same x y) (h' : Twins same' x' y') :
    Twins (same ∧ same') (Option.map₂ (· ++ ·) x x') (Option.map₂ (· ++ ·) y y') := by
  cases h with
  | unwritten => exact .unwritten
  | written hspaced hsame =>
    cases h' with
    | unwritten => exact .unwritten
    | written hspaced' hsame' =>
      refine .written (hspaced.append hspaced') ?_
      rw [← hsame, ← hsame']
      exact ⟨fun h => List.append_inj h hspaced.length_eq, fun h => congrArg₂ _ h.1 h.2⟩

/-- Twins stay twins between two texts. -/
theorem between (before after : List Char) (h : Twins same x y) :
    Twins same (x.map fun cs => before ++ cs ++ after) (y.map fun cs => before ++ cs ++ after) := by
  cases h with
  | unwritten => exact .unwritten
  | written hspaced hsame =>
    refine .written (((Spaced.refl before).append hspaced).append (Spaced.refl after)) ?_
    rw [List.append_left_inj, List.append_right_inj, hsame]

end Twins

end Markdown

/-! ### JSON text -/

namespace Json

open Markdown (Spaced Twins)
open Value (NoTimes ItemLeaves FieldLeaves)

/-- A date with a time in JSON text, and the string that is sent for it. -/
theorem twins_stringChars (t : Calendar.DateTime) :
    Twins False (some (stringChars t.spacedText)) (some (stringChars t.isoText)) := by
  have htext : ∀ c, stringChars (String.ofList (t.charsWith c)) =
      ('"' :: t.date.isoChars.flatMap escapeChar) ++ escapeChar c ++
        ((t.time.isoChars ++ t.offsetChars).flatMap escapeChar ++ ['"']) := by
    intro c
    rw [stringChars, String.toList_ofList, Calendar.DateTime.charsWith]
    simp only [List.cons_append, List.append_assoc, List.flatMap_append, List.flatMap_cons]
  have hchar : Twins False (some (escapeChar ' ')) (some (escapeChar 'T')) :=
    .written (.cons (.inr ⟨rfl, rfl⟩) .nil) (by decide)
  rw [Calendar.DateTime.spacedText, Calendar.DateTime.isoText, htext, htext]
  exact hchar.between _ _

variable (layout : Layout)

mutual

/-- The JSON texts of a value and of what is sent for it. -/
theorem twins_valueChars (level : Nat) : ∀ v : Value,
    Twins v.NoTimes (valueChars layout level v) (valueChars layout level v.wire)
  | .array [] | .object [] => .self trivial _
  | .array (v :: rest) => by
    rw [Value.wire, Value.wireItems, valueChars_array_cons, valueChars_array_cons]
    exact ((twins_valueChars (level + 1) v).append (twins_itemChars (level + 1) rest)).between _ _
  | .object ((name, v) :: rest) => by
    rw [Value.wire, Value.wireFields, valueChars_object_cons, valueChars_object_cons]
    exact ((twins_valueChars (level + 1) v).append (twins_fieldChars (level + 1) rest)).between _ _
  | .dateTime t => (twins_stringChars t).congr (iff_of_false id fun h => h t rfl)
  | .date d => .self (fun _ => nofun) _
  | .null | .bool _ | .int _ | .float _ | .string _ => .self (fun _ => nofun) _

theorem twins_itemChars (level : Nat) : ∀ items : List Value,
    Twins (ItemLeaves (fun leaf => ∀ t, leaf ≠ .dateTime t) items)
      (itemChars layout level items) (itemChars layout level (Value.wireItems items))
  | [] => .self trivial _
  | v :: rest => by
    rw [Value.wireItems, itemChars_cons, itemChars_cons]
    exact ((twins_valueChars level v).append (twins_itemChars level rest)).between _ _

theorem twins_fieldChars (level : Nat) : ∀ fields : List (String × Value),
    Twins (FieldLeaves (fun leaf => ∀ t, leaf ≠ .dateTime t) fields)
      (fieldChars layout level fields) (fieldChars layout level (Value.wireFields fields))
  | [] => .self trivial _
  | (name, v) :: rest => by
    rw [Value.wireFields, fieldChars_cons, fieldChars_cons]
    exact ((twins_valueChars level v).append (twins_fieldChars level rest)).between _ _

end

end Json

/-! ### Outlines -/

namespace Markdown

open Value (NoTimes)

variable {cap : Option Int} {v : Value} {p : Place}

theorem below_wire (cap : Option Int) (depth : Nat) (v : Value) :
    below cap depth v.wire = below cap depth v := by
  induction v using Value.induction_on_parts generalizing depth with
  | h v ih =>
    rw [below_eq, below_eq, Value.parts_wire, List.zipIdx_map, List.flatMap_map]
    refine List.flatMap_congr fun part hpart => ?_
    have hbelow := ih part.1 (List.fst_mem_of_mem_zipIdx hpart) (depth + 1)
    simp only [fromPart, Prod.map_fst, Prod.map_snd, id_eq, hbelow]

theorem linePlaces_wire (cap : Option Int) (v : Value) :
    linePlaces cap v.wire = linePlaces cap v := by
  rw [linePlaces, linePlaces, below_wire, Value.parts_wire, List.isEmpty_map]

theorem twins_inlineText (v : Value) :
    Twins v.NoTimes ((inlineText? v).map String.toList)
      ((inlineText? v.wire).map String.toList) := by
  have htext : ∀ w, (inlineText? w).map String.toList =
      (Json.valueChars Json.compact 0 w).map fun cs => ['`'] ++ cs ++ ['`'] := by
    intro w
    rw [inlineText?, Json.print?]
    cases Json.valueChars Json.compact 0 w <;> simp
  rw [htext, htext]
  exact (Json.twins_valueChars Json.compact 0 v).between _ _

theorem exists_withContent (level : Nat) (label : Label) : ∃ before, ∀ content,
    Bullet.chars ⟨level, label.withContent content⟩ = before ++ content.toList ++ [] := by
  cases label with
  | field name =>
    refine ⟨List.replicate (Bullet.indent * level) ' ' ++ '-' :: ' ' ::
      ("**" ++ name ++ "**: ").toList, fun content => ?_⟩
    simp [Bullet.chars, Label.withContent]
  | element number =>
    refine ⟨List.replicate (Bullet.indent * level) ' ' ++ ['-', ' '], fun content => ?_⟩
    simp [Bullet.chars, Label.withContent]

/-- The line of a part at a depth. -/
def partLine? (cap : Option Int) (depth level : Nat) (part : Label × Value) : Option (List Char) :=
  (Entry.bullet? ⟨[], level, part.1, contentAt cap depth part.2⟩).map Bullet.chars

section

variable (cap : Option Int) (depth level : Nat) (label : Label) {w : Value}

/-- A bullet says the same of a date as of the string that is sent. -/
theorem partLine?_wire (hparts : w.parts = []) :
    partLine? cap depth level (label, w.wire) = partLine? cap depth level (label, w) := by
  cases w with
  | array items =>
    cases items with
    | nil => rfl
    | cons => cases hparts
  | object fields =>
    cases fields with
    | nil => rfl
    | cons => cases hparts
  | _ => rfl

theorem twins_partLine_container (hparts : w.parts ≠ []) :
    Twins (atCap cap depth = true → w.NoTimes) (partLine? cap depth level (label, w))
      (partLine? cap depth level (label, w.wire)) := by
  have hsent : w.wire.parts ≠ [] := by rwa [Value.parts_wire, ne_eq, List.map_eq_nil_iff]
  rw [partLine?, partLine?, contentAt_of_parts cap depth hparts, contentAt_of_parts cap depth hsent]
  split_ifs with hcap
  · obtain ⟨before, hbefore⟩ := exists_withContent level label
    have hchars : ∀ u, (Entry.bullet? ⟨[], level, label, .inline u⟩).map Bullet.chars =
        ((inlineText? u).map String.toList).map fun cs => before ++ cs ++ [] := by
      intro u
      simp only [Entry.bullet?, Entry.text?, Option.map_map, Function.comp_def, hbefore]
    rw [hchars, hchars]
    exact ((twins_inlineText w).between before []).congr (by simp [hcap])
  · exact .self (fun h => absurd h hcap) _

end

/-- The lines at a place of a value and of what is sent for it. -/
theorem twins_line (hp : HasLine cap v p) :
    Twins (WrittenInline cap v p → ∀ part, v.part? p = some part → part.2.NoTimes)
      ((bulletAt? cap v p).map Bullet.chars) ((bulletAt? cap v.wire p).map Bullet.chars) := by
  obtain ⟨⟨label, w⟩, hpart⟩ := hp.1
  have hline : ∀ u label' u', u.part? p = some (label', u') →
      (bulletAt? cap u p).map Bullet.chars = partLine? cap p.length p.level (label', u') := by
    intro u label' u' hu
    rw [bulletAt?, hu]
    rfl
  rw [hline v label w hpart, hline v.wire label w.wire (by rw [Value.part?_wire, hpart]; rfl)]
  by_cases hparts : w.parts = []
  · have hopen : ¬WrittenInline cap v p := by
      rintro ⟨-, ⟨part, hfound, hne⟩, -⟩
      cases hpart.symm.trans hfound
      exact hne hparts
    rw [partLine?_wire cap p.length p.level label hparts]
    exact .self (fun h => absurd h hopen) _
  · have hne : p ≠ [] := by
      rintro rfl
      cases hpart
      exact hparts (hp.2.1 rfl)
    refine (twins_partLine_container cap p.length p.level label hparts).congr ?_
    rw [writtenInline_iff hne hpart hparts, hpart]
    simp

/-- If lines are twins, what they make joined are twins. -/
theorem twins_joinLines {same : Place → Prop} {f g : Place → Option (List Char)} (ps : List Place)
    (h : ∀ p ∈ ps, Twins (same p) (f p) (g p)) :
    Twins (∀ p ∈ ps, same p) ((ps.mapM f).map joinLines) ((ps.mapM g).map joinLines) := by
  have hcons : ∀ (f : Place → Option (List Char)) p q rest,
      ((p :: q :: rest).mapM f).map joinLines =
        Option.map₂ (· ++ ·) ((f p).map fun cs => [] ++ cs ++ ['\n'])
          (((q :: rest).mapM f).map joinLines) := by
    intro f p q rest
    simp only [List.mapM_cons]
    cases f p <;> cases f q <;> cases rest.mapM f <;> simp [joinLines]
  induction ps with
  | nil => exact .self (fun p hp => absurd hp List.not_mem_nil) _
  | cons p rest ih =>
    rw [List.forall_mem_cons] at h
    cases rest with
    | nil =>
      have hone : ∀ f : Place → Option (List Char), ([p].mapM f).map joinLines = f p := by
        intro f
        rw [List.mapM_cons]
        cases f p <;> rfl
      rw [hone, hone]
      exact h.1.congr (by simp)
    | cons q rest =>
      rw [hcons, hcons]
      exact ((h.1.between [] ['\n']).append (ih h.2)).congr List.forall_mem_cons.symm

theorem render?_eq_lines (cap : Option Int) (v : Value) :
    (render? cap v).map String.toList =
      ((linePlaces cap v).mapM fun p => (bulletAt? cap v p).map Bullet.chars).map joinLines := by
  have hmap : ∀ ps : List Place, (ps.mapM fun p => (bulletAt? cap v p).map Bullet.chars) =
      (ps.mapM (bulletAt? cap v)).map (List.map Bullet.chars) := by
    intro ps
    induction ps with
    | nil => rfl
    | cons p ps ih =>
      rw [List.mapM_cons, List.mapM_cons, ih]
      cases bulletAt? cap v p <;> cases ps.mapM (bulletAt? cap v) <;> rfl
  rw [hmap, render?, bullets?_eq_places, Option.map_map, Option.map_map]
  exact congrArg (Option.map · _) (funext fun bs => String.toList_ofList)

/-- Nothing that is written inline has a date with a time in it exactly if all of those have lines
of their own. -/
theorem timesHaveLines_iff : (∀ p ∈ linePlaces cap v, WrittenInline cap v p →
      ∀ part, v.part? p = some part → part.2.NoTimes) ↔
    ∀ p label t, v.part? p = some (label, .dateTime t) → HasLine cap v p := by
  constructor
  · intro h p label t hp
    refine ⟨⟨_, hp⟩, ?_, fun q hq hne hinline => ?_⟩
    · rintro rfl
      cases hp
      rfl
    · obtain ⟨hnonempty, ⟨part, hpart, hparts⟩, limit, hcap, hlimit⟩ := hinline
      have hpos : 0 < q.length := List.length_pos_iff.2 hnonempty
      obtain ⟨outer, houter, hprefix, hinline⟩ :=
        exists_inline hcap hpart hparts (by omega)
      obtain ⟨rest, rfl⟩ := hprefix.trans hq
      rw [Value.part?, Value.partFrom?_append, Option.bind_eq_some_iff] at hp
      obtain ⟨found, hfound, hp⟩ := hp
      have htimes := h outer houter hinline found hfound
      exact (Value.noTimes_iff_places found.1).1 htimes rest label t hp
  · intro h p hp hinline part hpart
    refine (Value.noTimes_iff_places part.1).2 fun q label t hq => ?_
    have htime : v.part? (p ++ q) = some (label, .dateTime t) := by
      rw [Value.part?, Value.partFrom?_append]
      exact Option.bind_eq_some_iff.2 ⟨part, hpart, hq⟩
    refine (h (p ++ q) label t htime).2.2 p (List.prefix_append p q) (fun hself => ?_) hinline
    -- a container with parts is no date
    obtain ⟨-, ⟨found, hfound, hparts⟩, -⟩ := hinline
    rw [← hself, hfound] at htime
    cases htime
    exact hparts rfl

end Markdown

/-- The outlines of a value and of what is sent for it. Either neither can be written, or they
differ at most in spaces that stand for a `T`; then they are the same exactly if every date with a
time has a line of its own, which it has not in a container that is written inline. -/
theorem render_wire (cap : Option Int) (v : Value) :
    (Markdown.render? cap v = none ∧ Markdown.render? cap v.wire = none) ∨
      ∃ text sent, Markdown.render? cap v = some text ∧ Markdown.render? cap v.wire = some sent ∧
        Markdown.Spaced text.toList sent.toList ∧
        (text = sent ↔
          ∀ p label t, v.part? p = some (label, .dateTime t) → Markdown.HasLine cap v p) := by
  have htwins := Markdown.twins_joinLines (Markdown.linePlaces cap v) fun p hp =>
    Markdown.twins_line (Markdown.mem_linePlaces_iff.1 hp)
  have hsent := Markdown.render?_eq_lines cap v.wire
  rw [Markdown.linePlaces_wire] at hsent
  rw [← Markdown.render?_eq_lines, ← hsent] at htwins
  generalize Markdown.render? cap v = written, Markdown.render? cap v.wire = sent at htwins ⊢
  cases written with
  | none =>
    cases sent with
    | none => exact .inl ⟨rfl, rfl⟩
    | some sent => cases htwins
  | some text =>
    cases sent with
    | none => cases htwins
    | some sent =>
      cases htwins with
      | written hspaced hsame =>
        refine .inr ⟨text, sent, rfl, rfl, hspaced, ?_⟩
        rw [← Markdown.timesHaveLines_iff, ← hsame, String.toList_inj]

/-- A visit with its time, two levels down. -/
def visit : Value :=
  .object [("visit", .object
    [("at", .dateTime ⟨⟨2025, 3, 14, by decide⟩, ⟨9, 30, 0, 0, by decide⟩, some .utc⟩)])]

theorem visit_not_wire :
    Markdown.render? (some 1) visit ≠ Markdown.render? (some 1) visit.wire := by decide +kernel

end Extraction
