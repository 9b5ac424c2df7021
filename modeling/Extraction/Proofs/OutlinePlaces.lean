import Extraction.Proofs.Outline
import Mathlib.Data.List.Chain

/-!
The places of the lines of an outline. A place says which part of the whole value is meant, which
part of that, and so on. The places of the lines are listed in their lexicographic order, in which a
container stands before its parts, and each is at most one step longer than the one before. The
bullets of a value are those at its places.
-/

namespace Extraction

open Bullet (Label)

/-- The step from a container to the part with a label. -/
def Bullet.Label.step : Label → Step
  | .field name => .field name
  | .element number => .index (number - 1)

/-- A part of a part of a value, and so on, by the numbers of the parts. -/
abbrev Markdown.Place := List Nat

namespace Value

open Markdown (Place)

/-- The parts of a container in their order, each with its label. -/
def parts : Value → List (Label × Value)
  | .array items => items.zipIdx.map fun item => (.element (item.2 + 1), item.1)
  | .object fields => fields.map fun field => (.field field.1, field.2)
  | _ => []

/-- What holds of a value if it holds of its parts holds of all values. -/
theorem induction_on_parts {motive : Value → Prop}
    (h : ∀ v, (∀ part ∈ v.parts, motive part.2) → motive v) (v : Value) : motive v := by
  induction v using induction_parts with
  | array items ih =>
    refine h _ fun part hpart => ?_
    obtain ⟨item, hitem, rfl⟩ := List.mem_map.1 hpart
    exact ih item.1 (List.fst_mem_of_mem_zipIdx hitem)
  | object fields ih =>
    refine h _ fun part hpart => ?_
    obtain ⟨field, hfield, rfl⟩ := List.mem_map.1 hpart
    exact ih field hfield
  | _ => exact h _ fun _ hpart => absurd hpart List.not_mem_nil

/-- The part at a place in a part. -/
def partFrom? : Label × Value → Place → Option (Label × Value)
  | part, [] => some part
  | part, i :: p => part.2.parts[i]?.bind fun next => partFrom? next p

/-- The part at a place, with its label. The whole is labelled as if it were an element. -/
def part? (v : Value) (p : Place) : Option (Label × Value) :=
  partFrom? (.element 1, v) p

theorem partFrom?_append (part : Label × Value) (p q : Place) :
    partFrom? part (p ++ q) = (partFrom? part p).bind fun next => partFrom? next q := by
  induction p generalizing part with
  | nil => rfl
  | cons i p ih =>
    rw [List.cons_append, partFrom?, partFrom?]
    cases part.2.parts[i]? with
    | none => rfl
    | some next => exact ih next

theorem part?_append_cons (v : Value) (p : Place) (i : Nat) (q : Place) :
    v.part? (p ++ i :: q) =
      (v.part? p).bind fun part => part.2.parts[i]?.bind fun next => partFrom? next q := by
  rw [part?, partFrom?_append]
  rfl

/-- What holds of a part and passes to the parts of a container holds wherever the part leads. -/
theorem partFrom?_induction {motive : Label × Value → Prop}
    (hparts : ∀ outer, motive outer → ∀ next ∈ outer.2.parts, motive next)
    {start part : Label × Value} (h : motive start) {p : Place}
    (hp : partFrom? start p = some part) : motive part := by
  induction p generalizing start with
  | nil =>
    cases hp
    exact h
  | cons i p ih =>
    obtain ⟨next, hnext, hp⟩ := Option.bind_eq_some_iff.1 hp
    exact ih (hparts start h next (List.mem_of_getElem? hnext)) hp

/-- What holds of a value, labelled as the whole, and passes to parts holds of all of them. -/
theorem part?_induction {motive : Label × Value → Prop}
    (hparts : ∀ outer, motive outer → ∀ next ∈ outer.2.parts, motive next)
    {v : Value} (h : motive (.element 1, v)) {p : Place} {part : Label × Value}
    (hp : v.part? p = some part) : motive part :=
  partFrom?_induction hparts h hp

theorem AllLeaves.part {q : Value → Prop} {v : Value} (h : v.AllLeaves q) :
    ∀ part ∈ v.parts, part.2.AllLeaves q := by
  intro part hpart
  cases v with
  | array items =>
    obtain ⟨item, hitem, rfl⟩ := List.mem_map.1 hpart
    exact itemLeaves_iff.1 h _ (List.fst_mem_of_mem_zipIdx hitem)
  | object fields =>
    obtain ⟨field, hfield, rfl⟩ := List.mem_map.1 hpart
    exact fieldLeaves_iff.1 h _ hfield
  | _ => exact absurd hpart List.not_mem_nil

/-- On the way to a part there are containers with parts only. -/
theorem exists_part?_of_prefix {v : Value} {p q : Place} {part : Label × Value}
    (hp : v.part? p = some part) (hq : q <+: p) (hne : q ≠ p) :
    ∃ outer, v.part? q = some outer ∧ outer.2.parts ≠ [] := by
  obtain ⟨rest, rfl⟩ := hq
  cases rest with
  | nil => exact absurd (List.append_nil q).symm hne
  | cons i rest =>
    rw [part?_append_cons, Option.bind_eq_some_iff] at hp
    obtain ⟨outer, houter, hp⟩ := hp
    obtain ⟨next, hnext, -⟩ := Option.bind_eq_some_iff.1 hp
    exact ⟨outer, houter, List.ne_nil_of_mem (List.mem_of_getElem? hnext)⟩

end Value

namespace Markdown

/-- How many containers lie around the one that an entry stands in. -/
def Place.level (p : Place) : Nat :=
  p.length - 1

mutual

/-- The places in a container at a depth that have lines below the container's own, in order. -/
def below (cap : Option Int) (depth : Nat) : Value → List Place
  | .array items => itemsBelow cap depth 0 items
  | .object fields => fieldsBelow cap depth 0 fields
  | _ => []

def itemsBelow (cap : Option Int) (depth : Nat) : Nat → List Value → List Place
  | _, [] => []
  | i, v :: rest =>
    ([] :: if atCap cap (depth + 1) then [] else below cap (depth + 1) v).map (i :: ·) ++
      itemsBelow cap depth (i + 1) rest

def fieldsBelow (cap : Option Int) (depth : Nat) : Nat → List (String × Value) → List Place
  | _, [] => []
  | i, (_, v) :: rest =>
    ([] :: if atCap cap (depth + 1) then [] else below cap (depth + 1) v).map (i :: ·) ++
      fieldsBelow cap depth (i + 1) rest

end

/-- The places, counted from a part at a depth, of its own line and of those below it. -/
def fromPart (cap : Option Int) (depth : Nat) (v : Value) : List Place :=
  [] :: if atCap cap depth then [] else below cap depth v

/-- The places of the lines of an outline. A value without parts has one line, for the whole. -/
def linePlaces (cap : Option Int) (v : Value) : List Place :=
  if v.parts.isEmpty then [[]] else below cap 0 v

variable {cap : Option Int} {depth : Nat} {v : Value} {p q : Place}

theorem below_eq (cap : Option Int) (depth : Nat) (v : Value) :
    below cap depth v = v.parts.zipIdx.flatMap fun part =>
      (fromPart cap (depth + 1) part.1.2).map (part.2 :: ·) := by
  have hitems : ∀ (items : List Value) (i : Nat), itemsBelow cap depth i items =
      (((items.zipIdx i).map fun item => (Label.element (item.2 + 1), item.1)).zipIdx i).flatMap
        fun part => (fromPart cap (depth + 1) part.1.2).map (part.2 :: ·) := by
    intro items
    induction items with
    | nil => exact fun _ => rfl
    | cons v rest ih =>
      intro i
      rw [itemsBelow, ih]
      rfl
  have hfields : ∀ (fields : Fields) (i : Nat), fieldsBelow cap depth i fields =
      ((fields.map fun field => (Label.field field.1, field.2)).zipIdx i).flatMap
        fun part => (fromPart cap (depth + 1) part.1.2).map (part.2 :: ·) := by
    intro fields
    induction fields with
    | nil => exact fun _ => rfl
    | cons field rest ih =>
      intro i
      rw [fieldsBelow, ih]
      rfl
  cases v with
  | array items => exact hitems items 0
  | object fields => exact hfields fields 0
  | _ => rfl

/-! ### Which places have a line -/

theorem mem_fromPart :
    p ∈ fromPart cap depth v ↔ p = [] ∨ atCap cap depth = false ∧ p ∈ below cap depth v := by
  rw [fromPart, List.mem_cons]
  refine or_congr_right ?_
  cases atCap cap depth <;> simp

theorem cons_mem_below {i : Nat} :
    i :: p ∈ below cap depth v ↔
      ∃ part, v.parts[i]? = some part ∧ p ∈ fromPart cap (depth + 1) part.2 := by
  rw [below_eq, List.mem_flatMap]
  constructor
  · rintro ⟨⟨part, j⟩, hpart, hp⟩
    obtain ⟨q, hq, h⟩ := List.mem_map.1 hp
    cases h
    exact ⟨part, List.mk_mem_zipIdx_iff_getElem?.1 hpart, hq⟩
  · rintro ⟨part, hpart, hp⟩
    exact ⟨(part, i), List.mk_mem_zipIdx_iff_getElem?.2 hpart, List.mem_map_of_mem hp⟩

theorem nil_not_mem_below : [] ∉ below cap depth v := by
  rw [below_eq, List.mem_flatMap]
  rintro ⟨part, -, hp⟩
  obtain ⟨q, -, h⟩ := List.mem_map.1 hp
  cases h

/-- A place has a line below a container if there is a part there and none of the parts on the way
lies at the cap. -/
theorem mem_below_iff (label : Label) :
    p ∈ below cap depth v ↔ p ≠ [] ∧ (∃ part, Value.partFrom? (label, v) p = some part) ∧
      ∀ k < p.length - 1, atCap cap (depth + 1 + k) = false := by
  induction p generalizing depth v label with
  | nil => simp [nil_not_mem_below]
  | cons i p ih =>
    have hpart : (∃ part, Value.partFrom? (label, v) (i :: p) = some part) ↔
        ∃ next, v.parts[i]? = some next ∧ ∃ part, Value.partFrom? next p = some part := by
      simp only [Value.partFrom?, Option.bind_eq_some_iff]
      exact ⟨fun ⟨part, next, h⟩ => ⟨next, h.1, part, h.2⟩,
        fun ⟨next, h, part, hpart⟩ => ⟨part, next, h, hpart⟩⟩
    rw [cons_mem_below, hpart]
    simp only [mem_fromPart]
    cases p with
    | nil => simp [Value.partFrom?]
    | cons j p =>
      have hway : (∀ k < (i :: j :: p).length - 1, atCap cap (depth + 1 + k) = false) ↔
          atCap cap (depth + 1) = false ∧
            ∀ k < (j :: p).length - 1, atCap cap (depth + 1 + 1 + k) = false := by
        simp only [List.length_cons, Nat.add_sub_cancel, Nat.forall_lt_succ_left, Nat.add_zero,
          Nat.add_right_comm (depth + 1) 1]
        rfl
      rw [hway]
      constructor
      · rintro ⟨next, hnext, hnil | ⟨hcap, hbelow⟩⟩
        · cases hnil
        · obtain ⟨-, hfound, hmore⟩ := (ih next.1).1 hbelow
          exact ⟨List.cons_ne_nil _ _, ⟨next, hnext, hfound⟩, hcap, hmore⟩
      · rintro ⟨-, ⟨next, hnext, hfound⟩, hcap, hmore⟩
        exact ⟨next, hnext, .inr ⟨hcap, (ih next.1).2 ⟨List.cons_ne_nil _ _, hfound, hmore⟩⟩⟩

/-! ### Their order -/

theorem pairwise_fromPart (h : (below cap depth v).Pairwise (· < ·)) :
    (fromPart cap depth v).Pairwise (· < ·) := by
  have hfirst : ∀ p ∈ below cap depth v, [] < p := by
    intro p hp
    cases p with
    | nil => exact absurd hp nil_not_mem_below
    | cons i p => exact List.nil_lt_cons i p
  rw [fromPart]
  split
  · exact List.pairwise_singleton _ _
  · exact .cons hfirst h

/-- The places are listed in pre-order. -/
theorem pairwise_below (cap : Option Int) (depth : Nat) (v : Value) :
    (below cap depth v).Pairwise (· < ·) := by
  induction v using Value.induction_on_parts generalizing depth with
  | h v ih =>
    have hnumbers : v.parts.zipIdx.Pairwise fun a b => a.2 < b.2 := by
      rw [← List.pairwise_map (R := (· < ·)), List.zipIdx_map_snd]
      exact List.pairwise_lt_range'
    rw [below_eq, List.pairwise_flatMap]
    refine ⟨fun part hpart => ?_, hnumbers.imp fun hij p hp q hq => ?_⟩
    · rw [List.pairwise_map]
      exact (pairwise_fromPart (ih part.1 (List.fst_mem_of_mem_zipIdx hpart) (depth + 1))).imp
        fun h => List.cons_lt_cons_iff.2 (.inr ⟨rfl, h⟩)
    · obtain ⟨p, -, rfl⟩ := List.mem_map.1 hp
      obtain ⟨q, -, rfl⟩ := List.mem_map.1 hq
      exact List.cons_lt_cons_iff.2 (.inl hij)

theorem pairwise_linePlaces (cap : Option Int) (v : Value) :
    (linePlaces cap v).Pairwise (· < ·) := by
  rw [linePlaces]
  split
  · exact List.pairwise_singleton _ _
  · exact pairwise_below cap 0 v

/-! ### Their lengths -/

/-- Each place is at most one step longer than the place before it. -/
def Descending (ps : List Place) : Prop :=
  ps.IsChain fun p q => q.length ≤ p.length + 1

theorem descending_fromPart (h : Descending (below cap depth v))
    (hfirst : ∀ p ∈ (below cap depth v).head?, p.length = 1) :
    Descending (fromPart cap depth v) := by
  rw [fromPart]
  split
  · exact List.isChain_singleton _
  · exact List.isChain_cons.2 ⟨fun p hp => (hfirst p hp).le, h⟩

/-- Below a container the first place is that of its first part. -/
theorem length_of_head_below : ∀ p ∈ (below cap depth v).head?, p.length = 1 := by
  intro p hp
  rw [below_eq] at hp
  cases hparts : v.parts with
  | nil =>
    rw [hparts] at hp
    cases hp
  | cons part rest =>
    rw [hparts] at hp
    obtain rfl : [0] = p := Option.some.inj hp
    rfl

theorem descending_below (cap : Option Int) (depth : Nat) (v : Value) :
    Descending (below cap depth v) := by
  induction v using Value.induction_on_parts generalizing depth with
  | h v ih =>
    rw [below_eq]
    have hparts : ∀ part ∈ v.parts.zipIdx, part.1 ∈ v.parts := fun _ =>
      List.fst_mem_of_mem_zipIdx
    generalize v.parts.zipIdx = parts at hparts
    induction parts with
    | nil => exact List.isChain_nil
    | cons part rest ihrest =>
      rw [List.forall_mem_cons] at hparts
      rw [List.flatMap_cons]
      refine List.isChain_append.2 ⟨?_, ihrest hparts.2, fun p _ q hq => ?_⟩
      · rw [List.isChain_map]
        exact (descending_fromPart (ih part.1 hparts.1 (depth + 1)) length_of_head_below).imp
          fun _ _ h => Nat.succ_le_succ h
      · -- the next part has a place of its own first
        cases rest with
        | nil => cases hq
        | cons next rest =>
          obtain rfl : [next.2] = q := Option.some.inj hq
          exact Nat.succ_le_succ (Nat.zero_le _)

theorem descending_linePlaces (cap : Option Int) (v : Value) : Descending (linePlaces cap v) := by
  rw [linePlaces]
  split
  · exact List.isChain_singleton _
  · exact descending_below cap 0 v

/-! ### Entries and parts -/

/-- What stands in the bullet of a value at a depth. -/
def contentAt (cap : Option Int) (depth : Nat) : Value → Content
  | .array items =>
    if items.isEmpty then .empty else if atCap cap depth then .inline (.array items) else .heading
  | .object fields =>
    if fields.isEmpty then .empty
    else if atCap cap depth then .inline (.object fields) else .heading
  | v => .scalar v

/-- A container with parts is written inline at the cap, and is headed elsewhere. -/
theorem contentAt_of_parts (cap : Option Int) (depth : Nat) (h : v.parts ≠ []) :
    contentAt cap depth v = if atCap cap depth then .inline v else .heading := by
  cases v with
  | array items =>
    cases items with
    | nil => exact absurd rfl h
    | cons => rfl
  | object fields =>
    cases fields with
    | nil => exact absurd rfl h
    | cons => rfl
  | _ => exact absurd rfl h

theorem contentAt_of_no_parts (cap : Option Int) (depth : Nat) (h : v.parts = []) :
    contentAt cap depth v = contentAt none depth v := by
  cases v with
  | array items =>
    cases items with
    | nil => rfl
    | cons => cases h
  | object fields =>
    cases fields with
    | nil => rfl
    | cons => cases h
  | _ => rfl

theorem contentAt_cases (cap : Option Int) (depth : Nat) (v : Value) :
    contentAt cap depth v = .heading ∨ contentAt cap depth v = .empty ∨
      contentAt cap depth v = .inline v ∨ contentAt cap depth v = .scalar v := by
  cases v with
  | array items => cases items <;> cases hcap : atCap cap depth <;> simp [contentAt, hcap]
  | object fields => cases fields <;> cases hcap : atCap cap depth <;> simp [contentAt, hcap]
  | _ => exact .inr (.inr (.inr rfl))

theorem entries_eq (cap : Option Int) (level : Nat) (l : Location) (label : Label) (v : Value) :
    entries cap level l label v = ⟨l, level, label, contentAt cap (level + 1) v⟩ ::
      if atCap cap (level + 1) then [] else v.parts.flatMap fun part =>
        entries cap (level + 1) (l ++ [part.1.step]) part.1 part.2 := by
  cases v with
  | array items =>
    cases items with
    | nil => simp [entries, contentAt, Value.parts]
    | cons v rest =>
      have hparts : (Value.array (v :: rest)).parts ≠ [] := List.cons_ne_nil _ _
      rw [entries_array, itemEntries_eq, contentAt_of_parts _ _ hparts, Value.parts,
        List.flatMap_map]
      split_ifs <;> rfl
  | object fields =>
    cases fields with
    | nil => simp [entries, contentAt, Value.parts]
    | cons field rest =>
      have hparts : (Value.object (field :: rest)).parts ≠ [] := List.cons_ne_nil _ _
      rw [entries_object, fieldEntries_eq, contentAt_of_parts _ _ hparts, Value.parts,
        List.flatMap_map]
      split_ifs <;> rfl
  | _ => simp [entries, contentAt, Value.parts]

theorem outline_eq (cap : Option Int) (v : Value) :
    outline cap v = if v.parts.isEmpty then [⟨[], 0, .element 1, contentAt cap 0 v⟩]
      else v.parts.flatMap fun part => entries cap 0 [part.1.step] part.1 part.2 := by
  cases v with
  | array items =>
    cases items with
    | nil => rfl
    | cons v rest =>
      have hitems : itemEntries cap 0 [] 0 (v :: rest) = _ := itemEntries_eq [] 0 (v :: rest)
      have hnonempty : (Value.array (v :: rest)).parts.isEmpty = false := rfl
      rw [hnonempty, Value.parts, List.flatMap_map]
      exact hitems
  | object fields =>
    cases fields with
    | nil => rfl
    | cons field rest =>
      have hfields : fieldEntries cap 0 [] (field :: rest) = _ :=
        fieldEntries_eq [] (field :: rest)
      have hnonempty : (Value.object (field :: rest)).parts.isEmpty = false := rfl
      rw [hnonempty, Value.parts, List.flatMap_map]
      exact hfields
  | _ => rfl

/-- The bullet at a place in a part that lies at a depth. -/
def bulletFrom? (cap : Option Int) (depth : Nat) (part : Label × Value) (p : Place) :
    Option Bullet :=
  (Value.partFrom? part p).bind fun found =>
    Entry.bullet? ⟨[], depth + p.length - 1, found.1, contentAt cap (depth + p.length) found.2⟩

theorem bulletFrom?_cons {depth i : Nat} {part next : Label × Value}
    (h : part.2.parts[i]? = some next) (p : Place) :
    bulletFrom? cap depth part (i :: p) = bulletFrom? cap (depth + 1) next p := by
  have hdepth : depth + (i :: p).length = depth + 1 + p.length := by
    rw [List.length_cons]
    omega
  rw [bulletFrom?, bulletFrom?, Value.partFrom?, h, hdepth]
  rfl

theorem map_bullet?_parts (cap : Option Int) (level : Nat) (part : Label × Value)
    (l : Label → Location)
    (h : ∀ next ∈ part.2.parts, ∀ l,
      (entries cap level l next.1 next.2).map Entry.bullet? =
        (fromPart cap (level + 1) next.2).map (bulletFrom? cap (level + 1) next)) :
    (part.2.parts.flatMap fun next => entries cap level (l next.1) next.1 next.2).map
      Entry.bullet? = (below cap level part.2).map (bulletFrom? cap level part) := by
  have hnumbered : part.2.parts.flatMap (fun next => entries cap level (l next.1) next.1 next.2) =
      part.2.parts.zipIdx.flatMap fun next =>
        entries cap level (l next.1.1) next.1.1 next.1.2 := by
    conv_lhs => rw [← List.zipIdx_map_fst 0 part.2.parts, List.flatMap_map]
  rw [below_eq, hnumbered, List.map_flatMap, List.map_flatMap]
  refine List.flatMap_congr fun ⟨next, i⟩ hnext => ?_
  have hi : part.2.parts[i]? = some next := List.mk_mem_zipIdx_iff_getElem?.1 hnext
  rw [h next (List.mem_of_getElem? hi), List.map_map]
  exact List.map_congr_left fun p _ => (bulletFrom?_cons hi p).symm

theorem map_bullet?_entries (cap : Option Int) (v : Value) : ∀ level l label,
    (entries cap level l label v).map Entry.bullet? =
      (fromPart cap (level + 1) v).map (bulletFrom? cap (level + 1) (label, v)) := by
  induction v using Value.induction_on_parts with
  | h v ih =>
    intro level l label
    rw [entries_eq, fromPart, List.map_cons, List.map_cons]
    refine congrArg₂ List.cons rfl ?_
    split_ifs
    · rfl
    · exact map_bullet?_parts cap (level + 1) (label, v) (l ++ [·.step]) fun next hnext l =>
        ih next hnext (level + 1) l next.1

/-- The bullet at a place in a value. -/
def bulletAt? (cap : Option Int) (v : Value) (p : Place) : Option Bullet :=
  (v.part? p).bind fun found =>
    Entry.bullet? ⟨[], p.level, found.1, contentAt cap p.length found.2⟩

theorem bulletFrom?_whole (cap : Option Int) (v : Value) :
    bulletFrom? cap 0 (.element 1, v) = bulletAt? cap v := by
  funext p
  rw [bulletFrom?, Nat.zero_add]
  rfl

/-- The bullets of a value are those at its places. -/
theorem bullets?_eq_places (cap : Option Int) (v : Value) :
    bullets? cap v = (linePlaces cap v).mapM (bulletAt? cap v) := by
  have hmap : (outline cap v).map Entry.bullet? =
      (linePlaces cap v).map (bulletFrom? cap 0 (.element 1, v)) := by
    rw [outline_eq, linePlaces]
    split_ifs
    · rfl
    · exact map_bullet?_parts cap 0 (.element 1, v) ([·.step]) fun next _ l =>
        map_bullet?_entries cap next.2 0 l next.1
  rw [bullets?_eq, ← Function.id_comp Entry.bullet?, ← List.mapM_map, hmap, List.mapM_map,
    Function.id_comp, bulletFrom?_whole]

end Markdown

end Extraction
