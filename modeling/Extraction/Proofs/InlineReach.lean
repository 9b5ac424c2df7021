import Extraction.Proofs.OutlineLines

/-!
How deep what is written inline reaches. The reach of a value is the greatest depth of a container
in it, counted from the whole on, of which a container that is written inline is a part.
-/

namespace Extraction

open Bullet (Label)

/-! ### Parts -/

namespace Value

/-- A part is nested less deep than its container. -/
theorem nesting_lt_of_mem_parts {v : Value} {part : Label × Value} (h : part ∈ v.parts) :
    part.2.nesting < v.nesting := by
  cases v with
  | array items =>
    obtain ⟨item, hitem, rfl⟩ := List.mem_map.1 h
    have hmem := List.fst_mem_of_mem_zipIdx hitem
    exact Nat.lt_succ_of_le (nestingItems_le_iff.1 (Nat.le_refl _) _ hmem)
  | object fields =>
    obtain ⟨field, hfield, rfl⟩ := List.mem_map.1 h
    exact Nat.lt_succ_of_le (nestingFields_le_iff.1 (Nat.le_refl _) _ hfield)
  | _ => exact absurd h List.not_mem_nil

theorem exists_part_array {q : Value → Prop} {items : List Value} :
    (∃ part ∈ (Value.array items).parts, q part.2) ↔ ∃ v ∈ items, q v := by
  constructor
  · rintro ⟨part, hpart, h⟩
    obtain ⟨item, hitem, rfl⟩ := List.mem_map.1 hpart
    exact ⟨item.1, List.fst_mem_of_mem_zipIdx hitem, h⟩
  · rintro ⟨v, hv, h⟩
    obtain ⟨i, hi⟩ := List.getElem?_of_mem hv
    exact ⟨_, List.mem_map_of_mem (List.mk_mem_zipIdx_iff_getElem?.2 hi), h⟩

theorem exists_part_object {q : Value → Prop} {fields : Fields} :
    (∃ part ∈ (Value.object fields).parts, q part.2) ↔ ∃ field ∈ fields, q field.2 := by
  constructor
  · rintro ⟨part, hpart, h⟩
    obtain ⟨field, hfield, rfl⟩ := List.mem_map.1 hpart
    exact ⟨field, hfield, h⟩
  · rintro ⟨field, hfield, h⟩
    exact ⟨_, List.mem_map_of_mem hfield, h⟩

theorem length_add_nesting_le {start part : Label × Value} {p : Markdown.Place}
    (h : partFrom? start p = some part) : p.length + part.2.nesting ≤ start.2.nesting := by
  induction p generalizing start with
  | nil =>
    cases h
    exact Nat.le_of_eq (Nat.zero_add _)
  | cons i p ih =>
    obtain ⟨next, hnext, h⟩ := Option.bind_eq_some_iff.1 h
    have hlt := nesting_lt_of_mem_parts (List.mem_of_getElem? hnext)
    have hle := ih h
    rw [List.length_cons]
    omega

end Value

namespace Markdown

variable {cap : Option Int} {level n : Nat} {v : Value}

/-! ### The reach of an entry -/

theorem le_itemReach_iff (hn : 0 < n) {items : List Value} :
    n ≤ itemReach cap level items ↔
      ∃ part ∈ (Value.array items).parts, n ≤ entryReach cap level part.2 := by
  rw [Value.exists_part_array (q := fun v => n ≤ entryReach cap level v)]
  induction items with
  | nil => simp [itemReach, Nat.not_le_of_lt hn]
  | cons v rest ih => rw [itemReach, le_max_iff, ih, List.exists_mem_cons_iff]

theorem le_fieldReach_iff (hn : 0 < n) {fields : Fields} :
    n ≤ fieldReach cap level fields ↔
      ∃ part ∈ (Value.object fields).parts, n ≤ entryReach cap level part.2 := by
  rw [Value.exists_part_object (q := fun v => n ≤ entryReach cap level v)]
  induction fields with
  | nil => simp [fieldReach, Nat.not_le_of_lt hn]
  | cons field rest ih => rw [fieldReach, le_max_iff, ih, List.exists_mem_cons_iff]

/-- At the cap a container with parts is written inline, with all that it holds; below the cap what
is written inline stands in its parts. -/
theorem le_entryReach_iff (hn : 0 < n) :
    n ≤ entryReach cap level v ↔
      if atCap cap (level + 1) then v.parts ≠ [] ∧ n ≤ level + 1 + v.nesting
      else ∃ part ∈ v.parts, n ≤ entryReach cap (level + 1) part.2 := by
  cases v with
  | array items =>
    rw [entryReach]
    split
    · cases items <;> simp [Value.parts, Nat.not_le_of_lt hn]
    · exact le_itemReach_iff hn
  | object fields =>
    rw [entryReach]
    split
    · cases fields <;> simp [Value.parts, Nat.not_le_of_lt hn]
    · exact le_fieldReach_iff hn
  | _ => simp [entryReach, Value.parts, Nat.not_le_of_lt hn]

/-- In an entry at a level, or below it, a container at the cap reaches so deep. -/
def ReachesFrom (cap : Option Int) (level n : Nat) (start : Label × Value) : Prop :=
  ∃ p part, Value.partFrom? start p = some part ∧ part.2.parts ≠ [] ∧
    atCap cap (level + 1 + p.length) = true ∧ n ≤ level + 1 + p.length + part.2.nesting

theorem reachesFrom_iff {start : Label × Value} :
    ReachesFrom cap level n start ↔
      (start.2.parts ≠ [] ∧ atCap cap (level + 1) = true ∧ n ≤ level + 1 + start.2.nesting) ∨
        ∃ part ∈ start.2.parts, ReachesFrom cap (level + 1) n part := by
  have hdepth : ∀ (i : Nat) (p : Place),
      level + 1 + (i :: p).length = level + 1 + 1 + p.length := by
    intro i p
    rw [List.length_cons, Nat.add_assoc (level + 1), Nat.add_comm 1]
  constructor
  · rintro ⟨_ | ⟨i, p⟩, part, hpart, h⟩
    · cases hpart
      exact .inl h
    · obtain ⟨next, hnext, hpart⟩ := Option.bind_eq_some_iff.1 hpart
      rw [hdepth] at h
      exact .inr ⟨next, List.mem_of_getElem? hnext, p, part, hpart, h⟩
  · rintro (h | ⟨next, hnext, p, part, hpart, h⟩)
    · exact ⟨[], start, rfl, h⟩
    · obtain ⟨i, hi⟩ := List.getElem?_of_mem hnext
      refine ⟨i :: p, part, ?_, ?_⟩
      · rw [Value.partFrom?, hi]
        exact hpart
      · rwa [hdepth]

theorem ReachesFrom.le {start : Label × Value} (h : ReachesFrom cap level n start) :
    n ≤ level + 1 + start.2.nesting := by
  obtain ⟨p, part, hpart, -, -, hn⟩ := h
  have hlength := Value.length_add_nesting_le hpart
  omega

theorem le_entryReach_iff_reachesFrom (hn : 0 < n) (label : Label) :
    n ≤ entryReach cap level v ↔ ReachesFrom cap level n (label, v) := by
  induction v using Value.induction_on_parts generalizing level label with
  | h v ih =>
    rw [le_entryReach_iff hn, reachesFrom_iff]
    split
    · rename_i hcap
      constructor
      · rintro ⟨hparts, hle⟩
        exact .inl ⟨hparts, hcap, hle⟩
      · rintro (⟨hparts, -, hle⟩ | ⟨part, hpart, hreach⟩)
        · exact ⟨hparts, hle⟩
        · have hlt : part.2.nesting < v.nesting := Value.nesting_lt_of_mem_parts hpart
          have hle := hreach.le
          exact ⟨List.ne_nil_of_mem hpart, by omega⟩
    · rename_i hopen
      rw [or_iff_right fun h => hopen h.2.1]
      exact exists_congr fun part => and_congr_right fun hpart => ih part hpart part.1

/-- The reach of a value, in terms of the places of its parts. -/
theorem le_inlineReach_iff (hn : 0 < n) :
    n ≤ inlineReach cap v ↔ ∃ p part, v.part? p = some part ∧ WrittenInline cap v p ∧
      n ≤ p.length + part.2.nesting := by
  have hparts : n ≤ inlineReach cap v ↔ ∃ part ∈ v.parts, ReachesFrom cap 0 n part := by
    have hentry : ∀ part : Label × Value,
        n ≤ entryReach cap 0 part.2 ↔ ReachesFrom cap 0 n part :=
      fun part => le_entryReach_iff_reachesFrom hn part.1
    simp only [← hentry]
    cases v with
    | array items => exact le_itemReach_iff hn
    | object fields => exact le_fieldReach_iff hn
    | _ => simp [inlineReach, Value.parts, Nat.not_le_of_lt hn]
  have hdepth : ∀ (i : Nat) (p : Place), 0 + 1 + p.length = (i :: p).length := by
    intro i p
    rw [List.length_cons, Nat.zero_add, Nat.add_comm]
  rw [hparts]
  constructor
  · rintro ⟨next, hnext, p, part, hpart, hmore, hcap, hle⟩
    obtain ⟨i, hi⟩ := List.getElem?_of_mem hnext
    have hplace : v.part? (i :: p) = some part := by
      rw [Value.part?, Value.partFrom?, hi]
      exact hpart
    rw [hdepth i] at hcap hle
    exact ⟨i :: p, part, hplace,
      (writtenInline_iff (List.cons_ne_nil i p) hplace hmore).2 hcap, hle⟩
  · rintro ⟨p, part, hplace, hinline, hle⟩
    obtain ⟨hne, ⟨found, hfound, hmore⟩, -⟩ := id hinline
    obtain rfl := Option.some.inj (hplace.symm.trans hfound)
    have hcap := (writtenInline_iff hne hplace hmore).1 hinline
    cases p with
    | nil => exact absurd rfl hne
    | cons i p =>
      obtain ⟨next, hnext, hpart⟩ := Option.bind_eq_some_iff.1 hplace
      rw [← hdepth] at hcap hle
      exact ⟨next, List.mem_of_getElem? hnext, p, part, hpart, hmore, hcap, hle⟩

end Markdown

end Extraction
