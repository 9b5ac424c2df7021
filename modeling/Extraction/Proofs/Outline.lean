import Extraction.Location
import Extraction.Markdown
import Extraction.Proofs.Leaves
import Mathlib.Data.List.Basic

/-!
Outlines with the places of their entries. The bullets of a value are made one by one from a list of
entries, each of which says where it lies in the value and what stands in it: a heading, a scalar,
the mark of an empty container, or a container that is written inline because it lies at the cap.
-/

namespace Extraction

/-- A value lies at a location in another: in an element, in what stands in a field, or as the
whole. -/
inductive Value.LiesAt (w : Value) : Location → Value → Prop
  | whole : LiesAt w [] w
  | item {items : List Value} {i : Nat} {v : Value} {l : Location} (hv : items[i]? = some v)
    (h : LiesAt w l v) : LiesAt w (.index i :: l) (.array items)
  | field {fields : Fields} {field : String × Value} {l : Location} (hfield : field ∈ fields)
    (h : LiesAt w l field.2) : LiesAt w (.field field.1 :: l) (.object fields)

theorem Value.AllLeaves.of_liesAt {p : Value → Prop} {v w : Value} {l : Location}
    (hv : v.AllLeaves p) (h : w.LiesAt l v) : w.AllLeaves p := by
  induction h with
  | whole => exact hv
  | item hitem _ ih => exact ih (itemLeaves_iff.1 hv _ (List.mem_of_getElem? hitem))
  | field hmem _ ih => exact ih (fieldLeaves_iff.1 hv _ hmem)

namespace Markdown

open Bullet (Label)

/-- What stands in a bullet. -/
inductive Content where
  /-- The entries of the container follow. -/
  | heading
  | empty
  | inline (v : Value)
  | scalar (v : Value)

/-- An entry of an outline. -/
structure Entry where
  location : Location
  level : Nat
  label : Label
  content : Content

namespace Entry

def text? (e : Entry) : Option String :=
  match e.content with
  | .heading => some e.label.heading
  | .empty => some (e.label.withContent emptyText)
  | .inline v => (inlineText? v).map fun text => e.label.withContent text
  | .scalar v => (scalarText? v).map fun text => e.label.withContent text

def bullet? (e : Entry) : Option Bullet :=
  e.text?.map fun text => ⟨e.level, text⟩

end Entry

mutual

/-- The entries for one part of a value, which lies at a location, at a level. -/
def entries (cap : Option Int) (level : Nat) (l : Location) (label : Label) : Value → List Entry
  | .array items =>
    if items.isEmpty then [⟨l, level, label, .empty⟩]
    else if atCap cap (level + 1) then [⟨l, level, label, .inline (.array items)⟩]
    else ⟨l, level, label, .heading⟩ :: itemEntries cap (level + 1) l 0 items
  | .object fields =>
    if fields.isEmpty then [⟨l, level, label, .empty⟩]
    else if atCap cap (level + 1) then [⟨l, level, label, .inline (.object fields)⟩]
    else ⟨l, level, label, .heading⟩ :: fieldEntries cap (level + 1) l fields
  | v => [⟨l, level, label, .scalar v⟩]

/-- The entries for the elements of an array at a location, from an index on. -/
def itemEntries (cap : Option Int) (level : Nat) (l : Location) :
    (index : Nat) → List Value → List Entry
  | _, [] => []
  | i, v :: rest =>
    entries cap level (l ++ [.index i]) (.element (i + 1)) v ++ itemEntries cap level l (i + 1) rest

/-- The entries for the fields of an object at a location. -/
def fieldEntries (cap : Option Int) (level : Nat) (l : Location) :
    List (String × Value) → List Entry
  | [] => []
  | (name, v) :: rest =>
    entries cap level (l ++ [.field name]) (.field name) v ++ fieldEntries cap level l rest

end

/-- The entries for a whole value. If it has no parts it is written like an element. -/
def outline (cap : Option Int) : Value → List Entry
  | .array items =>
    if items.isEmpty then [⟨[], 0, .element 1, .empty⟩] else itemEntries cap 0 [] 0 items
  | .object fields =>
    if fields.isEmpty then [⟨[], 0, .element 1, .empty⟩] else fieldEntries cap 0 [] fields
  | v => [⟨[], 0, .element 1, .scalar v⟩]

variable (cap : Option Int) (level : Nat) (label : Label)

theorem entries_array (l : Location) (v : Value) (rest : List Value) :
    entries cap level l label (.array (v :: rest)) =
      if atCap cap (level + 1) then [⟨l, level, label, .inline (.array (v :: rest))⟩]
      else ⟨l, level, label, .heading⟩ :: itemEntries cap (level + 1) l 0 (v :: rest) := by
  rw [entries]
  rfl

theorem entries_object (l : Location) (field : String × Value) (rest : Fields) :
    entries cap level l label (.object (field :: rest)) =
      if atCap cap (level + 1) then [⟨l, level, label, .inline (.object (field :: rest))⟩]
      else ⟨l, level, label, .heading⟩ :: fieldEntries cap (level + 1) l (field :: rest) := by
  rw [entries]
  rfl

/-! ### The bullets of an outline -/

theorem entryBullets_array (v : Value) (rest : List Value) :
    entryBullets cap level label (.array (v :: rest)) =
      if atCap cap (level + 1) then
        (inlineText? (.array (v :: rest))).map fun text => [⟨level, label.withContent text⟩]
      else (itemBullets cap (level + 1) 1 (v :: rest)).map (⟨level, label.heading⟩ :: ·) := by
  rw [entryBullets, itemBullets]
  split
  · cases inlineText? (.array (v :: rest)) <;> rfl
  · cases entryBullets cap (level + 1) (.element 1) v <;>
      cases itemBullets cap (level + 1) 2 rest <;> rfl

theorem entryBullets_object (name : String) (v : Value) (rest : Fields) :
    entryBullets cap level label (.object ((name, v) :: rest)) =
      if atCap cap (level + 1) then
        (inlineText? (.object ((name, v) :: rest))).map fun text =>
          [⟨level, label.withContent text⟩]
      else
        (fieldBullets cap (level + 1) ((name, v) :: rest)).map (⟨level, label.heading⟩ :: ·) := by
  rw [entryBullets, fieldBullets]
  split
  · cases inlineText? (.object ((name, v) :: rest)) <;> rfl
  · cases entryBullets cap (level + 1) (.field name) v <;>
      cases fieldBullets cap (level + 1) rest <;> rfl

theorem mapM_bullet?_inline (l : Location) (v : Value) :
    [(⟨l, level, label, .inline v⟩ : Entry)].mapM Entry.bullet? =
      (inlineText? v).map fun text => [⟨level, label.withContent text⟩] := by
  simp only [List.mapM_cons, List.mapM_nil, Entry.bullet?, Entry.text?]
  cases inlineText? v <;> rfl

theorem mapM_bullet?_scalar (l : Location) (v : Value) :
    [(⟨l, level, label, .scalar v⟩ : Entry)].mapM Entry.bullet? =
      (scalarText? v).bind fun text => some [⟨level, label.withContent text⟩] := by
  simp only [List.mapM_cons, List.mapM_nil, Entry.bullet?, Entry.text?]
  cases scalarText? v <;> rfl

theorem mapM_bullet?_heading (l : Location) (more : List Entry) :
    (⟨l, level, label, .heading⟩ :: more).mapM Entry.bullet? =
      (more.mapM Entry.bullet?).map (⟨level, label.heading⟩ :: ·) := by
  simp only [List.mapM_cons, Entry.bullet?, Entry.text?]
  cases more.mapM Entry.bullet? <;> rfl

mutual

theorem entryBullets_eq (level : Nat) (l : Location) (label : Label) : ∀ v : Value,
    entryBullets cap level label v = (entries cap level l label v).mapM Entry.bullet?
  | .array [] | .object [] => by simp [entryBullets, entries, Entry.bullet?, Entry.text?]
  | .array (v :: rest) => by
    rw [entryBullets_array, entries_array]
    split
    · exact (mapM_bullet?_inline level label l _).symm
    · rw [itemBullets_eq (level + 1) l 0, mapM_bullet?_heading]
  | .object ((name, v) :: rest) => by
    rw [entryBullets_object, entries_object]
    split
    · exact (mapM_bullet?_inline level label l _).symm
    · rw [fieldBullets_eq (level + 1) l, mapM_bullet?_heading]
  | .null | .bool _ | .int _ | .float _ | .string _ | .date _ | .dateTime _ => by
    simp only [entryBullets, entries, mapM_bullet?_scalar]
    rfl

theorem itemBullets_eq (level : Nat) (l : Location) : ∀ (i : Nat) (items : List Value),
    itemBullets cap level (i + 1) items = (itemEntries cap level l i items).mapM Entry.bullet?
  | i, [] => rfl
  | i, v :: rest => by
    rw [itemBullets, itemEntries, List.mapM_append, entryBullets_eq level (l ++ [.index i]),
      itemBullets_eq level l (i + 1) rest]
    rfl

theorem fieldBullets_eq (level : Nat) (l : Location) : ∀ fields : List (String × Value),
    fieldBullets cap level fields = (fieldEntries cap level l fields).mapM Entry.bullet?
  | [] => rfl
  | (name, v) :: rest => by
    rw [fieldBullets, fieldEntries, List.mapM_append, entryBullets_eq level (l ++ [.field name]),
      fieldBullets_eq level l rest]
    rfl

end

/-- The bullets of a value are those of its entries. -/
theorem bullets?_eq (cap : Option Int) (v : Value) :
    bullets? cap v = (outline cap v).mapM Entry.bullet? := by
  cases v with
  | array items =>
    cases items with
    | nil => rfl
    | cons v rest => exact itemBullets_eq cap 0 [] 0 (v :: rest)
  | object fields =>
    cases fields with
    | nil => rfl
    | cons field rest => exact fieldBullets_eq cap 0 [] (field :: rest)
  | _ =>
    simp only [bullets?, outline, mapM_bullet?_scalar]
    rfl

/-! ### The entries of containers -/

variable {cap level label} {l : Location} {e : Entry}

theorem itemEntries_eq (l : Location) (i : Nat) (items : List Value) :
    itemEntries cap level l i items = (items.zipIdx i).flatMap fun item =>
      entries cap level (l ++ [.index item.2]) (.element (item.2 + 1)) item.1 := by
  induction items generalizing i with
  | nil => rfl
  | cons v rest ih => rw [itemEntries, ih, List.zipIdx_cons, List.flatMap_cons]

theorem fieldEntries_eq (l : Location) (fields : Fields) :
    fieldEntries cap level l fields = fields.flatMap fun field =>
      entries cap level (l ++ [.field field.1]) (.field field.1) field.2 := by
  induction fields with
  | nil => rfl
  | cons field rest ih => rw [fieldEntries, ih, List.flatMap_cons]

theorem mem_itemEntries {items : List Value} :
    e ∈ itemEntries cap level l 0 items ↔
      ∃ i v, items[i]? = some v ∧ e ∈ entries cap level (l ++ [.index i]) (.element (i + 1)) v := by
  simp only [itemEntries_eq, List.mem_flatMap, Prod.exists, List.mk_mem_zipIdx_iff_getElem?]
  exact exists_comm

theorem mem_fieldEntries {fields : Fields} :
    e ∈ fieldEntries cap level l fields ↔
      ∃ field ∈ fields, e ∈ entries cap level (l ++ [.field field.1]) (.field field.1) field.2 := by
  rw [fieldEntries_eq, List.mem_flatMap]

/-! ### Where containers are written inline -/

/-- Whatever is written inline in entries below a location satisfies `p`, together with where it
stands below that location. -/
def InlineOnly (p : Location → Value → Prop) (l : Location) (es : List Entry) : Prop :=
  ∀ e ∈ es, ∀ w, e.content = .inline w → ∃ below, e.location = l ++ below ∧ p below w

variable {p q : Location → Value → Prop} {items : List Value} {fields : Fields}

theorem InlineOnly.imp (himp : ∀ below w, p below w → q below w) {es : List Entry}
    (h : InlineOnly p l es) : InlineOnly q l es := by
  intro e he w hw
  obtain ⟨below, hl, hp⟩ := h e he w hw
  exact ⟨below, hl, himp below w hp⟩

theorem inlineOnly_singleton {c : Content} (hc : ∀ w, c ≠ .inline w) :
    InlineOnly p l [⟨l, level, label, c⟩] := by
  intro e he w hw
  rw [List.mem_singleton.1 he] at hw
  exact absurd hw (hc w)

/-- A value that is no container is not written inline. -/
theorem inlineOnly_leaf {v : Value} (hv : v.nesting = 0) :
    InlineOnly p l (entries cap level l label v) := by
  cases v with
  | array | object => exact absurd hv (Nat.succ_ne_zero _)
  | _ => exact inlineOnly_singleton nofun

theorem inlineOnly_outline_leaf {v : Value} (hv : v.nesting = 0) :
    InlineOnly p [] (outline cap v) := by
  cases v with
  | array | object => exact absurd hv (Nat.succ_ne_zero _)
  | _ => exact inlineOnly_singleton nofun

/-- A container that has parts is written inline at the cap alone. -/
theorem inlineOnly_container {v : Value} {more : List Entry}
    (hcap : atCap cap (level + 1) = true → p [] v) (hmore : InlineOnly p l more) :
    InlineOnly p l (if atCap cap (level + 1) then [⟨l, level, label, .inline v⟩]
      else ⟨l, level, label, .heading⟩ :: more) := by
  intro e he w hw
  split at he
  · obtain rfl := List.mem_singleton.1 he
    cases hw
    exact ⟨[], (List.append_nil l).symm, hcap ‹_›⟩
  · rcases List.mem_cons.1 he with rfl | he
    · cases hw
    · exact hmore e he w hw

theorem inlineOnly_array (hcap : atCap cap (level + 1) = true → p [] (.array items))
    (hitems : InlineOnly p l (itemEntries cap (level + 1) l 0 items)) :
    InlineOnly p l (entries cap level l label (.array items)) := by
  cases items with
  | nil => exact inlineOnly_singleton nofun
  | cons v rest =>
    rw [entries_array]
    exact inlineOnly_container hcap hitems

theorem inlineOnly_object (hcap : atCap cap (level + 1) = true → p [] (.object fields))
    (hfields : InlineOnly p l (fieldEntries cap (level + 1) l fields)) :
    InlineOnly p l (entries cap level l label (.object fields)) := by
  cases fields with
  | nil => exact inlineOnly_singleton nofun
  | cons field rest =>
    rw [entries_object]
    exact inlineOnly_container hcap hfields

theorem inlineOnly_itemEntries
    (h : ∀ i v, items[i]? = some v → InlineOnly (fun below w => p (.index i :: below) w)
      (l ++ [.index i]) (entries cap level (l ++ [.index i]) (.element (i + 1)) v)) :
    InlineOnly p l (itemEntries cap level l 0 items) := by
  intro e he w hw
  obtain ⟨i, v, hv, he⟩ := mem_itemEntries.1 he
  obtain ⟨below, hl, hp⟩ := h i v hv e he w hw
  exact ⟨.index i :: below, by rw [hl, List.append_assoc, List.singleton_append], hp⟩

theorem inlineOnly_fieldEntries
    (h : ∀ field ∈ fields, InlineOnly (fun below w => p (.field field.1 :: below) w)
      (l ++ [.field field.1])
      (entries cap level (l ++ [.field field.1]) (.field field.1) field.2)) :
    InlineOnly p l (fieldEntries cap level l fields) := by
  intro e he w hw
  obtain ⟨field, hfield, he⟩ := mem_fieldEntries.1 he
  obtain ⟨below, hl, hp⟩ := h field hfield e he w hw
  exact ⟨.field field.1 :: below, by rw [hl, List.append_assoc, List.singleton_append], hp⟩

/-- A whole array is never written inline. -/
theorem inlineOnly_outline_array (h : InlineOnly p [] (itemEntries cap 0 [] 0 items)) :
    InlineOnly p [] (outline cap (.array items)) := by
  cases items with
  | nil => exact inlineOnly_singleton nofun
  | cons v rest => exact h

/-- A whole object is never written inline. -/
theorem inlineOnly_outline_object (h : InlineOnly p [] (fieldEntries cap 0 [] fields)) :
    InlineOnly p [] (outline cap (.object fields)) := by
  cases fields with
  | nil => exact inlineOnly_singleton nofun
  | cons field rest => exact h

/-- What is written inline for a part of a value lies in the part, at the location below its
own. -/
theorem inlineOnly_liesAt (v : Value) : ∀ level l label,
    InlineOnly (fun below w => w.LiesAt below v) l (entries cap level l label v) := by
  induction v using Value.induction_parts with
  | array items ih =>
    intro level l label
    refine inlineOnly_array (fun _ => .whole) (inlineOnly_itemEntries fun i v hv => ?_)
    exact (ih v (List.mem_of_getElem? hv) _ _ _).imp fun _ _ => .item hv
  | object fields ih =>
    intro level l label
    refine inlineOnly_object (fun _ => .whole) (inlineOnly_fieldEntries fun field hfield => ?_)
    exact (ih field hfield _ _ _).imp fun _ _ => .field hfield
  | _ => exact fun _ _ _ => inlineOnly_singleton nofun

/-- What is written inline for a whole value lies in the value. -/
theorem inlineOnly_outline (v : Value) :
    InlineOnly (fun below w => w.LiesAt below v) [] (outline cap v) := by
  cases v with
  | array items =>
    refine inlineOnly_outline_array (inlineOnly_itemEntries fun i v hv => ?_)
    exact (inlineOnly_liesAt v _ _ _).imp fun _ _ => .item hv
  | object fields =>
    refine inlineOnly_outline_object (inlineOnly_fieldEntries fun field hfield => ?_)
    exact (inlineOnly_liesAt field.2 _ _ _).imp fun _ _ => .field hfield
  | _ => exact inlineOnly_singleton nofun

/-! ### Outlines in which nothing is written inline -/

/-- None of the entries holds a container that is written inline. -/
def NoInline (es : List Entry) : Prop :=
  ∀ e ∈ es, ∀ w, e.content ≠ .inline w

/-- An entry whose content no cap changes. -/
def Uncapped (cap : Option Int) (v : Value) : Prop :=
  ∀ level l label, NoInline (entries cap level l label v) →
    entries cap level l label v = entries none level l label v

theorem itemEntries_uncapped {items : List Value} (hparts : ∀ v ∈ items, Uncapped cap v)
    (h : NoInline (itemEntries cap level l 0 items)) :
    itemEntries cap level l 0 items = itemEntries none level l 0 items := by
  rw [itemEntries_eq] at h ⊢
  rw [itemEntries_eq]
  refine List.flatMap_congr fun item hitem => ?_
  refine hparts item.1 (List.fst_mem_of_mem_zipIdx hitem) _ _ _ fun e he => ?_
  exact h e (List.mem_flatMap.2 ⟨item, hitem, he⟩)

theorem fieldEntries_uncapped {fields : Fields} (hparts : ∀ field ∈ fields, Uncapped cap field.2)
    (h : NoInline (fieldEntries cap level l fields)) :
    fieldEntries cap level l fields = fieldEntries none level l fields := by
  rw [fieldEntries_eq] at h ⊢
  rw [fieldEntries_eq]
  refine List.flatMap_congr fun field hfield => ?_
  refine hparts field hfield _ _ _ fun e he => ?_
  exact h e (List.mem_flatMap.2 ⟨field, hfield, he⟩)

theorem container_uncapped {v : Value} {more more' : List Entry}
    (h : NoInline (if atCap cap (level + 1) then [⟨l, level, label, .inline v⟩]
      else ⟨l, level, label, .heading⟩ :: more))
    (hmore : NoInline more → more = more') :
    (if atCap cap (level + 1) then [⟨l, level, label, .inline v⟩]
      else ⟨l, level, label, .heading⟩ :: more) = ⟨l, level, label, .heading⟩ :: more' := by
  split at h
  · exact absurd rfl (h _ List.mem_cons_self v)
  · rename_i hcap
    rw [if_neg hcap, hmore fun e he => h e (List.mem_cons_of_mem _ he)]

theorem uncapped (cap : Option Int) (v : Value) : Uncapped cap v := by
  induction v using Value.induction_parts with
  | array items ih =>
    intro level l label h
    cases items with
    | nil => rfl
    | cons v rest =>
      rw [entries_array] at h ⊢
      rw [entries_array]
      exact container_uncapped h (itemEntries_uncapped ih)
  | object fields ih =>
    intro level l label h
    cases fields with
    | nil => rfl
    | cons field rest =>
      rw [entries_object] at h ⊢
      rw [entries_object]
      exact container_uncapped h (fieldEntries_uncapped ih)
  | _ => exact fun _ _ _ _ => rfl

/-- If nothing is written inline, the cap makes no difference. -/
theorem outline_uncapped {v : Value} (h : NoInline (outline cap v)) :
    outline cap v = outline none v := by
  cases v with
  | array items =>
    cases items with
    | nil => rfl
    | cons v rest => exact itemEntries_uncapped (fun v _ => uncapped cap v) h
  | object fields =>
    cases fields with
    | nil => rfl
    | cons field rest => exact fieldEntries_uncapped (fun field _ => uncapped cap field.2) h
  | _ => rfl

end Markdown

end Extraction
