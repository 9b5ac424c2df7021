import Extraction.Proofs.ShortIntegers
import Extraction.Value.Kept

/-!
Plain values, which are JSON values without doubles. What is kept of a plain value is plain. What is
kept of any value has finite doubles and different names that can be sent, and is the value itself
if all of that was so already.
-/

namespace Extraction.Value

open Number

/-! ### Induction on the parts of a value -/

/-- What holds of a value if it holds of its elements, or of what stands in its fields, holds of all
values. -/
@[elab_as_elim]
theorem induction_parts {motive : Value → Prop} (null : motive .null) (bool : ∀ b, motive (.bool b))
    (int : ∀ n, motive (.int n)) (float : ∀ x, motive (.float x))
    (string : ∀ s, motive (.string s))
    (array : ∀ items, (∀ v ∈ items, motive v) → motive (.array items))
    (object : ∀ fields : Fields, (∀ field ∈ fields, motive field.2) → motive (.object fields))
    (date : ∀ d, motive (.date d)) (dateTime : ∀ t, motive (.dateTime t)) (v : Value) : motive v :=
  @Value.rec motive (fun items => ∀ v ∈ items, motive v)
    (fun fields => ∀ field ∈ fields, motive field.2) (fun field => motive field.2)
    null bool int float string array object date dateTime
    (fun _ h => absurd h List.not_mem_nil)
    (fun _ _ hv hrest => List.forall_mem_cons.2 ⟨hv, hrest⟩)
    (fun _ h => absurd h List.not_mem_nil)
    (fun _ _ hfield hrest => List.forall_mem_cons.2 ⟨hfield, hrest⟩)
    (fun _ _ hv => hv) v

/-! ### Names -/

mutual

/-- Does the list of names of every object in a value, in the order of its fields, satisfy `p`? -/
def AllNames (p : List String → Prop) : Value → Prop
  | .array items => ItemNames p items
  | .object fields => p (fields.map Prod.fst) ∧ FieldNames p fields
  | _ => True

def ItemNames (p : List String → Prop) : List Value → Prop
  | [] => True
  | v :: rest => AllNames p v ∧ ItemNames p rest

def FieldNames (p : List String → Prop) : List (String × Value) → Prop
  | [] => True
  | (_, v) :: rest => AllNames p v ∧ FieldNames p rest

end

mutual

def decideNames (p : List String → Prop) [DecidablePred p] :
    (v : Value) → Decidable (AllNames p v)
  | .array items => decideItemNames p items
  | .object fields =>
    have := decideFieldNames p fields
    inferInstanceAs (Decidable (p (fields.map Prod.fst) ∧ FieldNames p fields))
  | .null | .bool _ | .int _ | .float _ | .string _ | .date _ | .dateTime _ => .isTrue trivial

def decideItemNames (p : List String → Prop) [DecidablePred p] :
    (items : List Value) → Decidable (ItemNames p items)
  | [] => .isTrue trivial
  | v :: rest =>
    have := decideNames p v
    have := decideItemNames p rest
    inferInstanceAs (Decidable (AllNames p v ∧ ItemNames p rest))

def decideFieldNames (p : List String → Prop) [DecidablePred p] :
    (fields : List (String × Value)) → Decidable (FieldNames p fields)
  | [] => .isTrue trivial
  | (_, v) :: rest =>
    have := decideNames p v
    have := decideFieldNames p rest
    inferInstanceAs (Decidable (AllNames p v ∧ FieldNames p rest))

end

instance (p : List String → Prop) [DecidablePred p] : DecidablePred (AllNames p) :=
  decideNames p

theorem itemNames_iff {p : List String → Prop} {items : List Value} :
    ItemNames p items ↔ ∀ v ∈ items, v.AllNames p := by
  induction items with
  | nil => simp [ItemNames]
  | cons v rest ih => simp only [ItemNames, ih, List.forall_mem_cons]

theorem fieldNames_iff {p : List String → Prop} {fields : Fields} :
    FieldNames p fields ↔ ∀ field ∈ fields, field.2.AllNames p := by
  induction fields with
  | nil => simp [FieldNames]
  | cons field rest ih => simp only [FieldNames, ih, List.forall_mem_cons]

/-- No object in the value has a name twice. -/
def DistinctNames (v : Value) : Prop :=
  v.AllNames List.Nodup

instance : DecidablePred DistinctNames :=
  inferInstanceAs (DecidablePred (AllNames List.Nodup))

/-- No name in the value holds half of a surrogate pair. -/
def WholeNames (v : Value) : Prop :=
  v.AllNames fun names => ∀ name ∈ names, Text.isWhole name = true

/-! ### Fields of pairs -/

theorem mem_setField {name : String} {v : Value} {fields : Fields} {field : String × Value}
    (h : field ∈ setField name v fields) : field = (name, v) ∨ field ∈ fields := by
  induction fields with
  | nil => simpa [setField] using h
  | cons entry rest ih =>
    obtain ⟨key, w⟩ := entry
    by_cases hkey : key = name
    · -- the value that stood there is gone
      rw [setField, if_pos hkey, List.mem_cons, hkey] at h
      exact h.imp_right (List.mem_cons_of_mem _)
    · rw [setField, if_neg hkey, List.mem_cons] at h
      rcases h with rfl | h
      · exact .inr List.mem_cons_self
      · exact (ih h).imp_right (List.mem_cons_of_mem _)

theorem mem_keys_setField {name key : String} {v : Value} {fields : Fields} :
    key ∈ (setField name v fields).map Prod.fst ↔ key = name ∨ key ∈ fields.map Prod.fst := by
  induction fields with
  | nil => simp [setField]
  | cons entry rest ih =>
    obtain ⟨other, w⟩ := entry
    by_cases hother : other = name
    · simp [setField, hother]
    · simp only [setField, if_neg hother, List.map_cons, List.mem_cons, ih]
      grind

theorem nodup_setField {fields : Fields} (h : (fields.map Prod.fst).Nodup) (name : String)
    (v : Value) : ((setField name v fields).map Prod.fst).Nodup := by
  induction fields with
  | nil => simp [setField]
  | cons entry rest ih =>
    obtain ⟨key, w⟩ := entry
    rw [List.map_cons, List.nodup_cons] at h
    by_cases hkey : key = name
    · rw [setField, if_pos hkey, List.map_cons, List.nodup_cons]
      exact h
    · rw [setField, if_neg hkey, List.map_cons, List.nodup_cons, mem_keys_setField, not_or]
      exact ⟨⟨hkey, h.1⟩, ih h.2⟩

theorem setField_of_not_mem {name : String} {fields : Fields}
    (h : name ∉ fields.map Prod.fst) (v : Value) :
    setField name v fields = fields ++ [(name, v)] := by
  induction fields with
  | nil => rfl
  | cons entry rest ih =>
    obtain ⟨key, w⟩ := entry
    rw [List.map_cons, List.mem_cons, not_or] at h
    rw [setField, if_neg (Ne.symm h.1), ih h.2]
    rfl

theorem fieldsOfPairs_invariant (pairs fields : Fields) (h : (fields.map Prod.fst).Nodup) :
    let all := pairs.foldl (fun fields pair => setField pair.1 pair.2 fields) fields
    (all.map Prod.fst).Nodup ∧ ∀ field ∈ all, field ∈ fields ∨ field ∈ pairs := by
  induction pairs generalizing fields with
  | nil => simpa using h
  | cons pair rest ih =>
    obtain ⟨hnodup, hmem⟩ := ih _ (nodup_setField h pair.1 pair.2)
    refine ⟨hnodup, ?_⟩
    intro field hfield
    -- what the fold starts from holds the first pair already
    rcases hmem field hfield with hset | hrest
    · rcases mem_setField hset with rfl | hfields
      · exact .inr List.mem_cons_self
      · exact .inl hfields
    · exact .inr (List.mem_cons_of_mem _ hrest)

theorem nodup_fieldsOfPairs (pairs : Fields) : ((fieldsOfPairs pairs).map Prod.fst).Nodup :=
  (fieldsOfPairs_invariant pairs [] List.nodup_nil).1

theorem mem_of_mem_fieldsOfPairs {pairs : Fields} {field : String × Value}
    (h : field ∈ fieldsOfPairs pairs) : field ∈ pairs :=
  ((fieldsOfPairs_invariant pairs [] List.nodup_nil).2 field h).resolve_left List.not_mem_nil

theorem mem_keys_fieldsOfPairs {key : String} {pairs : Fields} :
    key ∈ (fieldsOfPairs pairs).map Prod.fst ↔ key ∈ pairs.map Prod.fst := by
  have hfold : ∀ fields : Fields,
      key ∈ (pairs.foldl (fun fields pair => setField pair.1 pair.2 fields) fields).map Prod.fst ↔
        key ∈ fields.map Prod.fst ∨ key ∈ pairs.map Prod.fst := by
    induction pairs with
    | nil => simp
    | cons pair rest ih =>
      intro fields
      rw [List.foldl_cons, ih, mem_keys_setField, List.map_cons, List.mem_cons]
      exact or_assoc.trans or_left_comm
  rw [fieldsOfPairs, hfold]
  simp

theorem fieldsOfPairs_append_of_nodup (pairs fields : Fields)
    (h : ((fields ++ pairs).map Prod.fst).Nodup) :
    pairs.foldl (fun fields pair => setField pair.1 pair.2 fields) fields = fields ++ pairs := by
  induction pairs generalizing fields with
  | nil => simp
  | cons pair rest ih =>
    have hshift : fields ++ pair :: rest = fields ++ [pair] ++ rest := by simp
    have hpair : pair.1 ∉ fields.map Prod.fst := by
      rw [List.map_append, List.map_cons] at h
      intro hmem
      exact (List.nodup_append.1 h).2.2 _ hmem _ List.mem_cons_self rfl
    rw [List.foldl_cons, setField_of_not_mem hpair, ih _ (hshift ▸ h), hshift]

/-- Pairs with different names are fields. -/
theorem fieldsOfPairs_of_nodup {pairs : Fields} (h : (pairs.map Prod.fst).Nodup) :
    fieldsOfPairs pairs = pairs :=
  fieldsOfPairs_append_of_nodup pairs [] h

/-! ### Plain values -/

mutual

/-- Is a value made of null, booleans, integers that can be written, texts, lists and objects
without repeated names? -/
def Plain : Value → Prop
  | .int n => digitCount n.natAbs ≤ digitLimit
  | .array items => PlainItems items
  | .object fields => (fields.map Prod.fst).Nodup ∧ PlainFields fields
  | .float _ | .date _ | .dateTime _ => False
  | _ => True

def PlainItems : List Value → Prop
  | [] => True
  | v :: rest => Plain v ∧ PlainItems rest

def PlainFields : List (String × Value) → Prop
  | [] => True
  | (_, v) :: rest => Plain v ∧ PlainFields rest

end

theorem plainItems_iff {items : List Value} : PlainItems items ↔ ∀ v ∈ items, v.Plain := by
  induction items with
  | nil => simp [PlainItems]
  | cons v rest ih => simp only [PlainItems, ih, List.forall_mem_cons]

theorem plainFields_iff {fields : Fields} :
    PlainFields fields ↔ ∀ field ∈ fields, field.2.Plain := by
  induction fields with
  | nil => simp [PlainFields]
  | cons field rest ih => simp only [PlainFields, ih, List.forall_mem_cons]

theorem allFiniteItems_iff {items : List Value} :
    allFiniteItems items = true ↔ ∀ v ∈ items, v.allFinite = true := by
  induction items with
  | nil => simp [allFiniteItems]
  | cons v rest ih => simp only [allFiniteItems, Bool.and_eq_true, ih, List.forall_mem_cons]

theorem allFiniteFields_iff {fields : Fields} :
    allFiniteFields fields = true ↔ ∀ field ∈ fields, field.2.allFinite = true := by
  induction fields with
  | nil => simp [allFiniteFields]
  | cons field rest ih => simp only [allFiniteFields, Bool.and_eq_true, ih, List.forall_mem_cons]

theorem Plain.distinctNames {v : Value} (h : v.Plain) : v.DistinctNames := by
  induction v using induction_parts with
  | array items ih => exact itemNames_iff.2 fun v hv => ih v hv (plainItems_iff.1 h v hv)
  | object fields ih =>
    exact ⟨h.1, fieldNames_iff.2 fun field hfield =>
      ih field hfield (plainFields_iff.1 h.2 field hfield)⟩
  | _ => trivial

theorem Plain.allFinite {v : Value} (h : v.Plain) : v.allFinite = true := by
  induction v using induction_parts with
  | array items ih => exact allFiniteItems_iff.2 fun v hv => ih v hv (plainItems_iff.1 h v hv)
  | object fields ih =>
    exact allFiniteFields_iff.2 fun field hfield =>
      ih field hfield (plainFields_iff.1 h.2 field hfield)
  | float => exact h.elim
  | _ => rfl

theorem Plain.shortIntegers {v : Value} (h : v.Plain) : v.ShortIntegers := by
  induction v using induction_parts with
  | array items ih =>
    apply itemsShort_iff.2
    intro v hv
    exact ih v hv (plainItems_iff.1 h v hv)
  | object fields ih =>
    apply fieldsShort_iff.2
    intro field hfield
    exact ih field hfield (plainFields_iff.1 h.2 field hfield)
  | int n => exact h
  | _ => trivial

theorem nestingItems_le_iff {items : List Value} {n : Nat} :
    nestingItems items ≤ n ↔ ∀ v ∈ items, v.nesting ≤ n := by
  induction items with
  | nil => simp [nestingItems]
  | cons v rest ih => rw [nestingItems, Nat.max_le, ih, List.forall_mem_cons]

theorem nestingFields_le_iff {fields : Fields} {n : Nat} :
    nestingFields fields ≤ n ↔ ∀ field ∈ fields, field.2.nesting ≤ n := by
  induction fields with
  | nil => simp [nestingFields]
  | cons field rest ih => rw [nestingFields, Nat.max_le, ih, List.forall_mem_cons]

theorem levelsItems_le_iff {items : List Value} {n : Nat} :
    levelsItems items ≤ n ↔ ∀ v ∈ items, v.levels ≤ n := by
  induction items with
  | nil => simp [levelsItems]
  | cons v rest ih => rw [levelsItems, Nat.max_le, ih, List.forall_mem_cons]

theorem levelsFields_le_iff {fields : Fields} {n : Nat} :
    levelsFields fields ≤ n ↔ ∀ field ∈ fields, field.2.levels ≤ n := by
  induction fields with
  | nil => simp [levelsFields]
  | cons field rest ih => rw [levelsFields, Nat.max_le, ih, List.forall_mem_cons]

theorem nesting_le_levels (v : Value) : v.nesting ≤ v.levels := by
  induction v using induction_parts with
  | array items ih =>
    apply Nat.succ_le_succ
    apply nestingItems_le_iff.2
    intro v hv
    exact Nat.le_trans (ih v hv) (levelsItems_le_iff.1 (Nat.le_refl _) v hv)
  | object fields ih =>
    apply Nat.succ_le_succ
    apply nestingFields_le_iff.2
    intro field hfield
    exact Nat.le_trans (ih field hfield) (levelsFields_le_iff.1 (Nat.le_refl _) field hfield)
  | _ => exact Nat.zero_le _

/-! ### What is kept -/

theorem isWholeItems_iff {items : List Value} :
    isWholeItems items = true ↔ ∀ v ∈ items, v.isWhole = true := by
  induction items with
  | nil => simp [isWholeItems]
  | cons v rest ih => simp only [isWholeItems, Bool.and_eq_true, ih, List.forall_mem_cons]

theorem isWholeFields_iff {fields : Fields} :
    isWholeFields fields = true ↔
      ∀ field ∈ fields, Text.isWhole field.1 = true ∧ field.2.isWhole = true := by
  induction fields with
  | nil => simp [isWholeFields]
  | cons field rest ih => simp only [isWholeFields, Bool.and_eq_true, ih, List.forall_mem_cons]

theorem isWhole_replaceHalves (s : String) : Text.isWhole (Text.replaceHalves s) = true := by
  have hreplacement : Text.isHalf '\uFFFD' = false := by decide
  unfold Text.isWhole Text.replaceHalves
  rw [String.toList_ofList, List.all_flatMap, List.all_eq_true]
  intro c _
  by_cases hc : Text.isHalf c = true <;> simp [hc, hreplacement]

theorem replaceHalves_eq_self {s : String} (h : Text.isWhole s = true) :
    Text.replaceHalves s = s := by
  have hchars : ∀ c ∈ s.toList, Text.isHalf c = false := by
    simpa [Text.isWhole, List.all_eq_true] using h
  have hflat : ∀ cs : List Char, (∀ c ∈ cs, Text.isHalf c = false) →
      cs.flatMap (fun c => if Text.isHalf c then List.replicate 3 '\uFFFD' else [c]) = cs := by
    intro cs hcs
    induction cs with
    | nil => rfl
    | cons c cs ih =>
      rw [List.forall_mem_cons] at hcs
      rw [List.flatMap_cons, ih hcs.2, hcs.1]
      rfl
  rw [Text.replaceHalves, hflat _ hchars, String.ofList_toList]

theorem keptFields_eq_map (fields : Fields) :
    keptFields fields = fields.map fun field => (Text.replaceHalves field.1, kept field.2) := by
  induction fields with
  | nil => rfl
  | cons field rest ih => rw [keptFields, ih]; rfl

theorem exists_of_mem_kept {fields : Fields} {field : String × Value}
    (h : field ∈ fieldsOfPairs (keptFields fields)) :
    ∃ original ∈ fields, field = (Text.replaceHalves original.1, kept original.2) := by
  have hmem := mem_of_mem_fieldsOfPairs h
  rw [keptFields_eq_map, List.mem_map] at hmem
  obtain ⟨original, horiginal, rfl⟩ := hmem
  exact ⟨original, horiginal, rfl⟩

theorem keptItems_eq_map (items : List Value) : keptItems items = items.map kept := by
  induction items with
  | nil => rfl
  | cons v rest ih => rw [keptItems, ih]; rfl

theorem kept_plain {v : Value} (h : v.Plain) : v.kept.Plain := by
  induction v using induction_parts with
  | array items ih =>
    rw [kept, keptItems_eq_map, Plain, plainItems_iff]
    intro w hw
    obtain ⟨v, hv, rfl⟩ := List.mem_map.1 hw
    exact ih v hv (plainItems_iff.1 h v hv)
  | object fields ih =>
    rw [kept, Plain, plainFields_iff]
    refine ⟨nodup_fieldsOfPairs _, ?_⟩
    intro field hfield
    obtain ⟨original, horiginal, rfl⟩ := exists_of_mem_kept hfield
    exact ih original horiginal (plainFields_iff.1 h.2 original horiginal)
  | float | date | dateTime => exact h.elim
  | _ => exact h

theorem kept_wholeNames (v : Value) : v.kept.WholeNames := by
  induction v using induction_parts with
  | array items ih =>
    rw [kept, keptItems_eq_map, WholeNames, AllNames, itemNames_iff]
    intro w hw
    obtain ⟨v, hv, rfl⟩ := List.mem_map.1 hw
    exact ih v hv
  | object fields ih =>
    rw [kept, WholeNames, AllNames, fieldNames_iff]
    constructor
    · intro name hname
      obtain ⟨field, hfield, rfl⟩ := List.mem_map.1 hname
      obtain ⟨original, -, rfl⟩ := exists_of_mem_kept hfield
      exact isWhole_replaceHalves _
    · intro field hfield
      obtain ⟨original, horiginal, rfl⟩ := exists_of_mem_kept hfield
      exact ih original horiginal
  | float x =>
    unfold kept
    split <;> trivial
  | _ => trivial

theorem kept_distinctNames (v : Value) : v.kept.DistinctNames := by
  induction v using induction_parts with
  | array items ih =>
    rw [kept, keptItems_eq_map, DistinctNames, AllNames, itemNames_iff]
    exact List.forall_mem_map.2 ih
  | object fields ih =>
    rw [kept, DistinctNames, AllNames, fieldNames_iff]
    refine ⟨nodup_fieldsOfPairs _, ?_⟩
    intro field hfield
    obtain ⟨original, horiginal, rfl⟩ := exists_of_mem_kept hfield
    exact ih original horiginal
  | float x =>
    unfold kept
    split <;> trivial
  | _ => trivial

theorem kept_allFinite (v : Value) : v.kept.allFinite = true := by
  induction v using induction_parts with
  | array items ih =>
    rw [kept, keptItems_eq_map, allFinite, allFiniteItems_iff]
    exact List.forall_mem_map.2 ih
  | object fields ih =>
    rw [kept, allFinite, allFiniteFields_iff]
    intro field hfield
    obtain ⟨original, horiginal, rfl⟩ := exists_of_mem_kept hfield
    exact ih original horiginal
  | float x =>
    unfold kept
    split
    · assumption
    · rfl
  | _ => rfl

/-- A value without special doubles whose names can be sent is kept as it is. -/
theorem kept_eq_self {v : Value} (hdistinct : v.DistinctNames) (hfinite : v.allFinite = true)
    (hnames : v.WholeNames) : v.kept = v := by
  induction v using induction_parts with
  | array items ih =>
    have hitems : items.map kept = items.map id := List.map_congr_left fun v hv =>
      ih v hv (itemNames_iff.1 hdistinct v hv) (allFiniteItems_iff.1 hfinite v hv)
        (itemNames_iff.1 hnames v hv)
    rw [kept, keptItems_eq_map, hitems, List.map_id]
  | object fields ih =>
    have hfields : keptFields fields = fields.map id := by
      rw [keptFields_eq_map]
      refine List.map_congr_left fun field hfield => Prod.ext ?_ ?_
      · exact replaceHalves_eq_self (hnames.1 _ (List.mem_map_of_mem hfield))
      · exact ih field hfield (fieldNames_iff.1 hdistinct.2 field hfield)
          (allFiniteFields_iff.1 hfinite field hfield) (fieldNames_iff.1 hnames.2 field hfield)
    rw [kept, hfields, List.map_id, fieldsOfPairs_of_nodup hdistinct.1]
  | float x => exact if_pos hfinite
  | _ => rfl

theorem kept_kept (v : Value) : v.kept.kept = v.kept :=
  kept_eq_self (kept_distinctNames v) (kept_allFinite v) (kept_wholeNames v)

theorem levels_kept_le (v : Value) : v.kept.levels ≤ v.levels := by
  induction v using induction_parts with
  | array items ih =>
    rw [kept, keptItems_eq_map]
    apply Nat.succ_le_succ
    apply levelsItems_le_iff.2
    intro w hw
    obtain ⟨v, hv, rfl⟩ := List.mem_map.1 hw
    exact Nat.le_trans (ih v hv) (levelsItems_le_iff.1 (Nat.le_refl _) v hv)
  | object fields ih =>
    rw [kept]
    apply Nat.succ_le_succ
    apply levelsFields_le_iff.2
    intro field hfield
    obtain ⟨original, horiginal, rfl⟩ := exists_of_mem_kept hfield
    have horiginal' := levelsFields_le_iff.1 (Nat.le_refl _) original horiginal
    exact Nat.le_trans (ih original horiginal) horiginal'
  | float x =>
    unfold kept
    split <;> exact Nat.le_refl _
  | _ => exact Nat.le_refl _

/-! ### Values inside lists -/

/-- A value in so many lists, each the only element of the next. -/
def nested : Nat → Value → Value
  | 0, v => v
  | n + 1, v => .array [nested n v]

variable {v : Value}

theorem nesting_nested (n : Nat) (v : Value) : (nested n v).nesting = v.nesting + n := by
  induction n with
  | zero => rfl
  | succ n ih => rw [nested, nesting, nestingItems, nestingItems, ih, Nat.max_zero, Nat.add_assoc]

theorem plain_nested (hv : v.Plain) (n : Nat) : (nested n v).Plain := by
  induction n with
  | zero => exact hv
  | succ n ih => exact ⟨ih, trivial⟩

end Extraction.Value
