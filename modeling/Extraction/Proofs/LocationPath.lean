import Extraction.Location
import Extraction.Proofs.DecimalText

/-!
Paths name locations. Where no name is empty or holds a dot or an opening bracket, different
locations have different paths; only the field that is called like the root itself is confused with
the root.
-/

namespace Extraction.Location

open Number

/-- A name that leaves the marks of a path alone. -/
def PlainName (name : String) : Prop :=
  name ≠ "" ∧ '.' ∉ name.toList ∧ '[' ∉ name.toList

instance (name : String) : Decidable (PlainName name) :=
  inferInstanceAs (Decidable (name ≠ "" ∧ '.' ∉ name.toList ∧ '[' ∉ name.toList))

def PlainStep : Step → Prop
  | .field name => PlainName name
  | .index _ => True

/-- What a step adds to a path that is not empty. -/
def stepChars : Step → List Char
  | .field name => '.' :: name.toList
  | .index i => '[' :: digits i ++ [']']

/-- What the first step adds. -/
def headChars : Step → List Char
  | .field name => name.toList
  | .index i => stepChars (.index i)

def tailChars (l : Location) : List Char :=
  l.flatMap stepChars

/-! ### The characters of a path -/

theorem toList_extendPath {path : String} (h : path ≠ "") (s : Step) :
    (extendPath path s).toList = path.toList ++ stepChars s := by
  cases s with
  | field name => simp [extendPath, stepChars, h]
  | index i => simp [extendPath, stepChars, natText]

theorem toList_extendPath_empty (s : Step) : (extendPath "" s).toList = headChars s := by
  cases s with
  | field name => simp [extendPath, headChars]
  | index i => simp [extendPath, headChars, stepChars, natText]

theorem toList_foldl_extendPath {path : String} (h : path ≠ "") (l : Location) :
    (l.foldl extendPath path).toList = path.toList ++ tailChars l := by
  induction l generalizing path with
  | nil => simp [tailChars]
  | cons s l ih =>
    have hs := toList_extendPath h s
    have hne : extendPath path s ≠ "" := by
      intro he
      rw [he] at hs
      cases s <;> simp [stepChars] at hs
    rw [List.foldl_cons, ih hne, hs, tailChars, tailChars, List.flatMap_cons, List.append_assoc]

theorem headChars_ne_nil {s : Step} (h : PlainStep s) : headChars s ≠ [] := by
  cases s with
  | field name => simpa [headChars] using h.1
  | index i => simp [headChars, stepChars]

/-- The path of a location below the root. -/
theorem toList_path_cons {s : Step} (h : PlainStep s) (l : Location) :
    (path (s :: l)).toList = headChars s ++ tailChars l := by
  have hs := toList_extendPath_empty s
  -- a path that has begun is never empty again, so the name of the root does not replace it
  have hne : extendPath "" s ≠ "" := by
    intro he
    rw [he] at hs
    exact headChars_ne_nil h hs.symm
  have hchars := toList_foldl_extendPath hne l
  have hpath : (path (s :: l)) = l.foldl extendPath (extendPath "" s) := by
    have hlong : l.foldl extendPath (extendPath "" s) ≠ "" := by
      intro he
      rw [he, hs] at hchars
      exact headChars_ne_nil h (List.append_eq_nil_iff.1 hchars.symm).1
    simp [path, hlong]
  rw [hpath, hchars, hs]

/-! ### Reading a path back -/

/-- Two words up to the first stop on either side are the same word. -/
theorem append_inj_of_stops {stop : Char → Prop} {xs ys r t : List Char}
    (hx : ∀ c ∈ xs, ¬ stop c) (hy : ∀ c ∈ ys, ¬ stop c) (hr : ∀ c ∈ r.head?, stop c)
    (ht : ∀ c ∈ t.head?, stop c) (h : xs ++ r = ys ++ t) : xs = ys ∧ r = t := by
  induction xs generalizing ys with
  | nil =>
    -- the longer word would run over the other's stop
    cases ys with
    | nil => exact ⟨rfl, h⟩
    | cons y ys =>
      have hstop : stop y := hr y (by rw [List.nil_append] at h; simp [h])
      exact absurd hstop (hy y List.mem_cons_self)
  | cons x xs ih =>
    cases ys with
    | nil =>
      have hstop : stop x := ht x (by rw [List.nil_append] at h; simp [← h])
      exact absurd hstop (hx x List.mem_cons_self)
    | cons y ys =>
      obtain ⟨rfl, hrest⟩ := List.cons.inj h
      rw [List.forall_mem_cons] at hx hy
      obtain ⟨rfl, hrt⟩ := ih hx.2 hy.2 hrest
      exact ⟨rfl, hrt⟩

/-- The marks between the steps of a path. -/
def IsMark (c : Char) : Prop :=
  c = '.' ∨ c = '['

theorem head_tailChars (l : Location) : ∀ c ∈ (tailChars l).head?, IsMark c := by
  intro c hc
  rcases l with _ | ⟨_ | _, l⟩ <;> simp_all [tailChars, stepChars, IsMark, eq_comm]

theorem PlainName.no_mark {name : String} (h : PlainName name) : ∀ c ∈ name.toList, ¬ IsMark c := by
  rintro c hc (rfl | rfl)
  · exact h.2.1 hc
  · exact h.2.2 hc

theorem name_append_inj {m n : String} (hm : PlainName m) (hn : PlainName n) {l k : Location}
    (h : m.toList ++ tailChars l = n.toList ++ tailChars k) :
    m = n ∧ tailChars l = tailChars k := by
  obtain ⟨hname, hrest⟩ := append_inj_of_stops hm.no_mark hn.no_mark (head_tailChars l)
    (head_tailChars k) h
  exact ⟨String.toList_inj.1 hname, hrest⟩

/-- The bracket ends an index, as no digit is a bracket. -/
theorem index_append_inj {i j : Nat} {r t : List Char}
    (h : digits i ++ ']' :: r = digits j ++ ']' :: t) : i = j ∧ r = t := by
  have hdigit : ∀ n, ∀ c ∈ digits n, ¬ c = ']' := by
    rintro n c hc rfl
    exact absurd (isDigit_of_mem_digits hc) (by decide)
  obtain ⟨hij, hrt⟩ := append_inj_of_stops (hdigit i) (hdigit j) (by simp) (by simp) h
  exact ⟨digits_injective hij, (List.cons.inj hrt).2⟩

theorem name_append_ne_bracket {name : String} (h : PlainName name) (r t : List Char) :
    name.toList ++ r ≠ '[' :: t := by
  intro he
  rcases hname : name.toList with _ | ⟨c, cs⟩
  · exact h.1 (String.toList_eq_nil_iff.1 hname)
  · rw [hname] at he
    have hc : c = '[' := (List.cons.inj he).1
    exact h.no_mark c (by simp [hname]) (Or.inr hc)

/-- The first step can be told from the characters of the path. -/
theorem headChars_append_inj {s s' : Step} (hs : PlainStep s) (hs' : PlainStep s')
    {l k : Location} (h : headChars s ++ tailChars l = headChars s' ++ tailChars k) :
    s = s' ∧ tailChars l = tailChars k := by
  cases s with
  | field m =>
    cases s' with
    | field n =>
      obtain ⟨rfl, hrest⟩ := name_append_inj hs hs' h
      exact ⟨rfl, hrest⟩
    | index j => exact absurd h (name_append_ne_bracket hs _ _)
  | index i =>
    cases s' with
    | field n => exact absurd h.symm (name_append_ne_bracket hs' _ _)
    | index j =>
      have hindex : digits i ++ ']' :: tailChars l = digits j ++ ']' :: tailChars k := by
        simpa [headChars, stepChars] using h
      obtain ⟨rfl, hrest⟩ := index_append_inj hindex
      exact ⟨rfl, hrest⟩

theorem stepChars_append_inj {s s' : Step} (hs : PlainStep s) (hs' : PlainStep s')
    {l k : Location} (h : stepChars s ++ tailChars l = stepChars s' ++ tailChars k) :
    s = s' ∧ tailChars l = tailChars k := by
  cases s with
  | field m =>
    cases s' with
    | field n => exact headChars_append_inj hs hs' (List.cons.inj h).2
    | index j => simp [stepChars] at h
  | index i =>
    cases s' with
    | field n => simp [stepChars] at h
    | index j => exact headChars_append_inj hs hs' h

theorem tailChars_injective {l k : Location} (hl : ∀ s ∈ l, PlainStep s)
    (hk : ∀ s ∈ k, PlainStep s) (h : tailChars l = tailChars k) : l = k := by
  induction l generalizing k with
  | nil =>
    rcases k with _ | ⟨_ | _, k⟩
    · rfl
    · simp [tailChars, stepChars] at h
    · simp [tailChars, stepChars] at h
  | cons s l ih =>
    rw [List.forall_mem_cons] at hl
    rcases k with _ | ⟨s', k⟩
    · cases s <;> simp [tailChars, stepChars] at h
    · rw [List.forall_mem_cons] at hk
      obtain ⟨rfl, hrest⟩ := stepChars_append_inj hl.1 hk.1 h
      rw [ih hl.2 hk.2 hrest]

/-! ### Different locations, different paths -/

theorem plainStep_rootPath : PlainStep (.field rootPath) := by
  unfold PlainStep
  decide

theorem path_cons_ne_rootPath {s : Step} {l : Location} (h : ∀ t ∈ s :: l, PlainStep t)
    (hroot : s :: l ≠ [.field rootPath]) : path (s :: l) ≠ rootPath := by
  intro hpath
  rw [List.forall_mem_cons] at h
  have hchars : headChars s ++ tailChars l = headChars (.field rootPath) ++ tailChars [] := by
    rw [← toList_path_cons h.1, hpath]
    simp [headChars, tailChars]
  obtain ⟨rfl, hl⟩ := headChars_append_inj h.1 plainStep_rootPath hchars
  exact hroot (by rw [tailChars_injective h.2 (by simp) hl])

theorem path_injective {l k : Location} (hl : ∀ s ∈ l, PlainStep s) (hk : ∀ s ∈ k, PlainStep s)
    (hlroot : l ≠ [.field rootPath]) (hkroot : k ≠ [.field rootPath]) (h : l.path = k.path) :
    l = k := by
  rcases l with _ | ⟨s, l⟩
  · rcases k with _ | ⟨s', k⟩
    · rfl
    · exact absurd h.symm (path_cons_ne_rootPath hk hkroot)
  · rcases k with _ | ⟨s', k⟩
    · exact absurd h (path_cons_ne_rootPath hl hlroot)
    · rw [List.forall_mem_cons] at hl hk
      have hchars : headChars s ++ tailChars l = headChars s' ++ tailChars k := by
        rw [← toList_path_cons hl.1, ← toList_path_cons hk.1, h]
      obtain ⟨rfl, hrest⟩ := headChars_append_inj hl.1 hk.1 hchars
      rw [tailChars_injective hl.2 hk.2 hrest]

end Extraction.Location
