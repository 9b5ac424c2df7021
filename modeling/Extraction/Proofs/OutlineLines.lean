import Extraction.Proofs.LineFeeds
import Extraction.Text.Split
import Mathlib.Data.List.Perm.Subperm

/-!
The lines of an outline. Cut at its line feeds, the text of a value without line feeds in it has one
line for each place of its outline, indented by two spaces for each container around the one that
the entry stands in. A cap has an effect exactly if some container with parts lies at it or beyond.
-/

namespace Extraction

open Bullet (Label)

namespace Markdown

variable {cap : Option Int} {v : Value} {p : Place}

/-! ### The line at a place -/

/-- Two spaces for each level, a hyphen, a space, and a text. -/
def lineChars (p : Place) (text : String) : List Char :=
  List.replicate (2 * p.level) ' ' ++ '-' :: ' ' :: text.toList

/-- The container at a place has parts and is written inline. The whole never is. -/
def WrittenInline (cap : Option Int) (v : Value) (p : Place) : Prop :=
  p ≠ [] ∧ (∃ part, v.part? p = some part ∧ part.2.parts ≠ []) ∧
    ∃ limit, cap = some limit ∧ limit ≤ p.length

/-- A part has a line if none of the containers around it is written inline, and the whole has one
if it has no parts. -/
def HasLine (cap : Option Int) (v : Value) (p : Place) : Prop :=
  (∃ part, v.part? p = some part) ∧ (p = [] → v.parts = []) ∧
    ∀ q, q <+: p → q ≠ p → ¬WrittenInline cap v q

/-- What the line at a place says. -/
inductive LineAt (cap : Option Int) (v : Value) (p : Place) : List Char → Prop
  | scalar {label : Label} {w : Value} {text : String} (hpart : v.part? p = some (label, w))
    (hscalar : w.nesting = 0) (htext : scalarText? w = some text) :
    LineAt cap v p (lineChars p (label.withContent text))
  | empty {label : Label} {w : Value} (hpart : v.part? p = some (label, w))
    (hempty : w = .array [] ∨ w = .object []) :
    LineAt cap v p (lineChars p (label.withContent emptyText))
  | inline {label : Label} {w : Value} {text : String} (hpart : v.part? p = some (label, w))
    (hinline : WrittenInline cap v p) (htext : inlineText? w = some text) :
    LineAt cap v p (lineChars p (label.withContent text))
  | heading {label : Label} {w : Value} (hpart : v.part? p = some (label, w))
    (hparts : w.parts ≠ []) (hopen : ¬WrittenInline cap v p) :
    LineAt cap v p (lineChars p label.heading)

theorem atCap_iff {depth : Nat} :
    atCap cap depth = true ↔ ∃ limit, cap = some limit ∧ limit ≤ (depth : Int) := by
  simp [atCap, Option.any_eq_true]

theorem writtenInline_iff {part : Label × Value} (hp : p ≠ []) (hpart : v.part? p = some part)
    (hparts : part.2.parts ≠ []) : WrittenInline cap v p ↔ atCap cap p.length = true := by
  rw [atCap_iff, WrittenInline]
  exact ⟨fun h => h.2.2, fun h => ⟨hp, ⟨part, hpart, hparts⟩, h⟩⟩

/-- A value without parts has its only line at its root. -/
theorem hasLine_of_no_parts (hparts : v.parts = []) : HasLine cap v p ↔ p = [] := by
  constructor
  · rintro ⟨⟨part, hpart⟩, -, -⟩
    by_contra hne
    obtain ⟨outer, houter, hmore⟩ :=
      Value.exists_part?_of_prefix hpart List.nil_prefix (Ne.symm hne)
    cases houter
    exact hmore hparts
  · rintro rfl
    exact ⟨⟨_, rfl⟩, fun _ => hparts, fun q hq hne => absurd (List.prefix_nil.1 hq) hne⟩

/-- Nothing around a part is written inline exactly if no container around it lies at the cap, the
whole aside. -/
theorem open_around_iff {part : Label × Value} (hpart : v.part? p = some part) :
    (∀ q, q <+: p → q ≠ p → ¬WrittenInline cap v q) ↔
      ∀ k < p.length - 1, atCap cap (1 + k) = false := by
  constructor
  · intro hopen k hk
    have hlength : (p.take (k + 1)).length = k + 1 := by
      rw [List.length_take]
      omega
    have hne : p.take (k + 1) ≠ p := fun h => by
      rw [h] at hlength
      omega
    have hnonempty : p.take (k + 1) ≠ [] := List.ne_nil_of_length_pos (by omega)
    obtain ⟨outer, houter, hmore⟩ :=
      Value.exists_part?_of_prefix hpart (List.take_prefix _ _) hne
    have houtside := hopen _ (List.take_prefix _ _) hne
    rwa [writtenInline_iff hnonempty houter hmore, hlength, Bool.not_eq_true, Nat.add_comm]
      at houtside
  · intro hopen q hq hne hinline
    have hshort : q.length < p.length :=
      lt_of_le_of_ne hq.length_le fun hlength => hne (hq.eq_of_length hlength)
    have hpos : 0 < q.length := List.length_pos_iff.2 hinline.1
    have hcap := hopen (q.length - 1) (by omega)
    rw [Nat.add_comm, Nat.sub_add_cancel hpos, Bool.eq_false_iff] at hcap
    exact hcap (atCap_iff.2 hinline.2.2)

/-- The places of the lines are those of the entries that are reached. -/
theorem mem_linePlaces_iff : p ∈ linePlaces cap v ↔ HasLine cap v p := by
  by_cases hparts : v.parts = []
  · have hplaces : linePlaces cap v = [[]] := by rw [linePlaces, hparts]; rfl
    rw [hplaces, List.mem_singleton, hasLine_of_no_parts hparts]
  · have hplaces : linePlaces cap v = below cap 0 v := by
      rw [linePlaces, if_neg (by rwa [List.isEmpty_iff])]
    rw [hplaces, mem_below_iff (.element 1)]
    constructor
    · rintro ⟨hne, ⟨part, hpart⟩, hopen⟩
      exact ⟨⟨part, hpart⟩, fun hnil => absurd hnil hne, (open_around_iff hpart).2 hopen⟩
    · rintro ⟨⟨part, hpart⟩, hwhole, hopen⟩
      exact ⟨fun hnil => hparts (hwhole hnil), ⟨part, hpart⟩, (open_around_iff hpart).1 hopen⟩

theorem lineAt_of_parts (hp : HasLine cap v p) {label : Label} {w : Value} {text : String}
    (hpart : v.part? p = some (label, w)) (hparts : w.parts ≠ [])
    (htext : Entry.text? ⟨[], p.level, label, contentAt cap p.length w⟩ = some text) :
    LineAt cap v p (lineChars p text) := by
  have hne : p ≠ [] := by
    rintro rfl
    cases hpart
    exact hparts (hp.2.1 rfl)
  have hinline : WrittenInline cap v p ↔ _ := writtenInline_iff hne hpart hparts
  rw [contentAt_of_parts _ _ hparts] at htext
  split at htext
  · rename_i hcap
    obtain ⟨json, hjson, rfl⟩ := Option.map_eq_some_iff.1 htext
    exact .inline hpart (hinline.2 hcap) hjson
  · rename_i hcap
    cases htext
    exact .heading hpart hparts (mt hinline.1 hcap)

theorem lineAt_of_scalar {label : Label} {w : Value} {text : String}
    (hpart : v.part? p = some (label, w)) (hnesting : w.nesting = 0)
    (hcontent : contentAt cap p.length w = .scalar w)
    (htext : Entry.text? ⟨[], p.level, label, contentAt cap p.length w⟩ = some text) :
    LineAt cap v p (lineChars p text) := by
  rw [hcontent] at htext
  obtain ⟨content, hcontent, rfl⟩ := Option.map_eq_some_iff.1 htext
  exact .scalar hpart hnesting hcontent

/-- The bullet at a place that has a line makes that line. -/
theorem lineAt_of_bulletAt? (hp : HasLine cap v p) {b : Bullet} (hb : bulletAt? cap v p = some b) :
    LineAt cap v p b.chars := by
  obtain ⟨⟨label, w⟩, hpart, hb⟩ := Option.bind_eq_some_iff.1 hb
  obtain ⟨text, htext, rfl⟩ := Option.map_eq_some_iff.1 hb
  cases w with
  | array items =>
    cases items with
    | nil =>
      cases htext
      exact .empty hpart (.inl rfl)
    | cons => exact lineAt_of_parts hp hpart (List.cons_ne_nil _ _) htext
  | object fields =>
    cases fields with
    | nil =>
      cases htext
      exact .empty hpart (.inr rfl)
    | cons => exact lineAt_of_parts hp hpart (List.cons_ne_nil _ _) htext
  | _ => exact lineAt_of_scalar hpart rfl rfl htext

theorem LineAt.oneLine {line : List Char} (h : LineAt cap v p line) (hv : v.WithoutLineFeeds) :
    OneLine line := by
  have hpart : ∀ {label : Label} {w : Value}, v.part? p = some (label, w) →
      label.OnOneLine ∧ w.WithoutLineFeeds := fun h =>
    Value.part?_induction (motive := fun part => part.1.OnOneLine ∧ part.2.WithoutLineFeeds)
      (fun _ houter => houter.2.part) ⟨trivial, hv⟩ h
  have hline : ∀ {text : String}, OneLine text.toList → OneLine (lineChars p text) := by
    intro text htext
    have hindent : OneLine (List.replicate (2 * p.level) ' ') := fun hmem =>
      absurd (List.eq_of_mem_replicate hmem) (by decide)
    exact oneLine_append.2 ⟨hindent,
      oneLine_cons.2 ⟨by decide, oneLine_cons.2 ⟨by decide, htext⟩⟩⟩
  cases h with
  | scalar hp hscalar htext =>
    exact hline (oneLine_withContent (hpart hp).1 (oneLine_scalarText hscalar (hpart hp).2 htext))
  | empty hp hempty =>
    exact hline (oneLine_withContent (hpart hp).1 (by decide))
  | inline hp hinline htext =>
    exact hline (oneLine_withContent (hpart hp).1 (oneLine_inlineText htext))
  | heading hp hparts hopen => exact hline (oneLine_heading (hpart hp).1)

/-! ### The lines of a text -/

theorem splitChars_joinLines {lines : List (List Char)} (hne : lines ≠ [])
    (h : ∀ line ∈ lines, OneLine line) : Text.splitChars '\n' (joinLines lines) = lines := by
  induction lines with
  | nil => exact absurd rfl hne
  | cons line rest ih =>
    rw [List.forall_mem_cons] at h
    cases rest with
    | nil => exact Text.splitChars_self h.1
    | cons next rest =>
      rw [joinLines, Text.splitChars_append h.1, ih (List.cons_ne_nil _ _) h.2]
      exact nofun

theorem exists_mapM {α β : Type} {f : α → Option β} {xs : List α}
    (h : ∀ x ∈ xs, ∃ y, f x = some y) :
    ∃ ys, xs.mapM f = some ys ∧ List.Forall₂ (fun x y => f x = some y) xs ys := by
  induction xs with
  | nil => exact ⟨[], rfl, .nil⟩
  | cons x xs ih =>
    rw [List.forall_mem_cons] at h
    obtain ⟨⟨y, hy⟩, hxs⟩ := h
    obtain ⟨ys, hys, hall⟩ := ih hxs
    exact ⟨y :: ys, by simp [List.mapM_cons, hy, hys], .cons hy hall⟩

theorem exists_scalarText (h : v.ShortIntegers) : ∃ text, scalarText? v = some text := by
  cases v with
  | null | bool | dateTime => exact ⟨_, rfl⟩
  | _ => exact Value.exists_display h

theorem exists_inlineText (h : v.ShortIntegers) : ∃ text, inlineText? v = some text := by
  obtain ⟨json, hjson⟩ := Json.exists_print Json.compact h
  exact ⟨_, by rw [inlineText?, hjson]; rfl⟩

/-- Whatever stands at a place can be written. -/
theorem exists_bulletAt? (cap : Option Int) (h : v.ShortIntegers) {part : Label × Value}
    (hpart : v.part? p = some part) : ∃ b, bulletAt? cap v p = some b := by
  have hshort : part.2.ShortIntegers := by
    rw [Value.shortIntegers_iff_allLeaves] at h ⊢
    exact Value.part?_induction (motive := fun part => part.2.AllLeaves Value.ShortIntegers)
      (fun _ houter => houter.part) h hpart
  obtain ⟨scalar, hscalar⟩ := exists_scalarText hshort
  obtain ⟨inline, hinline⟩ := exists_inlineText hshort
  have htext : ∃ text, Entry.text? ⟨[], p.level, part.1, contentAt cap p.length part.2⟩ =
      some text := by
    rcases contentAt_cases cap p.length part.2 with h | h | h | h <;>
      simp [Entry.text?, h, hscalar, hinline]
  obtain ⟨text, htext⟩ := htext
  refine ⟨⟨p.level, text⟩, ?_⟩
  rw [bulletAt?, hpart, Option.bind_some, Entry.bullet?, htext]
  rfl

/-- A value whose integers are short enough has an outline under every cap, with one line at each
place that is reached. -/
theorem exists_bullets (cap : Option Int) (h : v.ShortIntegers) :
    ∃ bs, bullets? cap v = some bs ∧
      List.Forall₂ (LineAt cap v) (linePlaces cap v) (bs.map Bullet.chars) := by
  have hplaces : ∀ p ∈ linePlaces cap v, HasLine cap v p := fun p hp => mem_linePlaces_iff.1 hp
  obtain ⟨bs, hbs, hall⟩ := exists_mapM fun p hp =>
    exists_bulletAt? cap h (hplaces p hp).1.choose_spec
  refine ⟨bs, (bullets?_eq_places cap v).trans hbs, List.forall₂_map_right_iff.2 ?_⟩
  exact ((List.forall₂_and_left _ _).2 ⟨hplaces, hall⟩).imp fun p b hp =>
    lineAt_of_bulletAt? hp.1 hp.2

theorem exists_render (cap : Option Int) (h : v.ShortIntegers) :
    ∃ text, render? cap v = some text := by
  obtain ⟨bs, hbs, -⟩ := exists_bullets cap h
  exact ⟨_, by rw [render?, hbs]; rfl⟩

/-! ### The order of the places -/

/-- Nothing lies between a container and its first part. -/
theorem append_zero_le {p q : Place} (h : p < q) : ¬q < p ++ [0] := by
  induction p generalizing q with
  | nil =>
    cases q with
    | nil => exact absurd h (List.lt_irrefl [])
    | cons i q => simp [List.cons_lt_cons_iff]
  | cons i p ih =>
    cases q with
    | nil => exact absurd h (List.not_lt_nil _)
    | cons j q =>
      simp only [List.cons_append, List.cons_lt_cons_iff] at h ⊢
      rcases h with h | ⟨rfl, h⟩
      · omega
      · simpa using ih h

theorem linePlaces_ne_nil (cap : Option Int) (v : Value) : linePlaces cap v ≠ [] := by
  by_cases hparts : v.parts = []
  · rw [linePlaces, hparts]
    exact List.cons_ne_nil _ _
  · obtain ⟨part, rest, hcons⟩ := List.exists_cons_of_ne_nil hparts
    have hfirst : [0] ∈ linePlaces cap v := by
      rw [linePlaces, if_neg (by rwa [List.isEmpty_iff]), cons_mem_below, hcons]
      exact ⟨part, rfl, mem_fromPart.2 (.inl rfl)⟩
    exact List.ne_nil_of_mem hfirst

/-- The lines of an outline, cut out of its text. -/
theorem splitChars_render (cap : Option Int) (hlines : v.WithoutLineFeeds)
    (hshort : v.ShortIntegers) : ∃ text, render? cap v = some text ∧
      List.Forall₂ (LineAt cap v) (linePlaces cap v) (Text.splitChars '\n' text.toList) := by
  obtain ⟨bs, hbs, hall⟩ := exists_bullets cap hshort
  refine ⟨_, by rw [render?, hbs]; rfl, ?_⟩
  have hne : bs.map Bullet.chars ≠ [] := by
    rw [Ne, ← List.length_eq_zero_iff, ← hall.length_eq, List.length_eq_zero_iff]
    exact linePlaces_ne_nil cap v
  have hone : ∀ line ∈ bs.map Bullet.chars, OneLine line := by
    clear hne
    generalize linePlaces cap v = places, bs.map Bullet.chars = lines at hall
    induction hall with
    | nil => exact fun _ hline => absurd hline List.not_mem_nil
    | cons hp _ ih => exact List.forall_mem_cons.2 ⟨hp.oneLine hlines, ih⟩
  rwa [String.toList_ofList, splitChars_joinLines hne hone]

/-! ### Containers that are written inline -/

theorem lt_append_zero (p : Place) : p < p ++ [0] := by
  induction p with
  | nil => exact List.nil_lt_cons 0 []
  | cons i p ih => exact List.cons_lt_cons_iff.2 (.inr ⟨rfl, ih⟩)

/-- Nothing is listed between a container and its first part. -/
theorem infix_of_pairwise {places : List Place} (hsorted : places.Pairwise (· < ·))
    (hp : p ∈ places) (hnext : p ++ [0] ∈ places) : [p, p ++ [0]] <:+: places := by
  obtain ⟨before, after, rfl⟩ := List.append_of_mem hp
  have hless := lt_append_zero p
  obtain ⟨-, hafter, hbefore⟩ := List.pairwise_append.1 hsorted
  obtain ⟨hp, hafter⟩ := List.pairwise_cons.1 hafter
  have hmem : p ++ [0] ∈ after := by
    rcases List.mem_append.1 hnext with hmem | hmem
    · exact absurd (hbefore _ hmem p List.mem_cons_self) (List.lt_asymm hless)
    · exact (List.mem_cons.1 hmem).resolve_left fun h => absurd h (by simp)
  cases after with
  | nil => cases hmem
  | cons next after =>
    rcases List.mem_cons.1 hmem with rfl | hmem
    · exact ⟨before, after, by simp⟩
    · exact absurd ((List.pairwise_cons.1 hafter).1 _ hmem)
        (append_zero_le (hp next List.mem_cons_self))

/-- The first part of a container that is not written inline has a line, if the container has. -/
theorem first_mem_linePlaces (hp : p ∈ linePlaces cap v) (hopen : ¬WrittenInline cap v p)
    (hpart : ∃ part, v.part? p = some part ∧ part.2.parts ≠ []) : p ++ [0] ∈ linePlaces cap v := by
  obtain ⟨part, hpart, hparts⟩ := hpart
  obtain ⟨first, rest, hcons⟩ := List.exists_cons_of_ne_nil hparts
  rw [mem_linePlaces_iff] at hp ⊢
  refine ⟨⟨first, ?_⟩, fun h => absurd h (by simp), fun q hq hne => ?_⟩
  · rw [Value.part?_append_cons, hpart, Option.bind_some, hcons]
    rfl
  · rcases List.prefix_concat_iff.1 hq with rfl | hq
    · exact absurd rfl hne
    · by_cases hqp : q = p
      · rwa [hqp]
      · exact hp.2.2 q hq hqp

theorem nodup_linePlaces (cap : Option Int) (v : Value) : (linePlaces cap v).Nodup :=
  (pairwise_linePlaces cap v).imp fun {p q} hless => by
    rintro rfl
    exact List.lt_irrefl p hless

theorem not_writtenInline_none : ¬WrittenInline none v p := by
  rintro ⟨-, -, limit, ⟨⟩, -⟩

/-- Once a container is written inline, the cap costs a line. -/
theorem length_linePlaces_lt (hp : p ∈ linePlaces cap v) (hinline : WrittenInline cap v p) :
    (linePlaces cap v).length < (linePlaces none v).length := by
  have hsubset : ∀ q ∈ linePlaces cap v, q ∈ linePlaces none v := by
    intro q hq
    obtain ⟨hpart, hwhole, -⟩ := mem_linePlaces_iff.1 hq
    exact mem_linePlaces_iff.2 ⟨hpart, hwhole, fun _ _ _ => not_writtenInline_none⟩
  have hfirst := first_mem_linePlaces (hsubset p hp) not_writtenInline_none hinline.2.1
  have hmissing : p ++ [0] ∉ linePlaces cap v := fun hmem =>
    (mem_linePlaces_iff.1 hmem).2.2 p (List.prefix_append p [0]) (by simp) hinline
  have hnodup := List.nodup_cons.2 ⟨hmissing, nodup_linePlaces cap v⟩
  exact hnodup.length_le_of_subset (List.cons_subset.2 ⟨hfirst, hsubset⟩)

/-- Around any container that lies at the cap or deeper, or in its place, one is written inline. -/
theorem exists_inline {limit : Int} (hcap : cap = some limit) {part : Label × Value}
    (hpart : v.part? p = some part) (hparts : part.2.parts ≠ []) (hdeep : max limit 1 ≤ p.length) :
    ∃ q ∈ linePlaces cap v, q <+: p ∧ WrittenInline cap v q := by
  have hlength : ((p.take (max limit 1).toNat).length : Int) = max limit 1 := by
    rw [List.length_take]
    omega
  have hne : p.take (max limit 1).toNat ≠ [] := fun h => by
    rw [h] at hlength
    simp at hlength
    omega
  have hprefix := List.take_prefix (max limit 1).toNat p
  generalize p.take (max limit 1).toNat = q at hlength hne hprefix
  have hfound : ∃ outer, v.part? q = some outer ∧ outer.2.parts ≠ [] := by
    by_cases hqp : q = p
    · exact ⟨part, hqp ▸ hpart, hparts⟩
    · exact Value.exists_part?_of_prefix hpart hprefix hqp
  refine ⟨q, mem_linePlaces_iff.2 ⟨⟨_, hfound.choose_spec.1⟩, fun h => absurd h hne, ?_⟩, hprefix,
    hne, hfound, limit, hcap, by omega⟩
  rintro outer houter houterNe ⟨hnonempty, -, other, hother, hless⟩
  obtain rfl : limit = other := Option.some.inj (hcap.symm.trans hother)
  have hshort : outer.length < q.length :=
    lt_of_le_of_ne houter.length_le fun h => houterNe (houter.eq_of_length h)
  have hpos : 0 < outer.length := List.length_pos_iff.2 hnonempty
  omega

theorem mapM_congr {α β : Type} {f g : α → Option β} {xs : List α} (h : ∀ x ∈ xs, f x = g x) :
    xs.mapM f = xs.mapM g := by
  rw [← Function.id_comp f, ← List.mapM_map, List.map_congr_left h, List.mapM_map,
    Function.id_comp]

/-- The bullet at a place where nothing is written inline does not depend on the cap. -/
theorem bulletAt?_uncapped (hp : HasLine cap v p) (hopen : ¬WrittenInline cap v p) :
    bulletAt? cap v p = bulletAt? none v p := by
  cases hpart : v.part? p with
  | none => rw [bulletAt?, bulletAt?, hpart]; rfl
  | some part =>
    have hcontent : contentAt cap p.length part.2 = contentAt none p.length part.2 := by
      by_cases hparts : part.2.parts = []
      · exact contentAt_of_no_parts cap p.length hparts
      · have hne : p ≠ [] := by
          rintro rfl
          cases hpart
          exact hparts (hp.2.1 rfl)
        rw [writtenInline_iff hne hpart hparts] at hopen
        rw [contentAt_of_parts _ _ hparts, contentAt_of_parts _ _ hparts, if_neg hopen]
        rfl
    rw [bulletAt?, bulletAt?, hpart, Option.bind_some, Option.bind_some, hcontent]

/-- If nothing is written inline, the cap makes no difference. -/
theorem render?_uncapped (h : ∀ p, ¬WrittenInline cap v p) : render? cap v = render? none v := by
  have hiff : ∀ p, p ∈ linePlaces cap v ↔ p ∈ linePlaces none v := fun p => by
    simp only [mem_linePlaces_iff, HasLine, h, not_writtenInline_none]
  have hplaces : linePlaces cap v = linePlaces none v := by
    refine List.Perm.eq_of_pairwise (fun p q _ _ hpq hqp => absurd hqp (List.lt_asymm hpq))
      (pairwise_linePlaces cap v) (pairwise_linePlaces none v) ?_
    exact (List.perm_ext_iff_of_nodup (nodup_linePlaces cap v) (nodup_linePlaces none v)).2 hiff
  rw [render?, render?, bullets?_eq_places, bullets?_eq_places, ← hplaces,
    mapM_congr fun p hp => bulletAt?_uncapped (mem_linePlaces_iff.1 hp) (h p)]

/-- With a cap, no line is as deep as the cap. -/
theorem level_lt {limit : Int} (hcap : cap = some limit) (hp : p ∈ linePlaces cap v) :
    (p.level : Int) < max limit 1 := by
  unfold Place.level
  by_cases hshort : p.length ≤ 1
  · omega
  · obtain ⟨⟨part, hpart⟩, -, hway⟩ := mem_linePlaces_iff.1 hp
    have hlength : p.dropLast.length = p.length - 1 := List.length_dropLast
    have hne : p.dropLast ≠ p := fun h => by
      rw [h] at hlength
      omega
    have hnonempty : p.dropLast ≠ [] := List.ne_nil_of_length_pos (by omega)
    have hprefix := List.dropLast_prefix p
    have hinline := hway _ hprefix hne
    have hfound := Value.exists_part?_of_prefix hpart hprefix hne
    by_contra hdeep
    exact hinline ⟨hnonempty, hfound, limit, hcap, by omega⟩

/-! ### The outline of a value -/

/-- The places and the lines of an outline. -/
structure Outlined (cap : Option Int) (v : Value) (places : List Place)
    (lines : List (List Char)) : Prop where
  /-- The places are those of the entries that are reached, -/
  hasLine : ∀ p, p ∈ places ↔ HasLine cap v p
  /-- in pre-order, -/
  preorder : places.Pairwise (· < ·)
  /-- and there is one line for each of them. -/
  lineAt : List.Forall₂ (LineAt cap v) places lines
  /-- No line is more than one level deeper than the line before. -/
  levels : places.IsChain fun p q => q.level ≤ p.level + 1
  /-- What lies in a container that is written inline has no line. -/
  closed : ∀ p ∈ places, WrittenInline cap v p → ∀ q ∈ places, p <+: q → q = p
  /-- The lines of any other container's entries follow. -/
  followed : ∀ p ∈ places, (∃ part, v.part? p = some part ∧ part.2.parts ≠ []) →
    ¬WrittenInline cap v p → [p, p ++ [0]] <:+: places

theorem outlined_linePlaces {lines : List (List Char)}
    (hall : List.Forall₂ (LineAt cap v) (linePlaces cap v) lines) :
    Outlined cap v (linePlaces cap v) lines where
  hasLine _ := mem_linePlaces_iff
  preorder := pairwise_linePlaces cap v
  lineAt := hall
  levels := (descending_linePlaces cap v).imp fun p q h => by
    unfold Place.level
    omega
  closed p _ hinline q hq hprefix := by
    by_contra hne
    exact (mem_linePlaces_iff.1 hq).2.2 p hprefix (Ne.symm hne) hinline
  followed p hp hpart hopen :=
    infix_of_pairwise (pairwise_linePlaces cap v) hp (first_mem_linePlaces hp hopen hpart)

end Markdown

/-- The law of outlines. The text of a value, cut at its line feeds, has one line for each entry
that is reached. No line is as deep as the cap, and the cap changes nothing exactly if no container
with parts lies at it or deeper. -/
theorem render_outlined (cap : Option Int) {v : Value} (hlines : v.WithoutLineFeeds)
    (hshort : v.ShortIntegers) : ∃ text places, Markdown.render? cap v = some text ∧
      Markdown.Outlined cap v places (Text.splitChars '\n' text.toList) ∧
      (∀ limit, cap = some limit → ∀ p ∈ places, (p.level : Int) < max limit 1) ∧
      (Markdown.render? none v = some text ↔ ∀ limit, cap = some limit →
        ∀ p part, v.part? p = some part → part.2.parts ≠ [] → (p.length : Int) < max limit 1) := by
  obtain ⟨text, htext, hall⟩ := Markdown.splitChars_render cap hlines hshort
  refine ⟨text, Markdown.linePlaces cap v, htext, Markdown.outlined_linePlaces hall,
    fun limit hcap p hp => Markdown.level_lt hcap hp, ?_⟩
  constructor
  · intro hsame limit hcap p part hpart hparts
    by_contra hdeep
    obtain ⟨q, hq, -, hinline⟩ := Markdown.exists_inline hcap hpart hparts (not_lt.1 hdeep)
    -- a line is missing, though the texts have the same lines
    obtain ⟨text', htext', hall'⟩ := Markdown.splitChars_render none hlines hshort
    obtain rfl : text = text' := Option.some.inj (hsame.symm.trans htext')
    have hless := Markdown.length_linePlaces_lt hq hinline
    rw [hall.length_eq, hall'.length_eq] at hless
    exact Nat.lt_irrefl _ hless
  · intro hshallow
    rw [← htext]
    refine (Markdown.render?_uncapped ?_).symm
    rintro p ⟨hne, ⟨part, hpart, hparts⟩, limit, hcap, hlimit⟩
    have hless := hshallow limit hcap p part hpart hparts
    have hpos : 0 < p.length := List.length_pos_iff.2 hne
    omega

/-- An order of goods, with a list in it two levels down. -/
def purchase : Value :=
  .object [("order", .object [("goods", .array [.object [("sku", .string "A")], .int 2]),
    ("note", .object [])]), ("paid", .bool true)]

/-- Its lines, if the list is written inline. -/
def purchaseLines : List (List Char) :=
  ["- **order**:", "  - **goods**: `[\x7b\"sku\":\"A\"\x7d,2]`", "  - **note**: _empty_",
    "- **paid**: true"].map String.toList

theorem purchase_outlined :
    ∃ places, Markdown.Outlined (some 2) purchase places purchaseLines ∧
      (∀ p ∈ places, (p.level : Int) < max 2 1) ∧
      Markdown.render? none purchase ≠ Markdown.render? (some 2) purchase := by
  have hlines : purchase.WithoutLineFeeds := by
    simp [purchase, Value.WithoutLineFeeds, Value.AllNames, Value.FieldNames, Value.ItemNames,
      Value.AllLeaves, Value.FieldLeaves, Value.ItemLeaves, Markdown.OneLine]
  have hshort : purchase.ShortIntegers := by
    have htwo : Number.digitCount 2 ≤ Number.digitLimit := by decide
    simp [purchase, Value.ShortIntegers, Value.FieldsShort, Value.ItemsShort, htwo]
  obtain ⟨text, places, htext, houtlined, hlevels, hcap⟩ := render_outlined (some 2) hlines hshort
  have hrender : Markdown.render? (some 2) purchase =
      some (String.ofList (Markdown.joinLines purchaseLines)) := by decide +kernel
  obtain rfl := Option.some.inj (htext.symm.trans hrender)
  have hsplit : Text.splitChars '\n' (String.ofList (Markdown.joinLines purchaseLines)).toList =
      purchaseLines := by decide +kernel
  refine ⟨places, hsplit ▸ houtlined, hlevels 2 rfl, fun hsame => ?_⟩
  have hgoods := hcap.1 (hsame.trans htext) 2 rfl [0, 0] _ rfl (List.cons_ne_nil _ _)
  exact absurd hgoods (by decide)

end Extraction
