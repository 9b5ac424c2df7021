import Extraction.Proofs.CappedDefinitions
import Extraction.Proofs.NormalForm
import Extraction.Proofs.StackRoom

/-!
Malformed trees. A check breaks off exactly if its walk gets to a node at which the value cannot be
judged, or at which there is no room to judge it; nodes that the walk does not reach have no
influence. On compiled trees a check breaks off only for want of room.
-/

namespace Extraction

namespace Schema.Node

mutual

/-- Do two trees look the same wherever the walk along a value gets? -/
def SameOn : Node → Node → Value → Prop
  | .array m, .array n, .array items => ∀ v ∈ items, SameOn m n v
  | .array _, .array _, _ => True
  | .object ms, .object ns, .object fields => FieldsSameOn ms ns fields
  | .object _, .object _, _ => True
  | m, n, _ => m = n

def FieldsSameOn : List (String × Node) → List (String × Node) → Fields → Prop
  | [], [], _ => True
  | (name, m) :: ms, (name', n) :: ns, fields =>
    name = name' ∧ SameOn m n (Value.fieldOrNull name fields) ∧ FieldsSameOn ms ns fields
  | _, _, _ => False

end

end Schema.Node

open Schema

/-! ### Where a walk breaks off -/

namespace Schema.Scalar

variable {s : Scalar} {v : Value}

end Schema.Scalar

namespace Schema.Node

variable {strict : Bool}

variable {node m : Node} {room calls : Nat} {u v : Value}

theorem keys_of_sameOn {ms ns : List (String × Node)} {fields : Fields}
    (h : FieldsSameOn ms ns fields) : ms.map Prod.fst = ns.map Prod.fst := by
  induction ms generalizing ns with
  | nil =>
    cases ns with
    | nil => rfl
    | cons _ _ => exact h.elim
  | cons entry ms ih =>
    cases ns with
    | nil => exact h.elim
    | cons entry' ns =>
      obtain ⟨hname, -, hms⟩ := h
      rw [List.map_cons, List.map_cons, ih hms, hname]

/-- Which keys are undeclared depends on the declared names alone. -/
theorem undeclared_congr {ms ns : List (String × Node)} (h : ms.map Prod.fst = ns.map Prod.fst)
    (fields : Fields) : undeclared ms fields = undeclared ns fields := by
  have hdeclares : ∀ name, declares ms name = declares ns name := by
    intro name
    rw [Bool.eq_iff_iff, declares_iff, declares_iff, h]
  simp only [undeclared, hdeclares]

theorem WellFormed.reached (hwell : node.WellFormed) (h : node.Reaches v calls m u) :
    m.WellFormed := by
  induction h with
  | here => exact hwell
  | element _ _ ih => exact ih hwell
  | field hnode _ ih => exact ih (fieldsWellFormed_iff.1 hwell _ hnode)

/-- Checks at two nodes give the same for a value, and run out of room alike. -/
def ChecksAlike (strict : Bool) (m n : Node) (v : Value) : Prop :=
  m.visit strict v = n.visit strict v ∧
    ∀ room, m.overflow? strict room v = n.overflow? strict room v

theorem checksAlike_array {item item' : Node} {items : List Value}
    (h : ∀ w ∈ items, item.ChecksAlike strict item' w) :
    (Node.array item).ChecksAlike strict (.array item') (.array items) := by
  constructor
  · have hvisit : List.Forall₂ (fun v w => item.visit strict v = item'.visit strict w)
        items items := List.forall₂_same.2 fun w hw => (h w hw).1
    rw [visit, visit, visitItems_congr hvisit]
  · intro room
    have hchecks : (items.map fun w => (item.overflow? strict (room - 3) w, item.visit strict w)) =
        items.map fun w => (item'.overflow? strict (room - 3) w, item'.visit strict w) :=
      List.map_congr_left fun w hw => by rw [(h w hw).1, (h w hw).2]
    simp only [overflow?, callsToElement, hchecks]

theorem checksAlike_object {ms ns : List (String × Node)} {fields : Fields}
    (hkeys : ms.map Prod.fst = ns.map Prod.fst)
    (h : List.Forall₂ (fun entry entry' => entry.1 = entry'.1 ∧
      entry.2.ChecksAlike strict entry'.2 (Value.fieldOrNull entry.1 fields)) ms ns) :
    (Node.object ms).ChecksAlike strict (.object ns) (.object fields) := by
  constructor
  · have hvisit : List.Forall₂ (fun entry entry' => entry.1 = entry'.1 ∧
        entry.2.visit strict (Value.fieldOrNull entry.1 fields) =
          entry'.2.visit strict (Value.fieldOrNull entry.1 fields)) ms ns :=
      h.imp fun _ _ hentry => ⟨hentry.1, hentry.2.1⟩
    rw [visit, visit, visitFields_congr hvisit, undeclared_congr hkeys]
  · have hchecks : ∀ room,
        fieldChecks strict ms room fields = fieldChecks strict ns room fields := by
      intro room
      clear hkeys
      induction h with
      | nil => rfl
      | cons hentry _ ih => rw [fieldChecks, fieldChecks, ih, ← hentry.1, hentry.2.1, hentry.2.2]
    intro room
    rw [overflow?, overflow?, hchecks]

mutual

/-- Trees that look the same along the walk are checked alike. -/
theorem checksAlike_of_sameOn : ∀ {m n : Node} {v : Value}, m.SameOn n v →
    m.ChecksAlike strict n v
  | .scalar s, n, v, h => by
    have hn : Node.scalar s = n := by simpa [SameOn] using h
    rw [hn]
    exact ⟨rfl, fun _ => rfl⟩
  | .foreign kind, n, v, h => by
    have hn : Node.foreign kind = n := by simpa [SameOn] using h
    rw [hn]
    exact ⟨rfl, fun _ => rfl⟩
  | .array item, n, v, h => by
    cases n with
    | array item' =>
      cases v with
      | array items => exact checksAlike_array fun w hw => checksAlike_of_sameOn (h w hw)
      | _ => exact ⟨rfl, fun _ => rfl⟩
    | _ => simp [SameOn] at h
  | .object nodes, n, v, h => by
    cases n with
    | object nodes' =>
      cases v with
      | object fields => exact checksAlike_object (keys_of_sameOn h) (fieldsAlike_of_sameOn h)
      | _ => exact ⟨rfl, fun _ => rfl⟩
    | _ => simp [SameOn] at h

theorem fieldsAlike_of_sameOn : ∀ {ms ns : List (String × Node)} {fields : Fields},
    FieldsSameOn ms ns fields → List.Forall₂ (fun entry entry' => entry.1 = entry'.1 ∧
      entry.2.ChecksAlike strict entry'.2 (Value.fieldOrNull entry.1 fields)) ms ns
  | [], ns, fields, h => by
    cases ns with
    | nil => exact .nil
    | cons _ _ => exact h.elim
  | (name, m) :: ms, ns, fields, h => by
    cases ns with
    | nil => exact h.elim
    | cons entry ns =>
      obtain ⟨rfl, hm, hms⟩ := h
      exact .cons ⟨rfl, checksAlike_of_sameOn hm⟩ (fieldsAlike_of_sameOn hms)

end

end Schema.Node

/-! ### Verdicts -/

/-- How the message of a check that broke off begins. -/
def internalError : String := "Internal error: "

namespace Verdict

end Verdict

section

variable {node : Node} {v : Value} {room : Nat} {strict : Bool}

end

end Extraction
