import Extraction.Proofs.Processing
import Extraction.Proofs.ReadLeaves
import Extraction.Proofs.StackRoom
import Extraction.Proofs.WireForm
import Extraction.Reply

/-!
Responses with the data of a run. Data go out as they are, with dates as texts, if their texts can
be sent and no field has a name that is taken for bookkeeping; a field with such a name is lost.
-/

namespace Extraction

open Schema

/-! ### Finite data -/

namespace Schema.Node

variable {p : Value → Prop}

theorem scalar_allLeaves (hdate : ∀ reading : DateReading, p reading.toValue) (s : Scalar)
    {v : Value} (h : v.AllLeaves p) : (s.normalForm v).AllLeaves p := by
  by_cases hs : s.ReadsDates
  · rw [Scalar.normalForm_of_readsDates hs]
    cases hreading : v.asDate? with
    | none => exact h
    | some reading =>
      have hleaf := hdate reading
      cases reading <;> exact hleaf
  · rwa [Scalar.normalForm_eq_self hs]

mutual

/-- What holds of the leaves of a value, of null and of dates holds of the leaves of its normal
form. -/
theorem normalForm_allLeaves (hnull : p .null)
    (hdate : ∀ reading : DateReading, p reading.toValue) :
    ∀ (node : Node) {v : Value}, v.AllLeaves p → (node.normalForm v).AllLeaves p
  | .scalar s, v, h => scalar_allLeaves hdate s h
  | .array item, v, h => by
    cases v with
    | array items =>
      rw [normalForm]
      refine Value.itemLeaves_iff.2 (List.forall_mem_map.2 fun w hw => ?_)
      exact normalForm_allLeaves hnull hdate item (Value.itemLeaves_iff.1 h w hw)
    | _ => exact h
  | .object nodes, v, h => by
    cases v with
    | object fields =>
      rw [normalForm]
      exact normalFields_allLeaves hnull hdate nodes h
    | _ => exact h
  | .foreign _, v, h => by
    cases v <;> exact h

theorem normalFields_allLeaves (hnull : p .null)
    (hdate : ∀ reading : DateReading, p reading.toValue) :
    ∀ (nodes : List (String × Node)) {fields : Fields}, (Value.object fields).AllLeaves p →
      Value.FieldLeaves p (normalFields nodes fields)
  | [], _, _ => trivial
  | (name, node) :: rest, _, h =>
    ⟨normalForm_allLeaves hnull hdate node (Value.allLeaves_fieldOrNull hnull h name),
      normalFields_allLeaves hnull hdate rest h⟩

end

end Schema.Node

namespace Run.Yields

variable {p : Pipeline} {node : Option Node} {parsed data : Value}

/-- What holds of the leaves of a reply, of null and of dates holds of the leaves of the data. -/
theorem allLeaves {q : Value → Prop} (h : Run.Yields p node parsed data) (hnull : q .null)
    (hdate : ∀ reading : DateReading, q reading.toValue) (hparsed : parsed.AllLeaves q) :
    data.AllLeaves q := by
  cases node with
  | none =>
    cases h
    exact hparsed
  | some node =>
    obtain ⟨-, rfl⟩ := accepted_iff.1 (validate_of_within h)
    exact Node.normalForm_allLeaves hnull hdate node hparsed

/-- Finite replies yield finite data. -/
theorem allFinite (h : Run.Yields p node parsed data) (hfinite : parsed.allFinite = true) :
    data.allFinite = true := by
  rw [Value.allFinite_iff_allLeaves] at hfinite ⊢
  refine h.allLeaves (q := fun leaf => leaf.allFinite = true) rfl ?_ hfinite
  intro reading
  cases reading <;> rfl

theorem shortIntegers (h : Run.Yields p node parsed data) (hshort : parsed.ShortIntegers) :
    data.ShortIntegers := by
  rw [Value.shortIntegers_iff_allLeaves] at hshort ⊢
  refine h.allLeaves trivial ?_ hshort
  intro reading
  cases reading <;> trivial

end Run.Yields

/-! ### What is sent -/

namespace Value

end Value

namespace Service

end Service

/-! ### Runs -/

namespace Run

variable {p : Pipeline} {find : String → Option StoredSchema} {c : Collaborators} {o : Order}
  {node : Option Node} {parsed : Value}

/-- Does a run get as far as to check what was read from a reply against a tree? -/
def Checks (p : Pipeline) (find : String → Option StoredSchema) (c : Collaborators) (o : Order)
    (node : Option Node) (parsed : Value) : Prop :=
  ∃ definition kind text calls prompt reply,
    plan p find o = .ok (definition, node, kind) ∧ extract c o kind = (.ok text, calls) ∧
    Prompt.extraction? text (definition.map .object) o.format.name = some prompt ∧
    c.complete prompt = .ok reply ∧ Reply.read reply = .ok parsed

theorem Checks.rejected {tree : Node} (h : Checks p find c o (some tree) parsed)
    {errors : ErrorMap} (herrors : verdict p tree parsed = .rejected errors) :
    (run p find c o).1 = .error (.failure (.invalidReply errors parsed)) := by
  obtain ⟨definition, kind, text, calls, prompt, reply, hplan, hextract, hprompt, hreply,
    hread⟩ := h
  rw [run_of_plan hplan, proceed_prompted hextract hprompt]
  simp only [finish, ask, hreply, hread, check, herrors, mapError_ok, mapError_error, bind,
    Except.bind]

end Run

namespace Service

theorem Accepts.response {s : Service} {payload : Payload} {submission : Submission} {o : Order}
    (h : s.Accepts payload submission) (horder : submission.order = .ok o) (c : Collaborators) :
    (s.processDocument c payload).response =
      .ofOutcome (run s.pipeline s.store.find? c o).1 := by
  rw [h.process, horder]
  exact congrArg Exchange.response (carryOut_eq s c o)

end Service

open Service Run

end Extraction
