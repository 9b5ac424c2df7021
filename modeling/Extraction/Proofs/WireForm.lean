import Extraction.Proofs.IsoText
import Extraction.Proofs.Leaves
import Extraction.Proofs.NormalForm

/-!
Data as they are sent. Data that a check accepted are accepted again in the form in which they are
sent, and their dates come back as they were.
-/

namespace Extraction

open Schema Calendar

/-- A date that was read from a value without dates is read again from its ISO text. -/
theorem asDate?_wire {v : Value} (hv : v.DateFree) {reading : DateReading}
    (h : v.asDate? = some reading) : reading.toValue.wire.asDate? = some reading := by
  cases reading with
  | date d => rw [DateReading.toValue, Value.wire, Value.asDate?, readDateText?_date]
  | dateTime t =>
    have hdate : ∀ t, v ≠ .dateTime t := by
      rintro t rfl
      cases hv
    rw [DateReading.toValue, Value.wire, Value.asDate?,
      readDateText?_dateTime (asDate?_readable hdate h)]

theorem readsBack_wire : ReadsBack Value.DateFree Value.wire where
  items h := Value.itemLeaves_iff.1 h
  field h := h.fieldOrNull
  array items := by rw [Value.wire, Value.wireItems_eq_map]
  object fields := by rw [Value.wire, Value.wireFields_eq_map]
  keeps := Value.wire_eq_self
  date hv h := asDate?_wire hv h

/-- Data accepted from a value without dates are accepted as they are sent, in either mode, and come
back as they were. -/
theorem validate_sent_data {cap : Option Int} {definition : Value} {node : Node}
    (hcompile : compile cap definition = .ok node) (hdistinct : definition.DistinctNames)
    {v d : Value} (hv : v.DateFree) {strict : Bool} (h : validate node v strict = .accepted d)
    (strict' : Bool) : validate node d.wire strict' = .accepted d := by
  rw [compile_eq_ok hcompile] at h ⊢
  exact validate_written readsBack_wire (treeOf_allNames hdistinct) hv h strict'

/-- A definition of meetings. -/
def meetingDefinition : Value :=
  .object [("days", .array [.string "date"])]

/-- A meeting on some days. -/
def meeting (days : List Value) : Value :=
  .object [("days", .array days)]

/-- A weekday, milliseconds, and a time whose offset is negative and not of whole seconds. -/
def plannedDays : List Value :=
  [.string " 2024W064 ", .int (-1500), .string "2024-03-01x10:00:00,5-00:00:01.25"]

def readDays : List DateReading :=
  [.date ⟨2024, 2, 8, by decide⟩,
    .dateTime ⟨⟨1969, 12, 31, by decide⟩, ⟨23, 59, 58, 500000, by decide⟩, some .utc⟩,
    .dateTime ⟨⟨2024, 3, 1, by decide⟩, ⟨10, 0, 0, 500000, by decide⟩,
      some ⟨true, ⟨0, 0, 1, 250000, by decide⟩, by decide⟩⟩]

def sentDays : List Value :=
  [.string "2024-02-08", .string "1969-12-31T23:59:58.500000+00:00",
    .string "2024-03-01T10:00:00.500000-00:00:01.250000"]

theorem sentDays_accepted :
    validate (treeOf meetingDefinition) (meeting sentDays) true =
      .accepted (meeting (readDays.map DateReading.toValue)) := by
  have hdistinct : meetingDefinition.DistinctNames := by decide
  have hfree : (meeting plannedDays).DateFree := ⟨⟨rfl, rfl, rfl, trivial⟩, trivial⟩
  have hcompile : compile none meetingDefinition = .ok (treeOf meetingDefinition) := rfl
  have hread : plannedDays.map Value.asDate? = readDays.map some := by decide +kernel
  have hscalar : Scalar.ofText "date" = ⟨.date, false, none⟩ := by decide
  have haccepted : validate (treeOf meetingDefinition) (meeting plannedDays) false =
      .accepted (meeting (readDays.map DateReading.toValue)) := by
    simp only [plannedDays, readDays, List.map_cons, List.map_nil, List.cons.injEq] at hread
    obtain ⟨hweek, hmillis, htime, -⟩ := hread
    simp [validate, treeOf, fieldTrees, meetingDefinition, meeting, plannedDays, readDays, hscalar,
      Node.visit, Node.visitFields, visitItems, Value.fieldOrNull, Value.lookup?, Scalar.check,
      Scalar.checkBase, hweek, hmillis, htime, bind, Except.bind]
  exact validate_sent_data hcompile hdistinct hfree haccepted true

end Extraction
