import Extraction.Proofs.DoubleRange
import Extraction.Proofs.ReadLeaves
import Extraction.Proofs.Trimming
import Extraction.Reply

/-!
The numbers in replies. What is read from a reply holds no number but those that are written in it.
They are finite unless one is written that lies beyond the range of doubles, which is read as an
infinity.
-/

namespace Extraction

open Number

namespace Json

/-- The number that a numeral stands for, without its sign. -/
def Numeral.magnitude (n : Numeral) : ℚ :=
  n.digits * 10 ^ n.power

theorem Numeral.double_isFinite (n : Numeral) :
    n.double.isFinite = true ↔ n.magnitude < Magnitude.overflow :=
  Binary64.ofDecimal_isFinite n.negative n.digits n.power

/-- What is read from a text without the names of numbers is finite, if no numeral in the text lies
beyond the range of doubles. -/
theorem readChars_allFinite {text : List Char} {v : Value} (h : readChars false text = .ok v)
    (hrange : ∀ n : Numeral, n.chars <:+: text → n.magnitude < Magnitude.overflow) :
    v.allFinite = true := by
  refine Value.allFinite_iff_allLeaves.2 ((readChars_leaves h).imp fun leaf hleaf => ?_)
  cases leaf with
  | float x =>
    obtain ⟨n, hn, rfl⟩ := hleaf.resolve_left Bool.false_ne_true
    exact n.double_isFinite.2 (hrange n hn)
  | array | object => exact hleaf.elim
  | _ => rfl

end Json

namespace Reply

/-- The JSON text of a reply is part of the reply. -/
theorem body_isInfix (cs : List Char) : body cs <:+: cs := by
  have hclosing : ∀ cs, withoutClosing cs <+: cs := by
    intro cs
    unfold withoutClosing dropLast
    dsimp only
    split
    · exact (List.take_prefix _ _).trans (Text.trimRightChars_isPrefix cs)
    · exact List.prefix_refl cs
  have hfirst : ∀ cs, behindFirstLine cs <:+ cs := fun cs =>
    (List.drop_suffix _ _).trans (List.dropWhile_suffix _)
  unfold body
  dsimp only
  split
  · exact ((hclosing _).isInfix.trans (hfirst _).isInfix).trans (Text.trimChars_isInfix cs)
  · exact Text.trimChars_isInfix cs

theorem read_error {raw : String} {f : Failure} (h : read raw = .error f) :
    f = .unreadableReply raw := by
  unfold read at h
  split at h
  · cases h
  · exact (Except.error.inj h).symm

theorem read_ok {raw : String} {v : Value} (h : read raw = .ok v) :
    Json.readChars false (body raw.toList) = .ok v := by
  unfold read at h
  split at h
  · rename_i hread
    cases h
    exact hread
  · cases h

end Reply

/-- A reply that is no JSON is reported as it came. In what is read from a reply every double is
that of a numeral in the reply, and is finite exactly if the numeral lies within the range of
doubles; so all numbers are finite unless one is written that lies beyond. -/
theorem reply_numbers (raw : String) :
    (∀ f, Reply.read raw = .error f → f = .unreadableReply raw) ∧
    ∀ v, Reply.read raw = .ok v →
      (v.AllLeaves fun leaf => ∀ x, leaf = .float x →
        ∃ n : Json.Numeral, n.chars <:+: raw.toList ∧ x = n.double ∧
          (x.isFinite = true ↔ n.magnitude < Magnitude.overflow)) ∧
      ((∀ n : Json.Numeral, n.chars <:+: raw.toList → n.magnitude < Magnitude.overflow) →
        v.allFinite = true) := by
  refine ⟨fun f h => Reply.read_error h, fun v h => ⟨?_, fun hrange => ?_⟩⟩
  · have hbody := Reply.body_isInfix raw.toList
    refine (Json.readChars_leaves (Reply.read_ok h)).imp fun leaf hleaf x hx => ?_
    subst hx
    obtain ⟨n, hn, rfl⟩ := hleaf.resolve_left Bool.false_ne_true
    exact ⟨n, hn.trans hbody, rfl, n.double_isFinite⟩
  · exact Json.readChars_allFinite (Reply.read_ok h) fun n hn =>
      hrange n (hn.trans (Reply.body_isInfix raw.toList))

/-- A numeral beyond the range of doubles. -/
theorem numeral_beyond_range : Reply.read "-1e999" = .ok (.float (.infinite true)) ∧
    ∃ n : Json.Numeral, n.chars <:+: "-1e999".toList ∧ ¬n.magnitude < Magnitude.overflow := by
  have hread : Reply.read "-1e999" = .ok (.float (.infinite true)) := rfl
  obtain ⟨n, hn, -, hfinite⟩ := ((reply_numbers "-1e999").2 _ hread).1 _ rfl
  exact ⟨hread, n, hn, fun h => Bool.false_ne_true (hfinite.2 h)⟩

/-- In a list, and inside a fence, it is read all the same. -/
theorem infinity_read : Reply.read "\x60\x60\x60json\n[1e999]\n\x60\x60\x60" =
    .ok (.array [.float (.infinite false)]) ∧
    (Value.array [.float (.infinite false)]).allFinite = false :=
  ⟨rfl, rfl⟩

end Extraction
