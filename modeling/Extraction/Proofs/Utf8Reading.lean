import Extraction.Text.Utf8
import Mathlib.Data.List.Basic

/-!
UTF-8 that is read back. The octets of a text are read as the text, whatever stands behind them, and
no reading gives more characters than there are octets.
-/

namespace Extraction.Text

variable {bs : Octets} {b : UInt8} {bits n low high : Nat}

theorem toNat_octet (h : n < 256) : (UInt8.ofNat n).toNat = n :=
  UInt8.toNat_ofNat_of_lt' h

theorem toNat_tail (h : n < 0x40) : (UInt8.ofNat (n + 0x80)).toNat = n + 0x80 :=
  toNat_octet (by omega)

/-! ### Single octets -/

theorem readUtf8_ascii (h : n < 0x80) (bs : Octets) :
    readUtf8 none (UInt8.ofNat n :: bs) = Char.ofNat n :: readUtf8 none bs := by
  have hc : continuation n = some (0, 0x80, 0xBF) := if_pos h
  rw [readUtf8, toNat_octet (by omega), hc]
  rfl

theorem readUtf8_first (h : continuation b.toNat = some (n + 1, low, high)) :
    readUtf8 none (b :: bs) = readUtf8 (some ⟨leadBits b.toNat, n + 1, low, high⟩) bs := by
  rw [readUtf8, h]
  rfl

theorem readUtf8_inner (h : low ≤ b.toNat ∧ b.toNat ≤ high) :
    readUtf8 (some ⟨bits, n + 2, low, high⟩) (b :: bs) =
      readUtf8 (some ⟨bits * 64 + (b.toNat - 0x80), n + 1, 0x80, 0xBF⟩) bs := by
  simp [readUtf8, h]

theorem readUtf8_last (h : low ≤ b.toNat ∧ b.toNat ≤ high) :
    readUtf8 (some ⟨bits, 1, low, high⟩) (b :: bs) =
      Char.ofNat (bits * 64 + (b.toNat - 0x80)) :: readUtf8 none bs := by
  simp [readUtf8, h]

/-! ### Characters with several octets -/

variable {lead second third fourth : Nat}

/-- Two octets, given by the bits that each of them contributes. -/
theorem readUtf8_two (hlead : 2 ≤ lead) (hlead' : lead < 0x20) (hsecond : second < 0x40) :
    readUtf8 none (UInt8.ofNat (lead + 0xC0) :: UInt8.ofNat (second + 0x80) :: bs) =
      Char.ofNat (lead * 64 + second) :: readUtf8 none bs := by
  have hfirst : ∀ a < 0x20, 2 ≤ a → continuation (a + 0xC0) = some (1, 0x80, 0xBF) ∧
      leadBits (a + 0xC0) = a := by
    decide
  obtain ⟨hcontinuation, hbits⟩ := hfirst lead hlead' hlead
  have htoNat : (UInt8.ofNat (lead + 0xC0)).toNat = lead + 0xC0 := toNat_octet (by omega)
  have hsecond' := toNat_tail hsecond
  rw [readUtf8_first (htoNat ▸ hcontinuation), readUtf8_last (by omega), htoNat, hsecond', hbits,
    Nat.add_sub_cancel]

/-- Three octets. The first one decides which of the second ones are too small or stand for halves
of surrogate pairs. -/
theorem readUtf8_three (hlead : lead < 0x10) (hsecond : second < 0x40) (hthird : third < 0x40)
    (hlow : lead = 0 → 0x20 ≤ second) (hhigh : lead = 0xD → second < 0x20) :
    readUtf8 none (UInt8.ofNat (lead + 0xE0) :: UInt8.ofNat (second + 0x80) ::
        UInt8.ofNat (third + 0x80) :: bs) =
      Char.ofNat ((lead * 64 + second) * 64 + third) :: readUtf8 none bs := by
  have hfirst : ∀ a < 0x10, continuation (a + 0xE0) =
      some (2, if a = 0 then 0xA0 else 0x80, if a = 0xD then 0x9F else 0xBF) ∧
      leadBits (a + 0xE0) = a := by
    decide
  obtain ⟨hcontinuation, hbits⟩ := hfirst lead hlead
  have htoNat : (UInt8.ofNat (lead + 0xE0)).toNat = lead + 0xE0 := toNat_octet (by omega)
  have hsecond' := toNat_tail hsecond
  have hthird' := toNat_tail hthird
  rw [readUtf8_first (htoNat ▸ hcontinuation), readUtf8_inner (by split <;> split <;> omega),
    readUtf8_last (by omega), htoNat, hsecond', hthird', hbits, Nat.add_sub_cancel,
    Nat.add_sub_cancel]

theorem readUtf8_four (hlead : lead < 5) (hsecond : second < 0x40) (hthird : third < 0x40)
    (hfourth : fourth < 0x40) (hlow : lead = 0 → 0x10 ≤ second)
    (hhigh : lead = 4 → second < 0x10) :
    readUtf8 none (UInt8.ofNat (lead + 0xF0) :: UInt8.ofNat (second + 0x80) ::
        UInt8.ofNat (third + 0x80) :: UInt8.ofNat (fourth + 0x80) :: bs) =
      Char.ofNat (((lead * 64 + second) * 64 + third) * 64 + fourth) :: readUtf8 none bs := by
  have hfirst : ∀ a < 5, continuation (a + 0xF0) =
      some (3, if a = 0 then 0x90 else 0x80, if a = 4 then 0x8F else 0xBF) ∧
      leadBits (a + 0xF0) = a := by
    decide
  obtain ⟨hcontinuation, hbits⟩ := hfirst lead hlead
  have htoNat : (UInt8.ofNat (lead + 0xF0)).toNat = lead + 0xF0 := toNat_octet (by omega)
  have hsecond' := toNat_tail hsecond
  have hthird' := toNat_tail hthird
  have hfourth' := toNat_tail hfourth
  rw [readUtf8_first (htoNat ▸ hcontinuation), readUtf8_inner (by split <;> split <;> omega),
    readUtf8_inner (by omega), readUtf8_last (by omega), htoNat, hsecond', hthird', hfourth',
    hbits, Nat.add_sub_cancel, Nat.add_sub_cancel, Nat.add_sub_cancel]

/-! ### Texts -/

/-- The octets of a character are read as the character. -/
theorem readUtf8_utf8EncodeChar (c : Char) (bs : Octets) :
    readUtf8 none (String.utf8EncodeChar c ++ bs) = c :: readUtf8 none bs := by
  have hvalid : c.toNat < 0xD800 ∨ 0xDFFF < c.toNat ∧ c.toNat < 0x110000 := c.valid
  have hself : Char.ofNat c.toNat = c := Char.ofNat_toNat c
  unfold String.utf8EncodeChar
  change readUtf8 none ((if c.toNat ≤ _ then _ else _) ++ bs) = _
  rw [Char.toNat_val]
  generalize c.toNat = n at hvalid hself
  have hlast : n % 0x40 < 0x40 := Nat.mod_lt _ (by omega)
  have hmiddle : n / 64 % 0x40 < 0x40 := Nat.mod_lt _ (by omega)
  split
  · rw [← hself]
    exact readUtf8_ascii (by omega) bs
  split
  · have hlead : n / 64 % 0x20 < 0x20 := Nat.mod_lt _ (by omega)
    have hn : n / 64 % 0x20 * 64 + n % 0x40 = n := by omega
    rw [List.cons_append, List.cons_append, List.nil_append,
      readUtf8_two (by omega) hlead hlast, hn, hself]
  split
  · have hlead : n / 4096 % 0x10 < 0x10 := Nat.mod_lt _ (by omega)
    have hn : (n / 4096 % 0x10 * 64 + n / 64 % 0x40) * 64 + n % 0x40 = n := by omega
    rw [List.cons_append, List.cons_append, List.cons_append, List.nil_append,
      readUtf8_three hlead hmiddle hlast (by omega) (by omega), hn, hself]
  · have hlead : n / 262144 % 0x08 < 5 := by omega
    have hsecond : n / 4096 % 0x40 < 0x40 := Nat.mod_lt _ (by omega)
    have hn : ((n / 262144 % 0x08 * 64 + n / 4096 % 0x40) * 64 + n / 64 % 0x40) * 64 + n % 0x40 =
        n := by omega
    rw [List.cons_append, List.cons_append, List.cons_append, List.cons_append, List.nil_append,
      readUtf8_four hlead hsecond hmiddle hlast (by omega) (by omega), hn, hself]

/-- The octets of a text are read as the text. -/
theorem readUtf8_flatMap (cs : List Char) (bs : Octets) :
    readUtf8 none (cs.flatMap String.utf8EncodeChar ++ bs) = cs ++ readUtf8 none bs := by
  induction cs with
  | nil => rfl
  | cons c cs ih =>
    rw [List.flatMap_cons, List.append_assoc, readUtf8_utf8EncodeChar, ih, List.cons_append]

/-- An octet that does not go on with a character starts anew. -/
theorem readUtf8_broken {p : Pending} (h : ¬(p.low ≤ b.toNat ∧ b.toNat ≤ p.high)) :
    readUtf8 (some p) (b :: bs) = replacement :: readUtf8 none (b :: bs) := by
  rw [readUtf8, if_neg (by simpa using h), readUtf8]

/-- A reading gives at most one character for an octet, and one more if a character has begun. -/
theorem length_readUtf8_le (pending : Option Pending) (bs : Octets) :
    (readUtf8 pending bs).length ≤ bs.length + (if pending.isSome then 1 else 0) := by
  induction bs generalizing pending with
  | nil => cases pending <;> simp [readUtf8]
  | cons b bs ih =>
    have hnone : (readUtf8 none bs).length ≤ bs.length := ih none
    have hsome : ∀ p, (readUtf8 (some p) bs).length ≤ bs.length + 1 := fun p => ih (some p)
    have hfirst : (readUtf8 none (b :: bs)).length ≤ bs.length + 1 := by
      rw [readUtf8]
      split
      · exact Nat.succ_le_succ hnone
      · exact Nat.succ_le_succ hnone
      · exact hsome _
    cases pending with
    | none => exact hfirst
    | some p =>
      by_cases hrange : p.low ≤ b.toNat ∧ b.toNat ≤ p.high
      · rw [readUtf8, if_pos (by simpa using hrange)]
        dsimp only
        split
        · exact Nat.succ_le_succ (Nat.le_succ_of_le hnone)
        · exact Nat.le_succ_of_le (hsome _)
      · rw [readUtf8_broken hrange]
        exact Nat.succ_le_succ hfirst

end Extraction.Text
