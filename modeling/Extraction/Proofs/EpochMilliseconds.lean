import Extraction.Proofs.DayNumbers
import Extraction.Proofs.RoundedRatios
import Extraction.Value.AsDate

/-!
Whole numbers of milliseconds read as dates. A number is divided into a double, whose whole part is
exact; the fraction is exact to the microsecond as long as the doubles lie close enough.
-/

namespace Extraction

open Number

namespace Calendar

/-! ### Instants -/

/-- The number of microseconds from 1970-01-01T00:00:00 to a date and time, whatever its offset. -/
def DateTime.sinceEpoch (t : DateTime) : Int :=
  (((t.date.dayNumber : Int) - Date.epoch) * 86400 +
    (t.time.hour * 3600 + t.time.minute * 60 + t.time.second : Nat)) * 1000000 + t.time.microsecond

theorem Time.of?_eq_some_iff {hour minute second microsecond : Nat} {t : Time} :
    Time.of? hour minute second microsecond = some t ↔
      t.hour = hour ∧ t.minute = minute ∧ t.second = second ∧ t.microsecond = microsecond := by
  unfold Time.of?
  constructor
  · intro h
    split at h
    · cases h
      exact ⟨rfl, rfl, rfl, rfl⟩
    · cases h
  · rintro ⟨rfl, rfl, rfl, rfl⟩
    exact dif_pos t.valid

namespace DateTime

variable {t : DateTime}

theorem ofEpoch?_eq_some_iff {seconds : Int} {microsecond : Nat} (h : microsecond < 1000000) :
    ofEpoch? seconds microsecond = some t ↔
      t.offset = some .utc ∧ t.sinceEpoch = seconds * 1000000 + microsecond := by
  obtain ⟨hhour, hminute, hsecond, hmicro⟩ := t.time.valid
  unfold ofEpoch? sinceEpoch
  dsimp only
  constructor
  · intro ht
    split at ht
    · cases ht
    · obtain ⟨date, hdate, ht⟩ := Option.bind_eq_some_iff.1 ht
      obtain ⟨time, htime, ht⟩ := Option.bind_eq_some_iff.1 ht
      obtain rfl := Option.some.inj ht
      rw [Date.ofDayNumber?_eq_some_iff] at hdate
      obtain ⟨h1, h2, h3, h4⟩ := Time.of?_eq_some_iff.1 htime
      refine ⟨rfl, ?_⟩
      simp only [hdate, h1, h2, h3, h4]
      omega
  · rintro ⟨hoffset, ht⟩
    have hdate : Date.ofDayNumber? (seconds / 86400 + Date.epoch).toNat = some t.date := by
      rw [Date.ofDayNumber?_eq_some_iff]
      omega
    have htime : Time.of? ((seconds % 86400).toNat / 3600) ((seconds % 86400).toNat / 60 % 60)
        ((seconds % 86400).toNat % 60) microsecond = some t.time := by
      rw [Time.of?_eq_some_iff]
      omega
    rw [if_neg (by omega), hdate, htime, ← hoffset]
    rfl

theorem ofParts?_eq_some_iff {negative : Bool} {whole micro : Nat} (h : micro < 1000000) :
    ofParts? negative whole micro = some t ↔ t.offset = some .utc ∧
      t.sinceEpoch = if negative then -(whole * 1000000 + micro : Int)
        else whole * 1000000 + micro := by
  unfold ofParts?
  rw [if_neg h.ne]
  cases negative with
  | false =>
    rw [if_pos (by decide), if_neg (by decide)]
    exact ofEpoch?_eq_some_iff h
  | true =>
    rw [if_neg (by decide), if_pos rfl]
    split_ifs with hzero
    · rw [ofEpoch?_eq_some_iff (by decide), hzero]
      refine and_congr_right fun _ => ?_
      omega
    · rw [ofEpoch?_eq_some_iff (by omega)]
      refine and_congr_right fun _ => ?_
      omega

theorem ofEpoch?_bounds {seconds : Int} {microsecond : Nat}
    (h : ofEpoch? seconds microsecond = some t) : -2 ^ 38 < seconds ∧ seconds < 2 ^ 38 := by
  unfold ofEpoch? at h
  dsimp only at h
  split at h
  · cases h
  · obtain ⟨date, hdate, -⟩ := Option.bind_eq_some_iff.1 h
    have hlast := date.dayNumber_lt
    rw [Date.ofDayNumber?_eq_some_iff] at hdate
    have hepoch : Date.epoch = 719468 := rfl
    omega

theorem ofParts?_bounds {negative : Bool} {whole micro : Nat}
    (h : ofParts? negative whole micro = some t) : whole < 2 ^ 38 := by
  unfold ofParts? at h
  split_ifs at h <;> have hbounds := ofEpoch?_bounds h <;> omega

/-- Dates and times lie less than `2 ^ 38` seconds from 1970. -/
theorem sinceEpoch_bounds (t : DateTime) :
    -2 ^ 38 * 1000000 < t.sinceEpoch ∧ t.sinceEpoch < 2 ^ 38 * 1000000 := by
  obtain ⟨hhour, hminute, hsecond, hmicro⟩ := t.time.valid
  have hlast := t.date.dayNumber_lt
  have hepoch : Date.epoch = 719468 := rfl
  unfold sinceEpoch
  omega

/-- If a date and time exists, so does any other that lies in the same second. -/
theorem exists_same_second (t : DateTime) {k : Int} (h : k / 1000000 = t.sinceEpoch / 1000000) :
    ∃ t' : DateTime, t'.offset = t.offset ∧ t'.sinceEpoch = k := by
  obtain ⟨hhour, hminute, hsecond, hmicro⟩ := t.time.valid
  refine ⟨⟨t.date, ⟨t.time.hour, t.time.minute, t.time.second, (k % 1000000).toNat,
    hhour, hminute, hsecond, by omega⟩, t.offset⟩, rfl, ?_⟩
  unfold sinceEpoch at h ⊢
  dsimp only
  omega

/-- In UTC there is one date and time for an instant. -/
theorem sinceEpoch_inj {t' : DateTime} (h : t.offset = some .utc) (h' : t'.offset = some .utc)
    (heq : t.sinceEpoch = t'.sinceEpoch) : t = t' := by
  have hparts : ∀ u : DateTime, u.offset = some .utc →
      ofEpoch? (u.sinceEpoch / 1000000) (u.sinceEpoch % 1000000).toNat = some u := fun u hu =>
    (ofEpoch?_eq_some_iff (by omega)).2 ⟨hu, by omega⟩
  have ht := hparts t h
  rw [heq, hparts t' h'] at ht
  exact (Option.some.inj ht).symm

end DateTime

/-! ### Fractions of a second -/

open Magnitude (unitsPerOne)

theorem microseconds_eq {f : Nat} {m : Magnitude}
    (h : Magnitude.round (f * 1000000) unitsPerOne = some m) :
    microseconds f = divRound m.units unitsPerOne := by
  rw [microseconds, h, Option.elim_some]

/-- The microseconds of a fraction are the nearest ones, but for the error of a product. -/
theorem microseconds_near {f : Nat} (hf : f < unitsPerOne) :
    2 ^ 34 * (microseconds f * unitsPerOne) ≤ 2 ^ 34 * (1000000 * f) + (2 ^ 33 + 1) * unitsPerOne ∧
      2 ^ 34 * (1000000 * f) ≤ 2 ^ 34 * (microseconds f * unitsPerOne) +
        (2 ^ 33 + 1) * unitsPerOne := by
  have hpos := Magnitude.unitsPerOne_pos
  have hround : Magnitude.round (f * 1000000) unitsPerOne ≠ none := by
    have hoverflow : 1000000 ≤ Magnitude.overflow := by decide +kernel
    rw [Ne, Magnitude.round_eq_none_iff hpos, Nat.not_le]
    calc f * 1000000 < unitsPerOne * 1000000 := Nat.mul_lt_mul_of_pos_right hf (by decide)
      _ ≤ unitsPerOne * Magnitude.overflow := Nat.mul_le_mul_left _ hoverflow
      _ = Magnitude.overflow * unitsPerOne := Nat.mul_comm _ _
  obtain ⟨m, hm⟩ := Option.ne_none_iff_exists'.1 hround
  obtain ⟨e, he, hunits⟩ := Magnitude.exists_unitsPerOne
  obtain ⟨c, rfl⟩ := Nat.exists_eq_add_of_le' he
  have hproduct : f * 1000000 * unitsPerOne < 2 ^ (53 + (c + 20)) * unitsPerOne := by
    refine Nat.mul_lt_mul_of_pos_right ?_ hpos
    calc f * 1000000 < 2 ^ (c + 53) * 2 ^ 20 := Nat.mul_lt_mul'' (hunits ▸ hf) (by decide)
      _ = 2 ^ (53 + (c + 20)) := by ring
  have hnear := Magnitude.round_near hpos hm hproduct
  have hcancel : ∀ {a b : Nat}, 2 * (a * unitsPerOne) ≤
      2 * (b * unitsPerOne) + 2 ^ (c + 20) * unitsPerOne → 2 * a ≤ 2 * b + 2 ^ (c + 20) := by
    intro a b h
    refine Nat.le_of_mul_le_mul_right ?_ hpos
    rwa [Nat.add_mul, Nat.mul_assoc, Nat.mul_assoc]
  have hlow := hcancel hnear.1
  have hhigh := hcancel hnear.2
  have hmicro := divRound_near m.units hpos
  have herror : 2 ^ 33 * 2 ^ (c + 20) = unitsPerOne := by rw [hunits]; ring
  rw [microseconds_eq hm]
  omega

/-! ### Milliseconds in doubles -/

/-- The double nearest to a number of milliseconds, in seconds. The number has `j` more binary
digits than a double has places for in steps of `2 ^ -20` seconds. -/
theorem millisecond_near {n j : Nat} (hn : n < 2 ^ (33 + j) * 1000) {m : Magnitude}
    (hm : Magnitude.round n 1000 = some m) :
    2 ^ 20 * (2 * (m.units * 1000)) ≤ 2 ^ 20 * (2 * (n * unitsPerOne)) +
        1000 * (2 ^ j * unitsPerOne) ∧
      2 ^ 20 * (2 * (n * unitsPerOne)) ≤ 2 ^ 20 * (2 * (m.units * 1000)) +
        1000 * (2 ^ j * unitsPerOne) := by
  obtain ⟨e, he, hunits⟩ := Magnitude.exists_unitsPerOne
  obtain ⟨c, rfl⟩ := Nat.exists_eq_add_of_le' he
  have hscaled : n * unitsPerOne < 2 ^ (53 + (33 + j + c)) * 1000 := by
    calc n * unitsPerOne < 2 ^ (33 + j) * 1000 * unitsPerOne :=
          Nat.mul_lt_mul_of_pos_right hn Magnitude.unitsPerOne_pos
      _ = 2 ^ (53 + (33 + j + c)) * 1000 := by rw [hunits]; ring
  have hnear := Magnitude.round_near (by decide) hm hscaled
  have herror : 2 ^ 20 * 2 ^ (33 + j + c) = 2 ^ j * unitsPerOne := by rw [hunits]; ring
  rw [← herror]
  omega

theorem mul_unitsPerOne_split (n : Nat) :
    n * unitsPerOne = 1000 * (n / 1000 * unitsPerOne) + n % 1000 * unitsPerOne := by
  rw [← Nat.mul_assoc, ← Nat.add_mul, Nat.div_add_mod]

/-- The whole seconds in a number of milliseconds are not lost. -/
theorem millisecond_seconds {n : Nat} (hn : n < 2 ^ 38 * 1000) {m : Magnitude}
    (hm : Magnitude.round n 1000 = some m) : m.units / unitsPerOne = n / 1000 := by
  have hpos := Magnitude.unitsPerOne_pos
  have hlow := Magnitude.whole_le_units (by decide) hm (k := n / 1000) (by omega)
    (Nat.div_mul_le_self n 1000)
  have hnear := (millisecond_near (j := 5) hn hm).1
  have hsplit := mul_unitsPerOne_split n
  have hrest : n % 1000 * unitsPerOne ≤ 999 * unitsPerOne :=
    Nat.mul_le_mul_right _ (Nat.le_of_lt_succ (Nat.mod_lt n (by decide)))
  refine Nat.div_eq_of_lt_le hlow ?_
  rw [Nat.succ_mul]
  omega

/-- The microseconds in a number of milliseconds, of whose seconds none is lost. -/
theorem millisecond_microseconds {n j : Nat} (hn : n < 2 ^ (33 + j) * 1000) {m : Magnitude}
    (hm : Magnitude.round n 1000 = some m) (hseconds : m.units / unitsPerOne = n / 1000) :
    2 ^ 34 * microseconds (m.units % unitsPerOne) ≤
        2 ^ 34 * (1000 * (n % 1000)) + (2 ^ 33 + 1 + 2 ^ 13 * 1000000 * 2 ^ j) ∧
      2 ^ 34 * (1000 * (n % 1000)) ≤ 2 ^ 34 * microseconds (m.units % unitsPerOne) +
        (2 ^ 33 + 1 + 2 ^ 13 * 1000000 * 2 ^ j) := by
  have hpos := Magnitude.unitsPerOne_pos
  have hnear := millisecond_near hn hm
  have hmicro := microseconds_near (Nat.mod_lt m.units hpos)
  have hunits : n / 1000 * unitsPerOne + m.units % unitsPerOne = m.units :=
    hseconds ▸ Nat.div_add_mod' m.units unitsPerOne
  rw [Nat.mul_left_comm, Nat.mul_comm _ 1000, mul_unitsPerOne_split] at hnear
  have hcancel : ∀ {a b : Nat}, 2 ^ 34 * (a * unitsPerOne) ≤ 2 ^ 34 * (b * unitsPerOne) +
      ((2 ^ 33 + 1) * unitsPerOne + 2 ^ 13 * 1000000 * (2 ^ j * unitsPerOne)) →
      2 ^ 34 * a ≤ 2 ^ 34 * b + (2 ^ 33 + 1 + 2 ^ 13 * 1000000 * 2 ^ j) := by
    intro a b h
    refine Nat.le_of_mul_le_mul_right ?_ hpos
    rwa [Nat.add_mul, Nat.add_mul, Nat.mul_assoc, Nat.mul_assoc, Nat.mul_assoc _ _ unitsPerOne]
  refine ⟨hcancel ?_, hcancel ?_⟩
  · rw [Nat.mul_assoc 1000]
    omega
  · rw [Nat.mul_assoc 1000]
    omega

namespace DateTime

theorem ofWholeMilliseconds?_eq {n : Int} {m : Magnitude}
    (hm : Magnitude.round n.natAbs 1000 = some m) :
    ofWholeMilliseconds? n = ofParts? (n < 0) (m.units / unitsPerOne : Nat)
      (microseconds (m.units % unitsPerOne)) := by
  rw [ofWholeMilliseconds?, Binary64.ofRatio_of_some _ hm, ofSeconds?, Int.natCast_ediv]

/-- Far from 1970 there are no dates. -/
theorem ofWholeMilliseconds?_far {n : Int} (h : 2 ^ 38 * 1000 ≤ n.natAbs) :
    ofWholeMilliseconds? n = none := by
  cases hm : Magnitude.round n.natAbs 1000 with
  | none =>
    rw [ofWholeMilliseconds?, Binary64.ofRatio_of_none _ hm]
    rfl
  | some m =>
    have hwhole := Magnitude.whole_le_units (by decide) hm (k := 2 ^ 38) (by decide) h
    have hseconds : 2 ^ 38 ≤ m.units / unitsPerOne :=
      (Nat.le_div_iff_mul_le Magnitude.unitsPerOne_pos).2 hwhole
    rw [ofWholeMilliseconds?_eq hm, Option.eq_none_iff_forall_ne_some]
    intro t ht
    exact absurd (ofParts?_bounds ht) (Nat.not_lt.2 hseconds)

/-- Near 1970 a number of milliseconds is read as an instant in the same second, which is the one
meant if it is a whole second or the doubles lie close enough. -/
theorem ofWholeMilliseconds?_near {n : Int} (h : n.natAbs < 2 ^ 38 * 1000) :
    ∃ k : Int, (∀ t, ofWholeMilliseconds? n = some t ↔ t.offset = some .utc ∧ t.sinceEpoch = k) ∧
      k / 1000000 = 1000 * n / 1000000 ∧ (k - 1000 * n).natAbs ≤ 15 ∧
      (n % 1000 = 0 ∨ n.natAbs ≤ 2 ^ 33 * 1000 → k = 1000 * n) := by
  have hround : Magnitude.round n.natAbs 1000 ≠ none := by
    have hoverflow : 2 ^ 38 ≤ Magnitude.overflow := by decide +kernel
    rw [Ne, Magnitude.round_eq_none_iff (by decide), Nat.not_le]
    exact h.trans_le (Nat.mul_le_mul_right _ hoverflow)
  obtain ⟨m, hm⟩ := Option.ne_none_iff_exists'.1 hround
  have hseconds := millisecond_seconds h hm
  have hpos := Magnitude.unitsPerOne_pos
  have hnear := millisecond_microseconds (j := 5) h hm hseconds
  have hwhole : n.natAbs % 1000 = 0 → microseconds (m.units % unitsPerOne) = 0 := by
    intro hrest
    have hle := Magnitude.units_le_whole (by decide) hm (k := n.natAbs / 1000) (by omega) (by omega)
    have hfraction : m.units % unitsPerOne = 0 := by
      have hdivmod := Nat.div_add_mod' m.units unitsPerOne
      rw [hseconds] at hdivmod
      omega
    have hzero := (microseconds_near (f := 0) hpos).1
    rw [hfraction]
    by_contra hne
    have hone := Nat.mul_le_mul_right unitsPerOne (Nat.one_le_iff_ne_zero.2 hne)
    omega
  have hclose : n.natAbs < 2 ^ 33 * 1000 →
      microseconds (m.units % unitsPerOne) = 1000 * (n.natAbs % 1000) := by
    intro hclose
    have hexact := millisecond_microseconds (j := 0) hclose hm hseconds
    omega
  generalize hmicro : microseconds (m.units % unitsPerOne) = micro at hnear hwhole hclose
  refine ⟨if decide (n < 0) = true then -((n.natAbs / 1000 : Nat) * 1000000 + micro : Int)
    else (n.natAbs / 1000 : Nat) * 1000000 + micro, fun t => ?_, ?_, ?_, ?_⟩
  · rw [ofWholeMilliseconds?_eq hm, hseconds, hmicro]
    exact ofParts?_eq_some_iff (by omega)
  · split_ifs with hneg <;> simp only [decide_eq_true_eq] at hneg <;> omega
  · split_ifs with hneg <;> simp only [decide_eq_true_eq] at hneg <;> omega
  · split_ifs with hneg <;> simp only [decide_eq_true_eq] at hneg <;> omega

end DateTime

end Calendar

open Calendar

/-- Milliseconds since 1970 are read as a date and time in UTC if there is one at that instant, and
are refused otherwise. The instant is exact for whole seconds and less than `2 ^ 33` seconds from
1970, and elsewhere at most 15 microseconds off. -/
theorem asDate?_milliseconds (n : Int) :
    (∀ t : DateTime, t.offset = some .utc → t.sinceEpoch = 1000 * n →
      ∃ t', Value.asDate? (.int n) = some (.dateTime t') ∧ t'.offset = some .utc ∧
        (t'.sinceEpoch - 1000 * n).natAbs ≤ 15 ∧
        (n % 1000 = 0 ∨ n.natAbs ≤ 2 ^ 33 * 1000 → t' = t)) ∧
    ((¬∃ t : DateTime, t.offset = some .utc ∧ t.sinceEpoch = 1000 * n) →
      Value.asDate? (.int n) = none) := by
  have hread : ∀ t, DateTime.ofWholeMilliseconds? n = some t →
      Value.asDate? (.int n) = some (.dateTime t) := by
    intro t ht
    rw [Value.asDate?, ht]
    rfl
  rcases Nat.lt_or_ge n.natAbs (2 ^ 38 * 1000) with hnear | hfar
  · obtain ⟨k, hk, hsecond, herror, hexact⟩ := DateTime.ofWholeMilliseconds?_near hnear
    constructor
    · intro t hutc ht
      obtain ⟨t', hoffset, ht'⟩ := t.exists_same_second (ht ▸ hsecond)
      rw [hutc] at hoffset
      refine ⟨t', hread t' ((hk t').2 ⟨hoffset, ht'⟩), hoffset, ht' ▸ herror, fun h => ?_⟩
      exact DateTime.sinceEpoch_inj hoffset hutc (by rw [ht', ht, hexact h])
    · intro hnone
      rw [Value.asDate?, Option.map_eq_none_iff, Option.eq_none_iff_forall_ne_some]
      intro t ht
      obtain ⟨hutc, ht⟩ := (hk t).1 ht
      obtain ⟨t', hoffset, ht'⟩ := t.exists_same_second (ht ▸ hsecond.symm)
      exact hnone ⟨t', hoffset.trans hutc, ht'⟩
  · constructor
    · intro t hutc ht
      have hbounds := t.sinceEpoch_bounds
      omega
    · intro _
      rw [Value.asDate?, DateTime.ofWholeMilliseconds?_far hfar]
      rfl

/-- The first millisecond behind `2 ^ 33` seconds loses a microsecond. -/
theorem millisecond_cut : ∃ t, Value.asDate? (.int 8589934592001) = some (.dateTime t) ∧
    t.time.microsecond = 999 ∧ t.sinceEpoch = 1000 * 8589934592001 - 1 :=
  ⟨⟨⟨2242, 3, 16, by decide⟩, ⟨12, 56, 32, 999, by decide⟩, some .utc⟩, by decide +kernel⟩

end Extraction
