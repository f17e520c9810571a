import LayeredConfig.Duration
import Mathlib.Logic.Basic

/-!
# Calendar spans

Every count of microseconds is that of exactly one span in normal form, and becomes
that span if a calendar has so many days.  A count of nanoseconds loses what is below
a microsecond and nothing else.
-/

namespace LayeredConfig

namespace Span

/-- Seconds and microseconds do not fill the unit above them; there may be any number
of days. -/
structure IsNormal (s : Span) : Prop where
  seconds_lt : s.seconds < 86400
  microseconds_lt : s.microseconds < 1000000

/-- The span in normal form of a count of microseconds. -/
def normal (total : Int) : Span :=
  ⟨(total.fdiv 1000000).fdiv 86400, ((total.fdiv 1000000).fmod 86400).toNat,
    (total.fmod 1000000).toNat⟩

/-- A span as calendars have it: whole days within the limit, and less than a
day beyond them. -/
def isCalendar (s : Span) : Bool :=
  decide (s.days.natAbs ≤ dayLimit) && decide (s.seconds < 86400) &&
    decide (s.microseconds < 1000000)

theorem isCalendar_iff {s : Span} :
    s.isCalendar = true ↔ s.days.natAbs ≤ dayLimit ∧ s.IsNormal := by
  simp only [isCalendar, Bool.and_eq_true, decide_eq_true_eq, and_assoc]
  exact and_congr_right' ⟨fun h ↦ ⟨h.1, h.2⟩, fun h ↦ ⟨h.1, h.2⟩⟩

theorem normal_eq (total : Int) : normal total =
    ⟨total / 1000000 / 86400, (total / 1000000 % 86400).toNat, (total % 1000000).toNat⟩ := by
  simp only [normal, Int.fdiv_eq_ediv_of_nonneg _ (show (0 : Int) ≤ 86400 by decide),
    Int.fdiv_eq_ediv_of_nonneg _ (show (0 : Int) ≤ 1000000 by decide),
    Int.fmod_eq_emod_of_nonneg _ (show (0 : Int) ≤ 86400 by decide),
    Int.fmod_eq_emod_of_nonneg _ (show (0 : Int) ≤ 1000000 by decide)]

theorem normal_isNormal (total : Int) : (normal total).IsNormal := by
  rw [normal_eq]
  constructor
  · dsimp only
    omega
  · dsimp only
    omega

theorem toMicroseconds_normal (total : Int) : (normal total).toMicroseconds = total := by
  rw [normal_eq, toMicroseconds]
  dsimp only
  omega

/-- Each field is smaller than its unit, so division takes the fields apart again. -/
theorem normal_toMicroseconds {s : Span} (h : s.IsNormal) : normal s.toMicroseconds = s := by
  obtain ⟨days, seconds, microseconds⟩ := s
  obtain ⟨hseconds, hmicroseconds⟩ := h
  dsimp only at hseconds hmicroseconds
  have hwhole : ((days * 86400 + seconds) * 1000000 + microseconds) / 1000000 =
      days * 86400 + seconds := by omega
  simp only [normal_eq, toMicroseconds, hwhole, mk.injEq]
  omega

theorem normal_unique {s : Span} {total : Int} :
    s.IsNormal ∧ s.toMicroseconds = total ↔ s = normal total := by
  constructor
  · rintro ⟨hs, rfl⟩
    exact (normal_toMicroseconds hs).symm
  · rintro rfl
    exact ⟨normal_isNormal total, toMicroseconds_normal total⟩

theorem checkDays_eq_ok_iff {days checked : Int} :
    checkDays days = .ok checked ↔ days.natAbs ≤ dayLimit ∧ checked = days := by
  have hlimit : dayLimit = 999999999 := rfl
  unfold checkDays
  split
  · simp only [Bool.or_eq_true, decide_eq_true_eq] at *
    simp only [reduceCtorEq, false_iff]
    omega
  · split
    · simp only [reduceCtorEq, false_iff]
      omega
    · simp only [Except.ok.injEq, eq_comm]
      omega

theorem ofMicroseconds_eq_ok_iff {total : Int} {s : Span} :
    ofMicroseconds total = .ok s ↔ (normal total).days.natAbs ≤ dayLimit ∧ s = normal total := by
  have heq : ofMicroseconds total = (checkDays (normal total).days).map fun days ↦
      { normal total with days := days } := rfl
  rw [heq]
  cases hcheck : checkDays (normal total).days with
  | ok days =>
      obtain ⟨hdays, rfl⟩ := checkDays_eq_ok_iff.mp hcheck
      simp [Except.map, hdays, eq_comm]
  | error o =>
      have hdays : ¬ (normal total).days.natAbs ≤ dayLimit := by
        intro hdays
        rw [checkDays_eq_ok_iff.mpr ⟨hdays, rfl⟩] at hcheck
        cases hcheck
      simp [Except.map, hdays]

theorem ofMicroseconds_toMicroseconds {s : Span} (h : s.isCalendar = true) :
    ofMicroseconds s.toMicroseconds = .ok s := by
  obtain ⟨hdays, hnormal⟩ := isCalendar_iff.mp h
  rw [ofMicroseconds_eq_ok_iff, normal_toMicroseconds hnormal]
  exact ⟨hdays, rfl⟩

theorem toMicroseconds_of_ofMicroseconds {total : Int} {s : Span}
    (h : ofMicroseconds total = .ok s) : s.toMicroseconds = total := by
  rw [(ofMicroseconds_eq_ok_iff.mp h).2, toMicroseconds_normal]

end Span

namespace Duration

/-- The whole days of a span are no more than a calendar span can count. -/
def isCalendar (nanoseconds : Int) : Bool :=
  ((microseconds nanoseconds).fdiv 86400000000).natAbs ≤ Span.dayLimit

theorem isCalendar_iff {n : Int} :
    isCalendar n = true ↔ (Span.normal (microseconds n)).days.natAbs ≤ Span.dayLimit := by
  rw [isCalendar, decide_eq_true_iff, Span.normal_eq, Int.fdiv_eq_ediv_of_nonneg _ (by decide)]
  dsimp only
  omega

theorem exists_toSpan_iff {n : Int} : (∃ s, toSpan n = .ok s) ↔ isCalendar n = true := by
  rw [isCalendar_iff]
  constructor
  · rintro ⟨s, hs⟩
    exact (Span.ofMicroseconds_eq_ok_iff.mp hs).1
  · intro h
    exact ⟨_, Span.ofMicroseconds_eq_ok_iff.mpr ⟨h, rfl⟩⟩

theorem toSpan_ofSpan {s : Span} (h : s.isCalendar = true) : toSpan (ofSpan s) = .ok s := by
  rw [toSpan, microseconds, ofSpan, Int.mul_tdiv_cancel _ (by decide)]
  exact Span.ofMicroseconds_toMicroseconds h

theorem ofSpan_of_toSpan {n : Int} {s : Span} (h : toSpan n = .ok s) :
    ofSpan s = n.tdiv 1000 * 1000 := by
  rw [ofSpan, Span.toMicroseconds_of_ofMicroseconds h, microseconds]

theorem toSpan_eq_ok_iff {n : Int} {s : Span} : toSpan n = .ok s ↔
    s = Span.normal (microseconds n) ∧ -999999999 ≤ s.days ∧ s.days ≤ 999999999 := by
  rw [toSpan, Span.ofMicroseconds_eq_ok_iff, Span.dayLimit]
  constructor
  · rintro ⟨hdays, rfl⟩
    exact ⟨rfl, by omega, by omega⟩
  · rintro ⟨rfl, hlow, hhigh⟩
    exact ⟨by omega, rfl⟩

theorem exists_overflow_iff {n : Int} : (∃ o, toSpan n = .error o) ↔ ∀ s, toSpan n ≠ .ok s := by
  cases toSpan n <;> simp

/-- A calendar span comes back from its nanoseconds.  The whole microseconds of a
count of nanoseconds, toward zero, are those of exactly one span in normal form.  If
its days are beyond the limit there is no calendar span for the count; else it is the
one that is found, and has lost what was below a microsecond. -/
theorem toSpan_exact :
    (∀ s : Span, s.isCalendar = true → toSpan (ofSpan s) = .ok s) ∧
    ∀ n : Int, ∃ s : Span, (∀ t : Span, t.IsNormal ∧ t.toMicroseconds = n.tdiv 1000 ↔ t = s) ∧
      ((∃ o, toSpan n = .error o) ↔ ¬ (-999999999 ≤ s.days ∧ s.days ≤ 999999999)) ∧
      (-999999999 ≤ s.days ∧ s.days ≤ 999999999 →
        toSpan n = .ok s ∧ ofSpan s = n.tdiv 1000 * 1000) := by
  refine ⟨fun s hs ↦ toSpan_ofSpan hs, fun n ↦ ⟨Span.normal (n.tdiv 1000), ?_, ?_, ?_⟩⟩
  · exact fun t ↦ Span.normal_unique
  · rw [exists_overflow_iff]
    constructor
    · exact fun hnone hfits ↦ hnone _ (toSpan_eq_ok_iff.mpr ⟨rfl, hfits⟩)
    · rintro hbeyond s hs
      obtain ⟨rfl, hfits⟩ := toSpan_eq_ok_iff.mp hs
      exact hbeyond hfits
  · intro hfits
    have hok := toSpan_eq_ok_iff.mpr ⟨rfl, hfits⟩
    exact ⟨hok, ofSpan_of_toSpan hok⟩

/-- The first moment of the calendar comes back, and a microsecond earlier there is
none. -/
theorem toSpan_exact_first :
    toSpan (ofSpan ⟨-999999999, 0, 0⟩) = .ok ⟨-999999999, 0, 0⟩ ∧
    ∃ o, toSpan (ofSpan ⟨-999999999, 0, 0⟩ - 1000) = .error o := by
  refine ⟨toSpan_exact.1 ⟨-999999999, 0, 0⟩ (by decide), ?_⟩
  obtain ⟨s, hs, hoverflow, -⟩ := toSpan_exact.2 (ofSpan ⟨-999999999, 0, 0⟩ - 1000)
  obtain rfl : ⟨-1000000000, 86399, 999999⟩ = s := (hs _).mp ⟨⟨by decide, by decide⟩, by decide⟩
  exact hoverflow.mpr (by decide)

end Duration

end LayeredConfig
