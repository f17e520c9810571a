import LayeredConfig.Proofs.Float.Conversion
import Mathlib.Tactic.Linarith

/-!
# Rounding to nearest

A quotient is rounded to the code whose magnitude is nearest to it, and to the
even one of two that are equally near.  Nothing else is nearest, so what a number
is converted to is known by being nearest to it.
-/

namespace LayeredConfig

namespace Format

variable {f : Format} {a b code other : Nat}

/-- How far the magnitude of a code is from `a / b` units, times `b`. -/
def distance (f : Format) (a b code : Nat) : Nat := ((f.units code * b : Nat) - a : Int).natAbs

/-- No code is nearer to `a / b` units, and one that is as near makes this one
even. -/
structure IsNearest (f : Format) (a b code : Nat) : Prop where
  le : ∀ other, f.distance a b code ≤ f.distance a b other
  even : ∀ other, other ≠ code → f.distance a b other = f.distance a b code → code % 2 = 0

/-! ## The order of codes -/

/-- The code of a significand and a shift; a significand with one bit more is
the first one of the next shift. -/
theorem units_significand {shift t : Nat} (hlow : shift = 0 ∨ f.leading ≤ t)
    (hhigh : t ≤ 2 * f.leading) : f.units (shift * f.leading + t) = t * 2 ^ shift := by
  rcases Nat.lt_or_eq_of_le hhigh with hlt | rfl
  · rcases hlow with rfl | hlow
    · simpa using units_of_lt hlt
    · exact units_shifted shift hlow hlt
  · have hcode : shift * f.leading + 2 * f.leading = (shift + 1) * f.leading + f.leading := by ring
    have hpos := f.leading_pos
    rw [hcode, units_shifted (shift + 1) (Nat.le_refl _) (by omega)]
    ring

/-- Every code is that of a significand and a shift. -/
theorem exists_shift (f : Format) (code : Nat) : ∃ shift t, code = shift * f.leading + t ∧
    (shift = 0 ∨ f.leading ≤ t) ∧ t < 2 * f.leading := by
  have hpos := f.leading_pos
  by_cases hlow : code < f.leading
  · exact ⟨0, code, by omega, Or.inl rfl, by omega⟩
  · have hmod := Nat.mod_lt code hpos
    have hdiv : 0 < code / f.leading := Nat.div_pos (Nat.le_of_not_lt hlow) hpos
    obtain ⟨shift, hshift⟩ := Nat.exists_eq_add_of_le hdiv
    refine ⟨shift, f.leading + code % f.leading, ?_, Or.inr (by omega), by omega⟩
    have hcode := Nat.div_add_mod' code f.leading
    rw [hshift] at hcode
    linarith

theorem units_strictMono (f : Format) : StrictMono f.units := by
  refine strictMono_nat_of_lt_succ fun code ↦ ?_
  obtain ⟨shift, t, rfl, hlow, hhigh⟩ := f.exists_shift code
  rw [Nat.add_assoc, units_significand hlow (by omega),
    units_significand (hlow.imp_right fun h ↦ by omega) (by omega)]
  exact Nat.mul_lt_mul_of_pos_right (Nat.lt_succ_self t) (Nat.two_pow_pos shift)

/-! ## The nearest code -/

/-- A quotient to nearest is no more than a half away, and even if it is a half
away. -/
theorem halfEven_bounds (a : Nat) {d : Nat} (hd : 0 < d) :
    2 * (halfEven a d * d) ≤ 2 * a + d ∧ 2 * a ≤ 2 * (halfEven a d * d) + d ∧
      (2 * (halfEven a d * d) = 2 * a + d ∨ 2 * a = 2 * (halfEven a d * d) + d →
        halfEven a d % 2 = 0) := by
  have ha := Nat.div_add_mod' a d
  have hmod := Nat.mod_lt a hd
  have hsucc := Nat.succ_mul (a / d) d
  unfold halfEven
  split_ifs with hbelow habove
  · omega
  · rw [hsucc]
    omega
  · rcases Nat.mod_two_eq_zero_or_one (a / d) with heven | hodd
    · rw [heven, Nat.add_zero]
      omega
    · rw [hodd, hsucc]
      omega

/-- The shift leaves a quotient of as many bits as the format has, or of fewer
if it is zero. -/
theorem shift_bounds (hprecision : 0 < f.precision) (hb : 0 < b) {shift : Nat}
    (hshift : (a / b).log2 + 1 - f.precision = shift) :
    (shift = 0 ∨ f.leading * (b * 2 ^ shift) ≤ a) ∧ a < 2 * f.leading * (b * 2 ^ shift) := by
  have hquotient : a / b < 2 ^ (f.precision + shift) :=
    Nat.lt_of_lt_of_le Nat.lt_log2_self (Nat.pow_le_pow_right (by decide) (by omega))
  constructor
  · rcases Nat.eq_zero_or_pos shift with hzero | hpos
    · exact Or.inl hzero
    · have hlog : f.precision - 1 + shift = (a / b).log2 := by omega
      have hnonzero : a / b ≠ 0 := by
        intro hzero
        simp only [hzero, Nat.log2_zero] at hshift
        omega
      have hlarge : 2 ^ (f.precision - 1 + shift) ≤ a / b := hlog ▸ Nat.log2_self_le hnonzero
      refine Or.inr ?_
      calc f.leading * (b * 2 ^ shift) = 2 ^ (f.precision - 1 + shift) * b := by
            rw [leading_eq, Nat.pow_add]
            ring
        _ ≤ a := (Nat.le_div_iff_mul_le hb).mp hlarge
  · calc a < 2 ^ (f.precision + shift) * b := (Nat.div_lt_iff_lt_mul hb).mp hquotient
      _ = 2 * f.leading * (b * 2 ^ shift) := by
          rw [two_mul_leading hprecision, Nat.pow_add]
          ring

theorem halfEven_le {n d : Nat} (hd : 0 < d) (h : a ≤ n * d) : halfEven a d ≤ n := by
  obtain ⟨hle, -, -⟩ := halfEven_bounds a hd
  by_contra! hlt
  have hmul : (n + 1) * d ≤ halfEven a d * d := Nat.mul_le_mul_right d hlt
  rw [Nat.succ_mul] at hmul
  omega

theorem le_halfEven {n d : Nat} (hd : 0 < d) (h : n * d ≤ a) : n ≤ halfEven a d := by
  obtain ⟨-, hge, -⟩ := halfEven_bounds a hd
  by_contra! hlt
  have hmul : (halfEven a d + 1) * d ≤ n * d := Nat.mul_le_mul_right d hlt
  rw [Nat.succ_mul] at hmul
  omega

/-- The magnitudes after that of a significand are at least one step away. -/
theorem units_above {shift t : Nat} (hlow : shift = 0 ∨ f.leading ≤ t) (hhigh : t ≤ 2 * f.leading)
    (hother : shift * f.leading + t < other) : (t + 1) * 2 ^ shift ≤ f.units other := by
  refine le_trans ?_ (f.units_strictMono.monotone hother)
  rcases Nat.lt_or_eq_of_le hhigh with hlt | rfl
  · rw [Nat.succ_eq_add_one, Nat.add_assoc,
      units_significand (hlow.imp_right fun h ↦ Nat.le_succ_of_le h) hlt]
  · -- The next significand is the second one of the next shift.
    have hpos := f.leading_pos
    have hcode : shift * f.leading + 2 * f.leading + 1 =
        (shift + 1) * f.leading + (f.leading + 1) := by ring
    rw [Nat.succ_eq_add_one, hcode, units_significand (Or.inr (Nat.le_succ _)) (by omega),
      Nat.pow_succ', ← Nat.mul_assoc]
    exact Nat.mul_le_mul_right _ (by omega)

/-- So are the ones before it, unless it is the first significand of its shift. -/
theorem units_below {shift t : Nat} (hlow : shift = 0 ∨ f.leading < t) (hhigh : t ≤ 2 * f.leading)
    (hother : other < shift * f.leading + t) : f.units other + 2 ^ shift ≤ t * 2 ^ shift := by
  obtain ⟨n, rfl⟩ : ∃ n, t = n + 1 := by
    refine Nat.exists_eq_succ_of_ne_zero ?_
    rintro rfl
    rcases hlow with rfl | hlow <;> omega
  have hmono := f.units_strictMono.monotone (show other ≤ shift * f.leading + n by omega)
  rw [units_significand (hlow.imp_right fun h ↦ by omega) (by omega)] at hmono
  rw [Nat.succ_mul]
  omega

theorem significand_mod_two (hprecision : 2 ≤ f.precision) (shift t : Nat) :
    (shift * f.leading + t) % 2 = t % 2 := by
  obtain ⟨more, hmore⟩ := Nat.exists_eq_add_of_le hprecision
  have hleading : f.leading = 2 * 2 ^ more := by
    rw [leading_eq, hmore, ← Nat.pow_succ']
    congr 1
    omega
  rw [hleading, Nat.mul_left_comm]
  omega

section Neighbours

variable {shift t : Nat}

theorem above_significand (hlow : shift = 0 ∨ f.leading ≤ t) (hhigh : t ≤ 2 * f.leading)
    (hother : shift * f.leading + t < other) :
    t * (b * 2 ^ shift) + b * 2 ^ shift ≤ f.units other * b := by
  calc t * (b * 2 ^ shift) + b * 2 ^ shift = (t + 1) * 2 ^ shift * b := by ring
    _ ≤ f.units other * b := Nat.mul_le_mul_right b (units_above hlow hhigh hother)

/-- Before the first significand of a shift the steps are halved, but there the
number is not below the significand. -/
theorem below_significand (hb : 0 < b) (hlow : shift = 0 ∨ f.leading ≤ t)
    (hhigh : t ≤ 2 * f.leading) (hmin : shift = 0 ∨ f.leading * (b * 2 ^ shift) ≤ a)
    (hother : other < shift * f.leading + t) :
    f.units other * b + b * 2 ^ shift ≤ t * (b * 2 ^ shift) ∨
      f.units other * b < t * (b * 2 ^ shift) ∧ t * (b * 2 ^ shift) ≤ a := by
  by_cases hfirst : shift = 0 ∨ f.leading < t
  · left
    calc f.units other * b + b * 2 ^ shift = (f.units other + 2 ^ shift) * b := by ring
      _ ≤ t * 2 ^ shift * b := Nat.mul_le_mul_right b (units_below hfirst hhigh hother)
      _ = t * (b * 2 ^ shift) := by ring
  · right
    push Not at hfirst
    obtain rfl : t = f.leading := by
      have := hlow.resolve_left hfirst.1
      omega
    refine ⟨?_, hmin.resolve_left hfirst.1⟩
    calc f.units other * b < f.units (shift * f.leading + f.leading) * b :=
          Nat.mul_lt_mul_of_pos_right (f.units_strictMono hother) hb
      _ = f.leading * (b * 2 ^ shift) := by
          rw [units_significand hlow hhigh]
          ring

end Neighbours

/-- A number is rounded to the code of the nearest magnitude, and to the even one
of two that are equally near. -/
theorem round_isNearest (hprecision : 2 ≤ f.precision) (hb : 0 < b) :
    f.IsNearest a b (f.round a b) := by
  obtain ⟨shift, hshift⟩ : ∃ shift, (a / b).log2 + 1 - f.precision = shift := ⟨_, rfl⟩
  have hround : f.round a b = shift * f.leading + halfEven a (b * 2 ^ shift) := by
    rw [round, hshift, Nat.pow_eq]
  have hd : 0 < b * 2 ^ shift := Nat.mul_pos hb (Nat.two_pow_pos shift)
  obtain ⟨hmin, hmax⟩ := shift_bounds (by omega) hb hshift
  have hlow : shift = 0 ∨ f.leading ≤ halfEven a (b * 2 ^ shift) :=
    hmin.imp_right (le_halfEven hd)
  have hhigh : halfEven a (b * 2 ^ shift) ≤ 2 * f.leading := halfEven_le hd hmax.le
  obtain ⟨hle, hge, heven⟩ := halfEven_bounds a hd
  rw [hround]
  generalize halfEven a (b * 2 ^ shift) = t at *
  have hunits : f.units (shift * f.leading + t) * b = t * (b * 2 ^ shift) := by
    rw [units_significand hlow hhigh]
    ring
  have habove : ∀ other, shift * f.leading + t < other →
      t * (b * 2 ^ shift) + b * 2 ^ shift ≤ f.units other * b :=
    fun other ↦ above_significand hlow hhigh
  have hbelow : ∀ other, other < shift * f.leading + t →
      f.units other * b + b * 2 ^ shift ≤ t * (b * 2 ^ shift) ∨
        f.units other * b < t * (b * 2 ^ shift) ∧ t * (b * 2 ^ shift) ≤ a :=
    fun other ↦ below_significand hb hlow hhigh hmin
  generalize t * (b * 2 ^ shift) = m at *
  generalize b * 2 ^ shift = d at *
  have hdistance : ∀ other, other ≠ shift * f.leading + t →
      f.distance a b (shift * f.leading + t) ≤ f.distance a b other ∧
        (f.distance a b other = f.distance a b (shift * f.leading + t) → t % 2 = 0) := by
    intro other hne
    simp only [distance, hunits]
    rcases Nat.lt_or_gt_of_ne hne with hlt | hgt
    · have := hbelow other hlt
      omega
    · have := habove other hgt
      omega
  refine ⟨fun other ↦ ?_, fun other hne heq ↦ ?_⟩
  · by_cases hsame : other = shift * f.leading + t
    · rw [hsame]
    · exact (hdistance other hsame).1
  · rw [significand_mod_two hprecision]
    exact (hdistance other hne).2 heq

theorem IsNearest.not_lt {next : Nat} (hb : 0 < b) (hcode : f.IsNearest a b code)
    (hnext : f.IsNearest a b next) : ¬ code < next := by
  intro hlt
  have hequal := Nat.le_antisymm (hnext.le code) (hcode.le next)
  have hlower := hcode.le (code + 1)
  have hmono {c d : Nat} (h : c < d) : f.units c * b < f.units d * b :=
    Nat.mul_lt_mul_of_pos_right (f.units_strictMono h) hb
  have hstep := hmono (Nat.lt_add_one code)
  have heven := hcode.even next (by omega) hequal
  have heven' := hnext.even code (by omega) hequal.symm
  -- Two codes that are both even have another one between them, which is nearer.
  have hbetween := hmono (show code + 1 < next by omega)
  simp only [distance] at hequal hlower
  omega

/-- There is only one nearest code. -/
theorem IsNearest.unique {next : Nat} (hb : 0 < b) (hcode : f.IsNearest a b code)
    (hnext : f.IsNearest a b next) : code = next :=
  Nat.le_antisymm (Nat.not_lt.mp (hnext.not_lt hb hcode)) (Nat.not_lt.mp (hcode.not_lt hb hnext))

end Format

namespace Binary

variable {f g : Format}

/-- The number of another format that is nearest to this one.  A NaN keeps its origin
and an infinity its sign. -/
def RoundsTo : Binary f → Binary g → Prop
  | .nan origin, y => y = .nan origin
  | .infinite s, y => y = .infinite s
  | .finite s c, y => ∃ code, g.IsNearest (f.units c * g.one) f.one code ∧ y = ofCode g s code

/-- A number is rounded to the one that it is converted to, and to no other. -/
theorem roundsTo_iff (hprecision : 2 ≤ g.precision) {x : Binary f} {y : Binary g} :
    x.RoundsTo y ↔ y = x.convert g := by
  cases x with
  | nan origin => exact Iff.rfl
  | infinite s => exact Iff.rfl
  | finite s c =>
      have hnearest : g.IsNearest (f.units c * g.one) f.one (g.round (f.units c * g.one) f.one) :=
        Format.round_isNearest hprecision f.one_pos
      constructor
      · rintro ⟨code, hcode, rfl⟩
        rw [hcode.unique f.one_pos hnearest]
        rfl
      · rintro rfl
        exact ⟨_, hnearest, rfl⟩

end Binary

end LayeredConfig
