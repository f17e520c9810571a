import LayeredConfig.Float.Binary
import Mathlib.Tactic.Ring

/-!
# Exact conversion

A magnitude that a format can hold is rounded to itself.  A format with more
bits holds every number of one with fewer, so a number is the same number after
it is converted to a wider format.
-/

namespace LayeredConfig

namespace Format

variable {f g : Format}

theorem leading_pos (f : Format) : 0 < f.leading := Nat.two_pow_pos _

theorem one_pos (f : Format) : 0 < f.one := Nat.two_pow_pos _

theorem leading_eq (f : Format) : f.leading = 2 ^ (f.precision - 1) := rfl

theorem two_mul_leading (h : 0 < f.precision) : 2 * f.leading = 2 ^ f.precision := by
  rw [leading_eq, ← Nat.pow_succ']
  congr 1
  omega

theorem halfEven_mul {n d : Nat} (hd : 0 < d) : halfEven (n * d) d = n := by
  simp [halfEven, Nat.mul_mod_left, Nat.mul_div_cancel n hd, hd]

/-! ## Codes and magnitudes -/

/-- The code of a significand that has its leading bit, and of its shift. -/
theorem units_shifted (shift : Nat) {t : Nat} (hlow : f.leading ≤ t) (hhigh : t < 2 * f.leading) :
    f.units (shift * f.leading + t) = t * 2 ^ shift := by
  obtain ⟨r, rfl⟩ := Nat.exists_eq_add_of_le hlow
  have hr : r < f.leading := by omega
  have hcode : shift * f.leading + (f.leading + r) = r + f.leading * (shift + 1) := by ring
  have hnot : ¬ r + f.leading * (shift + 1) < f.leading := by
    rw [Nat.mul_succ]
    omega
  rw [hcode, units, if_neg hnot, Nat.add_mul_mod_self_left, Nat.mod_eq_of_lt hr,
    Nat.add_mul_div_left _ _ f.leading_pos, Nat.div_eq_of_lt hr]
  simp

theorem units_of_lt {n : Nat} (hn : n < 2 * f.leading) : f.units n = n := by
  by_cases hlow : n < f.leading
  · rw [units, if_pos hlow]
  · have hunits := units_shifted (f := f) 0 (Nat.le_of_not_lt hlow) hn
    simpa using hunits

/-- The magnitude of a finite code is a significand with a shift that the
exponents of the format reach. -/
theorem exists_significand (hprecision : 0 < f.precision) (hwidth : 2 < 2 ^ f.exponentWidth)
    {code : Nat} (hcode : code < f.infinity) :
    ∃ m k, f.units code = m * 2 ^ k ∧ m < 2 ^ f.precision ∧ k + 2 < 2 ^ f.exponentWidth := by
  rw [← two_mul_leading hprecision]
  by_cases hlow : code < f.leading
  · exact ⟨code, 0, by rw [units, if_pos hlow, Nat.pow_zero, Nat.mul_one], by omega, by omega⟩
  · have hexponent : code / f.leading < 2 ^ f.exponentWidth - 1 :=
      (Nat.div_lt_iff_lt_mul f.leading_pos).mpr hcode
    have hmod := Nat.mod_lt code f.leading_pos
    exact ⟨_, _, by rw [units, if_neg hlow, Nat.pow_eq], by omega, by omega⟩

theorem significand_bounds (hprecision : 0 < f.precision) {t shift : Nat}
    (hshift : (t * 2 ^ shift).log2 + 1 - f.precision = shift) :
    t < 2 * f.leading ∧ (shift = 0 ∨ f.leading ≤ t) := by
  have htwo := two_mul_leading hprecision
  -- Both bounds follow from the number of bits in front of the shift.
  constructor
  · by_contra hbig
    have hlarge : 2 ^ (f.precision + shift) ≤ t * 2 ^ shift := by
      rw [Nat.pow_add]
      exact Nat.mul_le_mul_right _ (by omega)
    have hpow := Nat.two_pow_pos (f.precision + shift)
    rw [← Nat.le_log2 (by omega)] at hlarge
    omega
  · by_contra! hsmall
    obtain ⟨hshifted, hlow⟩ := hsmall
    have hnonzero : t * 2 ^ shift ≠ 0 := by
      intro hzero
      simp only [hzero, Nat.log2_zero] at hshift
      omega
    have hless : t * 2 ^ shift < 2 ^ (f.precision - 1 + shift) := by
      rw [Nat.pow_add]
      exact Nat.mul_lt_mul_of_pos_right hlow (Nat.two_pow_pos shift)
    rw [← Nat.log2_lt hnonzero] at hless
    omega

/-! ## Rounding -/

/-- A magnitude of no more bits than the format has, shifted by any number of
places, is rounded to a code of its own. -/
theorem round_exact (hprecision : 0 < f.precision) {m k d : Nat} (hm : m < 2 ^ f.precision)
    (hd : 0 < d) :
    f.units (f.round (m * 2 ^ k * d) d) = m * 2 ^ k ∧
      f.round (m * 2 ^ k * d) d < (k + 2) * f.leading := by
  simp only [round, Nat.mul_div_cancel _ hd]
  generalize hshift : (m * 2 ^ k).log2 + 1 - f.precision = shift
  -- The bits that rounding cuts off are among those of the shift.
  have hle : shift ≤ k := by
    rcases Nat.eq_zero_or_pos m with rfl | hpos
    · simp only [Nat.zero_mul, Nat.log2_zero] at hshift
      omega
    · have hlog : (m * 2 ^ k).log2 < f.precision + k := by
        rw [Nat.log2_lt (Nat.mul_pos hpos (Nat.two_pow_pos k)).ne', Nat.pow_add]
        exact Nat.mul_lt_mul_of_pos_right hm (Nat.two_pow_pos k)
      omega
  obtain ⟨rest, rfl⟩ := Nat.exists_eq_add_of_le hle
  have hvalue : m * 2 ^ (shift + rest) = m * 2 ^ rest * 2 ^ shift := by ring
  rw [hvalue] at hshift ⊢
  generalize m * 2 ^ rest = t at hshift ⊢
  obtain ⟨hhigh, hlow⟩ := significand_bounds hprecision hshift
  rw [Nat.pow_eq, Nat.mul_assoc, Nat.mul_comm (2 ^ shift),
    halfEven_mul (Nat.mul_pos hd (Nat.two_pow_pos shift))]
  constructor
  · rcases hlow with rfl | hlow
    · simpa using units_of_lt hhigh
    · exact units_shifted shift hlow hhigh
  · calc shift * f.leading + t < shift * f.leading + 2 * f.leading := by omega
      _ = (shift + 2) * f.leading := by ring
      _ ≤ (shift + rest + 2) * f.leading := Nat.mul_le_mul_right _ (by omega)

/-- Every finite number of the first format is one of the second. -/
structure Embeds (f g : Format) : Prop where
  precision_pos : 0 < f.precision
  width : 2 < 2 ^ f.exponentWidth
  precision_le : f.precision ≤ g.precision
  scale_le : f.scale ≤ g.scale
  exponents : 2 ^ f.exponentWidth + (g.scale - f.scale) ≤ 2 ^ g.exponentWidth

theorem single_embeds_double : single.Embeds double :=
  ⟨by decide, by decide, by decide, by decide, by decide⟩

/-- A magnitude of the first format, rounded in the second one. -/
theorem Embeds.round (h : f.Embeds g) {code : Nat} (hcode : code < f.infinity) :
    g.round (f.units code * g.one) f.one < g.infinity ∧
      g.units (g.round (f.units code * g.one) f.one) * f.one = f.units code * g.one := by
  obtain ⟨m, k, hunits, hm, hk⟩ := exists_significand h.precision_pos h.width hcode
  obtain ⟨more, hscale⟩ := Nat.exists_eq_add_of_le h.scale_le
  have hone : g.one = 2 ^ more * f.one := by
    rw [one, one, hscale, Nat.pow_eq, Nat.pow_eq, Nat.pow_add, Nat.mul_comm]
  have hm' : m < 2 ^ g.precision :=
    Nat.lt_of_lt_of_le hm (Nat.pow_le_pow_right (by decide) h.precision_le)
  have hvalue : f.units code * g.one = m * 2 ^ (k + more) * f.one := by
    rw [hunits, hone]
    ring
  obtain ⟨hexact, hbound⟩ := round_exact (k := k + more)
    (Nat.lt_of_lt_of_le h.precision_pos h.precision_le) hm' f.one_pos
  have hexponents := h.exponents
  rw [hvalue]
  refine ⟨Nat.lt_of_lt_of_le hbound (Nat.mul_le_mul_right _ ?_), by rw [hexact]⟩
  rw [Nat.pow_eq]
  omega

end Format

namespace Binary

variable {f g : Format}

/-- Numbers of two formats that are one number.  The two zeros are not, and a
NaN is the one of the same origin. -/
def Equals : Binary f → Binary g → Prop
  | .nan origin, .nan origin' => origin = origin'
  | .infinite s, .infinite t => s = t
  | .finite s c, .finite t d => s = t ∧ f.units c * g.one = g.units d * f.one
  | _, _ => False

theorem equals_convert (h : f.Embeds g) (x : Binary f) : x.Equals (x.convert g) := by
  cases x with
  | nan origin => rfl
  | infinite s => rfl
  | finite s c =>
      obtain ⟨hfinite, hunits⟩ := h.round c.isLt
      rw [convert, ofRatio, ofCode, dif_pos hfinite]
      exact ⟨rfl, hunits.symm⟩

end Binary

end LayeredConfig
