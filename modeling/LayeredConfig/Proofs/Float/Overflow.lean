import LayeredConfig.Decimal.Numeral
import LayeredConfig.Proofs.Float.Rounding
import Mathlib.Algebra.Field.Rat
import Mathlib.Algebra.Order.Field.Power
import Mathlib.Tactic.NormNum

/-!
# Overflow

The pattern of codes goes on beyond the finite ones, so a number is rounded to an
infinity exactly if it is not below the middle between the largest finite number
and the magnitude that would come after it.  Decimal and binary numerals are read
to infinities at that limit as well, those included whose exponents are so large
that no power is computed.
-/

namespace LayeredConfig

namespace Format

/-- A format with a bit behind the leading one and with two bits of exponent. -/
structure Regular (f : Format) : Prop where
  precision : 2 ≤ f.precision
  width : 2 ≤ f.exponentWidth

theorem double_regular : double.Regular := ⟨by decide, by decide⟩

theorem single_regular : single.Regular := ⟨by decide, by decide⟩

/-- The numbers from here on are rounded to an infinity. -/
def limit (f : Format) : ℚ := 2 ^ f.exponentLimit - 2 ^ ((f.exponentLimit : ℤ) - f.precision - 1)

variable {f : Format} {a b code : Nat}

/-- The middle between the largest finite magnitude and the one after it, in half
units. -/
def middle (f : Format) : Nat := f.units (f.infinity - 1) + f.units f.infinity

namespace Regular

variable (h : f.Regular)
include h

theorem two_le_exponentLimit : 2 ≤ f.exponentLimit := by
  obtain ⟨more, hmore⟩ := Nat.exists_eq_add_of_le h.width
  have hpos := Nat.two_pow_pos more
  have hlimit : f.exponentLimit = 2 * 2 ^ more := by
    rw [exponentLimit, Nat.pow_eq, hmore, ← Nat.pow_succ']
    congr 1
    omega
  omega

theorem infinity_eq : f.infinity = (2 * f.exponentLimit - 3) * f.leading + 2 * f.leading := by
  have hlimit : 2 * f.exponentLimit = 2 ^ f.exponentWidth := by
    have hwidth := h.width
    rw [exponentLimit, Nat.pow_eq, ← Nat.pow_succ']
    congr 1
    omega
  have htwo := h.two_le_exponentLimit
  rw [infinity, Nat.pow_eq, ← hlimit, ← Nat.add_mul]
  congr 1
  omega

theorem infinity_pos : 0 < f.infinity := by
  have hpos := f.leading_pos
  rw [h.infinity_eq]
  omega

theorem infinity_even : f.infinity % 2 = 0 := by
  obtain ⟨more, hmore⟩ := Nat.exists_eq_add_of_le h.precision
  have hleading : f.leading = 2 * 2 ^ more := by
    rw [leading_eq, hmore, ← Nat.pow_succ']
    congr 1
    omega
  rw [h.infinity_eq, hleading, Nat.mul_left_comm]
  omega

/-- A nearest code is infinite from the middle on. -/
theorem infinity_le_iff (hb : 0 < b) (hcode : f.IsNearest a b code) :
    f.infinity ≤ code ↔ f.middle * b ≤ 2 * a := by
  have hpos := h.infinity_pos
  have heven := h.infinity_even
  have hmono {c d : Nat} (hle : c ≤ d) : f.units c * b ≤ f.units d * b :=
    Nat.mul_le_mul_right b (f.units_strictMono.monotone hle)
  have hlast : f.units (f.infinity - 1) * b < f.units f.infinity * b :=
    Nat.mul_lt_mul_of_pos_right (f.units_strictMono (by omega)) hb
  rw [middle, Nat.add_mul]
  constructor
  · intro hle
    have hnearest := hcode.le (f.infinity - 1)
    have hmagnitude := hmono hle
    simp only [distance] at hnearest
    omega
  · intro hmiddle
    by_contra! hlt
    have hnearest := hcode.le f.infinity
    have hmagnitude := hmono (show code ≤ f.infinity - 1 by omega)
    -- In the middle the even code is the nearest one, and the last finite code is odd.
    have htie := hcode.even f.infinity (by omega)
    have hsmaller : code ≠ f.infinity - 1 → f.units code * b < f.units (f.infinity - 1) * b :=
      fun hne ↦ Nat.mul_lt_mul_of_pos_right (f.units_strictMono (by omega)) hb
    simp only [distance] at hnearest htie
    omega

theorem middle_eq : (f.middle : ℚ) = 2 * f.one * f.limit := by
  have hprecision := h.precision
  have htwo := h.two_le_exponentLimit
  have hleading := f.leading_pos
  have hsum : f.middle = (4 * f.leading - 1) * 2 ^ (2 * f.exponentLimit - 3) := by
    have hlast : f.infinity - 1 =
        (2 * f.exponentLimit - 3) * f.leading + (2 * f.leading - 1) := by
      have hinfinity := h.infinity_eq
      omega
    rw [middle, hlast, h.infinity_eq, units_significand (Or.inr (by omega)) (by omega),
      units_significand (Or.inr (by omega)) le_rfl, ← Nat.add_mul]
    congr 1
    omega
  have hcast : ((4 * f.leading - 1 : ℕ) : ℚ) = 2 ^ ((f.precision : ℤ) + 1) - 1 := by
    have hfour : 4 * f.leading = 2 ^ (f.precision + 1) := by
      rw [Nat.pow_succ', ← two_mul_leading (by omega)]
      omega
    rw [hfour, Nat.cast_sub Nat.one_le_two_pow]
    norm_cast
  have hshift : ((2 ^ (2 * f.exponentLimit - 3) : ℕ) : ℚ) =
      2 ^ (2 * (f.exponentLimit : ℤ) - 3) := by
    rw [Nat.cast_pow, ← zpow_natCast, Nat.cast_sub (by omega)]
    push_cast
    rfl
  have hone : (f.one : ℚ) = 2 ^ ((f.exponentLimit : ℤ) + f.precision - 3) := by
    rw [one, Nat.pow_eq, Nat.cast_pow, ← zpow_natCast, scale, Nat.cast_sub (by omega)]
    push_cast
    rfl
  rw [hsum, Nat.cast_mul, hcast, hshift, hone, limit, ← zpow_natCast]
  have hne : (2 : ℚ) ≠ 0 := by decide
  rw [sub_mul, mul_sub, ← zpow_one_add₀ hne, ← zpow_add₀ hne, ← zpow_add₀ hne, ← zpow_add₀ hne,
    one_mul]
  congr 2 <;> ring

theorem one_le_limit : 1 ≤ f.limit := by
  have hprecision := h.precision
  have htwo := h.two_le_exponentLimit
  have hhalf : (2 : ℚ) ^ ((f.exponentLimit : ℤ) - f.precision - 1) ≤
      2 ^ ((f.exponentLimit : ℤ) - 1) := zpow_le_zpow_right₀ (by norm_num) (by omega)
  have hone : (1 : ℚ) ≤ 2 ^ ((f.exponentLimit : ℤ) - 1) := one_le_zpow₀ (by norm_num) (by omega)
  have hdouble : (2 : ℚ) ^ f.exponentLimit = 2 * 2 ^ ((f.exponentLimit : ℤ) - 1) := by
    rw [← zpow_one_add₀ (by norm_num), ← zpow_natCast]
    congr 1
    omega
  rw [limit, hdouble]
  linarith

end Regular

theorem limit_le (f : Format) : f.limit ≤ 2 ^ f.exponentLimit :=
  sub_le_self _ (zpow_nonneg (by norm_num) _)

end Format

namespace Binary

open Format

variable {f : Format} {negative negative' : Bool} {m : Nat} {e : Int}

theorem isInfinite_iff {x : Binary f} :
    x.isInfinite = true ↔ ∃ negative, x = .infinite negative := by
  cases x <;> simp [isInfinite]

theorem ofCode_eq_infinite_iff {code : Nat} :
    ofCode f negative code = .infinite negative' ↔ f.infinity ≤ code ∧ negative = negative' := by
  unfold ofCode
  split_ifs with hcode
  · exact iff_of_false nofun fun hle ↦ absurd hle.1 (Nat.not_le.mpr hcode)
  · rw [Binary.infinite.injEq, and_iff_right (Nat.le_of_not_lt hcode)]

section Regular

variable (h : f.Regular)
include h

theorem zero_ne_infinite : zero f negative ≠ .infinite negative' := by
  rw [zero, Ne, ofCode_eq_infinite_iff]
  exact fun hle ↦ absurd hle.1 (Nat.not_le.mpr h.infinity_pos)

/-- A quotient is rounded to an infinity from the limit on. -/
theorem ofRatio_eq_infinite_iff {num den : Nat} (hden : 0 < den) :
    ofRatio f negative num den = .infinite negative' ↔
      f.limit ≤ (num : ℚ) / den ∧ negative = negative' := by
  rw [ofRatio, ofCode_eq_infinite_iff,
    h.infinity_le_iff hden (round_isNearest h.precision hden)]
  refine and_congr_left' ?_
  have hone : (0 : ℚ) < f.one := by exact_mod_cast f.one_pos
  have hden' : (0 : ℚ) < den := by exact_mod_cast hden
  calc f.middle * den ≤ 2 * (num * f.one)
      ↔ 2 * (f.one : ℚ) * (f.limit * den) ≤ 2 * (f.one : ℚ) * num := by
        rw [← Nat.cast_le (α := ℚ)]
        push_cast
        rw [h.middle_eq]
        constructor <;> intro hle <;> linarith
    _ ↔ f.limit * den ≤ num := mul_le_mul_iff_right₀ (by positivity)
    _ ↔ f.limit ≤ num / den := (le_div_iff₀ hden').symm

/-- A coefficient times a power, of whose exponent the far ends are decided by
bounds of the coefficient. -/
theorem scaled_eq_infinite_iff (negative negative' : Bool) (small large : Prop)
    [Decidable small] [Decidable large] {base low high : Nat} (hbase : 2 ≤ base)
    (hlow : m ≠ 0 → base ^ low ≤ m) (hhigh : m < base ^ high)
    (hsmall : small → (high : ℤ) + e ≤ 0) (hlarge : large → (f.exponentLimit : ℤ) ≤ low + e) :
    (if m = 0 ∨ small then zero f negative
      else if large then .infinite negative
      else if 0 ≤ e then ofRatio f negative (m * Nat.pow base e.toNat) 1
      else ofRatio f negative m (Nat.pow base (-e).toNat)) = .infinite negative' ↔
      f.limit ≤ (m : ℚ) * base ^ e ∧ negative = negative' := by
  have hpos : (0 : ℚ) < base := by exact_mod_cast (by omega : 0 < base)
  have hone : (1 : ℚ) ≤ base := by exact_mod_cast (by omega : 1 ≤ base)
  split_ifs with hzero hinfinite hsign
  · refine iff_of_false (zero_ne_infinite h) fun hle ↦ ?_
    have hless : (m : ℚ) * base ^ e < 1 := by
      rcases hzero with rfl | hzero
      · simp
      · calc (m : ℚ) * base ^ e < base ^ high * base ^ e := by
              gcongr
              exact_mod_cast hhigh
          _ = base ^ ((high : ℤ) + e) := by rw [zpow_add₀ hpos.ne', zpow_natCast]
          _ ≤ 1 := zpow_le_one_of_nonpos₀ hone (hsmall hzero)
    exact absurd (h.one_le_limit.trans hle.1) (not_le.mpr hless)
  · rw [Binary.infinite.injEq, and_iff_right]
    calc f.limit ≤ 2 ^ f.exponentLimit := f.limit_le
      _ ≤ (base : ℚ) ^ f.exponentLimit := by
          gcongr
          exact_mod_cast hbase
      _ ≤ base ^ ((low : ℤ) + e) := by
          rw [← zpow_natCast]
          exact zpow_le_zpow_right₀ hone (hlarge hinfinite)
      _ = base ^ low * base ^ e := by rw [zpow_add₀ hpos.ne', zpow_natCast]
      _ ≤ m * base ^ e := by
          gcongr
          exact_mod_cast hlow (not_or.mp hzero).1
  · obtain ⟨n, rfl⟩ := Int.eq_ofNat_of_zero_le hsign
    rw [ofRatio_eq_infinite_iff h Nat.one_pos, Int.toNat_natCast, Nat.pow_eq]
    push_cast
    rw [div_one, zpow_natCast]
  · obtain ⟨n, rfl⟩ : ∃ n : ℕ, e = -n := ⟨(-e).toNat, by omega⟩
    rw [neg_neg, Int.toNat_natCast, Nat.pow_eq,
      ofRatio_eq_infinite_iff h (Nat.pow_pos (by omega))]
    push_cast
    rw [zpow_neg, zpow_natCast, div_eq_mul_inv]

omit h in
theorem digitCount_bounds (m : Nat) :
    (m ≠ 0 → 10 ^ (digitCount m - 1) ≤ m) ∧ m < 10 ^ digitCount m := by
  have hpos : 0 < digitCount m := List.length_pos_iff.mpr Nat.toDigits_ne_nil
  refine ⟨fun hm ↦ ?_, (Nat.length_toDigits_le_iff (by decide) hpos).mp le_rfl⟩
  rcases Nat.lt_or_eq_of_le hpos with hmore | hone
  · by_contra! hlt
    have hle := (Nat.length_toDigits_le_iff (by decide) (Nat.sub_pos_of_lt hmore)).mpr hlt
    have hcount : digitCount m ≤ digitCount m - 1 := hle
    omega
  · rw [← hone]
    exact Nat.pos_of_ne_zero hm

/-- A decimal numeral is read to an infinity from the limit on. -/
theorem ofDecimal_eq_infinite_iff :
    ofDecimal f negative m e = .infinite negative' ↔
      f.limit ≤ (m : ℚ) * 10 ^ e ∧ negative = negative' := by
  obtain ⟨hlow, hhigh⟩ := digitCount_bounds m
  have hscaled := scaled_eq_infinite_iff h (e := e) negative negative'
    ((digitCount m : ℤ) + e < -(f.scale : ℤ)) ((f.exponentLimit : ℤ) < digitCount m + e)
    (by decide : 2 ≤ 10) hlow hhigh (by omega) (by omega)
  unfold ofDecimal
  simpa only [Bool.or_eq_true, decide_eq_true_eq, Nat.cast_ofNat] using hscaled

/-- A binary numeral is read to an infinity from the limit on. -/
theorem ofDyadic_eq_infinite_iff :
    ofDyadic f negative m e = .infinite negative' ↔
      f.limit ≤ (m : ℚ) * 2 ^ e ∧ negative = negative' := by
  have hlow : m ≠ 0 → 2 ^ m.log2 ≤ m := Nat.log2_self_le
  have hhigh : m < 2 ^ (m.log2 + 1) := Nat.lt_log2_self
  have hscaled := scaled_eq_infinite_iff h (e := e) negative negative'
    ((m.log2 : ℤ) + e < -(f.scale : ℤ) - 2) ((f.exponentLimit : ℤ) < m.log2 + e) (le_refl 2)
    hlow hhigh (by omega) (by omega)
  unfold ofDyadic
  simpa only [Bool.or_eq_true, decide_eq_true_eq, Nat.cast_ofNat] using hscaled

end Regular

end Binary

end LayeredConfig
