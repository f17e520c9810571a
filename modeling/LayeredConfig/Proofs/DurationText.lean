import LayeredConfig.Proofs.Quantity
import LayeredConfig.Value.Text

/-!
# Texts of spans

The text of a span reads as the span, exactly, and it has one shape: a single
quantity below a second; hours, minutes and seconds otherwise.
-/

namespace LayeredConfig

namespace Duration

open Numeral

/-! ## The quantities of a span -/

def hourQuantity (n : Nat) : Option Quantity :=
  Quantity.ofTotal .hour (n / 1000000000 / 60 / 60) (n / 1000000000 / 60 / 60)

def minuteQuantity (n : Nat) : Option Quantity :=
  Quantity.ofTotal .minute (n / 1000000000 / 60) (n / 1000000000 / 60 % 60)

def secondQuantity (n : Nat) : Quantity :=
  .ofDecimal .second (n / 1000000000 % 60) 9 (n % 1000000000)

/-- The quantities that the text of a magnitude is the sum of. -/
def quantities (n : Nat) : List Quantity :=
  if n = 0 ∨ 1000000000 ≤ n then
    (hourQuantity n).toList ++ (minuteQuantity n).toList ++ [secondQuantity n]
  else if n < 1000 then [.ofWhole .nano n]
  else if n < 1000000 then [.ofDecimal .micro (n / 1000) 3 (n % 1000)]
  else [.ofDecimal .milli (n / 1000000) 6 (n % 1000000)]

theorem quantities_ne_nil (n : Nat) : quantities n ≠ [] := by
  unfold quantities
  split_ifs <;> simp

theorem toList_clock (n : Nat) (hn : 1000000000 ≤ n) : (magnitudeText n).toList =
    ((hourQuantity n).toList ++ (minuteQuantity n).toList ++ [secondQuantity n]).flatMap
      Quantity.chars := by
  unfold magnitudeText
  rw [if_neg (by omega), if_neg (by omega), if_neg (by omega)]
  dsimp only
  unfold hourQuantity minuteQuantity secondQuantity Quantity.ofTotal
  by_cases hminutes : n / 1000000000 / 60 = 0
  · have hhours : n / 1000000000 / 60 / 60 = 0 := by omega
    simp [hminutes, Quantity.chars_ofDecimal, TimeUnit.symbol]
  · by_cases hhours : n / 1000000000 / 60 / 60 = 0
    · simp [hminutes, hhours, Quantity.chars_ofDecimal, Quantity.chars_ofWhole, TimeUnit.symbol]
    · simp [hminutes, hhours, Quantity.chars_ofDecimal, Quantity.chars_ofWhole, TimeUnit.symbol]

theorem toList_magnitudeText {n : Nat} (hn : n ≠ 0) :
    (magnitudeText n).toList = (quantities n).flatMap Quantity.chars := by
  by_cases hclock : 1000000000 ≤ n
  · rw [toList_clock n hclock, quantities, if_pos (Or.inr hclock)]
  · unfold magnitudeText quantities
    rw [if_neg (show ¬ (n = 0 ∨ 1000000000 ≤ n) by omega)]
    split_ifs with hnano hmicro hmilli
    · rw [List.flatMap_singleton, Quantity.chars_ofWhole, String.toList_append]
      rfl
    · rw [List.flatMap_singleton, Quantity.chars_ofDecimal, String.toList_append, decimalText,
        String.toList_append]
      rfl
    · rw [List.flatMap_singleton, Quantity.chars_ofDecimal, String.toList_append, decimalText,
        String.toList_append]
      rfl
    · omega

theorem toList_text (n : Int) :
    (text n).toList = (Reading.mk (decide (n < 0)) (quantities n.natAbs)).chars := by
  unfold text
  by_cases hzero : n = 0
  · rw [if_pos hzero, hzero]
    rfl
  · have htext := toList_magnitudeText (show n.natAbs ≠ 0 by omega)
    rw [if_neg hzero, Reading.chars]
    by_cases hn : n < 0
    · rw [if_pos hn, if_pos (decide_eq_true hn), String.toList_append, htext]
      rfl
    · rw [if_neg hn, if_neg (by simpa using hn), htext]
      rfl

theorem sum_clock (n : Nat) : (((hourQuantity n).toList ++ (minuteQuantity n).toList ++
    [secondQuantity n]).map Quantity.nanoseconds).sum = n := by
  have hhours : ((hourQuantity n).toList.map Quantity.nanoseconds).sum =
      (n / 1000000000 / 60 / 60 * 3600000000000 : Nat) :=
    Quantity.nanoseconds_ofTotal .hour id
  have hminutes : ((minuteQuantity n).toList.map Quantity.nanoseconds).sum =
      (n / 1000000000 / 60 % 60 * 60000000000 : Nat) :=
    Quantity.nanoseconds_ofTotal .minute fun htotal ↦ by rw [htotal]
  have hseconds : (secondQuantity n).nanoseconds =
      (n / 1000000000 % 60 * 1000000000 + n % 1000000000 : Nat) :=
    Quantity.nanoseconds_ofDecimal rfl _ (by decide) (Nat.mod_lt n (by decide))
  rw [List.map_append, List.map_append, List.map_singleton, List.sum_append, List.sum_append,
    List.sum_singleton, hhours, hminutes, hseconds]
  norm_cast
  omega

theorem nanoseconds_split (unit : TimeUnit) (places : Nat) (hunit : unit.nanoseconds = 10 ^ places)
    (hpos : 0 < places) (n : Nat) :
    (Quantity.ofDecimal unit (n / 10 ^ places) places (n % 10 ^ places)).nanoseconds = n := by
  rw [Quantity.nanoseconds_ofDecimal hunit _ hpos (Nat.mod_lt n (Nat.pow_pos (by decide))),
    Nat.div_add_mod']

/-- The quantities add up to the magnitude. -/
theorem sum_quantities (n : Nat) : ((quantities n).map Quantity.nanoseconds).sum = n := by
  unfold quantities
  split_ifs with hclock hnano hmicro
  · exact sum_clock n
  · rw [List.map_singleton, List.sum_singleton, Quantity.nanoseconds_ofWhole]
    exact congrArg Nat.cast (Nat.mul_one n)
  · rw [List.map_singleton, List.sum_singleton]
    exact nanoseconds_split .micro 3 rfl (by decide) n
  · rw [List.map_singleton, List.sum_singleton]
    exact nanoseconds_split .milli 6 rfl (by decide) n

/-! ## The shape of the text -/

/-- Hours and minutes where there are any, and seconds. -/
structure IsClock (n : Nat) (hours minutes : Option Quantity) (seconds : Quantity) : Prop where
  hours_isSome : hours.isSome ↔ 3600000000000 ≤ n
  minutes_isSome : minutes.isSome ↔ 60000000000 ≤ n
  hours_whole : ∀ q ∈ hours, q.unit = .hour ∧ q.fraction = []
  minutes_whole : ∀ q ∈ minutes, q.unit = .minute ∧ q.fraction = [] ∧ decimalValue q.whole < 60
  seconds_unit : seconds.unit = .second ∧ decimalValue seconds.whole < 60

/-- The shape of the text of a magnitude. -/
structure IsCanonical (n : Nat) (qs : List Quantity) : Prop where
  getLast?_fraction : ∀ q ∈ qs, q.fraction.getLast? ≠ some 0
  single : 0 < n → n < 1000000000 → ∃ q, qs = [q] ∧
    (q.unit = .nano ∨ q.unit = .micro ∨ q.unit = .milli) ∧
      q.whole.head? ≠ some 0 ∧ decimalValue q.whole < 1000
  clock : n = 0 ∨ 1000000000 ≤ n → ∃ hours minutes seconds, IsClock n hours minutes seconds ∧
    qs = hours.toList ++ minutes.toList ++ [seconds]

theorem isClock (n : Nat) :
    IsClock n (hourQuantity n) (minuteQuantity n) (secondQuantity n) where
  hours_isSome := by
    rw [hourQuantity, Quantity.isSome_ofTotal]
    omega
  minutes_isSome := by
    rw [minuteQuantity, Quantity.isSome_ofTotal]
    omega
  hours_whole q hq := by
    rw [hourQuantity] at hq
    rw [Quantity.eq_ofWhole_of_ofTotal hq]
    exact ⟨rfl, rfl⟩
  minutes_whole q hq := by
    rw [minuteQuantity] at hq
    rw [Quantity.eq_ofWhole_of_ofTotal hq, Quantity.ofWhole, decimalValue_decimalDigits]
    exact ⟨rfl, rfl, Nat.mod_lt _ (by decide)⟩
  seconds_unit := by
    rw [secondQuantity, Quantity.ofDecimal, decimalValue_decimalDigits]
    exact ⟨rfl, Nat.mod_lt _ (by decide)⟩

theorem getLast?_fraction_quantities (n : Nat) :
    ∀ q ∈ quantities n, q.fraction.getLast? ≠ some 0 := by
  unfold quantities
  split_ifs
  · simp only [List.mem_append, Option.mem_toList, List.mem_singleton]
    rintro q ((hq | hq) | rfl)
    · rw [Quantity.eq_ofWhole_of_ofTotal hq]
      exact Quantity.getLast?_fraction_ofWhole _ _
    · rw [Quantity.eq_ofWhole_of_ofTotal hq]
      exact Quantity.getLast?_fraction_ofWhole _ _
    · exact Quantity.getLast?_fraction_ofDecimal _ _ _ _
  · exact List.forall_mem_singleton.mpr (Quantity.getLast?_fraction_ofWhole _ _)
  · exact List.forall_mem_singleton.mpr (Quantity.getLast?_fraction_ofDecimal _ _ _ _)
  · exact List.forall_mem_singleton.mpr (Quantity.getLast?_fraction_ofDecimal _ _ _ _)

theorem isCanonical_quantities (n : Nat) : IsCanonical n (quantities n) where
  getLast?_fraction := getLast?_fraction_quantities n
  single hpos hlt := by
    have hwhole {m : Nat} (hm : m ≠ 0) (hsmall : m < 1000) :
        (decimalDigits m).head? ≠ some 0 ∧ decimalValue (decimalDigits m) < 1000 := by
      rw [decimalValue_decimalDigits]
      exact ⟨head?_decimalDigits_ne_zero hm, hsmall⟩
    unfold quantities
    rw [if_neg (by omega)]
    split_ifs with hnano hmicro
    · exact ⟨_, rfl, Or.inl rfl, hwhole (by omega) hnano⟩
    · exact ⟨_, rfl, Or.inr (Or.inl rfl), hwhole (by omega) (by omega)⟩
    · exact ⟨_, rfl, Or.inr (Or.inr rfl), hwhole (by omega) (by omega)⟩
  clock hn := ⟨_, _, _, isClock n, by rw [quantities, if_pos hn]⟩

/-! ## The text and its span -/

theorem read?_text (n : Int) :
    read? (text n) = some ⟨decide (n < 0), quantities n.natAbs⟩ :=
  read?_of_toList (quantities_ne_nil n.natAbs) (toList_text n)

example : read? (text (-1500000)) = some ⟨true, [⟨[1], List.cons_ne_nil _ _, [5], .milli⟩]⟩ := by
  decide

theorem nanoseconds_reading (n : Int) :
    (Reading.mk (decide (n < 0)) (quantities n.natAbs)).nanoseconds = n := by
  rw [Reading.nanoseconds]
  dsimp only
  rw [sum_quantities, ← Int.cast_natCast n.natAbs]
  by_cases hn : n < 0
  · rw [if_pos (decide_eq_true hn), ← Int.cast_neg]
    exact congrArg Int.cast (show -(n.natAbs : Int) = n by omega)
  · rw [if_neg (by simpa using hn)]
    exact congrArg Int.cast (show (n.natAbs : Int) = n by omega)

theorem text_injective : Function.Injective text := by
  intro m n h
  have hread : some (Reading.mk (decide (m < 0)) (quantities m.natAbs)) =
      some ⟨decide (n < 0), quantities n.natAbs⟩ := by
    rw [← read?_text, ← read?_text, h]
  have hvalue := congrArg Reading.nanoseconds (Option.some.inj hread)
  rw [nanoseconds_reading, nanoseconds_reading] at hvalue
  exact_mod_cast hvalue

theorem render_duration (n : Int) : (Value.duration n).render =
    if 10 ^ digitLimit ≤ hours n then .error ⟨⟩ else .ok (text n) := by
  rw [Value.render, Value.textFits, isOverlong, Int.natAbs_natCast, Nat.pow_eq]
  -- The power is not to be computed.
  generalize 10 ^ digitLimit = limit
  by_cases hlimit : limit ≤ hours n
  · rw [decide_eq_true hlimit, if_pos hlimit]
    rfl
  · rw [decide_eq_false hlimit, if_neg hlimit]
    rfl

/-- The text is a sum of quantities in the one shape, it reads as the span exactly, and
no other span has it.  It is written unless the hours have too many digits. -/
theorem text_exact (n : Int) :
    (Value.duration n).render =
        (if 10 ^ digitLimit ≤ hours n then .error ⟨⟩ else .ok (text n)) ∧
      (∃ r, (text n).toList = r.chars ∧ read? (text n) = some r ∧ r.nanoseconds = n ∧
        r.negative = decide (n < 0) ∧ IsCanonical n.natAbs r.quantities) ∧
      ∀ m, text m = text n ↔ m = n :=
  ⟨render_duration n, ⟨_, toList_text n, read?_text n, nanoseconds_reading n, rfl,
    isCanonical_quantities n.natAbs⟩, fun _ ↦ text_injective.eq_iff⟩

/-- Hours of one digit too many are not written. -/
theorem text_overlong_hours :
    (Value.duration (3600000000000 * 10 ^ digitLimit)).render = .error ⟨⟩ := by
  -- The power is not to be computed.
  have hhours : ∀ limit, hours (3600000000000 * 10 ^ limit) = 10 ^ limit := by
    intro limit
    rw [hours, Int.natAbs_mul, Int.natAbs_pow]
    exact Nat.mul_div_cancel_left _ (by decide)
  rw [render_duration, hhours, if_pos (Nat.le_refl _)]

end Duration

end LayeredConfig
