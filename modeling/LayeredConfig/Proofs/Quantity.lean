import LayeredConfig.Duration
import LayeredConfig.Proofs.WholeNumber
import Mathlib.Algebra.BigOperators.Group.List.Basic
import Mathlib.Algebra.Order.Field.Rat
import Mathlib.Data.List.DropRight
import Mathlib.Tactic.FieldSimp
import Mathlib.Tactic.Ring

/-!
# Quantities

A quantity is a decimal number with a unit of time.  A text that is a sum of
quantities behind a sign is read back as that sum, whose value is exact.
-/

namespace LayeredConfig

namespace Numeral

theorem head?_decimalDigits_ne_zero {n : Nat} (hn : n ≠ 0) :
    (decimalDigits n).head? ≠ some 0 := by
  intro hhead
  apply head?_toDigits_ne_zero hn
  rw [← digitChars_decimalDigits, digitChars, List.head?_map, hhead]
  rfl

theorem decimalValue_append (ds es : List (Fin 10)) :
    decimalValue (ds ++ es) = decimalValue ds * 10 ^ es.length + decimalValue es := by
  simp only [decimalValue, List.map_append, List.reverse_append, Nat.ofDigits_append,
    List.length_reverse, List.length_map]
  ring

theorem decimalValue_replicate_zero (count : Nat) : decimalValue (List.replicate count 0) = 0 := by
  induction count with
  | zero => rfl
  | succ count ih =>
      rw [List.replicate_succ', decimalValue_append, ih]
      rfl

/-- The digits of a fraction of so many places. -/
def paddedDigits (places n : Nat) : List (Fin 10) :=
  List.replicate (places - (decimalDigits n).length) 0 ++ decimalDigits n

/-- Those digits without the zeros at the end. -/
def fractionDigits (places n : Nat) : List (Fin 10) := (paddedDigits places n).rdropWhile (· = 0)

theorem length_paddedDigits {places n : Nat} (hpos : 0 < places) (hn : n < 10 ^ places) :
    (paddedDigits places n).length = places := by
  have hlength : (decimalDigits n).length ≤ places := by
    rw [decimalDigits, List.length_map]
    exact (Nat.length_toDigits_le_iff (by decide) hpos).mpr hn
  rw [paddedDigits, List.length_append, List.length_replicate]
  omega

theorem decimalValue_paddedDigits (places n : Nat) : decimalValue (paddedDigits places n) = n := by
  rw [paddedDigits, decimalValue_append, decimalValue_replicate_zero, decimalValue_decimalDigits,
    Nat.zero_mul, Nat.zero_add]

theorem getLast?_rdropWhile_zero (ds : List (Fin 10)) :
    (ds.rdropWhile (· = 0)).getLast? ≠ some 0 := by
  intro hlast
  have hne : ds.rdropWhile (· = 0) ≠ [] := by
    rintro hnil
    rw [hnil] at hlast
    cases hlast
  have hzero := List.rdropWhile_last_not (fun d : Fin 10 ↦ decide (d = 0)) ds hne
  rw [List.getLast?_eq_getLast_of_ne_nil hne] at hlast
  exact hzero (decide_eq_true (Option.some.inj hlast))

theorem exists_replicate_zero (ds : List (Fin 10)) :
    ∃ count, ds = ds.rdropWhile (· = 0) ++ List.replicate count 0 := by
  refine ⟨(ds.rtakeWhile (· = 0)).length, ?_⟩
  have hzero : ds.rtakeWhile (· = 0) = List.replicate (ds.rtakeWhile (· = 0)).length 0 :=
    List.eq_replicate_of_mem fun d hd ↦ by simpa using List.mem_rtakeWhile_imp hd
  rw [← hzero, List.rdropWhile_append_rtakeWhile]

theorem fractionDigits_value {places n : Nat} (hpos : 0 < places) (hn : n < 10 ^ places) :
    (decimalValue (fractionDigits places n) : ℚ) / 10 ^ (fractionDigits places n).length =
      n / 10 ^ places := by
  obtain ⟨count, hcount⟩ := exists_replicate_zero (paddedDigits places n)
  rw [← fractionDigits] at hcount
  have hlength : places = (fractionDigits places n).length + count := by
    have hlengths := congrArg List.length hcount
    rwa [length_paddedDigits hpos hn, List.length_append, List.length_replicate] at hlengths
  have hvalue : n = decimalValue (fractionDigits places n) * 10 ^ count := by
    have hvalues := congrArg decimalValue hcount
    rwa [decimalValue_paddedDigits, decimalValue_append, decimalValue_replicate_zero,
      List.length_replicate, Nat.add_zero] at hvalues
  rw [div_eq_div_iff (by positivity) (by positivity)]
  exact_mod_cast calc
    decimalValue (fractionDigits places n) * 10 ^ places =
        decimalValue (fractionDigits places n) *
          10 ^ ((fractionDigits places n).length + count) := by rw [← hlength]
    _ = decimalValue (fractionDigits places n) * 10 ^ count *
          10 ^ (fractionDigits places n).length := by ring
    _ = n * 10 ^ (fractionDigits places n).length := by rw [← hvalue]

theorem digitChars_rdropWhile (ds : List (Fin 10)) :
    (digitChars ds).rdropWhile (· = '0') = digitChars (ds.rdropWhile (· = 0)) := by
  have hzero : ∀ d : Fin 10, decide (d.val.digitChar = '0') = decide (d = 0) := by decide
  rw [digitChars, List.rdropWhile, ← List.map_reverse, List.dropWhile_map, ← List.map_reverse,
    Function.comp_def, funext hzero]
  rfl

theorem digitChars_paddedDigits (places n : Nat) : digitChars (paddedDigits places n) =
    List.replicate (places - (Nat.toDigits 10 n).length) '0' ++ Nat.toDigits 10 n := by
  rw [paddedDigits, digitChars, List.map_append, ← digitChars, ← digitChars,
    digitChars_decimalDigits, digitChars, List.map_replicate, decimalDigits, List.length_map]
  rfl

end Numeral

namespace Duration

open Numeral

/-! ## Quantities -/

inductive TimeUnit where
  | hour
  | minute
  | second
  | milli
  | micro
  | nano
  deriving DecidableEq

namespace TimeUnit

def symbol : TimeUnit → List Char
  | hour => ['h']
  | minute => ['m']
  | second => ['s']
  | milli => ['m', 's']
  | micro => ['µ', 's']
  | nano => ['n', 's']

def nanoseconds : TimeUnit → Nat
  | hour => 3600000000000
  | minute => 60000000000
  | second => 1000000000
  | milli => 1000000
  | micro => 1000
  | nano => 1

end TimeUnit

/-- A decimal number with a unit; the fraction has no digits if there is no point. -/
structure Quantity where
  whole : List (Fin 10)
  whole_ne_nil : whole ≠ []
  fraction : List (Fin 10)
  unit : TimeUnit
  deriving DecidableEq

namespace Quantity

def fractionChars (ds : List (Fin 10)) : List Char :=
  if ds.isEmpty then [] else '.' :: digitChars ds

def chars (q : Quantity) : List Char :=
  digitChars q.whole ++ fractionChars q.fraction ++ q.unit.symbol

/-- The nanoseconds, exactly. -/
def nanoseconds (q : Quantity) : ℚ :=
  (decimalValue q.whole + decimalValue q.fraction / 10 ^ q.fraction.length) * q.unit.nanoseconds

def ofWhole (unit : TimeUnit) (n : Nat) : Quantity :=
  ⟨decimalDigits n, decimalDigits_ne_nil n, [], unit⟩

/-- A whole number of a unit, unless there are none in total. -/
def ofTotal (unit : TimeUnit) (total n : Nat) : Option Quantity :=
  if total = 0 then none else some (ofWhole unit n)

/-- A number of a unit with a fraction of so many places. -/
def ofDecimal (unit : TimeUnit) (n places fraction : Nat) : Quantity :=
  ⟨decimalDigits n, decimalDigits_ne_nil n, fractionDigits places fraction, unit⟩

theorem fractionChars_fractionDigits (places n : Nat) :
    fractionChars (fractionDigits places n) = (fractionText places n).toList := by
  have hkept : ((paddedDigits places n).rdropWhile (· = 0)).isEmpty =
      ((digitChars (paddedDigits places n)).rdropWhile (· = '0')).isEmpty := by
    rw [digitChars_rdropWhile, digitChars, List.isEmpty_map]
  unfold fractionText
  dsimp only
  rw [← digitChars_paddedDigits, ← List.rdropWhile, ← hkept, fractionChars, fractionDigits,
    digitChars_rdropWhile]
  split
  · rfl
  · rw [String.toList_ofList]

theorem chars_ofWhole (unit : TimeUnit) (n : Nat) :
    (ofWhole unit n).chars = n.repr.toList ++ unit.symbol := by
  rw [chars, ofWhole, digitChars_decimalDigits, Nat.repr, String.toList_ofList]
  exact congrArg (· ++ unit.symbol) (List.append_nil _)

theorem chars_ofDecimal (unit : TimeUnit) (n places fraction : Nat) :
    (ofDecimal unit n places fraction).chars =
      n.repr.toList ++ (fractionText places fraction).toList ++ unit.symbol := by
  rw [chars, ofDecimal, digitChars_decimalDigits, Nat.repr, String.toList_ofList,
    fractionChars_fractionDigits]

theorem getLast?_fraction_ofWhole (unit : TimeUnit) (n : Nat) :
    (ofWhole unit n).fraction.getLast? ≠ some 0 := by simp [ofWhole]

theorem getLast?_fraction_ofDecimal (unit : TimeUnit) (n places fraction : Nat) :
    (ofDecimal unit n places fraction).fraction.getLast? ≠ some 0 :=
  getLast?_rdropWhile_zero (paddedDigits places fraction)

theorem nanoseconds_ofWhole (unit : TimeUnit) (n : Nat) :
    (ofWhole unit n).nanoseconds = (n * unit.nanoseconds : Nat) := by
  rw [nanoseconds, ofWhole, decimalValue_decimalDigits]
  simp [decimalValue]

theorem isSome_ofTotal {unit : TimeUnit} {total n : Nat} :
    (ofTotal unit total n).isSome ↔ total ≠ 0 := by
  unfold ofTotal
  split_ifs with htotal <;> simp [htotal]

theorem eq_ofWhole_of_ofTotal {unit : TimeUnit} {total n : Nat} {q : Quantity}
    (hq : ofTotal unit total n = some q) : q = ofWhole unit n := by
  unfold ofTotal at hq
  split_ifs at hq
  exact (Option.some.inj hq).symm

theorem nanoseconds_ofTotal (unit : TimeUnit) {total n : Nat} (h : total = 0 → n = 0) :
    ((ofTotal unit total n).toList.map nanoseconds).sum = (n * unit.nanoseconds : Nat) := by
  unfold ofTotal
  split_ifs with htotal
  · rw [h htotal, Nat.zero_mul]
    rfl
  · rw [Option.toList_some, List.map_singleton, List.sum_singleton, nanoseconds_ofWhole]

theorem nanoseconds_ofDecimal {unit : TimeUnit} {places : Nat}
    (hunit : unit.nanoseconds = 10 ^ places) (n : Nat) {fraction : Nat} (hpos : 0 < places)
    (hfraction : fraction < 10 ^ places) :
    (ofDecimal unit n places fraction).nanoseconds = (n * 10 ^ places + fraction : Nat) := by
  rw [nanoseconds, ofDecimal, decimalValue_decimalDigits, fractionDigits_value hpos hfraction,
    hunit]
  push_cast
  field_simp

end Quantity

/-! ## Reading -/

/-- The digits in front, and what follows them. -/
def leadingDigits : List Char → List (Fin 10) × List Char
  | [] => ([], [])
  | c :: cs =>
    if c.isDigit then ((digitOf c :: (leadingDigits cs).1), (leadingDigits cs).2)
    else ([], c :: cs)

def leadingFraction : List Char → List (Fin 10) × List Char
  | '.' :: cs => leadingDigits cs
  | cs => ([], cs)

/-- The unit in front, which is taken as long as it can be. -/
def leadingUnit? : List Char → Option (TimeUnit × List Char)
  | 'm' :: 's' :: cs => some (.milli, cs)
  | 'µ' :: 's' :: cs => some (.micro, cs)
  | 'n' :: 's' :: cs => some (.nano, cs)
  | 'h' :: cs => some (.hour, cs)
  | 'm' :: cs => some (.minute, cs)
  | 's' :: cs => some (.second, cs)
  | _ => none

def leadingQuantity? (cs : List Char) : Option (Quantity × List Char) :=
  let (whole, rest) := leadingDigits cs
  let (fraction, rest) := leadingFraction rest
  if h : whole = [] then none
  else (leadingUnit? rest).map fun (unit, rest) ↦ (⟨whole, h, fraction, unit⟩, rest)

/-- One or more quantities and nothing else, no more of them than the bound. -/
def readSum? : Nat → List Char → Option (List Quantity)
  | 0, _ => none
  | bound + 1, cs => (leadingQuantity? cs).bind fun (q, rest) ↦
    if rest = [] then some [q] else (readSum? bound rest).map (q :: ·)

/-- A sum of quantities behind a sign. -/
structure Reading where
  negative : Bool
  quantities : List Quantity
  deriving DecidableEq

def Reading.nanoseconds (r : Reading) : ℚ :=
  let sum := (r.quantities.map Quantity.nanoseconds).sum
  if r.negative then -sum else sum

/-- The characters of a sum behind its sign. -/
def Reading.chars (r : Reading) : List Char :=
  (if r.negative then ['-'] else []) ++ r.quantities.flatMap Quantity.chars

def takeMinus : List Char → Bool × List Char
  | '-' :: cs => (true, cs)
  | cs => (false, cs)

/-- Reads an optional minus sign and a sum of quantities. -/
def read? (text : String) : Option Reading :=
  let (negative, cs) := takeMinus text.toList
  (readSum? cs.length cs).map (Reading.mk negative)

/-! ### What is written is read -/

theorem leadingDigits_append (ds : List (Fin 10)) {rest : List Char}
    (h : ∀ c ∈ rest.head?, c.isDigit = false) :
    leadingDigits (digitChars ds ++ rest) = (ds, rest) := by
  induction ds with
  | nil =>
      cases rest with
      | nil => rfl
      | cons c cs =>
          have hc : c.isDigit = false := h c rfl
          simp [digitChars, leadingDigits, hc]
  | cons d ds ih =>
      rw [digitChars, List.map_cons, List.cons_append, ← digitChars, leadingDigits,
        if_pos (isDigit_digitChar d), ih, digitOf_digitChar]

theorem head?_symbol_append (unit : TimeUnit) (rest : List Char) :
    ∀ c ∈ (unit.symbol ++ rest).head?, c.isDigit = false ∧ c ≠ '.' := by
  intro c hc
  cases unit <;>
  · cases hc
    decide

theorem leadingUnit?_symbol (unit : TimeUnit) {rest : List Char}
    (h : ∀ c ∈ rest.head?, c ≠ 's') :
    leadingUnit? (unit.symbol ++ rest) = some (unit, rest) := by
  cases unit with
  | minute =>
      cases rest with
      | nil => rfl
      | cons c cs =>
          have hc : c ≠ 's' := h c rfl
          simp [TimeUnit.symbol, leadingUnit?, hc]
  | _ => rfl

theorem leadingFraction_of_head? {cs : List Char} (h : cs.head? ≠ some '.') :
    leadingFraction cs = ([], cs) := by
  unfold leadingFraction
  split
  · exact absurd rfl h
  · rfl

theorem leadingFraction_append (ds : List (Fin 10)) (unit : TimeUnit) (rest : List Char) :
    leadingFraction (Quantity.fractionChars ds ++ (unit.symbol ++ rest)) =
      (ds, unit.symbol ++ rest) := by
  have hhead := head?_symbol_append unit rest
  cases ds with
  | nil => exact leadingFraction_of_head? fun hpoint ↦ (hhead '.' hpoint).2 rfl
  | cons d ds => exact leadingDigits_append (d :: ds) fun c hc ↦ (hhead c hc).1

/-- A quantity is read back in front of another one. -/
theorem leadingQuantity?_chars (q : Quantity) {rest : List Char}
    (h : ∀ c ∈ rest.head?, c.isDigit = true) :
    leadingQuantity? (q.chars ++ rest) = some (q, rest) := by
  have hdigits : leadingDigits (q.chars ++ rest) =
      (q.whole, Quantity.fractionChars q.fraction ++ (q.unit.symbol ++ rest)) := by
    rw [Quantity.chars, List.append_assoc, List.append_assoc]
    apply leadingDigits_append
    intro c hc
    cases hfraction : q.fraction with
    | nil =>
        rw [hfraction] at hc
        exact (head?_symbol_append q.unit rest c hc).1
    | cons d ds =>
        rw [hfraction] at hc
        cases hc
        decide
  have hunit : leadingUnit? (q.unit.symbol ++ rest) = some (q.unit, rest) := by
    apply leadingUnit?_symbol
    rintro c hc rfl
    exact absurd (h 's' hc) (by decide)
  rw [leadingQuantity?, hdigits]
  dsimp only
  rw [leadingFraction_append]
  dsimp only
  rw [dif_neg q.whole_ne_nil, hunit]
  rfl

theorem exists_chars_eq_cons (q : Quantity) :
    ∃ c cs, q.chars = c :: cs ∧ c.isDigit = true := by
  obtain ⟨d, ds, hwhole⟩ := List.exists_cons_of_ne_nil q.whole_ne_nil
  have hchars : q.chars = d.val.digitChar ::
      (digitChars ds ++ Quantity.fractionChars q.fraction ++ q.unit.symbol) := by
    rw [Quantity.chars, hwhole]
    rfl
  exact ⟨_, _, hchars, isDigit_digitChar d⟩

theorem head?_flatMap_chars (qs : List Quantity) :
    ∀ c ∈ (qs.flatMap Quantity.chars).head?, c.isDigit = true := by
  cases qs with
  | nil => nofun
  | cons q qs =>
      obtain ⟨d, ds, hchars, hdigit⟩ := exists_chars_eq_cons q
      intro c hc
      rw [List.flatMap_cons, hchars] at hc
      cases hc
      exact hdigit

theorem length_le_length_flatMap_chars (qs : List Quantity) :
    qs.length ≤ (qs.flatMap Quantity.chars).length := by
  induction qs with
  | nil => exact Nat.le_refl 0
  | cons q qs ih =>
      obtain ⟨c, cs, hchars, -⟩ := exists_chars_eq_cons q
      rw [List.flatMap_cons, hchars, List.cons_append, List.length_cons, List.length_cons,
        List.length_append]
      omega

theorem readSum?_flatMap {qs : List Quantity} (hne : qs ≠ []) {bound : Nat}
    (hbound : qs.length ≤ bound) : readSum? bound (qs.flatMap Quantity.chars) = some qs := by
  induction qs generalizing bound with
  | nil => exact absurd rfl hne
  | cons q qs ih =>
      obtain ⟨bound, rfl⟩ : ∃ b, bound = b + 1 :=
        Nat.exists_eq_add_one.mpr (Nat.lt_of_lt_of_le (Nat.succ_pos _) hbound)
      have hfirst := leadingQuantity?_chars q (head?_flatMap_chars qs)
      rw [List.flatMap_cons, readSum?, hfirst, Option.bind_some]
      dsimp only
      cases qs with
      | nil => rfl
      | cons r rs =>
          have hrest := ih (List.cons_ne_nil r rs) (Nat.le_of_succ_le_succ hbound)
          obtain ⟨c, cs, hchars, -⟩ := exists_chars_eq_cons r
          have hmore : (r :: rs).flatMap Quantity.chars ≠ [] := by
            rw [List.flatMap_cons, hchars]
            exact List.cons_ne_nil _ _
          rw [if_neg hmore, hrest, Option.map_some]

theorem takeMinus_chars (r : Reading) :
    takeMinus r.chars = (r.negative, r.quantities.flatMap Quantity.chars) := by
  cases hnegative : r.negative with
  | true =>
      rw [Reading.chars, if_pos hnegative]
      rfl
  | false =>
      rw [Reading.chars, if_neg (by simp [hnegative]), List.nil_append]
      unfold takeMinus
      split
      · next heq =>
        -- The minus sign is no digit.
        exact absurd (head?_flatMap_chars r.quantities '-' (by rw [heq]; rfl)) (by decide)
      · rfl

theorem read?_of_toList {r : Reading} (hne : r.quantities ≠ []) {text : String}
    (htext : text.toList = r.chars) : read? text = some r := by
  rw [read?, htext, takeMinus_chars]
  dsimp only
  rw [readSum?_flatMap hne (length_le_length_flatMap_chars r.quantities)]
  rfl

end Duration

end LayeredConfig
