import LayeredConfig.Proofs.Json.Spelling
import LayeredConfig.Proofs.Numeral
import LayeredConfig.Proofs.Reads
import Mathlib.Data.Nat.Digits.Defs

/-!
# Whole numbers in texts

A text is read as a whole number exactly if it is digits behind an optional sign
and its number fits in 64 bits.  Every other text is refused.
-/

namespace LayeredConfig

namespace Numeral

/-- The number of decimal digits, the most significant first. -/
def decimalValue (ds : List (Fin 10)) : Nat := Nat.ofDigits 10 (ds.map Fin.val).reverse

/-- The digits as they are written. -/
def digitChars (ds : List (Fin 10)) : List Char := ds.map fun d ↦ d.val.digitChar

/-- A text that is one or more digits behind an optional sign, and its number. -/
inductive SpellsInt : List Char → Int → Prop
  | unsigned {ds : List (Fin 10)} : ds ≠ [] → SpellsInt (digitChars ds) (decimalValue ds)
  | plus {ds : List (Fin 10)} : ds ≠ [] → SpellsInt ('+' :: digitChars ds) (decimalValue ds)
  | minus {ds : List (Fin 10)} : ds ≠ [] → SpellsInt ('-' :: digitChars ds) (-decimalValue ds)

theorem asciiDigit?_digitChar : ∀ d : Fin 10, Text.asciiDigit? d.val.digitChar = some d.val := by
  decide

theorem exists_digit_of_asciiDigit? {c : Char} {n : Nat} (h : Text.asciiDigit? c = some n) :
    ∃ d : Fin 10, c = d.val.digitChar ∧ n = d.val := by
  simp only [Text.asciiDigit?, Bool.and_eq_true, decide_eq_true_eq, Option.ite_none_right_eq_some,
    Option.some.injEq] at h
  obtain ⟨⟨hlow, hhigh⟩, rfl⟩ := h
  have hlow : 48 ≤ c.toNat := hlow
  have hhigh : c.toNat ≤ 57 := hhigh
  refine ⟨⟨c.toNat - 48, by omega⟩, ?_, rfl⟩
  apply Char.toNat_inj.mp
  rw [Nat.toNat_digitChar_of_lt_ten (by omega)]
  dsimp only
  omega

theorem mapM_asciiDigit?_eq_some_iff {cs : List Char} {ns : List Nat} :
    cs.mapM Text.asciiDigit? = some ns ↔
      ∃ ds : List (Fin 10), cs = digitChars ds ∧ ns = ds.map Fin.val := by
  constructor
  · intro h
    induction cs generalizing ns with
    | nil =>
        cases h
        exact ⟨[], rfl, rfl⟩
    | cons c rest ih =>
        rw [List.mapM_cons] at h
        obtain ⟨n, hn, h⟩ := Option.bind_eq_some_iff.mp h
        obtain ⟨more, hmore, h⟩ := Option.bind_eq_some_iff.mp h
        cases h
        obtain ⟨d, rfl, rfl⟩ := exists_digit_of_asciiDigit? hn
        obtain ⟨ds, rfl, rfl⟩ := ih hmore
        exact ⟨d :: ds, rfl, rfl⟩
  · rintro ⟨ds, rfl, rfl⟩
    induction ds with
    | nil => rfl
    | cons d rest ih =>
        rw [digitChars, List.map_cons, List.mapM_cons, asciiDigit?_digitChar]
        exact congrArg (Option.bind · _) ih

theorem ofDigits_map_val (ds : List (Fin 10)) : ofDigits 10 (ds.map Fin.val) = decimalValue ds := by
  induction ds using List.reverseRecOn with
  | nil => rfl
  | append_singleton rest d ih =>
      rw [List.map_append, List.map_singleton, ofDigits_append_singleton, ih, decimalValue,
        decimalValue, List.map_append, List.map_singleton, List.reverse_append,
        List.reverse_singleton, List.singleton_append, Nat.ofDigits_cons]
      exact Nat.add_comm _ _

theorem takeSign_digitChars (ds : List (Fin 10)) :
    takeSign (digitChars ds) = (false, digitChars ds) := by
  cases ds with
  | nil => rfl
  | cons d rest =>
      have hsign : ∀ d : Fin 10, d.val.digitChar ≠ '-' ∧ d.val.digitChar ≠ '+' := by decide
      rw [digitChars, List.map_cons]
      unfold takeSign
      split
      · next heq => exact absurd (List.cons.inj heq).1 (hsign d).1
      · next heq => exact absurd (List.cons.inj heq).1 (hsign d).2
      · rfl

theorem takeSign_eq_cases (cs : List Char) :
    cs = '-' :: (takeSign cs).2 ∧ (takeSign cs).1 = true ∨
      cs = '+' :: (takeSign cs).2 ∧ (takeSign cs).1 = false ∨
      cs = (takeSign cs).2 ∧ (takeSign cs).1 = false := by
  unfold takeSign
  split
  · exact Or.inl ⟨rfl, rfl⟩
  · exact Or.inr (Or.inl ⟨rfl, rfl⟩)
  · exact Or.inr (Or.inr ⟨rfl, rfl⟩)

/-- What a text spells, by its sign and what follows the sign. -/
theorem spellsInt_iff {cs : List Char} {n : Int} : SpellsInt cs n ↔
    ∃ ds : List (Fin 10), ds ≠ [] ∧ (takeSign cs).2 = digitChars ds ∧
      n = if (takeSign cs).1 then -(decimalValue ds : Int) else decimalValue ds := by
  constructor
  · intro h
    cases h with
    | unsigned hds => exact ⟨_, hds, by rw [takeSign_digitChars], by rw [takeSign_digitChars]; rfl⟩
    | plus hds => exact ⟨_, hds, rfl, rfl⟩
    | minus hds => exact ⟨_, hds, rfl, rfl⟩
  · rintro ⟨ds, hds, hrest, rfl⟩
    rcases takeSign_eq_cases cs with ⟨hcs, hsign⟩ | ⟨hcs, hsign⟩ | ⟨hcs, hsign⟩
    · rw [hsign, hcs, hrest]
      exact .minus hds
    · rw [hsign, hcs, hrest]
      exact .plus hds
    · rw [hsign, hcs, hrest]
      exact .unsigned hds

theorem isDigit_digitChar : ∀ d : Fin 10, d.val.digitChar.isDigit = true := by decide

theorem countP_digitChars (ds : List (Fin 10)) :
    (digitChars ds).countP Char.isDigit = ds.length := by
  rw [digitChars, List.countP_map, List.countP_eq_length.mpr]
  exact fun d _ ↦ isDigit_digitChar d

/-! ## The digits of a number -/

/-- The digit that a character is. -/
def digitOf (c : Char) : Fin 10 := ⟨(c.toNat - 48) % 10, Nat.mod_lt _ (by decide)⟩

def decimalDigits (n : Nat) : List (Fin 10) := (Nat.toDigits 10 n).map digitOf

theorem digitOf_digitChar : ∀ d : Fin 10, digitOf d.val.digitChar = d := by decide

theorem digitChars_map_digitOf {cs : List Char} (h : ∀ c ∈ cs, c.isDigit = true) :
    digitChars (cs.map digitOf) = cs := by
  induction cs with
  | nil => rfl
  | cons c rest ih =>
      obtain ⟨d, rfl, -⟩ := exists_digit_of_asciiDigit?
        (Text.asciiDigit?_of_isDigit (h c List.mem_cons_self))
      rw [List.map_cons, digitOf_digitChar, digitChars, List.map_cons, ← digitChars,
        ih fun e he ↦ h e (List.mem_cons_of_mem _ he)]

theorem digitChars_decimalDigits (n : Nat) : digitChars (decimalDigits n) = Nat.toDigits 10 n :=
  digitChars_map_digitOf fun _ hc ↦ isDigit_of_mem_toDigits hc

theorem decimalDigits_ne_nil (n : Nat) : decimalDigits n ≠ [] := by
  rw [decimalDigits, Ne, List.map_eq_nil_iff]
  exact Nat.toDigits_ne_nil

theorem decimalValue_decimalDigits (n : Nat) : decimalValue (decimalDigits n) = n := by
  have hvalue := ofDigits_toDigits n
  have hread : (digitChars (decimalDigits n)).filterMap Text.asciiDigit? =
      (decimalDigits n).map Fin.val := by
    rw [digitChars, List.filterMap_map]
    exact List.filterMap_eq_map_iff_forall_eq_some.mpr fun d _ ↦ asciiDigit?_digitChar d
  rwa [← digitChars_decimalDigits, hread, ofDigits_map_val] at hvalue

theorem spellsInt_ofInt (n : Int) : SpellsInt (ofInt n).toList n := by
  rw [toList_ofInt, ← digitChars_decimalDigits]
  split
  · have hspells := SpellsInt.minus (decimalDigits_ne_nil n.natAbs)
    rwa [decimalValue_decimalDigits, show -(n.natAbs : Int) = n by omega] at hspells
  · have hspells := SpellsInt.unsigned (decimalDigits_ne_nil n.natAbs)
    rwa [decimalValue_decimalDigits, show (n.natAbs : Int) = n by omega] at hspells

theorem countP_ofInt_le {n : Int} (h : isOverlong n = false) :
    (ofInt n).toList.countP Char.isDigit ≤ digitLimit := by
  have hdigits := (List.countP_le_length (p := Char.isDigit)).trans (length_toDigits_le h)
  rw [toList_ofInt]
  split
  · rwa [List.countP_cons_of_neg (by decide)]
  · exact hdigits

end Numeral

namespace Scalar

open Numeral

variable {text : String}

theorem length_le_countP {ds : List (Fin 10)} (h : (takeSign text.toList).2 = digitChars ds) :
    ds.length ≤ text.toList.countP Char.isDigit := by
  have hsuffix : (takeSign text.toList).2 <:+ text.toList := by
    rcases takeSign_eq_cases text.toList with ⟨hcs, -⟩ | ⟨hcs, -⟩ | ⟨hcs, -⟩
    · exact ⟨['-'], hcs.symm⟩
    · exact ⟨['+'], hcs.symm⟩
    · exact ⟨[], hcs.symm⟩
  have hcount := hsuffix.sublist.countP_le (p := Char.isDigit)
  rwa [h, countP_digitChars] at hcount

/-- What is read from a numeral: its number, if that fits. -/
theorem int?_of_spells {n : Int} (h : SpellsInt text.toList n)
    (hdigits : text.toList.countP Char.isDigit ≤ digitLimit) :
    int? text = .ok (if intMin ≤ n ∧ n ≤ intMax then some n else none) := by
  obtain ⟨ds, hds, hrest, rfl⟩ := spellsInt_iff.mp h
  have hlimit : ¬ digitLimit < (ds.map Fin.val).length := by
    have hlength := length_le_countP hrest
    rw [List.length_map]
    omega
  have hne : ds.map Fin.val ≠ [] := by simpa using hds
  rw [Getter.int?_eq, mapM_asciiDigit?_eq_some_iff.mpr ⟨ds, hrest, rfl⟩]
  split
  · next heq => cases heq
  · next heq => exact absurd (Option.some.inj heq) hne
  · next heq =>
    rw [← Option.some.inj heq, if_neg hlimit, ofDigits_map_val]
    simp only [Bool.and_eq_true, decide_eq_true_eq]

/-- Every other text is refused. -/
theorem int?_of_not_spells (h : ∀ n, ¬ SpellsInt text.toList n) : int? text = .ok none := by
  rw [Getter.int?_eq]
  split
  · rfl
  · rfl
  · next ns hne hns =>
    obtain ⟨ds, hrest, rfl⟩ := mapM_asciiDigit?_eq_some_iff.mp hns
    have hds : ds ≠ [] := by
      rintro rfl
      exact hne rfl
    exact absurd (spellsInt_iff.mpr ⟨ds, hds, hrest, rfl⟩) (h _)

end Scalar

namespace Config

open Numeral

section

variable {c : Config} {path : String} {s : Text}

theorem getInt_of_spells (h : c.get path = .ok (some (.string s)))
    (hdigits : s.content.toList.countP Char.isDigit ≤ digitLimit) {n : Int}
    (hn : SpellsInt s.content.toList n) : c.getInt path =
      if -2 ^ 63 ≤ n ∧ n ≤ 2 ^ 63 - 1 then .ok n
      else .error (.unreadable .int path s.content) := by
  have hbounds : Scalar.intMin ≤ n ∧ n ≤ Scalar.intMax ↔ -2 ^ 63 ≤ n ∧ n ≤ 2 ^ 63 - 1 := by
    rw [Scalar.intMin, Scalar.intMax]
    omega
  rw [getInt, require_of_get h, Getter.ok_bind]
  dsimp only
  rw [Scalar.int?_of_spells hn hdigits, if_congr hbounds rfl rfl]
  split_ifs <;> rfl

theorem getInt_of_not_spells (h : c.get path = .ok (some (.string s)))
    (hn : ∀ n, ¬ SpellsInt s.content.toList n) :
    c.getInt path = .error (.unreadable .int path s.content) := by
  rw [getInt, require_of_get h, Getter.ok_bind]
  dsimp only
  rw [Scalar.int?_of_not_spells hn]
  rfl

end

/-- A text of no more digits than are read gives a whole number exactly if it spells
one of 64 bits, and is refused otherwise; each whole number of 64 bits is read from
its own text. -/
theorem getInt_string (c : Config) (path : String) :
    (∀ s : Text, c.get path = .ok (some (.string s)) →
      s.content.toList.countP Char.isDigit ≤ 4300 →
        (∀ n, c.getInt path = .ok n ↔
          SpellsInt s.content.toList n ∧ -2 ^ 63 ≤ n ∧ n ≤ 2 ^ 63 - 1) ∧
        ((¬ ∃ n, SpellsInt s.content.toList n ∧ -2 ^ 63 ≤ n ∧ n ≤ 2 ^ 63 - 1) →
          c.getInt path = .error (.unreadable .int path s.content))) ∧
    ∀ n : Int, -2 ^ 63 ≤ n → n ≤ 2 ^ 63 - 1 →
      (Value.int n).render = .ok (ofInt n) ∧
      ∀ s : Text, s.content = ofInt n → c.get path = .ok (some (.string s)) →
        c.getInt path = .ok n := by
  refine ⟨fun s h hdigits ↦ ?_, fun n hmin hmax ↦ ?_⟩
  · by_cases hspells : ∃ m, SpellsInt s.content.toList m
    · obtain ⟨m, hm⟩ := hspells
      refine ⟨fun n ↦ ⟨fun hn ↦ ?_, fun ⟨hn, hfits⟩ ↦ ?_⟩, fun hnone ↦ ?_⟩
      · rw [getInt_of_spells h hdigits hm] at hn
        split_ifs at hn with hfits
        cases hn
        exact ⟨hm, hfits⟩
      · rw [getInt_of_spells h hdigits hn, if_pos hfits]
      · rw [getInt_of_spells h hdigits hm, if_neg fun hfits ↦ hnone ⟨m, hm, hfits⟩]
    · have hnot := not_exists.mp hspells
      rw [getInt_of_not_spells h hnot]
      exact ⟨fun n ↦ iff_of_false nofun fun hn ↦ hnot n hn.1, fun _ ↦ rfl⟩
  · have hfits : isOverlong n = false :=
      isOverlong_of_lt (show 19 ≤ digitLimit by decide) (by omega)
    refine ⟨by rw [Value.render, Value.textFits, hfits]; rfl, fun s hs h ↦ ?_⟩
    have hdigits : s.content.toList.countP Char.isDigit ≤ digitLimit := hs ▸ countP_ofInt_le hfits
    rw [getInt_of_spells h hdigits (hs ▸ spellsInt_ofInt n), if_pos ⟨hmin, hmax⟩]

/-- The least whole number with zeros in front, a digit behind a blank, and the
greatest whole number. -/
theorem getInt_string_ends :
    getInt ⟨.object [("n", .string "-009223372036854775808")]⟩ "n" =
      .ok (-9223372036854775808) ∧
    getInt ⟨.object [("n", .string " 5")]⟩ "n" = .error (.unreadable .int "n" " 5") ∧
    getInt ⟨.object [("n", .string "9223372036854775807")]⟩ "n" = .ok 9223372036854775807 := by
  refine ⟨?_, ?_, ?_⟩
  · have hread := ((getInt_string ⟨.object [("n", .string "-009223372036854775808")]⟩ "n").1
      "-009223372036854775808" rfl (by decide)).1 (-9223372036854775808)
    refine hread.mpr ⟨?_, by decide, by decide⟩
    exact @SpellsInt.minus [0, 0, 9, 2, 2, 3, 3, 7, 2, 0, 3, 6, 8, 5, 4, 7, 7, 5, 8, 0, 8] nofun
  · refine ((getInt_string ⟨.object [("n", .string " 5")]⟩ "n").1 " 5" rfl (by decide)).2 ?_
    rintro ⟨n, hn, -⟩
    obtain ⟨ds, -, hrest, -⟩ := spellsInt_iff.mp hn
    cases mapM_asciiDigit?_eq_some_iff.mpr ⟨ds, hrest, rfl⟩
  · exact ((getInt_string ⟨.object [("n", .string "9223372036854775807")]⟩ "n").2
      9223372036854775807 (by decide) (by decide)).2 "9223372036854775807" (by decide) rfl

end Config

end LayeredConfig
