import LayeredConfig.Proofs.Float.Overflow
import LayeredConfig.Proofs.FloatNumeral

/-!
# Reads of floating point numbers from texts

A double is read from a numeral that is in range or from a word.  A single is the
double of the same text, rounded once more, and is refused if that makes an infinity
of a finite number.
-/

namespace LayeredConfig

theorem Format.double_limit : double.limit = 2 ^ 1024 - 2 ^ 970 := by
  have hexponent : (double.exponentLimit : ℤ) - double.precision - 1 = (970 : ℕ) := by decide
  rw [limit, hexponent, zpow_natCast]
  rfl

namespace Binary

variable {f : Format}

theorem isNaN_convert (g : Format) (x : Binary f) : (x.convert g).isNaN = x.isNaN := by
  cases x with
  | nan origin => rfl
  | infinite s => rfl
  | finite s c =>
      rw [convert, ofRatio, ofCode]
      split_ifs <;> rfl

theorem isInfinite_eq (x : Binary f) : x.isInfinite = (!x.isNaN && !x.isFinite) := by
  cases x <;> rfl

/-- What is finite and what is not only changes where a finite number becomes an
infinity. -/
theorem isFinite_convert_ne_iff (g : Format) (x : Binary f) :
    x.isFinite ≠ (x.convert g).isFinite ↔
      x.isFinite = true ∧ ∃ negative, x.convert g = .infinite negative := by
  have hnan := isNaN_convert g x
  rw [← isInfinite_iff, isInfinite_eq, hnan]
  cases x with
  | nan origin => simp [convert, isFinite]
  | infinite s => simp [convert, isFinite]
  | finite s c => simp [isNaN, isFinite]

end Binary

/-! ## Doubles -/

namespace Scalar

open Numeral Text

variable {cs rest : List Char} {text : String} {negative : Bool} {v : ℚ}

theorem mem_of_holdsWord {c : Char} {word : List Char} (h : holdsWord (c :: word) cs = true) :
    c ∈ cs := by
  induction cs with
  | nil => cases h
  | cons d rest ih =>
      rw [holdsWord, Bool.or_eq_true] at h
      rcases h with h | h
      · rw [List.isPrefixOf, Bool.and_eq_true, beq_iff_eq] at h
        exact h.1 ▸ List.mem_cons_self
      · exact List.mem_cons_of_mem _ (ih h)

theorem exists_of_spellsInfinity (h : spellsInfinity cs = true) : ∃ c ∈ cs, c = 'i' ∨ c = 'I' := by
  obtain ⟨c, hc, hlower⟩ := List.mem_map.mp (mem_of_holdsWord h)
  exact ⟨c, hc, eq_of_toLower hlower⟩

/-- A text is read as a hexadecimal numeral, else as a word or a decimal numeral. -/
theorem double?_eq_some_iff {x : Double} : double? text = some x ↔
    (text.toList ≠ [] ∧ strip text.toList = text.toList ∧ '_' ∉ text.toList) ∧
      (readHexFloat text.toList).or (readFloat text.toList) = some x ∧
        (x.isInfinite = true → spellsInfinity text.toList = true) := by
  unfold double?
  simp only [Bool.or_eq_true, List.isEmpty_iff, bne_iff_ne, List.contains_eq_mem, decide_eq_true_eq]
  split_ifs with hrefused
  · refine iff_of_false nofun fun h ↦ ?_
    obtain ⟨⟨hne, hstrip, hunderscore⟩, -⟩ := h
    rcases hrefused with (hempty | hblank) | hmem
    · exact hne hempty
    · exact hblank hstrip
    · exact hunderscore hmem
  · rw [not_or, not_or, not_not] at hrefused
    rw [and_iff_right ⟨hrefused.1.1, hrefused.1.2, hrefused.2⟩]
    cases (readHexFloat text.toList).or (readFloat text.toList) with
    | none => simp
    | some y =>
        dsimp only
        rw [Option.ite_none_left_eq_some, and_comm]
        refine and_congr_right fun heq ↦ ?_
        cases heq
        cases x.isInfinite <;> cases spellsInfinity text.toList <;> decide

theorem spellsInfinity_of_word (h : SpellsInfinity cs negative) : spellsInfinity cs = true := by
  obtain ⟨hsign, hword⟩ := h
  unfold spellsInfinity
  cases hsign <;> rcases hword with hword | hword <;>
    simp only [List.map_cons, hword] <;> decide

/-- A word for an infinity is read as that infinity. -/
theorem double?_of_word (h : SpellsInfinity text.toList negative) :
    double? text = some (.infinite negative) := by
  have hread : (readHexFloat text.toList).or (readFloat text.toList) =
      some (.infinite negative) := by
    rw [h.readHexFloat_eq, h.readFloat_eq, Option.none_or]
  refine double?_eq_some_iff.mpr ⟨⟨fun hempty ↦ ?_, strip_of_forall fun c hc ↦ (h.plain c hc).1,
    fun hc ↦ (h.plain _ hc).2.1 rfl⟩, hread, fun _ ↦ spellsInfinity_of_word h⟩
  rw [hempty] at hread
  cases hread

/-- An infinity is read from a word only. -/
theorem spellsInfinity_of_double? (h : double? text = some (.infinite negative)) :
    SpellsInfinity text.toList negative := by
  obtain ⟨⟨-, hstrip, hunderscore⟩, hread, hinfinity⟩ := double?_eq_some_iff.mp h
  obtain ⟨c, hc, hletter⟩ := exists_of_spellsInfinity (hinfinity rfl)
  have hspelled : ¬ ('i' ∉ text.toList ∧ 'I' ∉ text.toList) := by
    rintro ⟨hsmall, hlarge⟩
    rcases hletter with rfl | rfl
    · exact hsmall hc
    · exact hlarge hc
  rcases Option.or_eq_some_iff.mp hread with hhex | ⟨-, hfloat⟩
  · exact absurd (notMem_of_readHexFloat hhex) hspelled
  · obtain ⟨sign, rest, htake⟩ : ∃ sign rest,
        takeSign (text.toList.map normalChar) = (sign, rest) := ⟨_, _, rfl⟩
    have hsign := signed_of_takeSign htake
    rw [readFloat_of_plain hstrip hunderscore htake, Option.or_eq_some_iff] at hfloat
    rcases hfloat with hword | ⟨-, hdecimal⟩
    · obtain ⟨rfl, hletters⟩ := word?_eq_infinite_iff.mp hword
      exact .of_normal hsign hletters
    · obtain ⟨p, hp, -⟩ := Option.map_eq_some_iff.mp hdecimal
      exact absurd (notMem_of_decimal hsign (decimal?_eq_some_iff.mp hp)) hspelled

/-- A number that is read from a numeral is refused if it is infinite. -/
theorem double?_of_read (h : SpellsFloat text.toList negative v) {x : Double}
    (hread : (readHexFloat text.toList).or (readFloat text.toList) = some x) :
    double? text = if x.isInfinite then none else some x := by
  have hplain := h.mem_cases
  have hne : text.toList ≠ [] := by
    intro hempty
    rw [hempty] at hread
    cases hread
  have hinfinity : spellsInfinity text.toList ≠ true := by
    intro hspells
    obtain ⟨c, hc, hletter⟩ := exists_of_spellsInfinity hspells
    exact absurd hletter (not_or.mpr (hplain c hc).2.2)
  have haccepted : ∀ y, double? text = some y ↔ x = y ∧ y.isInfinite = false := by
    intro y
    rw [double?_eq_some_iff, hread, and_iff_right ⟨hne, strip_of_forall fun c hc ↦ (hplain c hc).1,
      fun hc ↦ (hplain _ hc).2.1 rfl⟩, Option.some.injEq]
    simp [hinfinity]
  cases hinfinite : x.isInfinite with
  | false => exact (haccepted x).mpr ⟨rfl, hinfinite⟩
  | true =>
      refine Option.eq_none_iff_forall_ne_some.mpr fun y hy ↦ ?_
      obtain ⟨rfl, hfinite⟩ := (haccepted y).mp hy
      rw [hinfinite] at hfinite
      cases hfinite

/-- A numeral is read unless it is beyond the range. -/
theorem double?_of_numeral (h : SpellsFloat text.toList negative v) :
    ∃ x : Double, (x.isInfinite = true ↔ Format.double.limit ≤ v) ∧
      double? text = if x.isInfinite then none else some x := by
  have hregular := Format.double_regular
  have hplain := h.mem_cases
  have hread : ∀ x, (readHexFloat text.toList).or (readFloat text.toList) = some x →
      double? text = if x.isInfinite then none else some x := fun x ↦ double?_of_read h
  generalize text.toList = cs at *
  cases h with
  | @decimal rest _ m e hsign h =>
      refine ⟨Binary.ofDecimal .double negative m e, ?_, hread _ ?_⟩
      · simp [Binary.isInfinite_iff, Binary.ofDecimal_eq_infinite_iff hregular]
      · rw [readHexFloat_of_decimal hsign h, Option.none_or]
        exact readFloat_of_decimal (strip_of_forall fun c hc ↦ (hplain c hc).1)
          (fun hc ↦ (hplain _ hc).2.1 rfl) hsign h
  | @hexadecimal rest _ m e hsign h =>
      have hhead : rest.head? ≠ some '+' ∧ rest.head? ≠ some '-' := by
        obtain ⟨⟩ := h
        simp
      refine ⟨Binary.ofDyadic .double negative m e, ?_, hread _ ?_⟩
      · simp [Binary.isInfinite_iff, Binary.ofDyadic_eq_infinite_iff hregular]
      · rw [readHexFloat_eq (hsign.takeSign_eq hhead.1 hhead.2), hexadecimal?_eq_some_iff.mpr h]
        rfl

/-! ## Singles -/

theorem single?_eq_some_iff {y : Single} : single? text = some y ↔
    ∃ x, double? text = some x ∧ x.convert .single = y ∧ x.isFinite = y.isFinite := by
  unfold single?
  cases double? text with
  | none => simp
  | some x =>
      simp only [Option.ite_none_right_eq_some, beq_iff_eq, Option.some.injEq, exists_eq_left']
      constructor
      · rintro ⟨hfinite, rfl⟩
        exact ⟨rfl, hfinite⟩
      · rintro ⟨rfl, hfinite⟩
        exact ⟨hfinite, rfl⟩

end Scalar

namespace Config

open Numeral Scalar

section

variable {c : Config} {path : String} {s : Text}

theorem getDouble_string (h : c.get path = .ok (some (.string s))) : c.getDouble path =
    ((double? s.content).map Except.ok).getD (.error (.unreadable .double path s.content)) := by
  rw [getDouble, require_of_get h, Getter.ok_bind]
  dsimp only
  cases double? s.content <;> rfl

theorem getSingle_string (h : c.get path = .ok (some (.string s))) : c.getSingle path =
    ((single? s.content).map Except.ok).getD (.error (.unreadable .single path s.content)) := by
  rw [getSingle, require_of_get h, Getter.ok_bind]
  dsimp only
  cases single? s.content <;> rfl

theorem getDouble_eq_ok_iff (h : c.get path = .ok (some (.string s))) {x : Double} :
    c.getDouble path = .ok x ↔ double? s.content = some x := by
  rw [getDouble_string h]
  cases double? s.content <;> simp

theorem getSingle_eq_ok_iff (h : c.get path = .ok (some (.string s))) {y : Single} :
    c.getSingle path = .ok y ↔ single? s.content = some y := by
  rw [getSingle_string h]
  cases single? s.content <;> simp

end

/-- Of a text, a double is an infinity exactly if the text is a word for it, and a
numeral is refused exactly if it is beyond the range.  A single is a double rounded
once more, of the same kind, and is refused exactly if a finite double is rounded to
an infinity. -/
theorem getDouble_getSingle_string (c : Config) (path : String) (s : Text)
    (h : c.get path = .ok (some (.string s))) :
    (∀ negative, c.getDouble path = .ok (.infinite negative) ↔
      SpellsInfinity s.content.toList negative) ∧
    (∀ negative v, SpellsFloat s.content.toList negative v →
      (c.getDouble path = .error (.unreadable .double path s.content) ↔
        2 ^ 1024 - 2 ^ 970 ≤ v)) ∧
    (∀ y, c.getSingle path = .ok y → ∃ x, c.getDouble path = .ok x ∧ x.RoundsTo y ∧
      y.isNaN = x.isNaN ∧ y.isInfinite = x.isInfinite) ∧
    ∀ x, c.getDouble path = .ok x →
      ((∃ fault, c.getSingle path = .error fault) ↔
        x.isFinite = true ∧ ∃ negative, x.RoundsTo (.infinite negative : Single)) ∧
      ∀ fault, c.getSingle path = .error fault → fault = .unreadable .single path s.content := by
  have hrounds {x : Double} {y : Single} : x.RoundsTo y ↔ y = x.convert .single :=
    Binary.roundsTo_iff Format.single_regular.precision
  refine ⟨fun negative ↦ ?_, fun negative v hv ↦ ?_, fun y hy ↦ ?_, fun x hx ↦ ?_⟩
  · rw [getDouble_eq_ok_iff h]
    exact ⟨spellsInfinity_of_double?, double?_of_word⟩
  · obtain ⟨x, hinfinite, hread⟩ := double?_of_numeral hv
    rw [getDouble_string h, hread, ← Format.double_limit, ← hinfinite]
    cases x.isInfinite <;> simp
  · obtain ⟨x, hx, rfl, hfinite⟩ := single?_eq_some_iff.mp ((getSingle_eq_ok_iff h).mp hy)
    have hnan := Binary.isNaN_convert .single x
    refine ⟨x, (getDouble_eq_ok_iff h).mpr hx, hrounds.mpr rfl, hnan, ?_⟩
    rw [Binary.isInfinite_eq, hnan, ← hfinite, ← Binary.isInfinite_eq]
  · have hdouble := (getDouble_eq_ok_iff h).mp hx
    have hsingle : single? s.content = none ↔ x.isFinite ≠ (x.convert .single).isFinite := by
      rw [Option.eq_none_iff_forall_ne_some]
      simp [single?_eq_some_iff, hdouble]
    simp only [hrounds, eq_comm (b := x.convert .single), ← Binary.isFinite_convert_ne_iff,
      ← hsingle]
    rw [getSingle_string h]
    cases single? s.content <;> simp

/-- A word for an infinity, a numeral beyond the range, and one that is in the range of
doubles only. -/
theorem getDouble_getSingle_string_ranges :
    getDouble ⟨.object [("x", .string "-Infinity")]⟩ "x" = .ok (.infinite true) ∧
    getDouble ⟨.object [("x", .string "0x1p5000")]⟩ "x" =
      .error (.unreadable .double "x" "0x1p5000") ∧
    ∃ x, getDouble ⟨.object [("x", .string "1e39")]⟩ "x" = .ok x ∧ x.isFinite = true ∧
      ∃ fault, getSingle ⟨.object [("x", .string "1e39")]⟩ "x" = .error fault := by
  refine ⟨?_, ?_, ?_⟩
  · refine ((getDouble_getSingle_string _ "x" "-Infinity" rfl).1 true).mpr ?_
    exact .mk (.minus _) (Or.inr (by decide))
  · have hread : hexadecimal? false "0x1p5000".toList = some (1, 5000) := by decide
    have hspells := SpellsFloat.hexadecimal (.unsigned _) (hexadecimal?_eq_some_iff.mp hread)
    refine ((getDouble_getSingle_string _ "x" "0x1p5000" rfl).2.1 _ _ hspells).mpr ?_
    calc (2 : ℚ) ^ 1024 - 2 ^ 970 ≤ 2 ^ 1024 := sub_le_self _ (pow_nonneg zero_le_two _)
      _ ≤ 2 ^ 5000 := pow_le_pow_right₀ one_le_two (by decide)
      _ = (1 : ℕ) * 2 ^ (5000 : ℤ) := by
        rw [Nat.cast_one, one_mul]
        exact (zpow_natCast 2 5000).symm
  · have hread : getDouble ⟨.object [("x", .string "1e39")]⟩ "x" =
        .ok (.finite false ⟨5190260616003865117, by decide⟩) := by decide +kernel
    refine ⟨_, hread, rfl, ?_⟩
    refine ((getDouble_getSingle_string _ "x" "1e39" rfl).2.2.2 _ hread).1.mpr ⟨rfl, false, ?_⟩
    exact (Binary.roundsTo_iff Format.single_regular.precision).mpr (by decide +kernel)

end Config

end LayeredConfig
