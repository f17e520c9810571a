import LayeredConfig.Proofs.WholeNumber
import Mathlib.Algebra.Field.Rat

/-!
# Floating point numerals

A text that is read as a floating point number is a decimal or a hexadecimal
numeral or a word, each behind an optional sign.  The readers of numerals take
exactly those, and a word for an infinity is told from a numeral by its letters.
-/

namespace LayeredConfig

/-! ## Characters -/

namespace Text

theorem toNat_toLower (c : Char) :
    c.toLower.toNat = if 65 ≤ c.toNat ∧ c.toNat ≤ 90 then c.toNat + 32 else c.toNat := by
  unfold Char.toLower
  split_ifs with hupper hrange hrange
  · have hhigh : c.val.toNat ≤ 90 := hupper.2
    change (c.val + 32).toNat = c.val.toNat + 32
    rw [UInt32.toNat_add]
    exact Nat.mod_eq_of_lt (by simp; omega)
  · exact absurd hupper hrange
  · exact absurd hrange hupper
  · rfl

/-- A letter is a small one, or the large one of it. -/
theorem eq_of_toLower {c small : Char} (h : c.toLower = small) :
    c = small ∨ c = Char.ofNat (small.toNat - 32) := by
  have hcode := congrArg Char.toNat h
  rw [toNat_toLower] at hcode
  split_ifs at hcode with hupper
  · right
    rw [← hcode, Nat.add_sub_cancel, Char.ofNat_toNat]
  · exact Or.inl (Char.toNat_inj.mp hcode)

/-- A digit is no blank, and among ASCII it is the one that its value is written with. -/
theorem digit?_eq_some_cases {c : Char} {d : Nat} (h : digit? c = some d) :
    d < 10 ∧ isBlank c = false ∧ (c.toNat < 0x80 → c = d.digitChar) := by
  obtain ⟨first, hfind, rfl⟩ := Option.map_eq_some_iff.mp h
  have hrange := List.find?_some hfind
  have hmem := List.mem_of_find?_eq_some hfind
  simp only [Bool.and_eq_true, decide_eq_true_eq] at hrange
  refine ⟨by omega, ?_, fun hascii ↦ ?_⟩
  · have hblank : ∀ first ∈ digitZeros, ∀ blank ∈ blanks, blank < first ∨ first + 10 ≤ blank := by
      decide
    rw [isBlank, List.contains_eq_mem, decide_eq_false_iff_not]
    intro hc
    have := hblank first hmem _ hc
    omega
  · have hzero : ∀ first ∈ digitZeros, first < 0x80 → first = 48 := by decide
    obtain rfl := hzero first hmem (by omega)
    apply Char.toNat_inj.mp
    rw [Nat.toNat_digitChar_of_lt_ten (by omega)]
    omega

end Text

namespace Numeral

open Text

variable {cs rest : List Char} {c : Char}

theorem ofNat_add_eq_digitChar : ∀ d : Fin 10, Char.ofNat (48 + d) = d.val.digitChar := by decide

theorem isSpace_digitChar : ∀ d : Fin 10, isSpace d.val.digitChar = false := by decide

/-! ## Normal characters -/

/-- A normal character is the character itself, or a space for a blank, or a digit
for one of another script. -/
theorem normalChar_cases (c : Char) :
    normalChar c = c ∨ (isBlank c = true ∧ normalChar c = ' ') ∨
      ∃ d < 10, normalChar c = d.digitChar := by
  unfold normalChar
  split_ifs with hascii hblank
  · exact Or.inl rfl
  · exact Or.inr (Or.inl ⟨hblank, rfl⟩)
  · cases hdigit : digit? c with
    | none => exact Or.inl rfl
    | some d =>
        have hd := (digit?_eq_some_cases hdigit).1
        exact Or.inr (Or.inr ⟨d, hd, ofNat_add_eq_digitChar ⟨d, hd⟩⟩)

theorem asciiDigit?_normalChar {d : Nat} (h : digit? c = some d) :
    asciiDigit? (normalChar c) = some d := by
  obtain ⟨hd, hblank, hascii⟩ := digit?_eq_some_cases h
  have hnormal : normalChar c = d.digitChar := by
    by_cases hlow : c.toNat < 0x80
    · rw [normalChar, if_pos hlow, hascii hlow]
    · simp only [normalChar, if_neg hlow, hblank, h, Bool.false_eq_true, if_false]
      exact ofNat_add_eq_digitChar ⟨d, hd⟩
  rw [hnormal]
  exact asciiDigit?_digitChar ⟨d, hd⟩

/-- Characters that are neither spaces nor digits come from themselves only. -/
theorem eq_of_normalChar {x : Char} (hspace : x ≠ ' ') (hdigit : x.isDigit = false)
    (h : normalChar c = x) : c = x := by
  rcases normalChar_cases c with hsame | ⟨-, hblank⟩ | ⟨d, hd, hdigit'⟩
  · exact hsame.symm.trans h
  · exact absurd (h.symm.trans hblank) hspace
  · rw [← h, hdigit', isDigit_digitChar ⟨d, hd⟩] at hdigit
    cases hdigit

theorem isSpace_normalChar (h : isBlank c = false) : isSpace (normalChar c) = false := by
  rcases normalChar_cases c with hsame | ⟨hblank, -⟩ | ⟨d, hd, hdigit⟩
  · rw [hsame]
    by_contra hspace
    have hcode : c.toNat = 0x20 ∨ 0x09 ≤ c.toNat ∧ c.toNat ≤ 0x0D := by
      simp only [isSpace, Bool.not_eq_false, Bool.or_eq_true, beq_iff_eq, Bool.and_eq_true,
        decide_eq_true_eq] at hspace
      exact hspace.imp_left fun heq ↦ congrArg Char.toNat heq
    have hmem : c.toNat ∈ blanks := by
      rcases hcode with hspace | hrange
      · rw [hspace]
        decide
      · have hcodes : ∀ n ∈ List.range' 9 5, n ∈ blanks := by decide
        exact hcodes _ (List.mem_range'_1.mpr (by omega))
    rw [isBlank, List.contains_eq_mem, decide_eq_false_iff_not] at h
    exact h hmem
  · rw [hblank] at h
    cases h
  · rw [hdigit]
    exact isSpace_digitChar ⟨d, hd⟩

/-- A text without blanks at its ends is only made normal character by character. -/
theorem normal_of_strip (h : strip cs = cs) : normal cs = cs.map normalChar := by
  have hfirst : cs.dropWhile isBlank <:+ cs := List.dropWhile_suffix _
  have hlast : (cs.dropWhile isBlank).reverse.dropWhile isBlank <:+
      (cs.dropWhile isBlank).reverse := List.dropWhile_suffix _
  have hlength := congrArg List.length h
  rw [strip, List.length_reverse] at hlength
  have hle := hfirst.length_le
  have hle' := hlast.length_le
  rw [List.length_reverse] at hle'
  have hstart := hfirst.eq_of_length (by omega)
  rw [hstart] at hlast hlength
  have hend := hlast.eq_of_length (by rw [List.length_reverse]; omega)
  -- What is no blank does not become a space.
  have hkept {l : List Char} (hl : l.dropWhile isBlank = l) :
      (l.map normalChar).dropWhile isSpace = l.map normalChar := by
    rw [List.dropWhile_eq_self_iff] at hl ⊢
    intro hpos
    rw [List.length_map] at hpos
    rw [List.getElem_map, isSpace_normalChar (Bool.not_eq_true _ ▸ hl hpos)]
    exact Bool.false_ne_true
  rw [normal, hkept hstart, ← List.map_reverse, hkept hend, ← List.map_reverse,
    List.reverse_reverse]

theorem strip_of_forall (h : ∀ c ∈ cs, isBlank c = false) : strip cs = cs := by
  have hkept {l : List Char} (hl : ∀ c ∈ l, isBlank c = false) : l.dropWhile isBlank = l := by
    rw [List.dropWhile_eq_self_iff]
    intro hpos
    rw [hl _ (List.getElem_mem hpos)]
    exact Bool.false_ne_true
  rw [strip, hkept h, hkept fun c hc ↦ h c (List.mem_reverse.mp hc), List.reverse_reverse]

theorem dropUnderscores_of_notMem (h : '_' ∉ cs) (before : Char) :
    dropUnderscores before cs = some cs := by
  induction cs generalizing before with
  | nil => rfl
  | cons c rest ih =>
      rw [List.mem_cons, not_or] at h
      unfold dropUnderscores
      split
      · next heq => cases heq
      · next heq => exact absurd (List.cons.inj heq).1.symm h.1
      · next heq =>
        cases heq
        rw [if_neg (Ne.symm h.1), ih h.2]
        rfl

/-! ## The shapes of numerals -/

/-- A text is an optional sign, which is a minus or not, and what follows it. -/
inductive Signed : List Char → Bool → List Char → Prop
  | unsigned (cs : List Char) : Signed cs false cs
  | plus (cs : List Char) : Signed ('+' :: cs) false cs
  | minus (cs : List Char) : Signed ('-' :: cs) true cs

/-- Digits, and among them a point or none; so many of them follow the point. -/
inductive Pointed (digit? : Char → Option Nat) : List Char → List Nat → Nat → Prop
  | whole {cs : List Char} {ds : List Nat} (h : cs.mapM digit? = some ds) : Pointed digit? cs ds 0
  | point {cs fraction : List Char} {ds : List Nat} (h : (cs ++ fraction).mapM digit? = some ds) :
      Pointed digit? (cs ++ '.' :: fraction) ds fraction.length

/-- A mark, an optional sign and digits. -/
inductive Exponent (digit? : Char → Option Nat) (marks : List Char) : List Char → Int → Prop
  | mk {mark : Char} {cs digits : List Char} {negative : Bool} {ds : List Nat}
      (hmark : mark ∈ marks) (hsign : Signed cs negative digits)
      (hdigits : digits.mapM digit? = some ds) (hne : ds ≠ []) :
      Exponent digit? marks (mark :: cs)
        (if negative then -(ofDigits 10 ds : Int) else ofDigits 10 ds)

/-- A decimal numeral without a sign: its coefficient and its power of ten. -/
inductive Decimal (digit? : Char → Option Nat) : List Char → Nat → Int → Prop
  | plain {body : List Char} {ds : List Nat} {places : Nat} (hbody : Pointed digit? body ds places)
      (hne : ds ≠ []) : Decimal digit? body (ofDigits 10 ds) (-places)
  | scientific {body tail : List Char} {ds : List Nat} {places : Nat} {e : Int}
      (hbody : Pointed digit? body ds places) (hne : ds ≠ [])
      (htail : Exponent digit? ['e', 'E'] tail e) :
      Decimal digit? (body ++ tail) (ofDigits 10 ds) (e - places)

/-- A hexadecimal numeral without a sign: its coefficient and its power of two. -/
inductive Hexadecimal : List Char → Nat → Int → Prop
  | mk {mark : Char} {body tail : List Char} {ds : List Nat} {places : Nat} {e : Int}
      (hmark : mark = 'x' ∨ mark = 'X') (hbody : Pointed (baseDigit? 16) body ds places)
      (hne : ds ≠ []) (htail : Exponent asciiDigit? ['p', 'P'] tail e) :
      Hexadecimal ('0' :: mark :: (body ++ tail)) (ofDigits 16 ds) (e - 4 * places)

/-- A text is a numeral, decimal with digits of any script or hexadecimal, of this
sign and this magnitude. -/
inductive SpellsFloat : List Char → Bool → ℚ → Prop
  | decimal {cs rest : List Char} {negative : Bool} {m : Nat} {e : Int}
      (hsign : Signed cs negative rest) (h : Decimal digit? rest m e) :
      SpellsFloat cs negative (m * 10 ^ e)
  | hexadecimal {cs rest : List Char} {negative : Bool} {m : Nat} {e : Int}
      (hsign : Signed cs negative rest) (h : Hexadecimal rest m e) :
      SpellsFloat cs negative (m * 2 ^ e)

/-- A text is a word for an infinity of this sign, with letters in either case. -/
inductive SpellsInfinity : List Char → Bool → Prop
  | mk {cs word : List Char} {negative : Bool} (hsign : Signed cs negative word)
      (hword : word.map Char.toLower = "inf".toList ∨ word.map Char.toLower = "infinity".toList) :
      SpellsInfinity cs negative

/-! ## Characters of numerals -/

theorem isSome_of_mapM {α : Type} {read : Char → Option α} {as : List α}
    (h : cs.mapM read = some as) : ∀ c ∈ cs, (read c).isSome = true := by
  induction cs generalizing as with
  | nil => exact List.forall_mem_nil _
  | cons c rest ih =>
      rw [List.mapM_cons] at h
      obtain ⟨a, ha, h⟩ := Option.bind_eq_some_iff.mp h
      obtain ⟨more, hmore, -⟩ := Option.bind_eq_some_iff.mp h
      exact List.forall_mem_cons.mpr ⟨Option.isSome_iff_exists.mpr ⟨a, ha⟩, ih hmore⟩

section Characters

variable {read : Char → Option Nat} {ds : List Nat} {places : Nat} {marks : List Char} {e : Int}
  {negative : Bool} {m : Nat}

theorem Signed.mem_cases (h : Signed cs negative rest) :
    ∀ c ∈ cs, c = '+' ∨ c = '-' ∨ c ∈ rest := by
  intro c hc
  cases h with
  | unsigned => exact Or.inr (Or.inr hc)
  | plus => exact (List.mem_cons.mp hc).imp_right Or.inr
  | minus =>
      rcases List.mem_cons.mp hc with heq | hc
      · exact Or.inr (Or.inl heq)
      · exact Or.inr (Or.inr hc)

theorem Signed.mem_of_notMem (h : Signed cs negative rest) (hc : c ∈ cs)
    (hplus : c ≠ '+') (hminus : c ≠ '-') : c ∈ rest :=
  ((h.mem_cases c hc).resolve_left hplus).resolve_left hminus

theorem Pointed.mem_cases (h : Pointed read cs ds places) :
    ∀ c ∈ cs, (read c).isSome = true ∨ c = '.' := by
  intro c hc
  cases h with
  | whole h => exact Or.inl (isSome_of_mapM h c hc)
  | point h =>
      rcases List.mem_append.mp hc with hc | hc
      · exact Or.inl (isSome_of_mapM h c (List.mem_append_left _ hc))
      · rcases List.mem_cons.mp hc with heq | hc
        · exact Or.inr heq
        · exact Or.inl (isSome_of_mapM h c (List.mem_append_right _ hc))

theorem Exponent.mem_cases (h : Exponent read marks cs e) :
    ∀ c ∈ cs, (read c).isSome = true ∨ c = '+' ∨ c = '-' ∨ c ∈ marks := by
  intro c hc
  obtain ⟨hmark, hsign, hdigits, -⟩ := h
  rcases List.mem_cons.mp hc with rfl | hc
  · exact Or.inr (Or.inr (Or.inr hmark))
  · rcases hsign.mem_cases c hc with heq | heq | hc
    · exact Or.inr (Or.inl heq)
    · exact Or.inr (Or.inr (Or.inl heq))
    · exact Or.inl (isSome_of_mapM hdigits c hc)

theorem Decimal.mem_cases (h : Decimal read cs m e) :
    ∀ c ∈ cs, (read c).isSome = true ∨ c ∈ ['.', '+', '-', 'e', 'E'] := by
  intro c hc
  cases h with
  | plain hbody => exact (hbody.mem_cases c hc).imp_right fun heq ↦ by simp [heq]
  | scientific hbody _ htail =>
      rcases List.mem_append.mp hc with hc | hc
      · exact (hbody.mem_cases c hc).imp_right fun heq ↦ by simp [heq]
      · refine (htail.mem_cases c hc).imp_right ?_
        rintro (rfl | rfl | hmark)
        · simp
        · simp
        · simp only [List.mem_cons, List.not_mem_nil, or_false] at hmark ⊢
          tauto

theorem isSome_baseDigit? (h : (asciiDigit? c).isSome = true) :
    (baseDigit? 16 c).isSome = true := by
  have hdigits : ∀ d : Fin 10, (baseDigit? 16 d.val.digitChar).isSome = true := by decide
  obtain ⟨n, hn⟩ := Option.isSome_iff_exists.mp h
  obtain ⟨d, rfl, -⟩ := exists_digit_of_asciiDigit? hn
  exact hdigits d

theorem Hexadecimal.mem_cases (h : Hexadecimal cs m e) :
    ∀ c ∈ cs, (baseDigit? 16 c).isSome = true ∨ c ∈ ['.', '+', '-', 'x', 'X', 'p', 'P'] := by
  intro c hc
  obtain ⟨hmark, hbody, -, htail⟩ := h
  rcases List.mem_cons.mp hc with rfl | hc
  · exact Or.inl (by decide)
  rcases List.mem_cons.mp hc with rfl | hc
  · exact Or.inr (by rcases hmark with rfl | rfl <;> simp)
  rcases List.mem_append.mp hc with hc | hc
  · exact (hbody.mem_cases c hc).imp_right fun heq ↦ by simp [heq]
  · refine (htail.mem_cases c hc).imp isSome_baseDigit? ?_
    rintro (rfl | rfl | hmark)
    · simp
    · simp
    · simp only [List.mem_cons, List.not_mem_nil, or_false] at hmark ⊢
      tauto

end Characters

/-! ## Numerals that are read -/

section Readers

variable {read : Char → Option Nat} {isDigit : Char → Bool} {ds : List Nat} {places : Nat}
  {marks : List Char} {e : Int} {negative : Bool} {m : Nat}

theorem signed_of_takeSign (h : takeSign cs = (negative, rest)) : Signed cs negative rest := by
  unfold takeSign at h
  split at h <;> cases h
  · exact .minus _
  · exact .plus _
  · exact .unsigned _

theorem Signed.takeSign_eq (h : Signed cs negative rest) (hplus : rest.head? ≠ some '+')
    (hminus : rest.head? ≠ some '-') : takeSign cs = (negative, rest) := by
  cases h with
  | unsigned =>
      unfold takeSign
      split
      · exact absurd rfl hminus
      · exact absurd rfl hplus
      · rfl
  | plus => rfl
  | minus => rfl

/-- What is split at the first point is digits with a point, and what follows. -/
theorem splitPoint_sound {whole fraction tail : List Char}
    (h : splitPoint cs isDigit = (whole, fraction, tail))
    (hdigits : (whole ++ fraction).mapM read = some ds) :
    ∃ body, cs = body ++ tail ∧ Pointed read body ds fraction.length := by
  have hcs := List.takeWhile_append_dropWhile (p := isDigit) (l := cs)
  unfold splitPoint at h
  split at h
  · next rest hrest =>
    cases h
    refine ⟨cs.takeWhile isDigit ++ '.' :: rest.takeWhile isDigit, ?_, .point hdigits⟩
    rw [List.append_assoc, List.cons_append, List.takeWhile_append_dropWhile, ← hrest, hcs]
  · cases h
    rw [List.append_nil] at hdigits
    exact ⟨cs.takeWhile isDigit, hcs.symm, .whole hdigits⟩

/-- Digits with a point are split at it. -/
theorem Pointed.splitPoint_append {body : List Char} (h : Pointed read body ds places)
    (isDigit : Char → Bool) (hread : ∀ c, (read c).isSome = true → isDigit c = true)
    (hpoint : isDigit '.' = false) (tail : List Char)
    (htail : ∀ c ∈ tail.head?, isDigit c = false ∧ c ≠ '.') :
    ∃ whole fraction, splitPoint (body ++ tail) isDigit = (whole, fraction, tail) ∧
      (whole ++ fraction).mapM read = some ds ∧ fraction.length = places := by
  have hspan : ∀ cs : List Char, (∀ c ∈ cs, isDigit c = true) → ∀ rest : List Char,
      (∀ c ∈ rest.head?, isDigit c = false) →
        (cs ++ rest).takeWhile isDigit = cs ∧ (cs ++ rest).dropWhile isDigit = rest := by
    intro cs hcs rest hrest
    rw [List.takeWhile_append_of_pos hcs, List.dropWhile_append_of_pos hcs]
    cases rest with
    | nil => simp
    | cons c rest => simp [hrest c rfl]
  cases h with
  | whole h =>
      obtain ⟨htake, hdrop⟩ := hspan body (fun c hc ↦ hread c (isSome_of_mapM h c hc)) tail
        fun c hc ↦ (htail c hc).1
      refine ⟨body, [], ?_, by rwa [List.append_nil], rfl⟩
      unfold splitPoint
      rw [htake, hdrop]
      split
      · exact absurd rfl (htail '.' rfl).2
      · rfl
  | @point whole fraction _ h =>
      obtain ⟨htake, hdrop⟩ := hspan whole
        (fun c hc ↦ hread c (isSome_of_mapM h c (List.mem_append_left _ hc)))
        ('.' :: (fraction ++ tail)) (by simp [hpoint])
      obtain ⟨htake', hdrop'⟩ := hspan fraction
        (fun c hc ↦ hread c (isSome_of_mapM h c (List.mem_append_right _ hc))) tail
        fun c hc ↦ (htail c hc).1
      refine ⟨whole, fraction, ?_, h, rfl⟩
      unfold splitPoint
      rw [List.append_assoc, List.cons_append, hdrop, htake]
      change (whole, (fraction ++ tail).takeWhile isDigit, (fraction ++ tail).dropWhile isDigit) = _
      rw [htake', hdrop']

theorem eq_nil_of_mapM {α : Type} {read : Char → Option α} (h : cs.mapM read = some []) :
    cs = [] := by
  cases cs with
  | nil => rfl
  | cons c rest =>
      rw [List.mapM_cons] at h
      obtain ⟨a, -, h⟩ := Option.bind_eq_some_iff.mp h
      obtain ⟨more, -, h⟩ := Option.bind_eq_some_iff.mp h
      cases h

/-- No digit is a sign. -/
theorem head?_ne_sign (cs : List Char)
    (h : ∀ c ∈ cs.head?, (asciiDigit? c).isSome = true ∨ c = '.') :
    cs.head? ≠ some '+' ∧ cs.head? ≠ some '-' := by
  constructor <;> intro hhead <;> exact absurd (h _ hhead) (by decide)

theorem Exponent.head?_mem (h : Exponent read marks cs e) :
    ∃ mark ∈ marks, cs.head? = some mark := by
  obtain ⟨hmark, -, -, -⟩ := h
  exact ⟨_, hmark, rfl⟩

theorem exponent?_eq_some_iff : exponent? marks cs = some e ↔ Exponent asciiDigit? marks cs e := by
  constructor
  · intro h
    cases cs with
    | nil => cases h
    | cons mark rest =>
        simp only [exponent?, Bool.and_eq_true, Bool.not_eq_true', Option.ite_none_right_eq_some,
          Option.map_eq_some_iff] at h
        obtain ⟨⟨hmark, hempty⟩, ds, hds, rfl⟩ := h
        refine .mk (by simpa using hmark) (signed_of_takeSign rfl) hds ?_
        rintro rfl
        rw [eq_nil_of_mapM hds] at hempty
        cases hempty
  · rintro @⟨mark, cs, digits, negative, ds, hmark, hsign, hdigits, hne⟩
    obtain ⟨hplus, hminus⟩ := head?_ne_sign digits fun c hc ↦
      Or.inl (isSome_of_mapM hdigits c (List.mem_of_mem_head? hc))
    have hempty : digits.isEmpty = false := by
      cases digits with
      | nil => exact absurd (Option.some.inj hdigits).symm hne
      | cons => rfl
    simp only [exponent?, hsign.takeSign_eq hplus hminus, List.contains_eq_mem, hmark, hempty,
      hdigits, decide_true, Bool.not_false, Bool.and_self, if_true, Option.map_some]

theorem decimal?_of_split {whole fraction tail : List Char}
    (h : splitPoint cs Char.isDigit = (whole, fraction, tail)) :
    decimal? cs = ((whole ++ fraction).mapM asciiDigit?).bind fun ds ↦
      if ds = [] then none
      else ((if tail = [] then some 0 else exponent? ['e', 'E'] tail).bind
        fun e ↦ some (ofDigits 10 ds, e - fraction.length) : Option (Nat × Int)) := by
  unfold decimal?
  rw [h]
  refine Option.bind_congr fun ds _ ↦ ?_
  cases ds <;> cases tail <;> rfl

theorem isDigit_of_isSome (h : (asciiDigit? c).isSome = true) : c.isDigit = true := by
  obtain ⟨n, hn⟩ := Option.isSome_iff_exists.mp h
  obtain ⟨d, rfl, -⟩ := exists_digit_of_asciiDigit? hn
  exact isDigit_digitChar d

theorem decimal?_eq_some_iff : decimal? cs = some (m, e) ↔ Decimal asciiDigit? cs m e := by
  constructor
  · intro h
    obtain ⟨whole, fraction, tail, hsplit⟩ : ∃ whole fraction tail,
        splitPoint cs Char.isDigit = (whole, fraction, tail) := ⟨_, _, _, rfl⟩
    rw [decimal?_of_split hsplit] at h
    obtain ⟨ds, hds, h⟩ := Option.bind_eq_some_iff.mp h
    obtain ⟨hne, h⟩ := Option.ite_none_left_eq_some.mp h
    obtain ⟨e, he, h⟩ := Option.bind_eq_some_iff.mp h
    cases h
    obtain ⟨body, rfl, hbody⟩ := splitPoint_sound hsplit hds
    split_ifs at he with htail
    · cases he
      rw [htail, List.append_nil, Int.zero_sub]
      exact .plain hbody hne
    · exact .scientific hbody hne (exponent?_eq_some_iff.mp he)
  · intro h
    cases h with
    | plain hbody hne =>
        obtain ⟨whole, fraction, hsplit, hds, rfl⟩ :=
          hbody.splitPoint_append Char.isDigit (fun c ↦ isDigit_of_isSome) rfl [] (by simp)
        rw [List.append_nil] at hsplit
        rw [decimal?_of_split hsplit, hds, Option.bind_some, if_neg hne, if_pos rfl,
          Option.bind_some, Int.zero_sub]
    | @scientific _ tail _ _ e hbody hne htail =>
        obtain ⟨mark, hmark, hhead⟩ := htail.head?_mem
        -- Without the first step all characters there are would be tried.
        have hmarks : ∀ mark ∈ ['e', 'E'], mark.isDigit = false ∧ mark ≠ '.' :=
          List.forall_iff_forall_mem.mp (by decide)
        obtain ⟨whole, fraction, hsplit, hds, rfl⟩ :=
          hbody.splitPoint_append Char.isDigit (fun c ↦ isDigit_of_isSome) rfl tail
            (by simpa [hhead] using hmarks mark hmark)
        have htail_ne : tail ≠ [] := by
          rintro rfl
          cases hhead
        rw [decimal?_of_split hsplit, hds, Option.bind_some, if_neg hne, if_neg htail_ne,
          exponent?_eq_some_iff.mpr htail, Option.bind_some]

theorem hexadecimal?_of_split {mark : Char} (hmark : mark = 'x' ∨ mark = 'X')
    {whole fraction tail : List Char} (h : splitPoint cs isHexDigit = (whole, fraction, tail)) :
    hexadecimal? false ('0' :: mark :: cs) =
      ((whole ++ fraction).mapM (baseDigit? 16)).bind fun ds ↦
        if ds = [] then none
        else ((exponent? ['p', 'P'] tail).bind
          fun e ↦ some (ofDigits 16 ds, e - 4 * fraction.length) : Option (Nat × Int)) := by
  have hmarks : (decide (mark ≠ 'x') && decide (mark ≠ 'X')) = false := by
    rcases hmark with rfl | rfl <;> rfl
  simp only [hexadecimal?, h, hmarks]
  refine Option.bind_congr fun ds _ ↦ ?_
  cases ds <;> rfl

theorem hexadecimal?_cases {p : Nat × Int} (h : hexadecimal? false cs = some p) :
    ∃ mark body, cs = '0' :: mark :: body ∧ (mark = 'x' ∨ mark = 'X') := by
  unfold hexadecimal? at h
  split at h
  · next mark body =>
    refine ⟨mark, body, rfl, ?_⟩
    by_contra hmark
    rw [not_or] at hmark
    simp only [ne_eq, hmark.1, hmark.2, not_false_eq_true, decide_true, Bool.and_self, if_true] at h
    cases h
  · cases h

theorem hexadecimal?_eq_some_iff :
    hexadecimal? false cs = some (m, e) ↔ Hexadecimal cs m e := by
  constructor
  · intro h
    obtain ⟨mark, body, rfl, hmark⟩ := hexadecimal?_cases h
    obtain ⟨whole, fraction, tail, hsplit⟩ : ∃ whole fraction tail,
        splitPoint body isHexDigit = (whole, fraction, tail) := ⟨_, _, _, rfl⟩
    rw [hexadecimal?_of_split hmark hsplit] at h
    obtain ⟨ds, hds, h⟩ := Option.bind_eq_some_iff.mp h
    obtain ⟨hne, h⟩ := Option.ite_none_left_eq_some.mp h
    obtain ⟨e, he, h⟩ := Option.bind_eq_some_iff.mp h
    cases h
    obtain ⟨body, rfl, hbody⟩ := splitPoint_sound hsplit hds
    exact .mk hmark hbody hne (exponent?_eq_some_iff.mp he)
  · rintro @⟨mark, body, tail, ds, places, e, hmark, hbody, hne, htail⟩
    obtain ⟨first, hfirst, hhead⟩ := htail.head?_mem
    have hmarks : ∀ mark ∈ ['p', 'P'], isHexDigit mark = false ∧ mark ≠ '.' :=
      List.forall_iff_forall_mem.mp (by decide)
    obtain ⟨whole, fraction, hsplit, hds, rfl⟩ :=
      hbody.splitPoint_append isHexDigit (fun c hc ↦ hc) rfl tail
        (by simpa [hhead] using hmarks first hfirst)
    rw [hexadecimal?_of_split hmark hsplit, hds, Option.bind_some, if_neg hne,
      exponent?_eq_some_iff.mpr htail, Option.bind_some]

/-! ## Digits of other scripts -/

theorem mapM_normalChar (h : cs.mapM digit? = some ds) :
    (cs.map normalChar).mapM asciiDigit? = some ds := by
  induction cs generalizing ds with
  | nil => exact h
  | cons c rest ih =>
      rw [List.mapM_cons] at h
      obtain ⟨d, hd, h⟩ := Option.bind_eq_some_iff.mp h
      obtain ⟨more, hmore, h⟩ := Option.bind_eq_some_iff.mp h
      cases h
      rw [List.map_cons, List.mapM_cons, asciiDigit?_normalChar hd, ih hmore]
      rfl

theorem Signed.normal (h : Signed cs negative rest) :
    Signed (cs.map normalChar) negative (rest.map normalChar) := by
  cases h with
  | unsigned => exact .unsigned _
  | plus => exact .plus _
  | minus => exact .minus _

theorem Pointed.normal (h : Pointed digit? cs ds places) :
    Pointed asciiDigit? (cs.map normalChar) ds places := by
  cases h with
  | whole h => exact .whole (mapM_normalChar h)
  | @point _ fraction _ h =>
      have hnormal := mapM_normalChar h
      rw [List.map_append] at hnormal
      have hpoint := Pointed.point hnormal
      rwa [List.length_map, show '.' = normalChar '.' by decide, ← List.map_cons,
        ← List.map_append] at hpoint

theorem Exponent.normal (h : Exponent digit? marks cs e)
    (hmarks : ∀ mark ∈ marks, normalChar mark = mark) :
    Exponent asciiDigit? marks (cs.map normalChar) e := by
  obtain ⟨hmark, hsign, hdigits, hne⟩ := h
  rw [List.map_cons, hmarks _ hmark]
  exact .mk hmark hsign.normal (mapM_normalChar hdigits) hne

theorem Decimal.normal (h : Decimal digit? cs m e) :
    Decimal asciiDigit? (cs.map normalChar) m e := by
  cases h with
  | plain hbody hne => exact .plain hbody.normal hne
  | scientific hbody hne htail =>
      rw [List.map_append]
      exact .scientific hbody.normal hne (htail.normal (List.forall_iff_forall_mem.mp (by decide)))

theorem Pointed.ne_nil (h : Pointed read cs ds places) (hne : ds ≠ []) : cs ≠ [] := by
  cases h with
  | whole h =>
      rintro rfl
      exact hne (Option.some.inj h).symm
  | point => simp

theorem Decimal.head?_ne_sign (h : Decimal asciiDigit? cs m e) :
    cs.head? ≠ some '+' ∧ cs.head? ≠ some '-' := by
  have hbody : ∃ body tail ds places, cs = body ++ tail ∧ Pointed asciiDigit? body ds places ∧
      ds ≠ [] := by
    cases h with
    | plain hbody hne => exact ⟨cs, [], _, _, (List.append_nil cs).symm, hbody, hne⟩
    | scientific hbody hne => exact ⟨_, _, _, _, rfl, hbody, hne⟩
  obtain ⟨body, tail, ds, places, rfl, hbody, hne⟩ := hbody
  refine Numeral.head?_ne_sign _ fun c hc ↦ hbody.mem_cases c ?_
  rw [List.head?_append_of_ne_nil _ (hbody.ne_nil hne)] at hc
  exact List.mem_of_mem_head? hc

/-! ## Words -/

theorem word?_eq_none (f : Format) (h : ∀ c ∈ cs, c.toLower ≠ 'n') :
    word? f negative cs = none := by
  have hletter {word : String} (hword : 'n' ∈ word.toList)
      (heq : String.ofList (cs.map Char.toLower) = word) : False := by
    rw [← heq, String.toList_ofList] at hword
    obtain ⟨c, hc, hlower⟩ := List.mem_map.mp hword
    exact h c hc hlower
  unfold word?
  split
  · next heq => exact (hletter (by decide) heq).elim
  · next heq => exact (hletter (by decide) heq).elim
  · next heq => exact (hletter (by decide) heq).elim
  · rfl

theorem word?_eq_infinite_iff {f : Format} {negative' : Bool} :
    word? f negative cs = some (.infinite negative') ↔ negative = negative' ∧
      (cs.map Char.toLower = "inf".toList ∨ cs.map Char.toLower = "infinity".toList) := by
  have hspelled {word : String} : String.ofList (cs.map Char.toLower) = word ↔
      cs.map Char.toLower = word.toList := by
    rw [← String.toList_inj, String.toList_ofList]
  rw [← hspelled, ← hspelled]
  unfold word?
  split
  · next heq => simp [heq]
  · next heq => simp [heq]
  · next heq => simp [heq]
  · next hinf hinfinity _ => exact iff_of_false nofun fun h ↦ h.2.elim hinf hinfinity

/-- The letters of the words for an infinity. -/
def wordLetters : List Char := "infinityINFINITY".toList

theorem mem_wordLetters (h : cs.map Char.toLower = "inf".toList ∨
    cs.map Char.toLower = "infinity".toList) : ∀ c ∈ cs, c ∈ wordLetters := by
  have hsmall : ∀ small ∈ "infinity".toList,
      small ∈ wordLetters ∧ Char.ofNat (small.toNat - 32) ∈ wordLetters :=
    List.forall_iff_forall_mem.mp (by decide)
  have hword : "inf".toList.Sublist "infinity".toList := by decide
  intro c hc
  have hlower : c.toLower ∈ "infinity".toList := by
    rcases h with h | h
    · exact hword.subset (h ▸ List.mem_map_of_mem hc)
    · exact h ▸ List.mem_map_of_mem hc
  obtain ⟨hletter, hlarge⟩ := hsmall _ hlower
  rcases Text.eq_of_toLower (Eq.refl c.toLower) with heq | heq
  · rwa [heq]
  · rwa [heq]

/-! ## Texts without blanks and underscores -/

theorem readFloat_of_plain (hstrip : strip cs = cs) (hunderscore : '_' ∉ cs)
    (hsign : takeSign (cs.map normalChar) = (negative, rest)) :
    readFloat cs = (word? .double negative rest).or
      ((decimal? rest).map fun p ↦ Binary.ofDecimal .double negative p.1 p.2) := by
  have hnormal : '_' ∉ cs.map normalChar := by
    intro hmem
    obtain ⟨c, hc, heq⟩ := List.mem_map.mp hmem
    exact hunderscore (eq_of_normalChar (by decide) (by decide) heq ▸ hc)
  unfold readFloat
  rw [normal_of_strip hstrip, dropUnderscores_of_notMem hnormal]
  simp only [Option.bind_eq_bind, Option.bind_some, hsign]
  cases word? .double negative rest with
  | some x => rfl
  | none => cases decimal? rest <;> rfl

theorem readHexFloat_eq (hsign : takeSign cs = (negative, rest)) :
    readHexFloat cs = (hexadecimal? false rest).map fun p ↦
      Binary.ofDyadic .double negative p.1 p.2 := by
  unfold readHexFloat
  simp only [hsign]
  cases hexadecimal? false rest <;> rfl

/-- Signs and letters of words are normal characters, and come from themselves only. -/
theorem normalChar_of_mem_wordLetters :
    (∀ c ∈ '+' :: '-' :: wordLetters, isBlank c = false ∧ c ≠ '_' ∧ normalChar c = c) ∧
      ∀ c, normalChar c ∈ '+' :: '-' :: wordLetters → normalChar c = c := by
  have hother : ∀ x ∈ '+' :: '-' :: wordLetters, x ≠ ' ' ∧ x.isDigit = false :=
    List.forall_iff_forall_mem.mp (by decide)
  exact ⟨List.forall_iff_forall_mem.mp (by decide), fun c hc ↦
    (eq_of_normalChar (hother _ hc).1 (hother _ hc).2 rfl).symm⟩

theorem Signed.mem_wordLetters (hsign : Signed cs negative rest)
    (hword : rest.map Char.toLower = "inf".toList ∨ rest.map Char.toLower = "infinity".toList) :
    ∀ c ∈ cs, c ∈ '+' :: '-' :: wordLetters := by
  intro c hc
  rw [List.mem_cons, List.mem_cons]
  exact (hsign.mem_cases c hc).imp_right (Or.imp_right (Numeral.mem_wordLetters hword c))

theorem SpellsInfinity.plain (h : SpellsInfinity cs negative) :
    ∀ c ∈ cs, isBlank c = false ∧ c ≠ '_' ∧ normalChar c = c := by
  obtain ⟨hsign, hword⟩ := h
  exact fun c hc ↦ normalChar_of_mem_wordLetters.1 c (hsign.mem_wordLetters hword c hc)

/-- A text of normal characters that are a word for an infinity is that word. -/
theorem SpellsInfinity.of_normal (hsign : Signed (cs.map normalChar) negative rest)
    (hword : rest.map Char.toLower = "inf".toList ∨ rest.map Char.toLower = "infinity".toList) :
    SpellsInfinity cs negative := by
  have hnormal : ∀ c ∈ cs, normalChar c = c := fun c hc ↦ normalChar_of_mem_wordLetters.2 c
    (hsign.mem_wordLetters hword _ (List.mem_map_of_mem hc))
  rw [(List.map_congr_left hnormal).trans (List.map_id' cs)] at hsign
  exact .mk hsign hword

theorem SpellsInfinity.takeSign_eq (h : SpellsInfinity cs negative) :
    ∃ word, takeSign cs = (negative, word) ∧
      (word.map Char.toLower = "inf".toList ∨ word.map Char.toLower = "infinity".toList) := by
  obtain ⟨hsign, hword⟩ := h
  refine ⟨_, hsign.takeSign_eq ?_ ?_, hword⟩ <;> intro hhead <;>
    exact absurd (mem_wordLetters hword _ (List.mem_of_mem_head? hhead)) (by decide)

theorem SpellsInfinity.readHexFloat_eq (h : SpellsInfinity cs negative) :
    readHexFloat cs = none := by
  obtain ⟨word, htake, hword⟩ := h.takeSign_eq
  rw [Numeral.readHexFloat_eq htake, Option.map_eq_none_iff]
  by_contra hsome
  obtain ⟨p, hp⟩ := Option.ne_none_iff_exists'.mp hsome
  obtain ⟨mark, body, rfl, -⟩ := hexadecimal?_cases hp
  exact absurd (mem_wordLetters hword '0' List.mem_cons_self) (by decide)

theorem SpellsInfinity.readFloat_eq (h : SpellsInfinity cs negative) :
    readFloat cs = some (.infinite negative) := by
  obtain ⟨word, htake, hword⟩ := h.takeSign_eq
  have hnormal : cs.map normalChar = cs :=
    (List.map_congr_left fun c hc ↦ (h.plain c hc).2.2).trans (List.map_id' cs)
  rw [readFloat_of_plain (strip_of_forall fun c hc ↦ (h.plain c hc).1)
    (fun hc ↦ (h.plain _ hc).2.1 rfl) (hnormal.symm ▸ htake),
    word?_eq_infinite_iff.mpr ⟨rfl, hword⟩, Option.some_or]

/-- Hexadecimal digits are between these codes. -/
theorem toNat_of_baseDigit? (h : (baseDigit? 16 c).isSome = true) :
    48 ≤ c.toNat ∧ c.toNat ≤ 102 := by
  obtain ⟨d, hd⟩ := Option.isSome_iff_exists.mp h
  obtain ⟨hvalue, hlt⟩ := Option.filter_eq_some_iff.mp hd
  have hlt : d < 16 := by simpa using hlt
  have hcode {low high : Char} (hrange : (decide (low ≤ c) && decide (c ≤ high)) = true) :
      low.toNat ≤ c.toNat ∧ c.toNat ≤ high.toNat := by
    rwa [Bool.and_eq_true, decide_eq_true_eq, decide_eq_true_eq] at hrange
  split_ifs at hvalue with hdigit hsmall hlarge
  · have hrange : 48 ≤ c.toNat ∧ c.toNat ≤ 57 := hcode hdigit
    omega
  · have hrange : 97 ≤ c.toNat ∧ c.toNat ≤ 122 := hcode hsmall
    have hoffset : c.toNat - 87 = d := Option.some.inj hvalue
    omega
  · have hrange : 65 ≤ c.toNat ∧ c.toNat ≤ 90 := hcode hlarge
    omega

/-- Numerals have no blank, no underscore and no letter that infinities have alone. -/
theorem SpellsFloat.mem_cases {v : ℚ} (h : SpellsFloat cs negative v) :
    ∀ c ∈ cs, isBlank c = false ∧ c ≠ '_' ∧ c ≠ 'i' ∧ c ≠ 'I' := by
  have hother : ∀ c ∈ ['.', '+', '-', 'e', 'E', 'x', 'X', 'p', 'P'],
      isBlank c = false ∧ c ≠ '_' ∧ c ≠ 'i' ∧ c ≠ 'I' :=
    List.forall_iff_forall_mem.mp (by decide)
  have hsigns : ∀ c, c = '+' ∨ c = '-' → c ∈ ['.', '+', '-', 'e', 'E', 'x', 'X', 'p', 'P'] := by
    rintro c (rfl | rfl) <;> decide
  intro c hc
  cases h with
  | decimal hsign h =>
      rcases or_assoc.mpr (hsign.mem_cases c hc) with hmem | hmem
      · exact hother c (hsigns c hmem)
      · rcases h.mem_cases c hmem with hdigit | hmark
        · refine ⟨?_, ?_, ?_, ?_⟩
          · obtain ⟨d, hd⟩ := Option.isSome_iff_exists.mp hdigit
            exact (digit?_eq_some_cases hd).2.1
          all_goals
            rintro rfl
            exact absurd hdigit (by decide)
        · exact hother c ((by decide : ['.', '+', '-', 'e', 'E'].Sublist _).subset hmark)
  | hexadecimal hsign h =>
      rcases or_assoc.mpr (hsign.mem_cases c hc) with hmem | hmem
      · exact hother c (hsigns c hmem)
      · rcases h.mem_cases c hmem with hdigit | hmark
        · refine ⟨?_, ?_, ?_, ?_⟩
          · obtain ⟨hlow, hhigh⟩ := toNat_of_baseDigit? hdigit
            have hblank : ∀ blank ∈ blanks, blank < 48 ∨ 102 < blank := by decide
            rw [isBlank, List.contains_eq_mem, decide_eq_false_iff_not]
            intro hc
            have := hblank _ hc
            omega
          all_goals
            rintro rfl
            exact absurd hdigit (by decide)
        · exact hother c
            ((by decide : ['.', '+', '-', 'x', 'X', 'p', 'P'].Sublist _).subset hmark)

/-- No letter of a hexadecimal numeral is the first one of a word. -/
theorem notMem_of_readHexFloat {x : Double} (h : readHexFloat cs = some x) :
    'i' ∉ cs ∧ 'I' ∉ cs := by
  obtain ⟨negative, rest, htake⟩ : ∃ negative rest, takeSign cs = (negative, rest) := ⟨_, _, rfl⟩
  rw [readHexFloat_eq htake] at h
  obtain ⟨p, hp, -⟩ := Option.map_eq_some_iff.mp h
  have hspells :=
    SpellsFloat.hexadecimal (signed_of_takeSign htake) (hexadecimal?_eq_some_iff.mp hp)
  exact ⟨fun hc ↦ (hspells.mem_cases _ hc).2.2.1 rfl, fun hc ↦ (hspells.mem_cases _ hc).2.2.2 rfl⟩

/-- Nor is one of a decimal numeral. -/
theorem notMem_of_decimal (hsign : Signed (cs.map normalChar) negative rest)
    (h : Decimal asciiDigit? rest m e) : 'i' ∉ cs ∧ 'I' ∉ cs := by
  have hnotMem {c : Char} (hnormal : normalChar c = c) (hplus : c ≠ '+') (hminus : c ≠ '-')
      (hdigit : (asciiDigit? c).isSome = false) (hmark : c ∉ ['.', '+', '-', 'e', 'E']) :
      c ∉ cs := by
    intro hc
    have hrest := hsign.mem_of_notMem (hnormal ▸ List.mem_map_of_mem hc) hplus hminus
    rcases h.mem_cases c hrest with hsome | hmem
    · rw [hdigit] at hsome
      cases hsome
    · exact hmark hmem
  constructor <;> apply hnotMem <;> decide

theorem readHexFloat_of_decimal (hsign : Signed cs negative rest)
    (h : Decimal digit? rest m e) : readHexFloat cs = none := by
  obtain ⟨hplus, hminus⟩ := h.normal.head?_ne_sign
  have htake := hsign.takeSign_eq (fun hhead ↦ hplus (by simp [hhead]; decide))
    (fun hhead ↦ hminus (by simp [hhead]; decide))
  rw [readHexFloat_eq htake, Option.map_eq_none_iff]
  by_contra hsome
  obtain ⟨p, hp⟩ := Option.ne_none_iff_exists'.mp hsome
  obtain ⟨mark, body, rfl, hmark⟩ := hexadecimal?_cases hp
  have hmem : mark ∈ '0' :: mark :: body := List.mem_cons_of_mem _ List.mem_cons_self
  rcases hmark with rfl | rfl <;> exact absurd (h.mem_cases _ hmem) (by decide)

theorem readFloat_of_decimal (hstrip : strip cs = cs) (hunderscore : '_' ∉ cs)
    (hsign : Signed cs negative rest) (h : Decimal digit? rest m e) :
    readFloat cs = some (Binary.ofDecimal .double negative m e) := by
  have hnormal := h.normal
  have hword : word? .double negative (rest.map normalChar) = none := by
    refine word?_eq_none _ fun c hc hlower ↦ ?_
    rcases eq_of_toLower hlower with rfl | rfl <;>
      exact absurd (hnormal.mem_cases _ hc) (by decide)
  obtain ⟨hplus, hminus⟩ := hnormal.head?_ne_sign
  rw [readFloat_of_plain hstrip hunderscore (hsign.normal.takeSign_eq hplus hminus), hword,
    decimal?_eq_some_iff.mpr hnormal]
  rfl

end Readers

end Numeral

end LayeredConfig
