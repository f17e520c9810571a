import LayeredConfig.Json.Reader
import LayeredConfig.Proofs.Members
import Mathlib.Data.List.Forall2
import Mathlib.Data.List.TakeWhile

/-!
# Texts that spell data

A text spells data when the reader takes the data off every text that begins
with it and goes on as a text goes on after a value.  Quoted strings, numerals
and words spell what they stand for, and so do items between brackets and
members between braces.
-/

namespace LayeredConfig

/-! ## Digits -/

namespace Text

theorem baseDigit?_digitChar : ∀ d < 16, baseDigit? 16 d.digitChar = some d := by decide

theorem asciiDigit?_of_isDigit {c : Char} (h : c.isDigit = true) :
    asciiDigit? c = some (c.toNat - 48) := by
  simp only [Char.isDigit, Bool.and_eq_true, decide_eq_true_eq] at h
  simp only [asciiDigit?, Bool.and_eq_true, decide_eq_true_eq]
  exact if_pos h

end Text

namespace Numeral

theorem ofDigits_filterMap_asciiDigit? {cs : List Char} (hcs : ∀ c ∈ cs, c.isDigit = true) :
    ofDigits 10 (cs.filterMap Text.asciiDigit?) = Nat.ofDigitChars 10 cs 0 := by
  rw [ofDigits, Nat.ofDigitChars_eq_foldl]
  generalize 0 = start
  induction cs generalizing start with
  | nil => rfl
  | cons c rest ih =>
      have hc := Text.asciiDigit?_of_isDigit (hcs c List.mem_cons_self)
      rw [List.filterMap_cons_some hc, List.foldl_cons, List.foldl_cons]
      exact ih (fun c hc ↦ hcs c (List.mem_cons_of_mem _ hc)) _

theorem isDigit_of_mem_toDigits {n : Nat} {c : Char} (hc : c ∈ Nat.toDigits 10 n) :
    c.isDigit = true :=
  Nat.isDigit_of_mem_toDigits (by decide) (by decide) hc

theorem ofDigits_toDigits (n : Nat) :
    ofDigits 10 ((Nat.toDigits 10 n).filterMap Text.asciiDigit?) = n := by
  rw [ofDigits_filterMap_asciiDigit? fun _ hc ↦ isDigit_of_mem_toDigits hc]
  exact Nat.ofDigitChars_ten_toDigits

theorem head?_toDigits_ne_zero {n : Nat} (hn : n ≠ 0) : (Nat.toDigits 10 n).head? ≠ some '0' := by
  induction n using Nat.strongRecOn with
  | ind n ih =>
      by_cases hlt : n < 10
      · rw [Nat.toDigits_of_lt_base hlt]
        simpa using hn
      · rw [Nat.toDigits_of_base_le (by decide) (by omega),
          List.head?_append_of_ne_nil _ Nat.toDigits_ne_nil]
        exact ih (n / 10) (by omega) (by omega)

theorem length_toDigits_le {n : Int} (h : isOverlong n = false) :
    (Nat.toDigits 10 n.natAbs).length ≤ digitLimit := by
  have hpos : 0 < digitLimit := by decide
  unfold isOverlong at h
  -- Its power of ten is not to be computed.
  generalize digitLimit = limit at h hpos ⊢
  rw [Nat.length_toDigits_le_iff (by decide) hpos]
  simpa using h

end Numeral

namespace Json

/-! ## Strings -/

theorem exists_hexDigits_four {n : Nat} (hn : n < 0x10000) :
    ∃ a b c d, Text.hexDigits 4 n = [a, b, c, d] ∧ hex4? a b c d = some n := by
  refine ⟨_, _, _, _, rfl, ?_⟩
  have hdigit (m : Nat) : Text.baseDigit? 16 (m % 16).digitChar = some (m % 16) :=
    Text.baseDigit?_digitChar _ (Nat.mod_lt _ (by decide))
  simp only [hex4?, List.mapM_cons, List.mapM_nil, hdigit]
  have hvalue : Numeral.ofDigits 16
      [n / 16 / 16 / 16 % 16, n / 16 / 16 % 16, n / 16 % 16, n % 16] = n := by
    simp only [Numeral.ofDigits, List.foldl_cons, List.foldl_nil]
    omega
  exact congrArg some hvalue

theorem stringUnits_escape {n : Nat} (hn : n < 0x10000) (rest : List Char) :
    stringUnits ('\\' :: 'u' :: Text.hexDigits 4 n ++ rest) =
      (stringUnits rest).map (consUnit n) := by
  obtain ⟨a, b, c, d, hdigits, hvalue⟩ := exists_hexDigits_four hn
  simp [hdigits, stringUnits, hvalue]

theorem stringUnits_quotedChar (c : Char) (rest : List Char) :
    stringUnits (quotedChar c ++ rest) = (stringUnits rest).map (consUnit c.toNat) := by
  unfold quotedChar
  split_ifs with hquote hbackslash hline hreturn htab hback hfeed hcode
  all_goals try subst c; rfl
  · apply stringUnits_escape
    simp only [Bool.or_eq_true, decide_eq_true_eq] at hcode
    rcases hcode with (hcontrol | rfl) | rfl
    · omega
    · decide
    · decide
  · have hprintable : ¬ c.toNat < 0x20 := by
      intro hcontrol
      simp [hcontrol] at hcode
    simp [stringUnits, hquote, hbackslash, hprintable]

theorem stringUnits_flatMap_quotedChar (cs rest : List Char) :
    stringUnits (cs.flatMap quotedChar ++ '\x22' :: rest) = some (cs.map Char.toNat, rest) := by
  induction cs with
  | nil => simp [stringUnits]
  | cons c cs ih =>
      rw [List.flatMap_cons, List.append_assoc, stringUnits_quotedChar, ih]
      rfl

theorem not_isSurrogate (c : Char) :
    isHighSurrogate c.toNat = false ∧ isLowSurrogate c.toNat = false := by
  have hvalid : c.toNat < 0xD800 ∨ 0xDFFF < c.toNat ∧ c.toNat < 0x110000 := c.valid
  constructor
  · simp only [isHighSurrogate, Bool.and_eq_false_iff, decide_eq_false_iff_not]
    omega
  · simp only [isLowSurrogate, Bool.and_eq_false_iff, decide_eq_false_iff_not]
    omega

theorem charsOfUnits_map_toNat (cs : List Char) : charsOfUnits (cs.map Char.toNat) = cs := by
  induction cs with
  | nil => rfl
  | cons c rest ih =>
      obtain ⟨hhigh, hlow⟩ := not_isSurrogate c
      cases rest with
      | nil => simp [charsOfUnits, hhigh, hlow]
      | cons d rest =>
          simp only [List.map_cons] at ih ⊢
          simp [charsOfUnits, hhigh, hlow, ih]

theorem readString_flatMap_quotedChar (s : String) (rest : List Char) :
    readString (s.toList.flatMap quotedChar ++ '\x22' :: rest) = .ok (s, rest) := by
  simp [readString, stringUnits_flatMap_quotedChar, charsOfUnits_map_toNat]

theorem toList_quote (s : String) :
    (quote s).toList = '\x22' :: (s.toList.flatMap quotedChar ++ ['\x22']) := by
  simp [quote]

/-! ### Separators -/

/-- One of the two separators, of lines and of paragraphs. -/
def isSeparator (c : Char) : Bool := c == '\u2028' || c == '\u2029'

/-- A character inside a quoted string, with the separators as they are. -/
def keptChar (c : Char) : List Char := if isSeparator c then [c] else quotedChar c

/-- The separators escaped, whatever stands around them. -/
def escapeSeparators (cs : List Char) : List Char :=
  cs.flatMap fun c ↦ if isSeparator c then quotedChar c else [c]

theorem isSeparator_of_mem_hexDigits {width n : Nat} {d : Char}
    (hd : d ∈ Text.hexDigits width n) : isSeparator d = false := by
  have hdigits : ∀ m < 16, isSeparator m.digitChar = false := by decide
  induction width generalizing n with
  | zero => cases hd
  | succ width ih =>
      rcases List.mem_append.mp hd with hd | hd
      · exact ih hd
      · rw [List.mem_singleton.mp hd]
        exact hdigits _ (Nat.mod_lt _ (by decide))

/-- No separator is left where a character was escaped. -/
theorem isSeparator_of_mem_quotedChar {c d : Char} (hd : d ∈ quotedChar c) :
    isSeparator d = false := by
  unfold quotedChar at hd
  split_ifs at hd with hquote hbackslash hline hreturn htab hback hfeed hcode
  iterate 7
    · simp only [List.mem_cons, List.not_mem_nil, or_false] at hd
      rcases hd with rfl | rfl <;> rfl
  · simp only [List.mem_cons] at hd
    rcases hd with rfl | rfl | hd
    · rfl
    · rfl
    · exact isSeparator_of_mem_hexDigits hd
  · simp only [Bool.or_eq_true, decide_eq_true_eq, not_or] at hcode
    rw [List.mem_singleton.mp hd]
    simp [isSeparator, hcode.1.2, hcode.2]

theorem flatMap_eq_self {f : Char → List Char} {cs : List Char} (h : ∀ c ∈ cs, f c = [c]) :
    cs.flatMap f = cs := by
  rw [List.flatMap_congr h]
  exact List.flatMap_singleton' cs

theorem escapeSeparators_keptChar (c : Char) : escapeSeparators (keptChar c) = quotedChar c := by
  cases hc : isSeparator c with
  | true => simp [keptChar, escapeSeparators, hc]
  | false =>
      rw [keptChar, hc]
      exact flatMap_eq_self fun d hd ↦ by simp [isSeparator_of_mem_quotedChar hd]

/-- Escaping the separators in the whole quoted text afterwards hits nothing else. -/
theorem escapeSeparators_quoted (s : String) :
    escapeSeparators ('\x22' :: (s.toList.flatMap keptChar ++ ['\x22'])) = (quote s).toList := by
  have hinner : escapeSeparators (s.toList.flatMap keptChar) = s.toList.flatMap quotedChar := by
    rw [escapeSeparators, List.flatMap_assoc]
    exact congrArg s.toList.flatMap (funext escapeSeparators_keptChar)
  rw [toList_quote, ← hinner]
  simp [escapeSeparators, isSeparator]

/-! ## Spelling -/

/-- How a text may go on after a value: it ends, or an item or a container does. -/
def Ends (rest : List Char) : Prop := ∀ c ∈ rest.head?, c = ',' ∨ c = ']' ∨ c = '\x7d'

theorem ends_nil : Ends [] := by simp [Ends]

theorem Ends.cases {rest : List Char} (h : Ends rest) :
    rest = [] ∨ ∃ c cs, rest = c :: cs ∧ (c = ',' ∨ c = ']' ∨ c = '\x7d') := by
  cases rest with
  | nil => exact Or.inl rfl
  | cons c cs => exact Or.inr ⟨c, cs, rfl, h c rfl⟩

/-- The text begins neither with a space nor with the end of a container. -/
def Begins (text : String) : Prop :=
  ∃ c cs, text.toList = c :: cs ∧ isSpace c = false ∧ c ≠ ']' ∧ c ≠ '\x7d'

/-- The text reads as the data, in front of everything that ends a value and
at every depth that its length allows. -/
structure Spells (text : String) (j : Json) : Prop where
  begins : Begins text
  reads : ∀ depth rest, text.length ≤ depth → Ends rest →
    readValue depth (text.toList ++ rest) = .ok (j, rest)

theorem skipSpace_cons {c : Char} (hc : isSpace c = false) (cs : List Char) :
    skipSpace (c :: cs) = c :: cs := by
  rw [skipSpace, List.dropWhile_cons_of_neg (by simp [hc])]

theorem skipSpace_of_begins {text : String} (h : Begins text) (rest : List Char) :
    skipSpace (text.toList ++ rest) = text.toList ++ rest := by
  obtain ⟨c, cs, htext, hspace, -⟩ := h
  rw [htext, List.cons_append, skipSpace_cons hspace]

theorem Spells.read {text : String} {j : Json} (h : Spells text j) : Json.read text = .ok j := by
  have hskip := skipSpace_of_begins h.begins []
  have hlength : text.length ≤ text.toList.length + 1 := by
    rw [String.length_toList]
    omega
  have hreads := h.reads _ [] hlength ends_nil
  rw [List.append_nil] at hskip hreads
  simp only [Json.read, hskip, hreads]
  rfl

theorem spells_quote (s : String) : Spells (quote s) (.string s) := by
  refine ⟨⟨'\x22', _, toList_quote s, by decide⟩, fun depth rest hdepth _ ↦ ?_⟩
  rw [toList_quote]
  cases depth with
  | zero =>
      rw [← String.length_toList, toList_quote] at hdepth
      simp at hdepth
  | succ depth =>
      rw [List.cons_append, List.append_assoc, List.singleton_append, readValue,
        readString_flatMap_quotedChar]
      rfl

/-! ### Words and numerals -/

theorem readValue_eq_readAtom {c : Char} (hquote : c ≠ '\x22') (hbracket : c ≠ '[')
    (hbrace : c ≠ '\x7b') (cs : List Char) (depth : Nat) :
    readValue (depth + 1) (c :: cs) = readAtom (c :: cs) := by
  simp [readValue, hquote, hbracket, hbrace]

/-- The characters that no word and no numeral begins with. -/
def marks : List Char := [' ', '\t', '\n', '\r', '\x22', '[', ']', '\x7b', '\x7d']

theorem spells_of_readAtom {text : String} {j : Json} {c : Char} {cs : List Char}
    (htext : text.toList = c :: cs) (hc : c ∉ marks)
    (hreads : ∀ rest, Ends rest → readAtom (text.toList ++ rest) = .ok (j, rest)) :
    Spells text j := by
  simp only [marks, List.mem_cons, List.not_mem_nil, or_false, not_or] at hc
  obtain ⟨hspace, htab, hline, hreturn, hquote, hbracket, hclose, hbrace, hend⟩ := hc
  have hblank : isSpace c = false := by simp [isSpace, hspace, htab, hline, hreturn]
  refine ⟨⟨c, cs, htext, hblank, hclose, hend⟩, fun depth rest hdepth hends ↦ ?_⟩
  cases depth with
  | zero =>
      rw [← String.length_toList, htext] at hdepth
      simp at hdepth
  | succ depth =>
      have hread := hreads rest hends
      rw [htext, List.cons_append] at hread ⊢
      rw [readValue_eq_readAtom hquote hbracket hbrace, hread]

theorem spells_null : Spells "null" .null :=
  spells_of_readAtom (c := 'n') rfl (by decide) fun _ _ ↦ rfl

theorem spells_boolean (b : Bool) : Spells (if b then "true" else "false") (.boolean b) := by
  cases b with
  | false => exact spells_of_readAtom (c := 'f') rfl (by decide) fun _ _ ↦ rfl
  | true => exact spells_of_readAtom (c := 't') rfl (by decide) fun _ _ ↦ rfl

/-- A numeral ends where a value ends. -/
theorem Ends.isDigit_head? {rest : List Char} (h : Ends rest) :
    ∀ c ∈ rest.head?, c.isDigit = false := by
  intro c hc
  rcases h c hc with rfl | rfl | rfl
  · decide
  · decide
  · decide

theorem takeWhile_eq_nil_of_head? {p : Char → Bool} {rest : List Char}
    (h : ∀ c ∈ rest.head?, p c = false) : rest.takeWhile p = [] ∧ rest.dropWhile p = rest := by
  cases rest with
  | nil => exact ⟨rfl, rfl⟩
  | cons c cs =>
      have hc := h c rfl
      simp [hc]

theorem wholeDigits_of_head? {cs : List Char} (h : cs.head? ≠ some '0') :
    wholeDigits cs = (cs.takeWhile Char.isDigit, cs.dropWhile Char.isDigit) := by
  cases cs with
  | nil => rfl
  | cons c rest =>
      have hc : c ≠ '0' := by simpa using h
      simp [wholeDigits, hc]

theorem wholeDigits_toDigits (n : Nat) {rest : List Char} (hends : Ends rest) :
    wholeDigits (Nat.toDigits 10 n ++ rest) = (Nat.toDigits 10 n, rest) := by
  by_cases hn : n = 0
  · subst hn
    rfl
  · have hdigits : ∀ c ∈ Nat.toDigits 10 n, c.isDigit = true := fun _ hc ↦
      Numeral.isDigit_of_mem_toDigits hc
    obtain ⟨htake, hdrop⟩ := takeWhile_eq_nil_of_head? hends.isDigit_head?
    rw [wholeDigits_of_head?, List.takeWhile_append_of_pos hdigits,
      List.dropWhile_append_of_pos hdigits, htake, hdrop, List.append_nil]
    rw [List.head?_append_of_ne_nil _ Nat.toDigits_ne_nil]
    exact Numeral.head?_toDigits_ne_zero hn

theorem fractionDigits_of_ends {rest : List Char} (h : Ends rest) :
    fractionDigits rest = ([], rest) := by
  rcases h.cases with rfl | ⟨c, cs, rfl, rfl | rfl | rfl⟩ <;> rfl

theorem exponent?_of_ends {rest : List Char} (h : Ends rest) : exponent? rest = none := by
  rcases h.cases with rfl | ⟨c, cs, rfl, rfl | rfl | rfl⟩ <;> rfl

theorem readMagnitude_toDigits (negative : Bool) {n : Nat} {rest : List Char}
    (hlength : (Nat.toDigits 10 n).length ≤ Numeral.digitLimit) (hends : Ends rest) :
    readMagnitude negative (Nat.toDigits 10 n ++ rest) =
      .ok (.int (if negative then -(n : Int) else n), rest) := by
  have hne : (Nat.toDigits 10 n).isEmpty = false := by
    rw [List.isEmpty_eq_false_iff]
    exact Nat.toDigits_ne_nil
  simp [readMagnitude, wholeDigits_toDigits n hends, fractionDigits_of_ends hends,
    exponent?_of_ends hends, Numeral.ofDigits_toDigits, hne, Nat.not_lt.mpr hlength]

theorem digit_notMem {c : Char} (hc : c.isDigit = true) {others : List Char}
    (hothers : others.all (fun d ↦ !d.isDigit) = true) : c ∉ others := by
  intro hmem
  have hd := List.all_eq_true.mp hothers c hmem
  rw [hc] at hd
  cases hd

theorem readAtom_digit {c : Char} (hc : c.isDigit = true) (cs : List Char) :
    readAtom (c :: cs) = readMagnitude false (c :: cs) := by
  have hne : c ∉ ['n', 't', 'f', 'N', 'I', '-'] := digit_notMem hc rfl
  simp only [List.mem_cons, List.not_mem_nil, or_false, not_or, eq_comm (a := c)] at hne
  obtain ⟨hn, ht, hf, hN, hI, hminus⟩ := hne
  simp [readAtom, words, after?, hn, ht, hf, hN, hI, hminus, eq_comm (a := c)]

theorem readAtom_minus {c : Char} (hc : c.isDigit = true) (cs : List Char) :
    readAtom ('-' :: c :: cs) = readMagnitude true (c :: cs) := by
  have hne : 'I' ≠ c := by
    rintro rfl
    cases hc
  simp [readAtom, words, after?, hne]

theorem toList_repr (n : Nat) : n.repr.toList = Nat.toDigits 10 n := by
  rw [Nat.repr_eq_ofList_toDigits, String.toList_ofList]

theorem spells_ofInt {n : Int} (hn : Numeral.isOverlong n = false) :
    Spells (Numeral.ofInt n) (.int n) := by
  have hlength := Numeral.length_toDigits_le hn
  have hne : Nat.toDigits 10 n.natAbs ≠ [] := Nat.toDigits_ne_nil
  obtain ⟨c, cs, hdigits⟩ := List.exists_cons_of_ne_nil hne
  have hc : c.isDigit = true := Numeral.isDigit_of_mem_toDigits (hdigits ▸ List.mem_cons_self)
  by_cases hneg : n < 0
  · have htext : (Numeral.ofInt n).toList = '-' :: Nat.toDigits 10 n.natAbs := by
      rw [Numeral.ofInt, if_pos hneg, String.toList_append, toList_repr]
      rfl
    refine spells_of_readAtom htext (by decide) fun rest hends ↦ ?_
    have hread := readMagnitude_toDigits true hlength hends
    have hvalue : -(n.natAbs : Int) = n := by omega
    rw [if_pos rfl, hvalue, hdigits, List.cons_append] at hread
    rw [htext, hdigits, List.cons_append, List.cons_append, readAtom_minus hc, hread]
  · have htext : (Numeral.ofInt n).toList = c :: cs := by
      rw [Numeral.ofInt, if_neg hneg, toList_repr, hdigits]
    refine spells_of_readAtom htext (digit_notMem hc rfl) fun rest hends ↦ ?_
    have hread := readMagnitude_toDigits false hlength hends
    have hvalue : (n.natAbs : Int) = n := by omega
    rw [if_neg Bool.false_ne_true, hvalue, hdigits, List.cons_append] at hread
    rw [htext, List.cons_append, readAtom_digit hc, hread]

/-! ### Items -/

/-- A comma, and spaces after it. -/
def Separates (separator : String) : Prop :=
  ∃ spaces, separator.toList = ',' :: spaces ∧ ∀ c ∈ spaces, isSpace c = true

variable {separator : String} {texts : List String}

theorem Begins.intercalate {text : String} (h : Begins text) (separator : String)
    (texts : List String) : Begins (separator.intercalate (text :: texts)) := by
  obtain ⟨c, cs, htext, hc⟩ := h
  cases texts with
  | nil => exact ⟨c, cs, by rwa [String.intercalate_singleton], hc⟩
  | cons next texts =>
      refine ⟨c, cs ++ (separator ++ separator.intercalate (next :: texts)).toList, ?_, hc⟩
      rw [String.intercalate_cons_cons, String.append_assoc, String.toList_append, htext]
      rfl

/-- After the first of several items stands a comma, and after that the others. -/
theorem Separates.split (h : Separates separator) {next : String} (hnext : Begins next)
    (text : String) (texts : List String) (rest : List Char) :
    ∃ more, (separator.intercalate (text :: next :: texts)).toList ++ rest =
        text.toList ++ ',' :: more ∧
      skipSpace more = (separator.intercalate (next :: texts)).toList ++ rest := by
  obtain ⟨spaces, hseparator, hspaces⟩ := h
  refine ⟨spaces ++ ((separator.intercalate (next :: texts)).toList ++ rest), ?_, ?_⟩
  · rw [String.intercalate_cons_cons, String.toList_append, String.toList_append, hseparator]
    simp
  · rw [skipSpace, List.dropWhile_append_of_pos hspaces]
    exact skipSpace_of_begins (hnext.intercalate separator texts) rest

theorem Separates.length_lt (h : Separates separator) (text next : String) (texts : List String) :
    text.length + (separator.intercalate (next :: texts)).length <
      (separator.intercalate (text :: next :: texts)).length := by
  obtain ⟨spaces, hseparator, -⟩ := h
  have hlength : separator.length = spaces.length + 1 := by
    rw [← String.length_toList, hseparator, List.length_cons]
  rw [String.intercalate_cons_cons, String.length_append, String.length_append]
  omega

/-- How the items of a container are read: the last one stands before what closes
the container, any other one before a comma. -/
structure ReadsItems {α : Type} (read : Nat → List Char → Except Refusal (List α × List Char))
    (close : Char) (Item : String → α → Prop) : Prop where
  begins : ∀ {text a}, Item text a → Begins text
  last : ∀ {text a depth}, Item text a → text.length ≤ depth → ∀ rest,
    read (depth + 1) (text.toList ++ close :: rest) = .ok ([a], rest)
  next : ∀ {text a depth more items rest}, Item text a → text.length ≤ depth →
    read depth (skipSpace more) = .ok (items, rest) →
      read (depth + 1) (text.toList ++ ',' :: more) = .ok (a :: items, rest)

namespace ReadsItems

variable {α : Type} {read : Nat → List Char → Except Refusal (List α × List Char)} {close : Char}
  {Item : String → α → Prop} {items : List α} {depth : Nat}

theorem intercalate (h : ReadsItems read close Item) (hseparator : Separates separator)
    (hitems : List.Forall₂ Item texts items) (hne : texts ≠ []) (rest : List Char)
    (hdepth : (separator.intercalate texts).length < depth) :
    read depth ((separator.intercalate texts).toList ++ close :: rest) = .ok (items, rest) := by
  induction hitems generalizing depth with
  | nil => exact absurd rfl hne
  | @cons text a texts items ht hrest ih =>
      obtain ⟨depth, rfl⟩ : ∃ d, depth = d + 1 := ⟨depth - 1, by omega⟩
      cases hrest with
      | nil =>
          rw [String.intercalate_singleton] at hdepth ⊢
          exact h.last ht (by omega) rest
      | @cons next _ texts _ hnext _ =>
          have hlength := hseparator.length_lt text next texts
          obtain ⟨more, htext, hmore⟩ :=
            hseparator.split (h.begins hnext) text texts (close :: rest)
          rw [htext]
          apply h.next ht (by omega)
          rw [hmore]
          exact ih (List.cons_ne_nil _ _) (by omega)

/-- A container is read that is empty, or whose items are. -/
theorem enclosed (h : ReadsItems read close Item) (hseparator : Separates separator)
    (hitems : List.Forall₂ Item texts items) (make : List α → Json) {opening : Char}
    (hnone : ∀ depth rest,
      readValue (depth + 1) (opening :: close :: rest) = .ok (make [], rest))
    (hsome : ∀ depth c cs, isSpace c = false → c ≠ ']' → c ≠ '\x7d' →
      readValue (depth + 1) (opening :: c :: cs) =
        (read depth (c :: cs)).map fun (items, rest) ↦ (make items, rest))
    (hdepth : (separator.intercalate texts).length < depth) (rest : List Char) :
    readValue (depth + 1) (opening :: ((separator.intercalate texts).toList ++ close :: rest)) =
      .ok (make items, rest) := by
  cases hitems with
  | nil => exact hnone depth rest
  | @cons text a texts items ht hrest =>
      have hread := h.intercalate hseparator (.cons ht hrest) (List.cons_ne_nil _ _) rest hdepth
      obtain ⟨c, cs, hcs, hspace, hbracket, hbrace⟩ := (h.begins ht).intercalate separator texts
      rw [hcs, List.cons_append] at hread ⊢
      rw [hsome depth c _ hspace hbracket hbrace, hread]
      rfl

end ReadsItems

theorem readsItems_elements : ReadsItems readElements ']' Spells where
  begins := Spells.begins
  last {text j depth} h hdepth rest := by
    rw [readElements, h.reads depth _ hdepth (by simp [Ends])]
    rfl
  next {text j depth more js rest} h hdepth hmore := by
    have hcomma : skipSpace (',' :: more) = ',' :: more := rfl
    rw [readElements, h.reads depth _ hdepth (by simp [Ends])]
    simp [hcomma, hmore, bind, Except.bind, pure, Except.pure]

theorem spells_bracketed (hseparator : Separates separator) {js : List Json}
    (h : List.Forall₂ Spells texts js) : Spells (bracketed separator texts) (.array js) := by
  have htext : (bracketed separator texts).toList =
      '[' :: ((separator.intercalate texts).toList ++ [']']) := by
    simp [bracketed]
  refine ⟨⟨'[', _, htext, by decide⟩, fun depth rest hdepth _ ↦ ?_⟩
  rw [← String.length_toList, htext, List.length_cons, List.length_append,
    String.length_toList, List.length_singleton] at hdepth
  obtain ⟨depth, rfl⟩ : ∃ d, depth = d + 1 := ⟨depth - 1, by omega⟩
  rw [htext, List.cons_append, List.append_assoc, List.singleton_append]
  refine readsItems_elements.enclosed hseparator h .array (fun _ _ ↦ rfl) ?_ (by omega) rest
  intro depth c cs hspace hbracket _
  simp [readValue, skipSpace_cons hspace, hbracket]

/-! ### Members -/

theorem toList_member (k value : String) :
    (quote k ++ ":" ++ value).toList =
      '\x22' :: (k.toList.flatMap quotedChar ++ '\x22' :: ':' :: value.toList) := by
  rw [String.toList_append, String.toList_append, toList_quote]
  simp

/-- A quoted key, a colon, and a text that spells the value under the key. -/
def SpellsMember (text : String) (member : String × Json) : Prop :=
  ∃ value, text = quote member.1 ++ ":" ++ value ∧ Spells value member.2

namespace SpellsMember

variable {text : String} {member : String × Json}

theorem begins (h : SpellsMember text member) : Begins text := by
  obtain ⟨value, rfl, -⟩ := h
  exact ⟨'\x22', _, toList_member member.1 value, by decide⟩

/-- The reader comes past the key and the colon to the value. -/
theorem reads (h : SpellsMember text member) {depth : Nat} (hdepth : text.length ≤ depth)
    {rest : List Char} (hrest : Ends rest) :
    ∃ value, text.toList ++ rest =
        '\x22' :: (member.1.toList.flatMap quotedChar ++ '\x22' :: ':' :: value) ∧
      readValue depth (skipSpace value) = .ok (member.2, rest) := by
  obtain ⟨value, rfl, hvalue⟩ := h
  have hlength : value.length ≤ depth := by
    rw [String.length_append] at hdepth
    omega
  refine ⟨value.toList ++ rest, ?_, ?_⟩
  · rw [toList_member]
    simp
  · rw [skipSpace_of_begins hvalue.begins]
    exact hvalue.reads depth rest hlength hrest

end SpellsMember

theorem readsItems_members : ReadsItems readMembers '\x7d' SpellsMember where
  begins := SpellsMember.begins
  last {text member depth} h hdepth rest := by
    have hends : Ends ('\x7d' :: rest) := by simp [Ends]
    obtain ⟨value, htext, hread⟩ := h.reads hdepth hends
    have hcolon : skipSpace (':' :: value) = ':' :: value := rfl
    have hend : skipSpace ('\x7d' :: rest) = '\x7d' :: rest := rfl
    rw [htext, readMembers, readString_flatMap_quotedChar]
    simp [hcolon, hread, hend, bind, Except.bind, pure, Except.pure]
  next {text member depth more ms rest} h hdepth hmore := by
    have hends : Ends (',' :: more) := by simp [Ends]
    obtain ⟨value, htext, hread⟩ := h.reads hdepth hends
    have hcolon : skipSpace (':' :: value) = ':' :: value := rfl
    have hcomma : skipSpace (',' :: more) = ',' :: more := rfl
    rw [htext, readMembers, readString_flatMap_quotedChar]
    simp [hcolon, hread, hcomma, hmore, bind, Except.bind, pure, Except.pure]

/-- A repeated key would be read once. -/
theorem spells_braced (hseparator : Separates separator) {ms : List (String × Json)}
    (h : List.Forall₂ SpellsMember texts ms) (hnodup : (Members.keys ms).Nodup) :
    Spells (braced separator texts) (.object ms) := by
  have htext : (braced separator texts).toList =
      '\x7b' :: ((separator.intercalate texts).toList ++ ['\x7d']) := by
    simp [braced]
  refine ⟨⟨'\x7b', _, htext, by decide⟩, fun depth rest hdepth _ ↦ ?_⟩
  rw [← String.length_toList, htext, List.length_cons, List.length_append,
    String.length_toList, List.length_singleton] at hdepth
  obtain ⟨depth, rfl⟩ : ∃ d, depth = d + 1 := ⟨depth - 1, by omega⟩
  rw [htext, List.cons_append, List.append_assoc, List.singleton_append,
    ← Members.ofEntries_of_nodup hnodup]
  refine readsItems_members.enclosed hseparator h (fun ms ↦ .object (Members.ofEntries ms))
    (fun _ _ ↦ rfl) ?_ (by omega) rest
  intro depth c cs hspace _ hbrace
  simp [readValue, skipSpace_cons hspace, hbrace]

end Json

end LayeredConfig
