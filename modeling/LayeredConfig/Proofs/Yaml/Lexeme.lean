import LayeredConfig.Proofs.Numeral
import LayeredConfig.Proofs.Yaml.Guarded
import LayeredConfig.Yaml.Lexeme
import Mathlib.Data.List.TakeWhile

/-!
# Faults of reading

What a reader of lexemes can fail with: the text is no YAML, the source gives
no more characters, an escape is beyond the last code point, or a number of a
directive has too many digits.  The last two are faults of what stands in the
source.
-/

namespace LayeredConfig.Yaml

open Std.Do

set_option mvcgen.warning false

/-- Eight digits of base sixteen write a number beyond the last code point. -/
structure WritesBeyond (digits : List Char) (n : Nat) : Prop where
  width : digits.length = 8
  value : ∃ ds, List.Forall₂ (fun c d ↦ Text.baseDigit? 16 c = some d) digits ds ∧
    Numeral.ofDigits 16 ds = n
  beyond : 0x10FFFF < n

namespace Source

variable (source : Source)

/-- The faults that the characters of a source can be met with. -/
inductive Refuses : LoadFault → Prop
  | malformed : Refuses .malformed
  | ending {f : LoadFault} (h : source.ending = some f) : Refuses f
  | codePoint {digits : List Char} {n : Nat} (hin : '\\' :: 'U' :: digits <:+: source.chars)
      (hbeyond : WritesBeyond digits n) : Refuses (.scalar (.badCodePoint n))
  | number {digits : List Char} (hin : digits <:+: source.chars)
      (hdigits : ∀ c ∈ digits, c.isDigit = true) (hlong : Numeral.digitLimit < digits.length) :
      Refuses (.scalar (.tooManyDigits digits.length))

end Source

/-- The cursor stands in a source, behind some characters of it. -/
structure Cursor.After (source : Source) (passed : List Char) (c : Cursor) : Prop where
  rest : passed ++ c.rest <:+ source.chars
  ending : c.ending = source.ending

/-- The cursor stands in a source. -/
abbrev Cursor.Within (source : Source) (c : Cursor) : Prop := c.After source []

/-- The cursor stands at one place of a source. -/
def Cursor.At (source : Source) (c c' : Cursor) : Prop := c' = c ∧ c.Within source

/-- Reads on in a source, and fails only with a fault of it. -/
abbrev ReadsIn {α : Type} (source : Source) (act : Read α) : Prop :=
  Keeps (Cursor.Within source) source.Refuses act

namespace Cursor

variable {source : Source} {passed : List Char} {c : Cursor}

theorem After.within (h : c.After source passed) : c.Within source :=
  ⟨(List.suffix_append passed c.rest).trans h.rest, h.ending⟩

theorem step_rest (c : Cursor) : c.step.rest = c.rest.tail := by
  unfold step
  split
  · next h => rw [h]; rfl
  · next h => rw [h]; split <;> [rfl; split <;> rfl]

theorem step_ending (c : Cursor) : c.step.ending = c.ending := by
  unfold step
  split
  · rfl
  · split <;> [rfl; split <;> rfl]

theorem steps_rest (n : Nat) (c : Cursor) : (c.steps n).rest = c.rest.drop n := by
  induction n generalizing c with
  | zero => rfl
  | succ n ih => rw [steps, ih, step_rest, List.drop_tail]

theorem steps_ending (n : Nat) (c : Cursor) : (c.steps n).ending = c.ending := by
  induction n generalizing c with
  | zero => rfl
  | succ n ih => rw [steps, ih, step_ending]

theorem Within.steps (h : c.Within source) (n : Nat) : (c.steps n).Within source where
  rest := by
    rw [steps_rest]
    exact (List.drop_suffix n c.rest).trans h.rest
  ending := by rw [steps_ending, h.ending]

end Cursor

/-! ## Moving on -/

namespace Read

variable {source : Source}

@[spec] theorem malformed_spec {α : Type}
    {result : α → Assertion (.arg Cursor (.except LoadFault .pure))} :
    ⦃fun _ ↦ ⌜True⌝⦄ (@malformed α) ⦃(result, fun f ↦ ⌜source.Refuses f⌝, ())⦄ := by
  mvcgen [malformed]
  exact .malformed

@[spec] theorem needMore_spec : ReadsIn source needMore := by
  mvcgen [needMore]
  next hwithin _ hending => exact .ending (hwithin.ending ▸ hending)

@[spec] theorem need_spec (n : Nat) : ReadsIn source (need n) := by
  mvcgen [need]

@[spec] theorem peekAt_spec (n : Nat) : ReadsIn source (peekAt n) := by
  mvcgen [peekAt]

@[spec] theorem peek_spec : ReadsIn source peek := by
  mvcgen [peek]

@[spec] theorem limit_spec : ReadsIn source limit := by
  mvcgen [limit]

@[spec] theorem skip_spec (n : Nat) : ReadsIn source (skip n) := by
  mvcgen [skip]
  next hwithin _ => exact hwithin.steps n

@[spec] theorem next_spec : ReadsIn source next := by
  mvcgen [next]

theorem span_taken (p : Char → Bool) :
    ⦃fun c ↦ ⌜c.Within source⌝⦄ span p
    ⦃post⟨fun cs c ↦ ⌜c.Within source ∧ cs <:+: source.chars ∧ ∀ ch ∈ cs, p ch = true⌝,
      fun f ↦ ⌜source.Refuses f⌝⟩⦄ := by
  mvcgen [span]
  next c hwithin _ _ _ _ =>
    have htaken : c.rest.takeWhile p <:+: source.chars :=
      (List.takeWhile_prefix p).isInfix.trans (List.IsSuffix.isInfix hwithin.rest)
    exact ⟨hwithin.steps _, htaken, fun ch hch ↦ List.mem_takeWhile_imp hch⟩

@[spec] theorem span_spec (p : Char → Bool) : ReadsIn source (span p) := by
  mvcgen [span_taken]
  exact fun hwithin _ _ ↦ hwithin

@[spec] theorem skipSpaces_spec : ReadsIn source skipSpaces := by
  mvcgen [skipSpaces]

@[spec] theorem skipLine_spec : ReadsIn source skipLine := by
  mvcgen [skipLine]

@[spec] theorem skipComment_spec : ReadsIn source skipComment := by
  mvcgen [skipComment]

@[spec] theorem lineEnd_spec : ReadsIn source lineEnd := by
  mvcgen [lineEnd]

@[spec] theorem atDivider_spec (marks : List Char) : ReadsIn source (atDivider marks) := by
  mvcgen [atDivider]

theorem needMore_at (c : Cursor) : Keeps (c.At source) source.Refuses needMore := by
  mvcgen [needMore, -needMore_spec]
  next hat _ hending =>
    obtain ⟨rfl, hwithin⟩ := hat
    exact .ending (hwithin.ending ▸ hending)

theorem peekAt_at (n : Nat) (c : Cursor) :
    Gives (c.At source) source.Refuses (peekAt n) (c.rest[n]? = ·) := by
  unfold peekAt
  apply gives_get.bind
  rintro c' ⟨rfl, -⟩
  split
  · next h => exact gives_pure h
  · next h =>
    apply (needMore_at c').bind
    intro _
    exact gives_pure h

theorem peek_at (c : Cursor) : Gives (c.At source) source.Refuses peek (c.rest.head? = ·) := by
  rw [List.head?_eq_getElem?]
  exact peekAt_at 0 c

theorem peek_after (passed : List Char) :
    ⦃fun c ↦ ⌜c.After source passed⌝⦄ peek
    ⦃post⟨fun x c ↦ ⌜c.After source passed ∧ c.rest.head? = x⌝, fun f ↦ ⌜source.Refuses f⌝⟩⦄ := by
  mvcgen [peek_at, -peek_spec]
  · next c hafter => exact ⟨rfl, hafter.within⟩
  · next hafter _ _ =>
    rintro ⟨rfl, -⟩ hhead
    exact ⟨hafter, hhead⟩

theorem need_at (n : Nat) (c : Cursor) : Keeps (c.At source) source.Refuses (need n) := by
  mvcgen [need, -need_spec, needMore_at, -needMore_spec]

/-- The character that is passed is the one that was next. -/
theorem next_after {passed : List Char} {ch : Char} :
    ⦃fun c ↦ ⌜c.After source passed ∧ c.rest.head? = some ch⌝⦄ next
    ⦃post⟨fun _ c ↦ ⌜c.After source (passed ++ [ch])⌝, fun f ↦ ⌜source.Refuses f⌝⟩⦄ := by
  mvcgen [next, -next_spec, skip, -skip_spec, need_at, -need_spec]
  · next hafter => exact ⟨rfl, hafter.1.within⟩
  · next c hnext _ _ hat _ =>
    obtain ⟨hafter, hhead⟩ := hnext
    obtain ⟨rfl, -⟩ := hat
    refine ⟨?_, by rw [Cursor.steps_ending, hafter.ending]⟩
    rw [Cursor.steps_rest, List.drop_one, List.append_assoc, List.singleton_append,
      List.cons_head?_tail hhead]
    exact hafter.rest

end Read

/-! ## Lexemes -/

namespace Lexeme

open Read

variable {source : Source}

@[spec] theorem name_spec : ReadsIn source name := by
  mvcgen [name]

@[spec] theorem wordEnd_spec : ReadsIn source wordEnd := by
  mvcgen [wordEnd]

@[spec] theorem hexDigitAt_spec (n : Nat) : ReadsIn source (hexDigitAt n) := by
  mvcgen [hexDigitAt]

@[spec] theorem escapedBytes_spec (limit : Nat) : ReadsIn source (escapedBytes limit) := by
  induction limit with
  | zero => mvcgen [escapedBytes]
  | succ limit ih => mvcgen [escapedBytes, ih]

@[spec] theorem escapedChars_spec : ReadsIn source escapedChars := by
  mvcgen [escapedChars]

@[spec] theorem uriChars_spec (limit : Nat) : ReadsIn source (uriChars limit) := by
  induction limit with
  | zero => mvcgen [uriChars]
  | succ limit ih => mvcgen [uriChars, ih]

@[spec] theorem uri_spec : ReadsIn source uri := by
  mvcgen [uri]

@[spec] theorem tagHandle_spec : ReadsIn source tagHandle := by
  mvcgen [tagHandle]

@[spec] theorem hasHandle_spec : ReadsIn source hasHandle := by
  mvcgen [hasHandle]

@[spec] theorem tag_spec : ReadsIn source tag := by
  mvcgen [tag]

@[spec] theorem emptyLineRest_spec : ReadsIn source emptyLineRest := by
  mvcgen [emptyLineRest]

@[spec] theorem number_spec : ReadsIn source number := by
  mvcgen [number, span_taken, -span_spec]
  · next hlong _ htaken => exact .number htaken.2.1 htaken.2.2 hlong
  · next htaken => exact htaken.1

@[spec] theorem versionDirective_spec : ReadsIn source versionDirective := by
  mvcgen [versionDirective]

@[spec] theorem tagDirective_spec : ReadsIn source tagDirective := by
  mvcgen [tagDirective]

@[spec] theorem directive_spec : ReadsIn source directive := by
  mvcgen [directive]

@[spec] theorem anchorName_spec : ReadsIn source anchorName := by
  mvcgen [anchorName]

@[spec] theorem chomping?_spec : ReadsIn source chomping? := by
  mvcgen [chomping?]

@[spec] theorem increment?_spec : ReadsIn source increment? := by
  mvcgen [increment?]

@[spec] theorem blockHeader_spec : ReadsIn source blockHeader := by
  mvcgen [blockHeader]

@[spec] theorem skipIndent_spec (indent limit : Nat) :
    ReadsIn source (skipIndent indent limit) := by
  induction limit with
  | zero => mvcgen [skipIndent]
  | succ limit ih => mvcgen [skipIndent, ih]

@[spec] theorem measureIndent_spec (limit : Nat) : ReadsIn source (measureIndent limit) := by
  induction limit with
  | zero => mvcgen [measureIndent]
  | succ limit ih => mvcgen [measureIndent, ih]

@[spec] theorem blockBreaks_spec (indent limit : Nat) :
    ReadsIn source (blockBreaks indent limit) := by
  induction limit with
  | zero => mvcgen [blockBreaks]
  | succ limit ih => mvcgen [blockBreaks, ih]

@[spec] theorem atBlockLine_spec (indent : Nat) : ReadsIn source (atBlockLine indent) := by
  mvcgen [atBlockLine]

@[spec] theorem blockLines_spec (indent : Nat) (folded : Bool) (limit : Nat) (breaks : List Char) :
    ReadsIn source (blockLines indent folded limit breaks) := by
  induction limit generalizing breaks with
  | zero => mvcgen [blockLines]
  | succ limit ih => mvcgen [blockLines, ih]

@[spec] theorem blockScalar_spec (outer : Int) (folded : Bool) :
    ReadsIn source (blockScalar outer folded) := by
  mvcgen [blockScalar]

/-! ## Code points -/

/-- The value of the digit of base sixteen at a place. -/
def HexAt (cs : List Char) (place d : Nat) : Prop := cs[place]?.bind (Text.baseDigit? 16) = some d

theorem hexDigitAt_at (n : Nat) (c : Cursor) :
    Gives (c.At source) source.Refuses (hexDigitAt n) (HexAt c.rest n) := by
  unfold hexDigitAt
  apply (peekAt_at n c).bind
  rintro _ rfl
  split
  · next h => exact gives_pure h
  · mvcgen

theorem codeDigits_at (width : Nat) (c : Cursor) :
    Gives (c.At source) source.Refuses (codeDigits width)
      (List.Forall₂ (HexAt c.rest) (List.range width)) :=
  mapM_gives fun n _ ↦ hexDigitAt_at n c

theorem digits_of_hexAt {width : Nat} {rest : List Char} {ds : List Nat}
    (h : List.Forall₂ (HexAt rest) (List.range width) ds) :
    ∃ digits more, rest = digits ++ more ∧ digits.length = width ∧
      List.Forall₂ (fun c d ↦ Text.baseDigit? 16 c = some d) digits ds := by
  induction width generalizing rest ds with
  | zero =>
      cases h
      exact ⟨[], rest, rfl, rfl, .nil⟩
  | succ width ih =>
      rw [List.range_succ_eq_map] at h
      obtain ⟨d, ds, hd, hds, rfl⟩ := List.forall₂_cons_left_iff.mp h
      obtain ⟨c, hc, hvalue⟩ := Option.bind_eq_some_iff.mp hd
      rcases rest with _ | ⟨c', rest⟩
      · cases hc
      · cases hc
        have hrest : List.Forall₂ (HexAt rest) (List.range width) ds :=
          (List.forall₂_map_left_iff.mp hds).imp fun _ _ h ↦ h
        obtain ⟨digits, more, rfl, rfl, hdigits⟩ := ih hrest
        exact ⟨c :: digits, more, rfl, rfl, .cons hvalue hdigits⟩

/-- Only an escape of eight digits can be beyond the last code point. -/
theorem width_of_beyond {ch : Char} {width : Nat} {digits : List Char} {ds : List Nat}
    (hwidth : codeWidth? ch = some width) (hlength : digits.length = width)
    (hdigits : List.Forall₂ (fun c d ↦ Text.baseDigit? 16 c = some d) digits ds)
    (hbeyond : 0x10FFFF < Numeral.ofDigits 16 ds) : ch = 'U' ∧ width = 8 := by
  have hsmall : ∀ d ∈ ds, d < 16 := by
    clear hlength hbeyond
    induction hdigits with
    | nil => exact List.forall_mem_nil _
    | cons h _ ih => exact List.forall_mem_cons.mpr ⟨Numeral.baseDigit?_lt h, ih⟩
  have hbound := Numeral.ofDigits_lt hsmall
  rw [← hdigits.length_eq, hlength] at hbound
  unfold codeWidth? at hwidth
  split at hwidth
  · cases hwidth
    omega
  · cases hwidth
    omega
  · cases hwidth
    exact ⟨rfl, rfl⟩
  · cases hwidth

theorem codePoint_after {ch : Char} {width : Nat} (hwidth : codeWidth? ch = some width) :
    ⦃fun c ↦ ⌜c.After source ['\\', ch]⌝⦄ codePoint width
    ⦃post⟨fun _ c ↦ ⌜c.Within source⌝, fun f ↦ ⌜source.Refuses f⌝⟩⦄ := by
  mvcgen [codePoint, codeDigits_at]
  · next c hafter => exact ⟨rfl, hafter.within⟩
  · next c hafter ds n _ hbeyond _ hdigits =>
    obtain ⟨digits, more, hrest, hlength, hvalues⟩ := digits_of_hexAt hdigits.2
    obtain ⟨rfl, rfl⟩ := width_of_beyond hwidth hlength hvalues hbeyond
    refine .codePoint ?_ ⟨hlength, ⟨ds, hvalues, rfl⟩, hbeyond⟩
    -- The digits stand where the cursor is, behind the mark of their width.
    have hsuffix := hafter.rest
    rw [hrest] at hsuffix
    exact (List.prefix_append ('\\' :: 'U' :: digits) more).isInfix.trans hsuffix.isInfix
  · next c hafter _ _ _ _ _ hat =>
    obtain ⟨⟨rfl, hwithin⟩, -⟩ := hat
    exact hwithin

@[spec] theorem quotedBreaks_spec (limit : Nat) : ReadsIn source (quotedBreaks limit) := by
  induction limit with
  | zero => mvcgen [quotedBreaks]
  | succ limit ih => mvcgen [quotedBreaks, ih]

@[spec] theorem quotedSpaces_spec : ReadsIn source quotedSpaces := by
  mvcgen [quotedSpaces]

/-- An escape is read after its backslash. -/
theorem escape_after : ⦃fun c ↦ ⌜c.After source ['\\']⌝⦄ escape
    ⦃post⟨fun _ c ↦ ⌜c.Within source⌝, fun f ↦ ⌜source.Refuses f⌝⟩⦄ := by
  unfold escape
  apply Triple.bind _ _ (peek_after ['\\'])
  rintro (_ | ch)
  · mvcgen
  · dsimp only
    split
    · mvcgen
      next hafter => exact hafter.1.within
    · next _ hwidth =>
      apply Triple.bind _ _ next_after
      intro _
      have hpoint := @codePoint_after source ch _ hwidth
      mvcgen [hpoint]
    · mvcgen
      next hafter => exact hafter.1.within

@[spec] theorem quotedChars_spec (quote : Char) (limit : Nat) :
    ReadsIn source (quotedChars quote limit) := by
  induction limit with
  | zero => mvcgen [quotedChars]
  | succ limit ih =>
      unfold quotedChars
      apply Triple.bind _ _ (span_spec isQuotedChar)
      -- What an escape is refused for is seen from its backslash, so what is peeked at is
      -- kept until it is passed.
      intro plain
      apply Triple.bind _ _ (peek_after [])
      rintro (_ | ch)
      · mvcgen
      · dsimp only
        split
        · mvcgen [ih]
          next hafter => exact hafter.1
        · split
          · mvcgen [ih]
            · next hafter _ => exact hafter.1
            · next hafter => exact hafter.1
          · split
            · next hescape =>
              apply Triple.bind _ _ next_after
              intro _
              obtain ⟨-, hbackslash⟩ := Bool.and_eq_true_iff.mp hescape
              cases eq_of_beq hbackslash
              mvcgen [escape_after, ih]
            · mvcgen [ih]
              next hafter => exact hafter.1

@[spec] theorem quotedScalar_spec (quote : Char) : ReadsIn source (quotedScalar quote) := by
  mvcgen [quotedScalar]

@[spec] theorem plainWord_spec (flow : Bool) : ReadsIn source (plainWord flow) := by
  mvcgen [plainWord]

@[spec] theorem plainBreaks_spec (limit : Nat) : ReadsIn source (plainBreaks limit) := by
  induction limit with
  | zero => mvcgen [plainBreaks]
  | succ limit ih => mvcgen [plainBreaks, ih]

@[spec] theorem plainSpaces_spec : ReadsIn source plainSpaces := by
  mvcgen [plainSpaces]

@[spec] theorem plainWords_spec (flow : Bool) (indent : Int) (limit : Nat) (blanks : List Char)
    (passed : Bool) : ReadsIn source (plainWords flow indent limit blanks passed) := by
  induction limit generalizing blanks passed with
  | zero => mvcgen [plainWords]
  | succ limit ih => mvcgen [plainWords, ih]

@[spec] theorem plainScalar_spec (flow : Bool) (outer : Int) :
    ReadsIn source (plainScalar flow outer) := by
  mvcgen [plainScalar]

end Lexeme

end LayeredConfig.Yaml
