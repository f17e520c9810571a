import LayeredConfig.Yaml.Cursor
import LayeredConfig.Yaml.Token

/-!
# Lexemes

Each lexeme is read from a cursor that stands at its first character; the
cursor moves to its end.  Lines of a scalar are folded as they are read: a
single line end between words is a space, and further ones stay.
-/

namespace LayeredConfig.Yaml.Lexeme

open Read

def isNameChar (c : Char) : Bool := c.isAlphanum || c == '-' || c == '_'

/-- Letters, digits, hyphens and underscores, at least one. -/
def name : Read String := do
  match ← span isNameChar with
  | [] => malformed
  | cs => return String.ofList cs

def wordEnd : Read Unit := do
  if !endsWord (← peek) then malformed

/-! ## Tags -/

def isUriChar (c : Char) : Bool :=
  c.isAlphanum || "-;/?:@&=+$,_.!~*'()[]".toList.contains c

def hexDigitAt (n : Nat) : Read Nat := do
  match (← peekAt n).bind (Text.baseDigit? 16) with
  | some d => return d
  | none => malformed

/-- Bytes written as a percent sign and two digits, from here on. -/
def escapedBytes : (limit : Nat) → Read (List UInt8)
  | 0 => return []
  | limit + 1 => do
    if (← peek) != some '%' then return []
    next
    let high ← hexDigitAt 0
    let low ← hexDigitAt 1
    skip 2
    return UInt8.ofNat (16 * high + low) :: (← escapedBytes limit)

def escapedChars : Read (List Char) := do
  match Text.Utf8.decode true 0 none (← escapedBytes (← limit)) with
  | .error _ => malformed
  | .ok (cs, _) => return cs

def uriChars : (limit : Nat) → Read (List Char)
  | 0 => return []
  | limit + 1 => do
    let plain ← span isUriChar
    if (← peek) == some '%' then
      let escaped ← escapedChars
      return plain ++ escaped ++ (← uriChars limit)
    else return plain

/-- The text of a tag or of its prefix, at least one character. -/
def uri : Read String := do
  match ← uriChars (← limit) with
  | [] => malformed
  | cs => return String.ofList cs

/-- A handle: an exclamation mark alone before a space, or two around a name
that may be empty. -/
def tagHandle : Read String := do
  if (← peek) != some '!' then malformed
  if (← peekAt 1) == some ' ' then
    next
    return "!"
  let name := (← get).rest.tail.takeWhile isNameChar
  if (← peekAt (name.length + 1)) != some '!' then malformed
  skip (name.length + 2)
  return String.ofList ('!' :: name ++ ['!'])

/-- Whether a second exclamation mark comes before the end of the word. -/
def hasHandle : Read Bool := do
  let word := (← get).rest.tail.takeWhile fun ch ↦ !endsWord (some ch) && ch != '!'
  return (← peekAt (word.length + 1)) == some '!'

def tag : Read TagMark := do
  let following ← peekAt 1
  let mark ←
    if following == some '<' then do
      skip 2
      let suffix ← uri
      if (← peek) != some '>' then malformed
      next
      pure (TagMark.mk none suffix)
    else if endsToken following then do
      next
      pure (TagMark.mk none "!")
    else do
      let handle ←
        if ← hasHandle then tagHandle
        else do
          next
          pure "!"
      pure (TagMark.mk (some handle) (← uri))
  wordEnd
  return mark

/-! ## Directives -/

/-- Spaces and a comment up to the end of the line, which is passed. -/
def emptyLineRest : Read Unit := do
  skipSpaces
  skipComment
  if !endsLine (← peek) then malformed
  let _ ← lineEnd

def number : Read Nat := do
  let ds ← span Char.isDigit
  if ds.isEmpty then malformed
  if Numeral.digitLimit < ds.length then throw (.scalar (.tooManyDigits ds.length))
  return Numeral.ofDigits 10 (ds.filterMap Text.asciiDigit?)

def versionDirective : Read Directive := do
  skipSpaces
  let major ← number
  if (← peek) != some '.' then malformed
  next
  let minor ← number
  wordEnd
  return .version major minor

def tagDirective : Read Directive := do
  skipSpaces
  let handle ← tagHandle
  if (← peek) != some ' ' then malformed
  skipSpaces
  let pre ← uri
  wordEnd
  return .tag handle pre

def directive : Read Directive := do
  next
  let word ← name
  wordEnd
  let d ←
    match word with
    | "YAML" => versionDirective
    | "TAG" => tagDirective
    | _ => do
      skipLine
      pure .other
  emptyLineRest
  return d

/-! ## Anchors -/

def anchorName : Read String := do
  next
  let word ← name
  let following ← peek
  let ends := endsToken following ||
    following.any fun ch ↦ "?:,]\x7d%@\x60".toList.contains ch
  if ends then return word else malformed

/-! ## Block scalars -/

/-- What happens to the line ends after the last line. -/
inductive Chomping where
  | clip | strip | keep
  deriving DecidableEq

def chomping? : Read (Option Chomping) := do
  match ← peek with
  | some '+' =>
    next
    return some .keep
  | some '-' =>
    next
    return some .strip
  | _ => return none

def increment? : Read (Option Nat) := do
  match (← peek).bind Text.asciiDigit? with
  | some 0 => malformed
  | some n =>
    next
    return some n
  | none => return none

/-- Chomping and indentation, in either order, and the rest of the line. -/
def blockHeader : Read (Chomping × Option Nat) := do
  let before ← chomping?
  let increment ← increment?
  let chomping ←
    if before.isNone && increment.isSome then chomping? else pure before
  wordEnd
  emptyLineRest
  return (chomping.getD .clip, increment)

/-- Moves over spaces, but not beyond a column. -/
def skipIndent (indent : Nat) : (limit : Nat) → Read Unit
  | 0 => return
  | limit + 1 => do
    if (← get).column < indent then
      if (← peek) == some ' ' then
        next
        skipIndent indent limit

/-- Line ends of empty lines before a block, and the deepest column of their
spaces. -/
def measureIndent : (limit : Nat) → Read (List Char × Nat)
  | 0 => return ([], 0)
  | limit + 1 => do
    match ← peek with
    | some ' ' =>
      next
      let column := (← get).column
      let (ends, deepest) ← measureIndent limit
      return (ends, max column deepest)
    | some ch =>
      if isBreak ch then
        let passed ← lineEnd
        let (ends, deepest) ← measureIndent limit
        return (passed ++ ends, deepest)
      else return ([], 0)
    | none => return ([], 0)

/-- Line ends of empty lines inside a block. -/
def blockBreaks (indent : Nat) : (limit : Nat) → Read (List Char)
  | 0 => return []
  | limit + 1 => do
    skipIndent indent indent
    if (← peek).any isBreak then
      let passed ← lineEnd
      return passed ++ (← blockBreaks indent limit)
    else return []

def isSpaceOrTab (c : Option Char) : Bool := c == some ' ' || c == some '\t'

/-- What has been read of a block: its text, the last line end, and the line
ends of the empty lines after it. -/
structure BlockText where
  text : List Char
  lastEnd : List Char
  trailing : List Char

/-- Whether a line of a block begins here. -/
def atBlockLine (indent : Nat) : Read Bool := do
  if (← get).column == indent then return (← peek).isSome else return false

/-- The lines of a block from one of them on; `breaks` are the line ends of the
empty lines before it. -/
def blockLines (indent : Nat) (folded : Bool) :
    (limit : Nat) → (breaks : List Char) → Read BlockText
  | 0, breaks => return ⟨[], [], breaks⟩
  | limit + 1, breaks => do
    if !(← atBlockLine indent) then return ⟨[], [], breaks⟩
    let flush := !isSpaceOrTab (← peek)
    let line ← span (!isBreak ·)
    let lastEnd ← lineEnd
    let ends ← blockBreaks indent (← Read.limit)
    if ← atBlockLine indent then
      let glue :=
        if folded && lastEnd == ['\n'] && flush && !isSpaceOrTab (← peek) then
          if ends.isEmpty then [' '] else []
        else lastEnd
      let more ← blockLines indent folded limit ends
      return ⟨breaks ++ line ++ glue ++ more.text, more.lastEnd, more.trailing⟩
    else return ⟨breaks ++ line, lastEnd, ends⟩

/-- A literal or folded scalar inside a block of the given indentation. -/
def blockScalar (outer : Int) (folded : Bool) : Read String := do
  next
  let (chomping, increment) ← blockHeader
  let least := (max (outer + 1) 1).toNat
  let (indent, breaks) ←
    match increment with
    | some n => do
      let breaks ← blockBreaks (least + n - 1) (← limit)
      pure (least + n - 1, breaks)
    | none => do
      let (breaks, deepest) ← measureIndent (← limit)
      pure (max least deepest, breaks)
  let block ← blockLines indent folded (← limit) breaks
  let tail := match chomping with
    | .strip => []
    | .clip => block.lastEnd
    | .keep => block.lastEnd ++ block.trailing
  return String.ofList (block.text ++ tail)

/-! ## Quoted scalars -/

/-- The character that a letter stands for after a backslash. -/
def escaped? : Char → Option Char
  | '0' => some '\x00'
  | 'a' => some '\x07'
  | 'b' => some '\x08'
  | 't' => some '\t'
  | '\t' => some '\t'
  | 'n' => some '\n'
  | 'v' => some '\x0b'
  | 'f' => some '\x0c'
  | 'r' => some '\r'
  | 'e' => some '\x1b'
  | ' ' => some ' '
  | '\x22' => some '\x22'
  | '\\' => some '\\'
  | '/' => some '/'
  | 'N' => some '\x85'
  | '_' => some '\xa0'
  | 'L' => some '\u2028'
  | 'P' => some '\u2029'
  | _ => none

/-- How many digits of a code point follow a letter after a backslash. -/
def codeWidth? : Char → Option Nat
  | 'x' => some 2
  | 'u' => some 4
  | 'U' => some 8
  | _ => none

/-- The digits of a code point, so many from here. -/
def codeDigits (width : Nat) : Read (List Nat) := (List.range width).mapM hexDigitAt

/-- A code point in so many digits. -/
def codePoint (width : Nat) : Read Char := do
  let n := Numeral.ofDigits 16 (← codeDigits width)
  if 0x10FFFF < n then throw (.scalar (.badCodePoint n))
  skip width
  -- One of the surrogates is no character and is replaced.
  return if n.isValidChar then Char.ofNat n else '\ufffd'

/-- Line ends of empty lines inside a quoted scalar, which may not run over a
divider of documents. -/
def quotedBreaks : (limit : Nat) → Read (List Char)
  | 0 => return []
  | limit + 1 => do
    if ← atDivider ['-', '.'] then malformed
    let _ ← span fun ch ↦ ch == ' ' || ch == '\t'
    if (← peek).any isBreak then
      let passed ← lineEnd
      return passed ++ (← quotedBreaks limit)
    else return []

/-- Line ends between words: a line feed alone is a space, and one before
others is left out. -/
def fold (first more : List Char) : List Char :=
  (if first != ['\n'] then first else if more.isEmpty then [' '] else []) ++ more

/-- Blanks inside a quoted scalar: kept within a line, folded at its end. -/
def quotedSpaces : Read (List Char) := do
  let blanks ← span fun ch ↦ ch == ' ' || ch == '\t'
  match ← peek with
  | none => malformed
  | some ch =>
    if isBreak ch then
      let passed ← lineEnd
      return fold passed (← quotedBreaks (← limit))
    else return blanks

/-- What an escape in double quotes stands for, after its backslash. -/
def escape : Read (List Char) := do
  match ← peek with
  | none => malformed
  | some ch =>
    match escaped? ch, codeWidth? ch with
    | some x, _ =>
      next
      return [x]
    | none, some width =>
      next
      return [← codePoint width]
    | none, none =>
      if !isBreak ch then malformed
      let _ ← lineEnd
      quotedBreaks (← limit)

/-- Characters that stand for themselves in quotes of both kinds. -/
def isQuotedChar (ch : Char) : Bool :=
  !endsToken (some ch) && ch != '\x27' && ch != '\x22' && ch != '\\'

/-- Characters of a quoted scalar up to its end. -/
def quotedChars (quote : Char) : (limit : Nat) → Read (List Char)
  | 0 => malformed
  | limit + 1 => do
    let plain ← span isQuotedChar
    -- A backslash escapes in double quotes, and a doubled quote stands for one in others.
    let isDouble := quote == '\x22'
    match ← peek with
    | none => malformed
    | some ch =>
      if endsToken (some ch) then
        let cs ← quotedSpaces
        return plain ++ cs ++ (← quotedChars quote limit)
      else if ch == quote then
        let doubled ← if isDouble then pure false else do pure ((← peekAt 1) == some quote)
        if doubled then
          skip 2
          return plain ++ quote :: (← quotedChars quote limit)
        else
          next
          return plain
      else if isDouble && ch == '\\' then
        next
        let cs ← escape
        return plain ++ cs ++ (← quotedChars quote limit)
      else
        next
        return plain ++ ch :: (← quotedChars quote limit)

def quotedScalar (quote : Char) : Read String := do
  next
  return String.ofList (← quotedChars quote (← limit))

/-! ## Plain scalars -/

/-- Characters that have a meaning of their own inside flow collections. -/
def isFlowMark (c : Char) : Bool := ",[]\x7b\x7d".toList.contains c

/-- How many characters of a plain scalar come before the next blank or mark,
and whether the end of the rest was met in telling so. -/
def plainRun (flow : Bool) : List Char → Nat × Bool
  | [] => (0, true)
  | ch :: rest =>
    let ends := endsToken (some ch) ||
      (ch == ':' && (endsToken rest.head? || (flow && rest.head?.any isFlowMark))) ||
      (flow && (ch == '?' || isFlowMark ch))
    if ends then (0, ch == ':' && rest.isEmpty)
    else
      let (n, metEnd) := plainRun flow rest
      (n + 1, metEnd)

def plainWord (flow : Bool) : Read (List Char) := do
  -- No word begins with the mark of a comment.
  if (← peek) == some '#' then return []
  let rest := (← get).rest
  let (n, metEnd) := plainRun flow rest
  if metEnd then needMore
  skip n
  return rest.take n

/-- Line ends of empty lines inside a plain scalar. -/
def plainBreaks : (limit : Nat) → Read (Option (List Char))
  | 0 => return some []
  | limit + 1 => do
    match ← peek with
    | some ' ' =>
      next
      plainBreaks limit
    | some ch =>
      if isBreak ch then
        let passed ← lineEnd
        -- A scalar ends before a divider of documents.
        if ← atDivider ['-', '.'] then return none
        return (← plainBreaks limit).map (passed ++ ·)
      else return some []
    | none => return some []

/-- Blanks between the words of a plain scalar, and whether they hold a line end. -/
def plainSpaces : Read (List Char × Bool) := do
  let blanks ← span (· == ' ')
  if (← peek).any isBreak then
    let passed ← lineEnd
    -- Nothing is between words if the scalar is over.
    if ← atDivider ['-', '.'] then return ([], true)
    match ← plainBreaks (← limit) with
    | none => return ([], true)
    | some ends => return (fold passed ends, true)
  else return (blanks, false)

/-- The words of a plain scalar from one of them on; `blanks` stand before it.
Also tells whether a line end was passed after the last word. -/
def plainWords (flow : Bool) (indent : Int) :
    (limit : Nat) → (blanks : List Char) → (passed : Bool) → Read (List Char × Bool)
  | 0, _, passed => return ([], passed)
  | limit + 1, blanks, passed => do
    let word ← plainWord flow
    if word.isEmpty then return ([], passed)
    let (between, passed) ← plainSpaces
    if between.isEmpty then return (blanks ++ word, passed)
    if (← peek) == some '#' then return (blanks ++ word, passed)
    if !flow && (← get).column < indent then return (blanks ++ word, passed)
    let (more, passed) ← plainWords flow indent limit between passed
    return (blanks ++ word ++ more, passed)

/-- A plain scalar inside a block of the given indentation. -/
def plainScalar (flow : Bool) (outer : Int) : Read (String × Bool) := do
  let (cs, passed) ← plainWords flow (outer + 1) (← limit) [] false
  return (String.ofList cs, passed)

end LayeredConfig.Yaml.Lexeme
