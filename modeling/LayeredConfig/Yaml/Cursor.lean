import LayeredConfig.Yaml.Source

/-!
# Cursors

A place in a source, with what is left of it.  The column counts characters
from the last line end, byte order marks left out.  Reading on fails only when
a character is needed that the source cannot give.
-/

namespace LayeredConfig.Yaml

def isBreak (c : Char) : Bool :=
  c == '\n' || c == '\r' || c == '\x85' || c == '\u2028' || c == '\u2029'

/-- The end of the text or of a line. -/
def endsLine : Option Char → Bool
  | none => true
  | some c => isBreak c

/-- The end of the text or of a line, or a space. -/
def endsWord : Option Char → Bool
  | none => true
  | some c => c == ' ' || isBreak c

/-- The end of the text or of a line, a space or a tab. -/
def endsToken : Option Char → Bool
  | none => true
  | some c => c == ' ' || c == '\t' || isBreak c

structure Cursor where
  rest : List Char
  /-- What is met after the rest; none at the end of the text. -/
  ending : Option LoadFault
  /-- Count of all characters of the source. -/
  size : Nat
  index : Nat
  line : Nat
  column : Nat

namespace Cursor

def start (source : Source) : Cursor := ⟨source.chars, source.ending, source.chars.length, 0, 0, 0⟩

/-- The place after the next character, if there is one. -/
def step (c : Cursor) : Cursor :=
  match c.rest with
  | [] => c
  | ch :: rest =>
    if isBreak ch && !(ch == '\r' && rest.head? == some '\n') then
      { c with rest, index := c.index + 1, line := c.line + 1, column := 0 }
    else if ch == '\ufeff' then { c with rest, index := c.index + 1 }
    else { c with rest, index := c.index + 1, column := c.column + 1 }

/-- The place after so many characters. -/
def steps : Nat → Cursor → Cursor
  | 0, c => c
  | n + 1, c => steps n c.step

end Cursor

abbrev Read (α : Type) := StateT Cursor (Except LoadFault) α

namespace Read

/-- Fails as a whole. -/
def malformed {α : Type} : Read α := throw .malformed

/-- Needs a character beyond the rest: nothing happens at the end of a text. -/
def needMore : Read Unit := do
  match (← get).ending with
  | some f => throw f
  | none => return

def need (n : Nat) : Read Unit := do
  match n with
  | 0 => return
  | n + 1 => if ((← get).rest.drop n).isEmpty then needMore

/-- The character so many places on, if the text is that long. -/
def peekAt (n : Nat) : Read (Option Char) := do
  match (← get).rest[n]? with
  | some ch => return some ch
  | none =>
    needMore
    return none

def peek : Read (Option Char) := peekAt 0

/-- Bound for loops that pass a character in each round. -/
def limit : Read Nat := return (← get).size + 1

/-- Moves over so many characters; the one after them is needed. -/
def skip (n : Nat) : Read Unit := do
  need (n + 1)
  modify (Cursor.steps n)

def next : Read Unit := skip 1

/-- The characters up to the first that fails a test, which is needed. -/
def span (p : Char → Bool) : Read (List Char) := do
  let c ← get
  let taken := c.rest.takeWhile p
  need (taken.length + 1)
  set (c.steps taken.length)
  return taken

def skipSpaces : Read Unit := do let _ ← span (· == ' ')

def skipLine : Read Unit := do let _ ← span (!isBreak ·)

def skipComment : Read Unit := do
  if (← peek) == some '#' then skipLine

/-- Moves over a line end, if one is here, and gives the text that stands for it. -/
def lineEnd : Read (List Char) := do
  match ← peek with
  | none => return []
  | some ch =>
    if ch == '\u2028' || ch == '\u2029' then
      next
      return [ch]
    else if isBreak ch then
      -- What follows is needed, even if it makes no pair.
      need 2
      let isPair := ch == '\r' && (← peekAt 1) == some '\n'
      skip (if isPair then 2 else 1)
      return ['\n']
    else return []

/-- Whether a line that divides documents begins here: one of the marks three
times, and then the end of a token. -/
def atDivider (marks : List Char) : Read Bool := do
  need 3
  match (← get).rest with
  | a :: b :: c :: _ =>
    if a == b && b == c && marks.contains a then return endsToken (← peekAt 3) else return false
  | _ => return false

end Read

end LayeredConfig.Yaml
