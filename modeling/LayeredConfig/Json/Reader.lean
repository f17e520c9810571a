import LayeredConfig.Json.Basic

/-!
# Reading JSON

Strict JSON with three additions: the numbers `NaN`, `Infinity` and
`-Infinity`.  A repeated key keeps its first place and takes its last value,
a numeral without fraction and exponent is an exact integer, and a number
beyond the range of doubles is infinite.
-/

namespace LayeredConfig.Json

inductive Refusal where
  | malformed
  | tooLong (digits : Nat)
  deriving DecidableEq

def isSpace (c : Char) : Bool := c == ' ' || c == '\t' || c == '\n' || c == '\r'

def skipSpace (cs : List Char) : List Char := cs.dropWhile isSpace

/-- The rest of a text after a word that it begins with. -/
def after? : (word : List Char) → List Char → Option (List Char)
  | [], cs => some cs
  | w :: word, c :: cs => if w = c then after? word cs else none
  | _ :: _, [] => none

def hex4? (a b c d : Char) : Option Nat := do
  let digits ← [a, b, c, d].mapM (Text.baseDigit? 16)
  return Numeral.ofDigits 16 digits

def isHighSurrogate (n : Nat) : Bool := 0xD800 ≤ n && n < 0xDC00

def isLowSurrogate (n : Nat) : Bool := 0xDC00 ≤ n && n < 0xE000

/-- The character that a letter stands for after a backslash. -/
def escapedChar? : Char → Option Char
  | '\x22' => some '\x22'
  | '\\' => some '\\'
  | '/' => some '/'
  | 'b' => some '\x08'
  | 'f' => some '\x0c'
  | 'n' => some '\n'
  | 'r' => some '\r'
  | 't' => some '\t'
  | _ => none

/-- Characters of code points and UTF-16 units. -/
def charsOfUnits : List Nat → List Char
  | [] => []
  | [n] => [if isHighSurrogate n || isLowSurrogate n then '\ufffd' else Char.ofNat n]
  | n :: m :: rest =>
    if isHighSurrogate n && isLowSurrogate m then
      Char.ofNat (0x10000 + (n - 0xD800) * 0x400 + (m - 0xDC00)) :: charsOfUnits rest
    else
      -- A unit without its other half is no character and is replaced.
      (if isHighSurrogate n || isLowSurrogate n then '\ufffd' else Char.ofNat n) ::
        charsOfUnits (m :: rest)

/-- Puts one unit in front of what was read. -/
def consUnit (n : Nat) (read : List Nat × List Char) : List Nat × List Char :=
  (n :: read.1, read.2)

/-- The units of a string up to its closing quotation mark. -/
def stringUnits : List Char → Option (List Nat × List Char)
  | [] => none
  | '\\' :: 'u' :: a :: b :: c :: d :: rest =>
    match hex4? a b c d with
    | some n => (stringUnits rest).map (consUnit n)
    | none => none
  | '\\' :: c :: rest =>
    match escapedChar? c with
    | some e => (stringUnits rest).map (consUnit e.toNat)
    | none => none
  | c :: rest =>
    if c = '\x22' then some ([], rest)
    else if c = '\\' || c.toNat < 0x20 then none
    else (stringUnits rest).map (consUnit c.toNat)

def readString (cs : List Char) : Except Refusal (String × List Char) :=
  match stringUnits cs with
  | some (units, rest) => .ok (String.ofList (charsOfUnits units), rest)
  | none => .error .malformed

/-- The digits of the whole part of a number: a zero, or digits without a
leading zero. -/
def wholeDigits : List Char → List Char × List Char
  | '0' :: rest => (['0'], rest)
  | cs => (cs.takeWhile Char.isDigit, cs.dropWhile Char.isDigit)

/-- A fraction, if a digit follows the point. -/
def fractionDigits : List Char → List Char × List Char
  | '.' :: rest =>
    if (rest.takeWhile Char.isDigit).isEmpty then ([], '.' :: rest)
    else (rest.takeWhile Char.isDigit, rest.dropWhile Char.isDigit)
  | cs => ([], cs)

/-- An exponent, if a digit follows the mark and its sign. -/
def exponent? : List Char → Option (Int × List Char)
  | mark :: rest =>
    let (negative, digits) := Numeral.takeSign rest
    let taken := digits.takeWhile Char.isDigit
    if (mark = 'e' || mark = 'E') && !taken.isEmpty then
      let e : Int := Numeral.ofDigits 10 (taken.filterMap Text.asciiDigit?)
      some (if negative then -e else e, digits.dropWhile Char.isDigit)
    else none
  | [] => none

def readMagnitude (negative : Bool) (cs : List Char) : Except Refusal (Json × List Char) :=
  let (whole, rest) := wholeDigits cs
  if whole.isEmpty then .error .malformed
  else
    let (fraction, rest) := fractionDigits rest
    let value := Numeral.ofDigits 10 ((whole ++ fraction).filterMap Text.asciiDigit?)
    match exponent? rest with
    | some (e, rest) =>
      .ok (.double (Binary.ofDecimal .double negative value (e - fraction.length)), rest)
    | none =>
      if fraction.isEmpty then
        if Numeral.digitLimit < whole.length then .error (.tooLong whole.length)
        else .ok (.int (if negative then -(value : Int) else value), rest)
      else .ok (.double (Binary.ofDecimal .double negative value (-fraction.length)), rest)

def words : List (String × Json) :=
  [("null", .null), ("true", .boolean true), ("false", .boolean false),
    ("NaN", .double (.nan none)), ("Infinity", .double (.infinite false)),
    ("-Infinity", .double (.infinite true))]

def readAtom (cs : List Char) : Except Refusal (Json × List Char) :=
  match words.findSome? fun (word, j) ↦ (after? word.toList cs).map fun rest ↦ (j, rest) with
  | some found => .ok found
  | none =>
    match cs with
    | '-' :: rest => readMagnitude true rest
    | cs => readMagnitude false cs

mutual

/-- A value at the beginning of a text.  The depth bounds the nesting and the
length of lists. -/
def readValue : (depth : Nat) → List Char → Except Refusal (Json × List Char)
  | 0, _ => .error .malformed
  | depth + 1, cs =>
    match cs with
    | '\x22' :: rest => (readString rest).map fun (s, rest) ↦ (.string s, rest)
    | '[' :: rest =>
      match skipSpace rest with
      | ']' :: rest => .ok (.array [], rest)
      | rest => (readElements depth rest).map fun (js, rest) ↦ (.array js, rest)
    | '\x7b' :: rest =>
      match skipSpace rest with
      | '\x7d' :: rest => .ok (.object [], rest)
      | rest => (readMembers depth rest).map fun (ms, rest) ↦ (.object (Members.ofEntries ms), rest)
    | cs => readAtom cs

def readElements : (depth : Nat) → List Char → Except Refusal (List Json × List Char)
  | 0, _ => .error .malformed
  | depth + 1, cs => do
    let (j, rest) ← readValue depth cs
    match skipSpace rest with
    | ']' :: rest => return ([j], rest)
    | ',' :: rest =>
      let (js, rest) ← readElements depth (skipSpace rest)
      return (j :: js, rest)
    | _ => .error .malformed

def readMembers : (depth : Nat) → List Char → Except Refusal (List (String × Json) × List Char)
  | 0, _ => .error .malformed
  | depth + 1, cs => do
    match cs with
    | '\x22' :: rest =>
      let (k, rest) ← readString rest
      match skipSpace rest with
      | ':' :: rest =>
        let (j, rest) ← readValue depth (skipSpace rest)
        match skipSpace rest with
        | '\x7d' :: rest => return ([(k, j)], rest)
        | ',' :: rest =>
          let (ms, rest) ← readMembers depth (skipSpace rest)
          return ((k, j) :: ms, rest)
        | _ => .error .malformed
      | _ => .error .malformed
    | _ => .error .malformed

end

def read (text : String) : Except Refusal Json := do
  let cs := text.toList
  let (j, rest) ← readValue (cs.length + 1) (skipSpace cs)
  if (skipSpace rest).isEmpty then return j else .error .malformed

/-- The same data as compact text with sorted keys. -/
def canonical (text : String) : Except Refusal String :=
  (read text).map fun j ↦ j.sorted.text

end LayeredConfig.Json
