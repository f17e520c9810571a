import LayeredConfig.Text.Basic
import LayeredConfig.Text.Printable

/-!
# Quoted literals

A text between quotes, in apostrophes unless it holds an apostrophe and no
quotation mark.  The delimiter and the backslash are escaped, and so is every
character that is not printable.
-/

namespace LayeredConfig.Text

/-- The last `width` hexadecimal digits of a number, in lower case. -/
def hexDigits : (width : Nat) → Nat → List Char
  | 0, _ => []
  | width + 1, n => hexDigits width (n / 16) ++ [(n % 16).digitChar]

/-- A character inside a literal that is delimited by `delimiter`. -/
def quotedChar (delimiter c : Char) : List Char :=
  if c = delimiter || c = '\\' then ['\\', c]
  else if c = '\n' then ['\\', 'n']
  else if c = '\r' then ['\\', 'r']
  else if c = '\t' then ['\\', 't']
  else if isPrintable c then [c]
  else if c.toNat < 0x100 then '\\' :: 'x' :: hexDigits 2 c.toNat
  else if c.toNat < 0x10000 then '\\' :: 'u' :: hexDigits 4 c.toNat
  else '\\' :: 'U' :: hexDigits 8 c.toNat

def delimiter (cs : List Char) : Char :=
  if cs.contains '\x27' && !cs.contains '\x22' then '\x22' else '\x27'

def quoted (s : String) : String :=
  let mark := delimiter s.toList
  String.ofList (mark :: s.toList.flatMap (quotedChar mark) ++ [mark])

/-- Constructor form. -/
def form (t : Text) : String :=
  if t.fixedWidth then "np.str_(" ++ quoted t.shown ++ ")" else quoted t.content

/-- A sequence of bytes between quotes: ASCII as it is, the rest escaped. -/
def quotedBytes (bytes : List UInt8) : String :=
  let cs := bytes.map fun b ↦ Char.ofNat b.toNat
  let mark := delimiter cs
  let shown (c : Char) : List Char :=
    if c.toNat < 0x80 then quotedChar mark c else '\\' :: 'x' :: hexDigits 2 c.toNat
  String.ofList ('b' :: mark :: cs.flatMap shown ++ [mark])

end LayeredConfig.Text
