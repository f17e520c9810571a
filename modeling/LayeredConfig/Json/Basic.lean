import LayeredConfig.Decimal.Layout
import LayeredConfig.Decimal.Numeral
import LayeredConfig.Members
import LayeredConfig.Text.Quoted

/-!
# JSON data and its text

Data, the quoting of strings, and the compact text.  Text is written with all
characters as they are, except the controls, the quotation mark, the backslash
and the two Unicode line separators.
-/

namespace LayeredConfig

/-- JSON data.  Integers are exact; other numbers are doubles, the special
ones included. -/
inductive Json where
  | null
  | boolean (b : Bool)
  | int (n : Int)
  | double (x : Double)
  | string (s : String)
  | array (elements : List Json)
  | object (members : List (String × Json))

namespace Json

def quotedChar (c : Char) : List Char :=
  if c = '\x22' then ['\\', '\x22']
  else if c = '\\' then ['\\', '\\']
  else if c = '\n' then ['\\', 'n']
  else if c = '\r' then ['\\', 'r']
  else if c = '\t' then ['\\', 't']
  else if c = '\x08' then ['\\', 'b']
  else if c = '\x0c' then ['\\', 'f']
  else if c.toNat < 0x20 || c = '\u2028' || c = '\u2029' then
    '\\' :: 'u' :: Text.hexDigits 4 c.toNat
  else [c]

def quote (s : String) : String :=
  String.ofList ('\x22' :: s.toList.flatMap quotedChar ++ ['\x22'])

/-- Items between brackets. -/
def bracketed (separator : String) (items : List String) : String :=
  "[" ++ separator.intercalate items ++ "]"

/-- Items between braces. -/
def braced (separator : String) (items : List String) : String :=
  "\x7b" ++ separator.intercalate items ++ "\x7d"

mutual

def text : Json → String
  | .null => "null"
  | .boolean true => "true"
  | .boolean false => "false"
  | .int n => Numeral.ofInt n
  | .double x => Layout.json.render x
  | .string s => quote s
  | .array elements => bracketed "," (elementTexts elements)
  | .object members => braced "," (memberTexts members)

def elementTexts : List Json → List String
  | [] => []
  | j :: rest => j.text :: elementTexts rest

def memberTexts : List (String × Json) → List String
  | [] => []
  | (k, j) :: rest => (quote k ++ ":" ++ j.text) :: memberTexts rest

end

mutual

/-- The data with the members of every object in the order of their keys, by
code point. -/
def sorted : Json → Json
  | .array elements => .array (sortedElements elements)
  | .object members =>
    .object ((sortedMembers members).mergeSort fun a b ↦ !decide (b.1 < a.1))
  | j => j

def sortedElements : List Json → List Json
  | [] => []
  | j :: rest => j.sorted :: sortedElements rest

def sortedMembers : List (String × Json) → List (String × Json)
  | [] => []
  | (k, j) :: rest => (k, j.sorted) :: sortedMembers rest

end

end Json

end LayeredConfig
