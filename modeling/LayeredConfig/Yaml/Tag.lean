import LayeredConfig.Text.Digit

/-!
# Tags of plain scalars

A plain scalar without a tag gets one by its form.  Floats need a point, and a
sign in their exponent; both numbers may be written in base sixty.
-/

namespace LayeredConfig.Yaml.Tag

def core (name : String) : String := "tag:yaml.org,2002:" ++ name

def corePrefix : String := core ""

def bool := core "bool"
def float := core "float"
def int := core "int"
def merge := core "merge"
def null := core "null"
def value := core "value"
def string := core "str"
def sequence := core "seq"
def mapping := core "map"
def set := core "set"
def orderedMap := core "omap"
def pairs := core "pairs"
def binary := core "binary"
def timestamp := core "timestamp"

/-- The tag of a mark that begins a property or an alias, written alone. -/
def mark := core "yaml"

/-- A word in lower, title or upper case. -/
def isCased (word : String) (cs : List Char) : Bool :=
  let lower := word.toList
  let title := match lower with
    | [] => []
    | c :: rest => c.toUpper :: rest
  cs == lower || cs == title || cs == lower.map Char.toUpper

def isBool (cs : List Char) : Bool :=
  ["yes", "no", "true", "false", "on", "off"].any (isCased · cs)

def isNull (cs : List Char) : Bool := cs == [] || cs == ['~'] || isCased "null" cs

def isDigitOrLow (c : Char) : Bool := c.isDigit || c == '_'

/-- Without a sign at the beginning. -/
def unsigned : List Char → List Char
  | '-' :: rest | '+' :: rest => rest
  | cs => cs

/-- A digit, or two of which the first is at most five. -/
def isSixtieth : List Char → Bool
  | [a] => a.isDigit
  | [a, b] => '0' ≤ a && a ≤ '5' && b.isDigit
  | _ => false

/-- A digit followed by digits and underscores. -/
def isGrouped : List Char → Bool
  | a :: rest => a.isDigit && rest.all isDigitOrLow
  | [] => false

/-- Parts between colons: a first number, and sixtieths. -/
def isSexagesimal (firstDigit : Char → Bool) (cs : List Char) : Bool :=
  match cs.splitOn ':' with
  | first :: part :: parts =>
    isGrouped first && first.head?.any firstDigit && (part :: parts).all isSixtieth
  | _ => false

/-- Nothing, or an exponent with a sign. -/
def isExponent : List Char → Bool
  | [] => true
  | e :: sign :: digits =>
    (e == 'e' || e == 'E') && (sign == '-' || sign == '+') && !digits.isEmpty &&
      digits.all Char.isDigit
  | _ => false

def isFloat (cs : List Char) : Bool :=
  let body := unsigned cs
  let whole := body.takeWhile fun c ↦ isDigitOrLow c || c == ':'
  match body.drop whole.length with
  | '.' :: rest =>
    let fraction := rest.takeWhile isDigitOrLow
    let tail := rest.drop fraction.length
    (isGrouped whole && isExponent tail) ||
      (isSexagesimal (fun _ ↦ true) whole && tail.isEmpty) ||
      (whole.isEmpty && isCased "inf" rest) ||
      (cs.head? == some '.' && isGrouped fraction && isExponent tail) ||
      (cs.head? == some '.' && whole.isEmpty && (rest == ['n', 'a', 'n'] ||
        rest == ['N', 'a', 'N'] || rest == ['N', 'A', 'N']))
  | _ => false

def isInt (cs : List Char) : Bool :=
  let body := unsigned cs
  match body with
  | '0' :: 'b' :: digits => !digits.isEmpty && digits.all fun c ↦ c == '0' || c == '1' || c == '_'
  | '0' :: 'x' :: digits =>
    !digits.isEmpty && digits.all fun c ↦ (Text.baseDigit? 16 c).isSome || c == '_'
  | ['0'] => true
  | '0' :: digits => digits.all fun c ↦ ('0' ≤ c && c ≤ '7') || c == '_'
  | body => isGrouped body || isSexagesimal (· != '0') body

/-- Without one line feed at the end. -/
def withoutFinalBreak (cs : List Char) : List Char :=
  if cs.getLast? == some '\n' then cs.dropLast else cs

/-- The tag of a scalar by its form. -/
def ofPlain (text : String) : String :=
  let full := text.toList
  -- A line feed at the end does not count, but it counts as a first character.
  let cs := withoutFinalBreak full
  if full != [] && cs == [] then string
  else if isBool cs then bool
  else if isFloat cs then float
  else if isInt cs then int
  else if cs == ['<', '<'] then merge
  else if isNull cs then null
  else if cs == ['='] then value
  else if cs == ['!'] || cs == ['&'] || cs == ['*'] then mark
  else string

end LayeredConfig.Yaml.Tag
