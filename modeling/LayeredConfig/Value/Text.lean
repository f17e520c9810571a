import LayeredConfig.Duration
import LayeredConfig.Json.Basic
import LayeredConfig.Value.Basic

/-!
# Text and JSON form of values

Each value has a text and a JSON form.  Containers read the same in both.
Floats are quoted in JSON, so that their digits survive; references are quoted
texts.  A concatenation reads as its fragments side by side, each without the
quotation marks at its ends.
-/

namespace LayeredConfig

def Reference.text (r : Reference) : String :=
  "$\x7b" ++ (if r.optional then "?" else "") ++ r.path ++ "\x7d"

namespace Value

/-- The text without the quotation marks at its ends. -/
def unquoted (s : String) : String :=
  let isQuote := (· == '\x22')
  String.ofList ((s.toList.dropWhile isQuote).reverse.dropWhile isQuote).reverse

def singleText (x : Single) : String := Layout.scientific.render x

def doubleText (x : Double) : String := Layout.scientific.render x

mutual

def text : Value → String
  | .null => "null"
  | .boolean true => "true"
  | .boolean false => "false"
  | .string s => s.content
  | .int n => Numeral.ofInt n
  | .single x => singleText x
  | .double x => doubleText x
  | .duration n => Duration.text n
  | .object members => Json.braced ", " (memberTexts members)
  | .array elements => Json.bracketed "," (elementTexts elements)
  | .substitution r => r.text
  | .concatenation fragments => String.join (fragmentTexts fragments)
  | .alternative v r => "(" ++ v.text ++ " | " ++ r.text ++ ")"

def json : Value → String
  | .null => "null"
  | .boolean true => "true"
  | .boolean false => "false"
  | .string s => Json.quote s.content
  | .int n => Numeral.ofInt n
  | .single x => "\x22" ++ singleText x ++ "\x22"
  | .double x => "\x22" ++ doubleText x ++ "\x22"
  | .duration n => Numeral.ofInt (Duration.milliseconds n)
  | .object members => Json.braced ", " (memberTexts members)
  | .array elements => Json.bracketed "," (elementTexts elements)
  | .substitution r => Json.quote r.text
  | .concatenation fragments => Json.quote (String.join (fragmentTexts fragments))
  | .alternative v r => Json.quote ("(" ++ v.text ++ " | " ++ r.text ++ ")")

/-- Texts of the fragments of a concatenation. -/
def fragmentTexts : List Value → List String
  | [] => []
  | v :: rest => unquoted v.text :: fragmentTexts rest

def elementTexts : List Value → List String
  | [] => []
  | v :: rest => v.json :: elementTexts rest

def memberTexts : List (Text × Value) → List String
  | [] => []
  | (k, v) :: rest => (Json.quote k.content ++ ":" ++ v.json) :: memberTexts rest

end

mutual

/-- No integer is too long to be written in the text. -/
def textFits : Value → Bool
  | .int n => !Numeral.isOverlong n
  | .duration n => !Numeral.isOverlong (Duration.hours n)
  | .object members => membersFit members
  | .array elements => elementsFit elements
  | .concatenation fragments => fragmentsFit fragments
  | .alternative v _ => v.textFits
  | _ => true

/-- No integer is too long to be written in the JSON form. -/
def jsonFits : Value → Bool
  | .int n => !Numeral.isOverlong n
  | .duration n => !Numeral.isOverlong (Duration.milliseconds n)
  | .object members => membersFit members
  | .array elements => elementsFit elements
  | .concatenation fragments => fragmentsFit fragments
  | .alternative v _ => v.textFits
  | _ => true

def fragmentsFit : List Value → Bool
  | [] => true
  | v :: rest => v.textFits && fragmentsFit rest

def elementsFit : List Value → Bool
  | [] => true
  | v :: rest => v.jsonFits && elementsFit rest

def membersFit : List (Text × Value) → Bool
  | [] => true
  | (_, v) :: rest => v.jsonFits && membersFit rest

end

/-- An integer has more digits than are written. -/
structure Overlong where
  deriving DecidableEq

def Overlong.message : Overlong → String
  | ⟨⟩ => "Exceeds the limit (4300 digits) for integer string conversion; " ++
    "use sys.set_int_max_str_digits() to increase the limit"

/-- The text, unless an integer in it is too long. -/
def render (v : Value) : Except Overlong String :=
  if v.textFits then .ok v.text else .error ⟨⟩

/-- The JSON form, unless an integer in it is too long. -/
def renderJson (v : Value) : Except Overlong String :=
  if v.jsonFits then .ok v.json else .error ⟨⟩

end Value

end LayeredConfig
