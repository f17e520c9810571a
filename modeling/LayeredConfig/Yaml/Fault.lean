import LayeredConfig.Decimal.Numeral
import LayeredConfig.Duration
import LayeredConfig.Plain.Conversion
import LayeredConfig.Text.Utf8

/-!
# Faults of loading

A document is refused as a whole when its syntax is wrong.  A node that cannot
be what its tag says is refused with a problem; a scalar that an explicit tag
misdescribes is refused by the reader of that scalar.
-/

namespace LayeredConfig.Yaml

/-- Refusals by the readers of scalars and of durations. -/
inductive ScalarFault where
  | notInteger (base : Nat) (text : String)
  | tooManyDigits (digits : Nat)
  | notFloat (text : String)
  | notBoolean (text : String)
  /-- No character is left where a numeral should begin. -/
  | emptyNumeral
  /-- An escaped code point beyond the last one, or beyond 32 bits. -/
  | badCodePoint (code : Nat)
  /-- A factor of sixty to some power is beyond the range of doubles. -/
  | factorTooLarge
  | notKey (f : Plain.KeyFault)
  | keywordNotText
  | unknownKeyword (name : String)
  | tooManyKeywords (count : Nat)
  | badComponent (component typeName : String)
  | nanComponent
  | infiniteComponent
  | span (o : Span.Overflow)
  | overlong
  deriving DecidableEq

def firstChars (n : Nat) (s : String) : String := String.ofList (s.toList.take n)

def ScalarFault.message : ScalarFault → String
  | .notInteger base text => "invalid literal for int() with base " ++ base.repr ++ ": " ++
      firstChars 200 (Text.quoted text)
  | .tooManyDigits digits => "Exceeds the limit (4300 digits) for integer string conversion: " ++
      "value has " ++ digits.repr ++
      " digits; use sys.set_int_max_str_digits() to increase the limit"
  | .notFloat text => "could not convert string to float: " ++ Text.quoted text
  | .notBoolean text => Text.quoted text
  | .emptyNumeral => "string index out of range"
  | .badCodePoint code =>
    if code < 2147483648 then "chr() arg not in range(0x110000)"
    else "Python int too large to convert to C int"
  | .factorTooLarge => "int too large to convert to float"
  | .notKey f => f.message
  | .keywordNotText => "keywords must be strings"
  | .unknownKeyword name => "'" ++ name ++ "' is an invalid keyword argument for __new__()"
  | .tooManyKeywords count => "__new__() takes at most 7 keyword arguments (" ++ count.repr ++
      " given)"
  | .badComponent component name => "unsupported type for timedelta " ++ component ++
      " component: " ++ name
  | .nanComponent => "cannot convert float NaN to integer"
  | .infiniteComponent => "cannot convert float infinity to integer"
  | .span o => o.message
  | .overlong => Value.Overlong.message ⟨⟩

inductive ScalarFault.Category where
  | badValue | badType | noKey | noIndex | outOfRange
  deriving DecidableEq

def ScalarFault.category : ScalarFault → ScalarFault.Category
  | .notBoolean _ => .noKey
  | .emptyNumeral => .noIndex
  | .badCodePoint code => if code < 2147483648 then .badValue else .outOfRange
  | .factorTooLarge | .infiniteComponent | .span _ => .outOfRange
  | .notKey (.changeable _) | .keywordNotText | .unknownKeyword _ | .tooManyKeywords _ |
    .badComponent _ _ => .badType
  | .notInteger _ _ | .tooManyDigits _ | .notFloat _ | .nanComponent | .overlong |
    .notKey .withoutUnit => .badValue

inductive LoadFault where
  /-- The text is no YAML, or its nodes do not fit together. -/
  | malformed
  /-- A node is not what its tag says. -/
  | problem (text : String)
  /-- The document holds data that no value has. -/
  | unsupported (f : Plain.Fault)
  /-- A collection holds itself, so its value would have no end. -/
  | endless
  | badRoot (kind : Kind)
  | scalar (f : ScalarFault)
  | undecodable (f : Text.Utf8.Fault)
  | unreadableFile
  deriving DecidableEq

def firstLine (s : String) : String := String.ofList (s.toList.takeWhile (· != '\n'))

def LoadFault.message : LoadFault → String
  | .malformed => "Failed to parse YAML document"
  | .problem text => "Failed to parse YAML document: " ++ firstLine text
  | .unsupported .overlong => Value.Overlong.message ⟨⟩
  | .unsupported f => "Unsupported YAML content: " ++ f.message
  | .endless => "a collection holds itself"
  | .badRoot _ => "Document root must be a mapping or a sequence"
  | .scalar f => f.message
  | .undecodable f => f.message
  | .unreadableFile => "Failed to read configuration file"

end LayeredConfig.Yaml
