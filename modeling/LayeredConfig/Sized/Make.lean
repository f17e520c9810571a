import LayeredConfig.Decimal.Complex
import LayeredConfig.Sized.Basic
import LayeredConfig.Text.Quoted

/-!
# Making scalars of fixed width

An integer must be in the range of an integer type; a whole number that comes
from a float or from a text is cut to the width instead.  A float type takes
the nearest number it has.
-/

namespace LayeredConfig.Sized

inductive Fault where
  | outOfBounds (n : Int) (type : IntegerType)
  /-- A whole number that is read through a type of 64 bits is beyond it. -/
  | unreadable
  | tooWide
  | beyondFloats
  | infiniteInteger
  | nanInteger
  | notInteger (text : String)
  | tooManyDigits (digits : Nat)
  | notFloat (text : String)
  | notWide (text : String)
  | notComplex (text : String) (r : Numeral.ComplexRefusal)
  | notInstant (r : Instant.Refusal)
  /-- Data of a type that is read as no number of the kind. -/
  | noInteger (typeName : String)
  | noFloat (typeName : String)
  | noComplex (typeName : String)
  | noInstant
  | noCount
  /-- An integer is no instant unless a unit is given. -/
  | withoutUnit
  /-- The type is only a family of types. -/
  | family (typeName : String)
  | notAscii (first last : Nat) (c : Char)
  | noOctets (typeName : String)
  | tooManyOctets
  | overlong
  deriving DecidableEq

/-- Mark of a character in a message: its code point. -/
def charMark (c : Char) : String :=
  let n := c.toNat
  if n < 0x100 then "\\x" ++ String.ofList (Text.hexDigits 2 n)
  else if n < 0x10000 then "\\u" ++ String.ofList (Text.hexDigits 4 n)
  else "\\U" ++ String.ofList (Text.hexDigits 8 n)

def Fault.message : Fault → String
  | .outOfBounds n t => "Python integer " ++ Numeral.ofInt n ++ " out of bounds for " ++ t.rangeName
  | .unreadable => "Python int too large to convert to C long"
  | .tooWide => "int too big to convert"
  | .beyondFloats => "int too large to convert to float"
  | .infiniteInteger => "cannot convert float infinity to integer"
  | .nanInteger => "cannot convert float NaN to integer"
  | .notInteger text => "invalid literal for int() with base 10: " ++
      String.ofList ((Text.quoted text).toList.take 200)
  | .tooManyDigits digits => "Exceeds the limit (4300 digits) for integer string conversion: " ++
      "value has " ++ digits.repr ++
      " digits; use sys.set_int_max_str_digits() to increase the limit"
  | .notFloat text => "could not convert string to float: " ++ Text.quoted text
  | .notWide text => "invalid literal for long double: " ++
      String.ofList (text.toList.takeWhile (·.toNat ≠ 0))
  | .notComplex _ .malformed => "complex() arg is a malformed string"
  | .notComplex text .underscores => "could not convert string to complex: " ++ Text.quoted text
  | .notInstant r => r.message
  | .noInteger name =>
    "int() argument must be a string, a bytes-like object or a real number, not '" ++ name ++ "'"
  | .noFloat name => "float() argument must be a string or a real number, not '" ++ name ++ "'"
  | .noComplex name => "must be real number, not " ++ name
  | .noInstant => "Could not convert object to NumPy datetime"
  | .noCount => "Could not convert object to NumPy timedelta"
  | .withoutUnit => "Converting an integer to a NumPy datetime requires a specified unit"
  | .family name => "cannot create 'numpy." ++ name ++ "' instances"
  | .notAscii first last c =>
    if first = last then "'ascii' codec can't encode character '" ++ charMark c ++
      "' in position " ++ first.repr ++ ": ordinal not in range(128)"
    else "'ascii' codec can't encode characters in position " ++ first.repr ++ "-" ++ last.repr ++
      ": ordinal not in range(128)"
  | .noOctets name => "A bytes-like object is required, not '" ++ name ++ "'"
  | .tooManyOctets => "size must be non-negative and not greater than 2147483647"
  | .overlong => "Exceeds the limit (4300 digits) for integer string conversion; " ++
      "use sys.set_int_max_str_digits() to increase the limit"

inductive Fault.Category where
  | badValue | badType | outOfRange | badEncoding
  deriving DecidableEq

def Fault.category : Fault → Fault.Category
  | .outOfBounds .. | .unreadable | .tooWide | .beyondFloats | .infiniteInteger |
    .tooManyOctets => .outOfRange
  | .noInteger _ | .noFloat _ | .noComplex _ | .family _ | .noOctets _ => .badType
  | .notAscii .. => .badEncoding
  | _ => .badValue

/-- The integer of a type; the least count of time is that of no time. -/
def ofInteger (t : IntegerType) (n : Int) : Sized :=
  if t = .timedelta64 && n = t.least then .noCount else .integer t n

/-- An integer beyond what is read for a type. -/
def checkReadable (t : IntegerType) (n : Int) : Except Fault Int :=
  if t.isReadable n then .ok n else .error (if t.isWidest then .tooWide else .unreadable)

/-- The integer of a type that a number is. -/
def ofInt (t : IntegerType) (n : Int) : Except Fault Sized := do
  let n ← checkReadable t n
  if t.least ≤ n && n < t.bound then return ofInteger t n else throw (.outOfBounds n t)

/-- The integer of a type that is left of a number at the width of the type. -/
def ofCut (t : IntegerType) (n : Int) : Except Fault Sized := do
  let n ← checkReadable t n
  let modulus := Nat.pow 2 t.width
  return .integer t (if t.isSigned then n.bmod modulus else n % (modulus : Int))

def wholeOfText (s : String) : Except Fault Int :=
  match Numeral.readInt 10 s.toList with
  | .ok n => .ok n
  | .error .malformed => .error (.notInteger s)
  | .error (.tooLong digits) => .error (.tooManyDigits digits)

/-- The whole number that a float holds, without its fraction. -/
def wholeOfDouble (x : Double) : Except Fault Int :=
  match x.truncate? with
  | some n => .ok n
  | none => .error (if x.isNaN then .nanInteger else .infiniteInteger)

def doubleOfInt (n : Int) : Except Fault Double :=
  let x : Double := Binary.ofInt .double n
  if x.isFinite then .ok x else .error .beyondFloats

/-- The number of a float type nearest to an integer, which must be in the
range of doubles for all but the widest type. -/
def floatOfInt (t : FloatType) (n : Int) : Except Fault (Binary t.format) :=
  match t with
  | .extended => .ok (Binary.ofInt .extended n)
  | t => (doubleOfInt n).map (·.convert t.format)

/-- The number of a float type that a text spells. -/
def floatOfText (t : FloatType) (s : String) : Except Fault (Binary t.format) :=
  match t with
  | .extended =>
    match Numeral.readWide .extended s.toList with
    | some x => .ok x
    | none => .error (.notWide s)
  | t =>
    match Numeral.readFloat s.toList with
    | some x => .ok (x.convert t.format)
    | none => .error (.notFloat s)

def ofParts (t : FloatType) (re im : Double) : Sized :=
  .complex t (re.convert t.format) (im.convert t.format)

def complexOfText (t : FloatType) (s : String) : Except Fault Sized :=
  match Numeral.readComplex s.toList with
  | .ok (re, im) => .ok (ofParts t re im)
  | .error r => .error (.notComplex s r)

/-- A count of time: decimal digits after spaces and a sign, held at the ends
of the range of 64 bits. -/
def countOfText (s : String) : Except Fault Sized :=
  let cs := s.toList
  let (negative, digits) := Numeral.takeSign (cs.dropWhile Numeral.isSpace)
  if cs.isEmpty || String.ofList (cs.map Char.toLower) == "nat" then .ok .noCount
  else
    match digits.mapM Text.asciiDigit? with
    | some (d :: ds) =>
      let magnitude : Int := Numeral.ofDigits 10 (d :: ds)
      let n := if negative then -magnitude else magnitude
      let t := IntegerType.timedelta64
      .ok (ofInteger t (max t.least (min (t.bound - 1) n)))
    | _ => .error .noCount

/-- The octets of a text, all of which must be in ASCII. -/
def asciiOctets (s : String) : Except Fault (List UInt8) :=
  let cs := s.toList
  let isAscii (c : Char) : Bool := c.toNat < 0x80
  match cs.dropWhile isAscii with
  -- Zeros at the end are padding.
  | [] => .ok ((cs.map fun c ↦ UInt8.ofNat c.toNat).reverse.dropWhile (· = 0)).reverse
  | c :: rest =>
    let first := (cs.takeWhile isAscii).length
    .error (.notAscii first (first + (rest.takeWhile (!isAscii ·)).length) c)

/-! ## Names of types -/

/-- Names that several types are asked for by. -/
def integerTypes : List (String × IntegerType) := [
  ("int8", .int8), ("byte", .int8), ("int16", .int16), ("short", .int16), ("int32", .int32),
  ("intc", .int32), ("int64", .int64), ("int_", .int64), ("long", .int64), ("intp", .int64),
  ("longlong", .longlong), ("uint8", .uint8), ("ubyte", .uint8), ("uint16", .uint16),
  ("ushort", .uint16), ("uint32", .uint32), ("uintc", .uint32), ("uint64", .uint64),
  ("uint", .uint64), ("ulong", .uint64), ("uintp", .uint64), ("ulonglong", .ulonglong)]

def floatTypes : List (String × FloatType) := [
  ("float16", .half), ("half", .half), ("float32", .single), ("single", .single),
  ("float64", .double), ("double", .double), ("longdouble", .extended), ("float128", .extended)]

def complexTypes : List (String × FloatType) := [
  ("complex64", .single), ("csingle", .single), ("complex128", .double), ("cdouble", .double),
  ("clongdouble", .extended), ("complex256", .extended)]

/-- Families of types, which have no scalars of their own. -/
def families : List String :=
  ["generic", "number", "integer", "signedinteger", "unsignedinteger", "inexact", "floating",
    "complexfloating", "flexible", "character"]

end LayeredConfig.Sized
