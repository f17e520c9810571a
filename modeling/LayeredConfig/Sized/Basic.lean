import LayeredConfig.Sized.Instant

/-!
# Scalars of fixed width

Integers of a width hold the numbers of their range and no others.  Floats
are held at the precision of their format, and a complex number is a pair of
floats.  Instants, octets and whole arrays are such data too.  Each type has
one name, though it can be asked for by several.
-/

namespace LayeredConfig

inductive IntegerType where
  | int8 | int16 | int32 | int64 | longlong
  | uint8 | uint16 | uint32 | uint64 | ulonglong
  /-- A count of time units without a unit. -/
  | timedelta64
  deriving DecidableEq

namespace IntegerType

def name : IntegerType → String
  | .int8 => "int8"
  | .int16 => "int16"
  | .int32 => "int32"
  | .int64 => "int64"
  | .longlong => "longlong"
  | .uint8 => "uint8"
  | .uint16 => "uint16"
  | .uint32 => "uint32"
  | .uint64 => "uint64"
  | .ulonglong => "ulonglong"
  | .timedelta64 => "timedelta64"

def isSigned : IntegerType → Bool
  | .uint8 | .uint16 | .uint32 | .uint64 | .ulonglong => false
  | _ => true

def width : IntegerType → Nat
  | .int8 | .uint8 => 8
  | .int16 | .uint16 => 16
  | .int32 | .uint32 => 32
  | _ => 64

/-- Name of the range of numbers; types of equal range share it. -/
def rangeName : IntegerType → String
  | .longlong => "int64"
  | .ulonglong => "uint64"
  | t => t.name

def least (t : IntegerType) : Int := if t.isSigned then -(Nat.pow 2 (t.width - 1) : Nat) else 0

/-- The first number beyond the range of the type. -/
def bound (t : IntegerType) : Int := Nat.pow 2 (if t.isSigned then t.width - 1 else t.width)

/-- Whether the number is read through the widest type, whose refusal of a
number has a wording of its own. -/
def isWidest : IntegerType → Bool
  | .longlong | .ulonglong | .timedelta64 => true
  | _ => false

/-- The range of the numbers that are read before they are narrowed. -/
def isReadable (t : IntegerType) (n : Int) : Bool :=
  -- Small types without a sign are read as signed.
  let unsigned := t matches .uint32 | .uint64 | .ulonglong
  let high : Nat := Nat.pow 2 (if unsigned then 64 else 63)
  decide (-(Nat.pow 2 63 : Nat) ≤ n) && n < high

end IntegerType

inductive FloatType where
  | half | single | double | extended
  deriving DecidableEq

namespace FloatType

def format : FloatType → Format
  | .half => .half
  | .single => .single
  | .double => .double
  | .extended => .extended

def name : FloatType → String
  | .half => "float16"
  | .single => "float32"
  | .double => "float64"
  | .extended => "longdouble"

/-- Name of the complex numbers whose parts are of the type. -/
def complexName : FloatType → String
  | .half => "complex32"
  | .single => "complex64"
  | .double => "complex128"
  | .extended => "clongdouble"

/-- Numbers from this on are written with an exponent: every integer below it
has few enough digits to be held exactly. -/
def positionalBound : FloatType → Nat
  | .half => Nat.pow 10 3
  | .single => Nat.pow 10 6
  | .double | .extended => Nat.pow 10 16

end FloatType

/-- Data of a type with a width of its own. -/
inductive Sized where
  | boolean (b : Bool)
  | integer (type : IntegerType) (n : Int)
  /-- A count of time that is none. -/
  | noCount
  | float (type : FloatType) (x : Binary type.format)
  | complex (type : FloatType) (re im : Binary type.format)
  | instant (i : Instant)
  | bytes (data : List UInt8)
  /-- Octets that can be written to. -/
  | block
  | grid
  | other (typeName : String)

namespace Sized

def typeName : Sized → String
  | .boolean _ => "bool"
  | .integer t _ => t.name
  | .noCount => IntegerType.timedelta64.name
  | .float t _ => t.name
  | .complex t .. => t.complexName
  | .instant _ => "datetime64"
  | .bytes _ => "bytes_"
  | .block => "void"
  | .grid => "ndarray"
  | .other name => name

end Sized

end LayeredConfig
