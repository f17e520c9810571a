/-!
# Binary floating point

A finite number of a binary format is a sign and a code: the exponent field
and the fraction read as one natural number.  Codes are ordered as the
magnitudes are, and every magnitude is a natural number of units, the unit
being the smallest positive number of the format.  Operations compute the
exact result over the naturals and round once, to nearest, ties to even.

A NaN is the same number as itself only.  One that is passed on keeps its
origin, by which it is known again; one without an origin is never the same.
-/

namespace LayeredConfig

/-- A binary interchange format: bits of the significand (with the leading
one) and bits of the exponent field. -/
structure Format where
  precision : Nat
  exponentWidth : Nat

namespace Format

def double : Format := ⟨53, 11⟩
def single : Format := ⟨24, 8⟩
def half : Format := ⟨11, 5⟩
def extended : Format := ⟨64, 15⟩

/-- Weight of the leading bit of a significand: codes per exponent. -/
def leading (f : Format) : Nat := Nat.pow 2 (f.precision - 1)

/-- Finite numbers are below two to the power of this. -/
def exponentLimit (f : Format) : Nat := Nat.pow 2 (f.exponentWidth - 1)

/-- The unit of the format is two to the power of minus this. -/
def scale (f : Format) : Nat := f.exponentLimit + f.precision - 3

def one (f : Format) : Nat := Nat.pow 2 f.scale

/-- Code of infinity, the first code that is not finite. -/
def infinity (f : Format) : Nat := (Nat.pow 2 f.exponentWidth - 1) * f.leading

/-- Bit pattern of the one NaN that is written. -/
def quietNaN (f : Format) : Nat := f.infinity + f.leading / 2

def signBit (f : Format) : Nat := Nat.pow 2 f.exponentWidth * f.leading

/-- Magnitude of a code in units. -/
def units (f : Format) (code : Nat) : Nat :=
  -- The codes from infinity on continue the pattern, so it tells where the finite
  -- numbers end.
  if code < f.leading then code
  else (f.leading + code % f.leading) * Nat.pow 2 (code / f.leading - 1)

/-- Quotient of two naturals to nearest. -/
def halfEven (a b : Nat) : Nat :=
  if 2 * (a % b) < b then a / b
  else if b < 2 * (a % b) then a / b + 1
  -- A half goes to the even neighbour.
  else a / b + a / b % 2

/-- Code nearest to `a / b` units. -/
def round (f : Format) (a b : Nat) : Nat :=
  let shift := (a / b).log2 + 1 - f.precision
  shift * f.leading + halfEven a (b * Nat.pow 2 shift)

end Format

/-- Where a NaN comes from. -/
inductive Origin where
  /-- The word for it, which stands for one number wherever it is written. -/
  | word
  | place (document index : Nat)
  deriving DecidableEq

/-- A number of the format `f`. -/
inductive Binary (f : Format) where
  | nan (origin : Option Origin)
  | infinite (negative : Bool)
  | finite (negative : Bool) (code : Fin f.infinity)
  deriving DecidableEq

abbrev Double := Binary .double
abbrev Single := Binary .single

namespace Binary

variable {f : Format}

/-- The number of a code, infinite from the code of infinity on. -/
def ofCode (f : Format) (negative : Bool) (code : Nat) : Binary f :=
  if h : code < f.infinity then .finite negative ⟨code, h⟩ else .infinite negative

/-- The number nearest to a quotient of naturals. -/
def ofRatio (f : Format) (negative : Bool) (num den : Nat) : Binary f :=
  ofCode f negative (f.round (num * f.one) den)

def ofInt (f : Format) (n : Int) : Binary f := ofRatio f (n < 0) n.natAbs 1

def zero (f : Format) (negative : Bool) : Binary f := ofCode f negative 0

def ofBits (f : Format) (bits : Nat) : Binary f :=
  let code := bits % f.signBit
  if f.infinity < code then .nan none else ofCode f (f.signBit ≤ bits) code

def toBits : Binary f → Nat
  | .nan _ => f.quietNaN
  | .infinite negative => (if negative then f.signBit else 0) + f.infinity
  | .finite negative code => (if negative then f.signBit else 0) + code

def isNaN : Binary f → Bool
  | .nan _ => true
  | _ => false

def isInfinite : Binary f → Bool
  | .infinite _ => true
  | _ => false

def isFinite : Binary f → Bool
  | .finite .. => true
  | _ => false

def neg : Binary f → Binary f
  | .nan origin => .nan origin
  | .infinite s => .infinite !s
  | .finite s c => .finite (!s) c

/-- Signed magnitude in units, of a finite number. -/
def signedUnits? : Binary f → Option Int
  | .finite s c => some (if s then -(f.units c : Int) else f.units c)
  | _ => none

/-- The number nearest to `n` units, and zero with the given sign. -/
def ofUnits (f : Format) (zeroSign : Bool) (n : Int) : Binary f :=
  if n = 0 then zero f zeroSign else ofRatio f (n < 0) n.natAbs f.one

/-- The same number in another format, rounded if that has fewer bits. -/
def convert (g : Format) : Binary f → Binary g
  | .nan origin => .nan origin
  | .infinite s => .infinite s
  | .finite s c => ofRatio g s (f.units c) f.one

/-- The number, and if it is a NaN without an origin, one from there. -/
def withOrigin (origin : Origin) : Binary f → Binary f
  | .nan none => .nan (some origin)
  | x => x

/-- Equality of numbers: the zeros are equal, and a NaN equals the NaN of the
same origin. -/
def sameNumber : Binary f → Binary f → Bool
  | .nan (some o), .nan (some p) => o == p
  | .infinite s, .infinite t => s == t
  | .finite s c, .finite t d => c == d && (s == t || c.val == 0)
  | _, _ => false

def add : Binary f → Binary f → Binary f
  | .nan _, _ => .nan none
  | _, .nan _ => .nan none
  | .infinite s, .infinite t => if s = t then .infinite s else .nan none
  | .infinite s, .finite .. => .infinite s
  | .finite .., .infinite t => .infinite t
  | .finite s c, .finite t d =>
    let a : Int := if s then -(f.units c : Int) else f.units c
    let b : Int := if t then -(f.units d : Int) else f.units d
    ofUnits f (s && t) (a + b)

def mul : Binary f → Binary f → Binary f
  | .nan _, _ => .nan none
  | _, .nan _ => .nan none
  | .infinite s, .infinite t => .infinite (s != t)
  | .infinite s, .finite t d => if d.val = 0 then .nan none else .infinite (s != t)
  | .finite s c, .infinite t => if c.val = 0 then .nan none else .infinite (s != t)
  | .finite s c, .finite t d =>
    ofRatio f (s != t) (f.units c * f.units d) (f.one * f.one)

/-- Whole part of a finite number, toward zero. -/
def truncate? : Binary f → Option Int
  | .finite s c =>
    let whole : Int := (f.units c / f.one : Nat)
    some (if s then -whole else whole)
  | _ => none

/-- What is left of a finite number beside its whole part; it has the sign
of the number. -/
def fraction : Binary f → Binary f
  | .finite s c => ofRatio f s (f.units c % f.one) f.one
  | .infinite s => zero f s
  | .nan origin => .nan origin

end Binary

end LayeredConfig
