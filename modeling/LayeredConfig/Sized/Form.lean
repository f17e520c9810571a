import LayeredConfig.Decimal.Layout
import LayeredConfig.Sized.Basic
import LayeredConfig.Text.Quoted

/-!
# Constructor form of scalars of fixed width

Floats read as their shortest text, and turn to an exponent where an integer
may no longer be exact.
-/

namespace LayeredConfig.Sized

/-- Whether a number is written without an exponent. -/
def isPositional (t : FloatType) : Binary t.format → Bool
  | .finite _ c =>
    let f := t.format
    c.val == 0 || f.one ≤ f.units c * 10000 && f.units c < t.positionalBound * f.one
  | _ => true

def floatText (t : FloatType) (x : Binary t.format) : String :=
  let spread : Option (Int × Int) := if isPositional t x then some (-5, 17) else none
  Layout.render ⟨spread, "nan", "inf", "-inf"⟩ x

/-- Text of a part of a complex number: no fraction of zero, and a sign if
the part is the second. -/
def partText (t : FloatType) (signed : Bool) (x : Binary t.format) : String :=
  let cs := (floatText t x).toList
  let kept := if ['.', '0'].isSuffixOf cs then cs.take (cs.length - 2) else cs
  let sign := if signed && kept.head? != some '-' then ['+'] else []
  String.ofList (sign ++ kept)

def isZero {f : Format} : Binary f → Bool
  | .finite false c => c.val == 0
  | _ => false

def complexText (t : FloatType) (re im : Binary t.format) : String :=
  -- A real part of zero is left out.
  if isZero re then partText t false im ++ "j"
  else partText t false re ++ partText t true im ++ "j"

/-- Quoted, if the format is wider than a double. -/
def wideQuoted (t : FloatType) (s : String) : String :=
  if t = .extended then "'" ++ s ++ "'" else s

def form : Sized → String
  | .boolean b => if b then "np.True_" else "np.False_"
  | .integer t n => "np." ++ t.name ++ "(" ++ Numeral.ofInt n ++ ")"
  | .noCount => "np.timedelta64('NaT')"
  | .float t x => "np." ++ t.name ++ "(" ++ wideQuoted t (floatText t x) ++ ")"
  | .complex t re im => "np." ++ t.complexName ++ "(" ++ wideQuoted t (complexText t re im) ++ ")"
  | .instant i => i.form
  -- Octets of zero at the end are padding.
  | .bytes data =>
    "np.bytes_(" ++ Text.quotedBytes (data.reverse.dropWhile (· = 0)).reverse ++ ")"
  | data => data.typeName

end LayeredConfig.Sized
