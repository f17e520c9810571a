import LayeredConfig.Text.Base64
import LayeredConfig.Text.Lower
import LayeredConfig.Yaml.Fault

/-!
# Scalars with a tag

What a scalar stands for under the tags of the core vocabulary.  Underscores
in numbers do not count, and numbers may be written in base sixty.
-/

namespace LayeredConfig.Yaml.CoreScalar

/-- The truth value of a word, in any case. -/
def bool (text : String) : Except ScalarFault Bool :=
  let word := Text.lower text
  if ["yes", "true", "on"].contains word then .ok true
  else if ["no", "false", "off"].contains word then .ok false
  else .error (.notBoolean word)

/-- An integer of a base, as a text of its own. -/
def integer (base : Nat) (cs : List Char) : Except ScalarFault Int :=
  match Numeral.readInt base cs with
  | .ok n => .ok n
  | .error .malformed => .error (.notInteger base (String.ofList cs))
  | .error (.tooLong digits) => .error (.tooManyDigits digits)

def double (cs : List Char) : Except ScalarFault Double :=
  match Numeral.readFloat cs with
  | some x => .ok x
  | none => .error (.notFloat (String.ofList cs))

/-- The sign of a numeral and the rest of it; there must be a character. -/
def signed (cs : List Char) : Except ScalarFault (Bool × List Char) :=
  match cs with
  | [] => .error .emptyNumeral
  | cs => .ok (Numeral.takeSign cs)

def withoutUnderscores (cs : List Char) : List Char := cs.filter (· != '_')

/-- Value of digits in base sixty, the most significant first. -/
def sixtieths (parts : List Int) : Int := parts.foldl (fun n part ↦ 60 * n + part) 0

/-- Magnitude of an integer by the mark of its base. -/
def magnitude (cs : List Char) : Except ScalarFault Int :=
  match cs with
  | [] => .error .emptyNumeral
  | ['0'] => .ok 0
  | '0' :: 'b' :: digits => integer 2 digits
  | '0' :: 'x' :: digits => integer 16 digits
  | '0' :: _ => integer 8 cs
  | cs =>
    if cs.contains ':' then do
      let parts ← (cs.splitOn ':').mapM (integer 10)
      return sixtieths parts
    else integer 10 cs

def int (text : String) : Except ScalarFault Int := do
  let (negative, rest) ← signed (withoutUnderscores text.toList)
  let n ← magnitude rest
  return if negative then -n else n

/-- Sum of parts in base sixty, from the last to the first, each product and
each sum rounded. -/
def sumSixtieths : (factor : Nat) → Double → List Double → Except ScalarFault Double
  | _, sum, [] => .ok sum
  | factor, sum, part :: rest =>
    match Binary.ofInt .double factor with
    | .infinite _ => .error .factorTooLarge
    | x => sumSixtieths (factor * 60) (sum.add (part.mul x)) rest

def float (text : String) : Except ScalarFault Double := do
  let word := Text.lower (String.ofList (withoutUnderscores text.toList))
  let (negative, rest) ← signed word.toList
  let x : Double ←
    match String.ofList rest with
    | ".inf" => pure (.infinite false)
    | ".nan" => pure (.nan (some .word))
    | _ =>
      if rest.contains ':' then do
        let parts ← (rest.splitOn ':').mapM double
        sumSixtieths 1 (.zero .double false) parts.reverse
      else double rest
  return if negative then x.neg else x

def binary (text : String) : Except LoadFault (List UInt8) :=
  match Text.Base64.asciiRefusal? text.toList with
  | some refusal => .error (.problem ("failed to convert base64 data into ascii: " ++ refusal))
  | none =>
    match Text.Base64.decode text.toList with
    | .ok bytes => .ok bytes
    | .error f => .error (.problem ("failed to decode base64 data: " ++ f.message))

end LayeredConfig.Yaml.CoreScalar
