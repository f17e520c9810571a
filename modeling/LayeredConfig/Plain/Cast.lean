import LayeredConfig.Plain.Basic
import LayeredConfig.Sized.Make

/-!
# Casting plain data to a type of fixed width

A type is asked for by name.  Integers, floats and truth values are taken as
numbers, texts are read, and a list becomes a grid of what its items become.
-/

namespace LayeredConfig.Plain

open Sized (Fault)

def isTruthy : Plain → Bool
  | .null => false
  | .boolean b => b
  | .int n => n != 0
  | .double x => !(x.sameNumber (.zero .double false))
  | .string s => !s.content.isEmpty
  | .list items => !items.isEmpty
  | .dict entries => !entries.isEmpty
  | _ => true

/-- The text of data: a text itself, and the constructor form of all else. -/
def display (data : Plain) : Except Fault String :=
  match data with
  | .string s => .ok s.content
  | data => if data.formFits then .ok data.form else .error .overlong

/-- Data as an integer of a type. -/
def toInteger (t : IntegerType) : Plain → Except Fault Sized
  | .int n => Sized.ofInt t n
  | .boolean b => Sized.ofInt t (if b then 1 else 0)
  | .double x => do Sized.ofCut t (← Sized.wholeOfDouble x)
  | .string s => do Sized.ofCut t (← Sized.wholeOfText s.content)
  | data => .error (.noInteger data.typeName)

def toFloat (t : FloatType) : Plain → Except Fault Sized
  -- No data is no number, but it is one of the type.
  | .null => .ok (.float t (.nan none))
  | .int n => (Sized.floatOfInt t n).map (.float t)
  | .boolean b => (Sized.floatOfInt t (if b then 1 else 0)).map (.float t)
  | .double x => .ok (.float t (x.convert t.format))
  | .string s => (Sized.floatOfText t s.content).map (.float t)
  | data => .error (.noFloat data.typeName)

/-- Data as a complex number of a type. -/
def toComplex (t : FloatType) : Plain → Except Fault Sized
  | .null => .ok (.complex t (.nan none) (.nan none))
  | .int n => do return Sized.ofParts t (← Sized.doubleOfInt n) (.zero .double false)
  | .boolean b => do
    return Sized.ofParts t (← Sized.doubleOfInt (if b then 1 else 0)) (.zero .double false)
  | .double x => .ok (Sized.ofParts t x (.zero .double false))
  | .string s => Sized.complexOfText t s.content
  | data => .error (.noComplex data.typeName)

def toInstant : Plain → Except Fault Sized
  | .null => .ok (.instant .never)
  | .int _ | .boolean _ => .error .withoutUnit
  | .string s =>
    match Instant.read s.content with
    | .ok i => .ok (.instant i)
    | .error r => .error (.notInstant r)
  | _ => .error .noInstant

/-- Data as a count of time without a unit. -/
def toCount : Plain → Except Fault Sized
  | .null => .ok .noCount
  | .int n => Sized.ofInt .timedelta64 n
  | .boolean b => Sized.ofInt .timedelta64 (if b then 1 else 0)
  | .string s => Sized.countOfText s.content
  | _ => .error .noCount

/-- Numbers of octets that memory can hold. -/
def octetBound : Int := Nat.pow 2 40

/-- The octet that an item of a list is. -/
def octet? : Plain → Option UInt8
  | .int n => if 0 ≤ n && n < 256 then some (UInt8.ofNat n.toNat) else none
  | .boolean b => some (if b then 1 else 0)
  | _ => none

/-- Data as octets: so many zeros, those of a list, or those of the text. -/
def toOctets (data : Plain) : Except Fault Sized := do
  let zeros : Option (List UInt8) :=
    match data with
    | .int n => if 0 ≤ n && n < octetBound then some (List.replicate n.toNat 0) else none
    | .boolean b => some (List.replicate (if b then 1 else 0) 0)
    | .list items => items.mapM octet?
    | _ => none
  match zeros, data with
  | some octets, _ => return .bytes octets
  | none, .list _ => return .grid
  | none, data => return .bytes (← Sized.asciiOctets (← data.display))

/-- Data as a block of so many octets. -/
def toBlock : Plain → Except Fault Sized
  | .int n => if 0 ≤ n && n < 2147483648 then .ok .block else .error .tooManyOctets
  | .boolean _ => .ok .block
  | data => .error (.noOctets data.typeName)

/-- The cast to the named type, of data that is no list. -/
def castOne (name : String) (data : Plain) : Except Fault Plain :=
  match Sized.integerTypes.lookup name, Sized.floatTypes.lookup name,
    Sized.complexTypes.lookup name with
  | some t, _, _ => (data.toInteger t).map .sized
  | none, some t, _ => (data.toFloat t).map .sized
  | none, none, some t => (data.toComplex t).map .sized
  | none, none, none =>
    match name with
    | "bool" | "bool_" => .ok (.sized (.boolean data.isTruthy))
    | "datetime64" => data.toInstant.map .sized
    | "timedelta64" => data.toCount.map .sized
    | "void" => data.toBlock.map .sized
    | "object_" => .ok data
    | name => .ok (.sized (.other name))

/-- Types that take a list whole. -/
def takesLists (name : String) : Bool := ["datetime64", "timedelta64", "void"].contains name

mutual

def cast (name : String) : Plain → Except Fault Plain
  | .list items => do
    if Sized.families.contains name then throw (.family name)
    else if name == "str_" then return .string ⟨← (Plain.list items).display, true⟩
    else if name == "bytes_" then (toOctets (.list items)).map .sized
    else if takesLists name then castOne name (.list items)
    else
      castAll name items
      return .sized .grid
  | data => do
    if Sized.families.contains name then throw (.family name)
    else if name == "str_" then return .string ⟨← data.display, true⟩
    else if name == "bytes_" then (toOctets data).map .sized
    else castOne name data

/-- Every item must be castable. -/
def castAll (name : String) : List Plain → Except Fault Unit
  | [] => .ok ()
  | item :: rest => do
    let _ ← cast name item
    castAll name rest

end

end LayeredConfig.Plain
