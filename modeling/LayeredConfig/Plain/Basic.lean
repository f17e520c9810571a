import LayeredConfig.Duration
import LayeredConfig.Sized.Form
import LayeredConfig.Value.Form
import LayeredConfig.Value.Same

/-!
# Plain data

Data as it comes from outside, before it is a document: scalars, sequences,
maps with keys of any kind, and scalars of fixed width.  Keys of a map are one
key when they are equal as data, whatever their types: numbers by their value,
truth values as one and zero.  A float wider than a double is filed with the
double it is nearest to, so only another wide float is the same key, unless it
is that double.
-/

namespace LayeredConfig

inductive Plain where
  | null
  | boolean (b : Bool)
  | int (n : Int)
  | double (x : Double)
  | string (s : Text)
  | sized (s : Sized)
  | span (s : Span)
  | date (year month day : Nat)
  | bytes (data : List UInt8)
  | list (items : List Plain)
  | tuple (items : List Plain)
  | set (items : List Plain)
  | dict (entries : List (Plain × Plain))
  /-- A value that is already part of a document. -/
  | node (v : Value)

namespace Plain

def typeName : Plain → String
  | .null => "NoneType"
  | .boolean _ => "bool"
  | .int _ => "int"
  | .double _ => "float"
  | .string s => if s.fixedWidth then "str_" else "str"
  | .sized x => x.typeName
  | .span _ => "timedelta"
  | .date .. => "date"
  | .bytes _ => "bytes"
  | .list _ => "list"
  | .tuple _ => "tuple"
  | .set _ => "set"
  | .dict _ => "dict"
  | .node v => v.kind.name

/-- A number with an exact value, or one without digits. -/
inductive Number where
  | exact (num : Int) (den : Nat)
  | infinite (negative : Bool)
  | nan (origin : Option Origin)
  deriving DecidableEq

/-- The number as a fraction over the units of its format. -/
def Number.ofBinary {f : Format} : Binary f → Number
  | .nan origin => .nan origin
  | .infinite s => .infinite s
  | .finite s c => .exact (if s then -(f.units c : Int) else f.units c) f.one

def Number.same : Number → Number → Bool
  | .exact a b, .exact c d => a * d == c * b
  | .infinite s, .infinite t => s == t
  | .nan (some o), .nan (some p) => o == p
  | _, _ => false

/-- A number by its real and its imaginary part. -/
abbrev Parts := Number × Number

def Parts.same (a b : Parts) : Bool := a.1.same b.1 && a.2.same b.2

/-- The number that a key counts as. -/
def number? : Plain → Option Parts
  | .boolean b | .sized (.boolean b) => some (.exact (if b then 1 else 0) 1, .exact 0 1)
  | .int n | .sized (.integer _ n) => some (.exact n 1, .exact 0 1)
  | .double x => some (.ofBinary x, .exact 0 1)
  | .sized (.float _ x) => some (.ofBinary x, .exact 0 1)
  | .sized (.complex _ re im) => some (.ofBinary re, .ofBinary im)
  | _ => none

/-- The number that a key is filed with: no part of it is wider than a
double. -/
def filed? : Plain → Option Parts
  | .sized (.float _ x) => some (.ofBinary (x.convert .double), .exact 0 1)
  | .sized (.complex _ re im) =>
    some (.ofBinary (re.convert .double), .ofBinary (im.convert .double))
  | key => key.number?

def sameNumber (a b : Plain) : Bool :=
  match a.number?, b.number?, a.filed?, b.filed? with
  | some x, some y, some p, some q => x.same y && p.same q
  | _, _, _, _ => false

mutual

/-- Whether two keys of a map are one. -/
def sameKey : Plain → Plain → Bool
  | .null, .null => true
  | .string a, .string b => a.content == b.content
  | .bytes a, .bytes b | .bytes a, .sized (.bytes b) | .sized (.bytes a), .bytes b
  | .sized (.bytes a), .sized (.bytes b) => a == b
  | .sized (.instant a), .sized (.instant b) => a.same b
  | .span a, .span b => a == b
  | .date y m d, .date y' m' d' => y == y' && m == m' && d == d'
  | .tuple a, .tuple b => sameKeys a b
  | .node v, .node w => v.same w
  | a, b => sameNumber a b

def sameKeys : List Plain → List Plain → Bool
  | [], [] => true
  | a :: as, b :: bs => sameKey a b && sameKeys as bs
  | _, _ => false

end

/-- The kind of value that keeps a value from being a key. -/
def valueBarrier? : Value → Option Kind
  | .object _ => some .object
  | .array _ => some .array
  | .concatenation _ => some .concatenation
  | .alternative v _ => valueBarrier? v
  | _ => none

inductive KeyFault where
  /-- Data of the type can change, or holds such data. -/
  | changeable (typeName : String)
  /-- A count of time without a unit equals counts of every unit. -/
  | withoutUnit
  deriving DecidableEq

def KeyFault.message : KeyFault → String
  | .changeable name => "unhashable type: '" ++ name ++ "'"
  | .withoutUnit => "Can't hash generic timedelta64"

mutual

/-- What keeps data from being a key, if anything does. -/
def keyBarrier? : Plain → Option KeyFault
  | .list _ => some (.changeable "list")
  | .dict _ => some (.changeable "dict")
  | .set _ => some (.changeable "set")
  | .tuple items => keyBarriers? items
  | .node v => (valueBarrier? v).map fun kind ↦ .changeable kind.name
  | .sized (.integer .timedelta64 _) => some .withoutUnit
  | .sized .block => some (.changeable "writeable void-scalar")
  | .sized .grid => some (.changeable "numpy.ndarray")
  | _ => none

def keyBarriers? : List Plain → Option KeyFault
  | [] => none
  | item :: rest => (keyBarrier? item).or (keyBarriers? rest)

end

/-- Puts an entry into a map: an equal key keeps its place and its first
form, and takes the new value. -/
def putEntry {α : Type} : List (Plain × α) → Plain → α → List (Plain × α)
  | [], key, v => [(key, v)]
  | (k, w) :: rest, key, v =>
    if sameKey k key then (k, v) :: rest else (k, w) :: putEntry rest key v

def ofEntries {α : Type} (entries : List (Plain × α)) : List (Plain × α) :=
  entries.foldl (fun map entry ↦ putEntry map entry.1 entry.2) []

/-- One part of a calendar span in constructor form. -/
def spanPart (name : String) (n : Int) : List String :=
  if n = 0 then [] else [name ++ "=" ++ Numeral.ofInt n]

mutual

/-- Constructor form, of data that may be a key. -/
def form : Plain → String
  | .null => "None"
  | .boolean b => if b then "True" else "False"
  | .int n => Numeral.ofInt n
  | .double x => Layout.plain.render x
  | .string s => s.form
  | .sized x => x.form
  | .span s =>
    let parts := spanPart "days" s.days ++ spanPart "seconds" s.seconds ++
      spanPart "microseconds" s.microseconds
    "datetime.timedelta(" ++ (if parts.isEmpty then "0" else ", ".intercalate parts) ++ ")"
  | .date y m d => "datetime.date(" ++ ", ".intercalate [y.repr, m.repr, d.repr] ++ ")"
  | .bytes data => Text.quotedBytes data
  | .list items => "[" ++ ", ".intercalate (forms items) ++ "]"
  | .tuple items =>
    match forms items with
    | [one] => "(" ++ one ++ ",)"
    | several => "(" ++ ", ".intercalate several ++ ")"
  | .set items =>
    if items.isEmpty then "set()" else "\x7b" ++ ", ".intercalate (forms items) ++ "\x7d"
  | .dict entries => "\x7b" ++ ", ".intercalate (entryForms entries) ++ "\x7d"
  | .node v => v.form

def forms : List Plain → List String
  | [] => []
  | item :: rest => item.form :: forms rest

def entryForms : List (Plain × Plain) → List String
  | [] => []
  | (k, v) :: rest => (k.form ++ ": " ++ v.form) :: entryForms rest

end

mutual

/-- No integer is too long to be written in the constructor form. -/
def formFits : Plain → Bool
  | .int n | .sized (.integer _ n) => !Numeral.isOverlong n
  | .list items | .tuple items | .set items => formsFit items
  | .dict entries => entryFormsFit entries
  | .node v => v.formFits
  | _ => true

def formsFit : List Plain → Bool
  | [] => true
  | item :: rest => item.formFits && formsFit rest

def entryFormsFit : List (Plain × Plain) → Bool
  | [] => true
  | (k, v) :: rest => k.formFits && v.formFits && entryFormsFit rest

end

end Plain

end LayeredConfig
