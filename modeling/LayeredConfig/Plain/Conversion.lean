import LayeredConfig.Plain.Basic
import LayeredConfig.Sized.Make

/-!
# Plain data and values

Plain data becomes a value, and a resolved value becomes plain data.  Integer
keys become texts; data of a type that no value has is refused, and so are
values that still hold a reference.
-/

namespace LayeredConfig

namespace Plain

/-- Refusal of a count of time that is none, where an integer is wanted. -/
def noCountMessage : String := Sized.Fault.message (.noInteger "NoneType")

inductive Fault where
  | unsupported (typeName : String)
  | badKey (typeName form : String)
  /-- A count of time that is none is no integer. -/
  | noCount
  | overlong
  deriving DecidableEq

def Fault.message : Fault → String
  | .unsupported name => "cannot convert " ++ name ++ " to a config value"
  | .badKey name form => "object keys must be strings, got " ++ name ++ ": " ++ form
  | .noCount => noCountMessage
  | .overlong => Value.Overlong.message ⟨⟩

def keyText : Plain → Except Fault Text
  | .string s => .ok s
  | .int n => if Numeral.isOverlong n then .error .overlong else .ok ⟨Numeral.ofInt n, false⟩
  | key => .error (if key.formFits then .badKey key.typeName key.form else .overlong)

mutual

def toValue : Plain → Except Fault Value
  | .null => .ok .null
  | .boolean b | .sized (.boolean b) => .ok (.boolean b)
  | .int n | .sized (.integer _ n) => .ok (.int n)
  | .sized (.float .single x) => .ok (.single x)
  | .double x => .ok (.double x)
  | .sized (.float _ x) => .ok (.double (x.convert .double))
  | .string s => .ok (.string s)
  | .span s => .ok (.duration (Duration.ofSpan s))
  | .dict entries => do return .object (Members.ofEntries (← entriesToValues entries))
  | .list items | .tuple items => do return .array (← itemsToValues items)
  | .node v => .ok v
  | .sized .noCount => .error .noCount
  | data => .error (.unsupported data.typeName)

def itemsToValues : List Plain → Except Fault (List Value)
  | [] => .ok []
  | item :: rest => do
    let v ← item.toValue
    return v :: (← itemsToValues rest)

def entriesToValues : List (Plain × Plain) → Except Fault (List (Text × Value))
  | [] => .ok []
  | (key, item) :: rest => do
    let k ← keyText key
    let v ← item.toValue
    return (k, v) :: (← entriesToValues rest)

end

end Plain

namespace Value

inductive PlainFault where
  | unresolved (kind : Kind) (text : String)
  | span (o : Span.Overflow)
  | overlong
  deriving DecidableEq

def PlainFault.message : PlainFault → String
  | .unresolved kind text => "cannot convert unresolved " ++ kind.text ++ " to plain data: " ++ text
  | .span o => o.message
  | .overlong => Overlong.message ⟨⟩

/-- The refusal of a value that is a reference. -/
def refused {α : Type} (v : Value) : Except PlainFault α :=
  match v.render with
  | .ok text => .error (.unresolved v.kind text)
  | .error _ => .error .overlong

mutual

def toPlain : Value → Except PlainFault Plain
  | .null => .ok .null
  | .boolean b => .ok (.boolean b)
  | .string s => .ok (.string s)
  | .int n => .ok (.int n)
  | .single x => .ok (.double (x.convert .double))
  | .double x => .ok (.double x)
  | .duration n =>
    match Duration.toSpan n with
    | .ok s => .ok (.span s)
    | .error o => .error (.span o)
  | .object members => do return .dict (← membersToPlain members)
  | .array elements => do return .list (← elementsToPlain elements)
  | v => v.refused

def elementsToPlain : List Value → Except PlainFault (List Plain)
  | [] => .ok []
  | v :: rest => do
    let p ← v.toPlain
    return p :: (← elementsToPlain rest)

def membersToPlain : List (Text × Value) → Except PlainFault (List (Plain × Plain))
  | [] => .ok []
  | (k, v) :: rest => do
    let p ← v.toPlain
    return (.string k, p) :: (← membersToPlain rest)

end

end Value

end LayeredConfig
