import LayeredConfig.Config.Fault
import LayeredConfig.Json.Reader
import LayeredConfig.Layer
import LayeredConfig.Log
import LayeredConfig.Plain.Conversion
import LayeredConfig.Resolver.Basic
import LayeredConfig.Value.Same

/-!
# Configurations

A configuration is a document with typed reads.  It is never changed: laying
it over a fallback and resolving it give new ones.
-/

namespace LayeredConfig

structure Config where
  root : Value

namespace Config

def ofPlain (data : Plain) : Except Plain.Fault Config := data.toValue.map Config.mk

def get (c : Config) (path : String) : Except Traversal (Option Value) :=
  match c.root with
  | .object members => Value.find members (Path.ofText path)
  | _ => .ok none

def require (c : Config) (path : String) : Except ReadFault Value :=
  match c.get path with
  | .ok (some v) => .ok v
  | .ok none => .error (.notFound path)
  | .error t => .error (.traversal t)

def contains (c : Config) (path : String) : Bool :=
  match c.get path with
  | .ok (some _) => true
  | _ => false

/-- Text of a value, for a result or for the context of a fault. -/
def textOf (v : Value) : Except ReadFault String :=
  match v.render with
  | .ok text => .ok text
  | .error _ => .error .overlong

/-- The fault of a value that cannot be read as the target. -/
def unreadable {α : Type} (target : Target) (path : String) (v : Value) :
    Except ReadFault α := do
  .error (.unreadable target path (← textOf v))

def getString (c : Config) (path : String) : Except ReadFault String := do
  textOf (← c.require path)

def getInt (c : Config) (path : String) : Except ReadFault Int := do
  match ← c.require path with
  | .int n => return n
  | .string s =>
    match Scalar.int? s.content with
    | .ok (some n) => return n
    | .ok none => unreadable .int path (.string s)
    | .error t => .error (.tooManyDigits t)
  | v => unreadable .int path v

def getSingle (c : Config) (path : String) : Except ReadFault Single := do
  match ← c.require path with
  | .single x => return x
  | .double x => return x.convert .single
  | .string s =>
    match Scalar.single? s.content with
    | some x => return x
    | none => unreadable .single path (.string s)
  | v => unreadable .single path v

def getDouble (c : Config) (path : String) : Except ReadFault Double := do
  match ← c.require path with
  | .single x => return x.convert .double
  | .double x => return x
  | .string s =>
    match Scalar.double? s.content with
    | some x => return x
    | none => unreadable .double path (.string s)
  | v => unreadable .double path v

def getBoolean (c : Config) (path : String) : Except ReadFault Bool := do
  match ← c.require path with
  | .boolean b => return b
  | .string s =>
    match Scalar.boolean? s.content with
    | some b => return b
    | none => unreadable .boolean path (.string s)
  | v => unreadable .boolean path v

def getDuration (c : Config) (path : String) : Except ReadFault Span := do
  match ← c.require path with
  | .duration n =>
    match Duration.toSpan n with
    | .ok s => return s
    | .error o => .error (.span o)
  -- No text is read as a duration.
  | v => .error (.mismatch .duration path v.kind)

def getObject (c : Config) (path : String) : Except ReadFault (Members Text Value) := do
  match ← c.require path with
  | .object members => return members
  | v => .error (.mismatch .object path v.kind)

/-- The object at a path as a configuration of its own. -/
def getConfig (c : Config) (path : String) : Except ReadFault Config := do
  return ⟨.object (← c.getObject path)⟩

def getStringMap (c : Config) (path : String) : Except ReadFault (Members Text Value) :=
  c.getObject path

def getStringMapString (c : Config) (path : String) : Except ReadFault (Members Text String) := do
  (← c.getObject path).mapM fun (key, v) ↦ return (key, ← textOf v)

def getArray (c : Config) (path : String) : Except ReadFault (List Value) := do
  match ← c.require path with
  | .array elements => return elements
  | v => .error (.mismatch .array path v.kind)

def intOf? : Value → Option Int
  | .int n => some n
  | _ => none

def getIntList (c : Config) (path : String) : Except ReadFault (List Int) := do
  match ← c.require path with
  | .array elements =>
    match elements.mapM intOf? with
    | some ns => return ns
    | none => .error (.mismatch .integers path .array)
  | v => .error (.mismatch .integers path v.kind)

def getStringList (c : Config) (path : String) : Except ReadFault (List String) := do
  (← c.getArray path).mapM textOf

/-- What came of laying a configuration over a fallback. -/
inductive Fallback where
  | merged (c : Config)
  /-- One of the roots is no object, and the fallback is ignored. -/
  | ignored

def withFallback (c fallback : Config) : Fallback :=
  match c.root, fallback.root with
  | .object upper, .object lower => .merged ⟨.object (Value.layer upper lower)⟩
  | _, _ => .ignored

def fallbackEvent (c fallback : Config) : Event :=
  match c.root, fallback.root with
  | .object upper, .object lower => .layered upper.length lower.length
  | upper, lower => .fallbackIgnored upper.kind lower.kind

/-- The configuration with its references resolved, and the events, the latest first. -/
def resolve (c : Config) (lenient : Bool) :
    Option (Except Resolver.Fault Config × List Event) :=
  -- There is no outcome if visits nest too deep.
  let act := Resolver.resolveDocument ⟨c.root, lenient⟩ Resolver.defaultDepth
  (act.runIn .empty).map fun (result, session) ↦ (result.map Config.mk, session.log)

def isResolved (c : Config) : Bool := c.root.isResolved

def toPlain (c : Config) : Except Value.PlainFault Plain := c.root.toPlain

inductive JsonFault where
  | overlong
  | unreadable (r : Json.Refusal)
  deriving DecidableEq

/-- Canonical JSON: sorted keys and no blanks. -/
def toJson (c : Config) : Except JsonFault String :=
  match c.root.renderJson with
  | .error _ => .error .overlong
  | .ok text => (Json.canonical text).mapError .unreadable

def same (c d : Config) : Bool := c.root.same d.root

def renderForm (c : Config) : Except Value.Overlong String :=
  c.root.renderForm.map fun form ↦ "Config(" ++ form ++ ")"

end Config

end LayeredConfig
