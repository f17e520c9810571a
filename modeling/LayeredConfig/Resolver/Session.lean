import LayeredConfig.Fragments
import LayeredConfig.Log
import LayeredConfig.Lookup

/-!
# Sessions

Resolving one document is a session.  It keeps what every visited path came
to, the paths whose visit is not over, and the log.  An action may fail, and
the session goes on from where it failed; an action may also run out of the
visits that it may nest, and then has no outcome.
-/

namespace LayeredConfig.Resolver

/-- Why a reference or a concatenation cannot be resolved. -/
inductive Fault where
  | unresolved (path : String)
  /-- A path is demanded while it is visited; the chain leads from its first
  visit to the demand. -/
  | cyclic (path : String) (chain : List String)
  | traversal (t : Traversal)
  | unjoinable (f : Fragments.Fault)
  deriving DecidableEq

def Fault.message : Fault → String
  | .unresolved path => "substitution not resolved: $\x7b" ++ path ++ "\x7d"
  | .cyclic path chain =>
    "cyclic substitution detected: " ++ " -> ".intercalate (chain ++ [path])
  | .traversal t => t.message
  | .unjoinable .noFragments => "Cannot concatenate an empty fragment sequence"
  | .unjoinable (.mixed _ _) => "cannot concatenate object with non-object"
  | .unjoinable .overlong => Value.Overlong.message ⟨⟩

/-- A default stands in for an alternative that fails in one of these ways. -/
def Fault.yieldsToDefault : Fault → Bool
  | .unjoinable _ => false
  | _ => true

structure Session where
  /-- What the visited paths came to, the latest first. -/
  settled : List (Path × Option Value)
  /-- The paths that are being visited, the innermost first. -/
  pending : List Path
  /-- The events so far, the latest first. -/
  log : List Event

namespace Session

def empty : Session := ⟨[], [], []⟩

def settled? (s : Session) (path : Path) : Option (Option Value) := s.settled.lookup path

def record (s : Session) (e : Event) : Session := { s with log := e :: s.log }

def enter (s : Session) (path : Path) : Session := { s with pending := path :: s.pending }

def leave (s : Session) : Session := { s with pending := s.pending.tail }

def settle (s : Session) (path : Path) (found : Option Value) : Session :=
  { s with settled := (path, found) :: s.settled }

/-- The pending paths from the visit of `path` on, outermost first. -/
def chainFrom (s : Session) (path : Path) : List Path :=
  (s.pending.takeWhile (· ≠ path) ++ [path]).reverse

end Session

/-- Something done in a session. -/
abbrev Action (α : Type) := ExceptT Fault (StateT Session Option) α

namespace Action

/-- No visit may be nested any deeper. -/
def exhausted {α : Type} : Action α := ExceptT.mk fun _ ↦ none

def record (e : Event) : Action Unit := modify (·.record e)

/-- The outcome of an action, as a value. -/
def outcome {α : Type} (act : Action α) : Action (Except Fault α) := ExceptT.lift act.run

def runIn {α : Type} (act : Action α) (s : Session) : Option (Except Fault α × Session) :=
  act.run s

end Action

end LayeredConfig.Resolver
