import LayeredConfig.Yaml.Components
import LayeredConfig.Yaml.CoreScalar
import LayeredConfig.Yaml.Graph

/-!
# The data of a graph

Every node becomes data once, by its tag.  A collection is made empty and
filled later, in the order in which the collections were met, so that it may
hold itself.  What is demanded in depth is filled at once; a fragment or a
default that is a collection still waiting to be filled is taken as it is.
-/

namespace LayeredConfig.Yaml

/-- Data of a node: finished, or a collection that is kept under the node. -/
inductive Datum where
  | plain (p : Plain)
  | held (id : NodeId)

/-- What a collection holds so far. -/
inductive Content where
  | items (ds : List Datum)
  | entries (es : List (Plain × Datum))
  | members (ps : List Plain)
  | pairs (ps : List (Datum × Datum))

/-- Data under construction. -/
structure Store where
  graph : Graph
  /-- Number of the document, which is in the origins of its NaNs. -/
  document : Nat
  /-- Count of the pairs of the graph before any are merged. -/
  pairCount : Nat
  /-- Contents of the nodes that are collections. -/
  contents : Array (Option Content)
  /-- Data of the nodes that have it. -/
  made : Array (Option Datum)
  /-- Nodes whose data is being made. -/
  making : List NodeId
  /-- Collections that wait to be filled, the latest first. -/
  waiting : List NodeId

namespace Store

/-- Nothing is made yet. -/
def ofGraph (graph : Graph) (document : Nat) : Store where
  graph
  document
  pairCount := graph.pairCount
  contents := Array.replicate graph.size none
  made := Array.replicate graph.size none
  making := []
  waiting := []

abbrev Make (α : Type) := StateT Store (Except LoadFault) α

def problem {α : Type} (text : String) : Make α := throw (.problem text)

def malformed {α : Type} : Make α := throw .malformed

/-- A refusal of a scalar, as a fault of loading. -/
def liftScalar {α : Type} (x : Except ScalarFault α) : Make α :=
  match x with
  | .ok a => return a
  | .error f => throw (.scalar f)

def nodeOf (id : NodeId) : Make Node := do
  match (← get).graph[id]? with
  | some node => return node
  | none => malformed

/-- A refusal of plain data, as a fault of loading. -/
def liftPlain {α : Type} (x : Except Plain.Fault α) : Except LoadFault α :=
  match x with
  | .ok a => .ok a
  | .error .overlong => .error (.scalar .overlong)
  | .error f => .error (.unsupported f)

/-- The value of data as it is now.  `inside` are the collections around it,
none of which it may hold; there are at most `depth` others. -/
def convert (s : Store) : (depth : Nat) → (inside : List NodeId) → Datum → Except LoadFault Value
  | _, _, .plain p => liftPlain p.toValue
  | 0, _, .held _ => .error .endless
  | depth + 1, inside, .held id =>
    if inside.contains id then .error .endless
    else
      let member := convert s depth (id :: inside)
      match s.contents[id]?.join with
      | some (.items ds) => (ds.mapM member).map .array
      | some (.entries es) => do
        let members ← es.mapM fun (k, d) ↦ do
          let key ← liftPlain (Plain.keyText k)
          return (key, ← member d)
        return .object (Members.ofEntries members)
      | some (.pairs ps) => do
        return .array (← ps.mapM fun (a, b) ↦ do return .array [← member a, ← member b])
      | some (.members ps) => liftPlain (Plain.set ps).toValue
      | none => .error .malformed

def valueOf (d : Datum) : Make Value := do
  let s ← get
  match convert s (s.graph.size + 1) [] d with
  | .ok v => return v
  | .error f => throw f

def typeName (s : Store) : Datum → String
  | .plain p => p.typeName
  | .held id =>
    match s.contents[id]?.join with
    | some (.entries _) => "dict"
    | some (.members _) => "set"
    | _ => "list"

def scalarText : (limit : Nat) → NodeId → Make String
  | 0, _ => throw .endless
  | limit + 1, id => do
    match ← nodeOf id with
    | .scalar _ text => return text
    | .sequence .. => problem "expected a scalar node, but found sequence"
    -- A mapping with a value key stands for the scalar under it.
    | .mapping _ pairs =>
      let graph := (← get).graph
      match pairs.find? fun (key, _) ↦ (graph[key]?.map Node.tag) == some Tag.value with
      | some (_, value) => scalarText limit value
      | none => problem "expected a scalar node, but found mapping"

def setNode (id : NodeId) (node : Node) : Make Unit :=
  modify fun s ↦ { s with graph := s.graph.setIfInBounds id node }

def pairsOf (id : NodeId) : Make (Option (List (NodeId × NodeId))) := do
  match ← nodeOf id with
  | .mapping _ pairs => return some pairs
  | _ => return none

def tagOf (id : NodeId) : Make String := do return (← nodeOf id).tag

def asStringKey (id : NodeId) : Make Unit := do
  let node ← nodeOf id
  if node.tag == Tag.value then setNode id (node.withTag Tag.string)

/-- The first pair of a mapping that has a merge key, and its place. -/
def firstMerge? (id : NodeId) : Make (Option (Nat × NodeId)) := do
  let pairs := (← pairsOf id).getD []
  let graph := (← get).graph
  let isMerge (pair : NodeId × NodeId) := (graph[pair.1]?.map Node.tag) == some Tag.merge
  match pairs.findIdx? isMerge with
  | some place => return pairs[place]?.map fun pair ↦ (place, pair.2)
  | none => return none

/-- Takes out the first merge pair and returns its value. -/
def takeMerge? (id : NodeId) : Make (Option NodeId) := do
  let pairs := (← pairsOf id).getD []
  -- The keys that come before it become strings if they are value keys.
  match ← firstMerge? id with
  | some (place, value) =>
    (pairs.take place).forM fun pair ↦ asStringKey pair.1
    setNode id (.mapping (← tagOf id) (pairs.eraseIdx place))
    return some value
  | none =>
    pairs.forM fun pair ↦ asStringKey pair.1
    return none

mutual

/-- Merges into a mapping what its merge keys name. -/
def flatten : (limit : Nat) → NodeId → Make Unit
  | 0, _ => malformed
  | limit + 1, id => do
    match ← nodeOf id with
    | .mapping tag _ =>
      -- A merge pair is gone before its value is looked at, so a mapping that merges
      -- itself sees the rest of its pairs.
      let merged ← mergedPairs limit id
      -- Merged pairs come first, so the pairs of the mapping itself win.
      if !merged.isEmpty then
        setNode id (.mapping tag (merged ++ (← pairsOf id).getD []))
    | _ => return

/-- The pairs that all merge keys of a mapping stand for. -/
def mergedPairs : (limit : Nat) → NodeId → Make (List (NodeId × NodeId))
  | 0, _ => malformed
  | limit + 1, id => do
    match ← takeMerge? id with
    | none => return []
    | some value =>
      let pairs ← mergeSource limit value
      return pairs ++ (← mergedPairs limit id)

/-- The pairs that the value of a merge key stands for: those of a mapping, or
those of several, the last first, so that the first wins. -/
def mergeSource : (limit : Nat) → NodeId → Make (List (NodeId × NodeId))
  | 0, _ => malformed
  | limit + 1, id => do
    match ← nodeOf id with
    | .mapping .. => flattenedPairs limit id
    | .sequence _ items =>
      let parts ← items.mapM fun item ↦ do
        match ← nodeOf item with
        | .mapping .. => flattenedPairs limit item
        | _ => malformed
      return parts.reverse.flatten
    | .scalar .. => malformed

def flattenedPairs : (limit : Nat) → NodeId → Make (List (NodeId × NodeId))
  | 0, _ => malformed
  | limit + 1, id => do
    flatten limit id
    return (← pairsOf id).getD []

end

def keyOf (d : Datum) : Make Plain := do
  match d with
  -- Collections are no keys, and neither are values that hold one.
  | .held _ => malformed
  | .plain (.node (.concatenation _)) => malformed
  | .plain p => return p

/-- Puts an entry into a map under construction. -/
def putEntry (es : List (Plain × Datum)) (key : Plain) (d : Datum) :
    Make (List (Plain × Datum)) := do
  match key.keyBarrier? with
  | some f => throw (.scalar (.notKey f))
  | none => return Plain.putEntry es key d

/-- Data as an amount of a unit of time. -/
def amountOf (s : Store) : Datum → Components.Amount
  | .plain (.int n) => .int n
  | .plain (.boolean b) => .int (if b then 1 else 0)
  | .plain (.double x) => .double x
  | d => .other (s.typeName d)

/-- The components of a span, each under the name of a unit. -/
def componentsOf (s : Store) :
    List (Plain × Datum) → Except ScalarFault (List (String × Components.Amount))
  | [] => .ok []
  | (.string ⟨name, _⟩, d) :: rest =>
    if (Components.units.lookup name).isSome then
      (componentsOf s rest).map ((name, amountOf s d) :: ·)
    else .error (.unknownKeyword name)
  | _ :: _ => .error .keywordNotText

/-- Nanoseconds of a span given by its components. -/
def spanOf (s : Store) (es : List (Plain × Datum)) : Except ScalarFault Int := do
  if 7 < es.length then .error (.tooManyKeywords es.length)
  else
    let total ← Components.sum (← componentsOf s es)
    match Span.ofMicroseconds total with
    | .ok span => .ok (Duration.ofSpan span)
    | .error o => .error (.span o)

/-- Refusals of values and types inside a duration are problems of it. -/
def asDurationProblem {α : Type} (act : Make α) : Make α := fun s ↦
  match act s with
  | .error (.scalar f) =>
    match f.category with
    | .badValue | .badType => .error (.problem ("invalid !duration: " ++ f.message))
    | _ => .error (.scalar f)
  | r => r

/-- A number that a node is written as; a NaN comes from the node. -/
def numberAt {f : Format} (id : NodeId) (x : Binary f) : Make (Binary f) := do
  return x.withOrigin (.place (← get).document id)

/-- A single precision float. -/
def singleOf (id : NodeId) (text : String) : Make Value := do
  match Numeral.readFloat text.toList with
  | some x => return .single (← numberAt id (x.convert .single))
  | none => problem ("!float32 expects a number, got " ++ Text.quoted text)

/-- Empty content of a collection, by its tag. -/
def emptyContent? (tag : String) : Option Content :=
  if tag == Tag.sequence then some (.items [])
  else if tag == Tag.mapping then some (.entries [])
  else if tag == Tag.set then some (.members [])
  else if tag == Tag.orderedMap || tag == Tag.pairs then some (.pairs [])
  else none

def setContent (id : NodeId) (c : Content) : Make Unit :=
  modify fun s ↦ { s with contents := s.contents.setIfInBounds id (some c) }

/-- Adds a pair to a collection of pairs, which shows it at once. -/
def addPair (id : NodeId) (pair : Datum × Datum) : Make Unit := do
  match (← get).contents[id]?.join with
  | some (.pairs ps) => setContent id (.pairs (ps ++ [pair]))
  | _ => setContent id (.pairs [pair])

mutual

/-- The data of a node.  In depth means that collections are filled at once. -/
def make : (limit : Nat) → (deep : Bool) → NodeId → Make Datum
  | 0, _, _ => malformed
  | limit + 1, deep, id => do
    if let some d := (← get).made[id]?.join then return d
    if (← get).making.contains id then problem "found unconstructable recursive node"
    modify fun s ↦ { s with making := id :: s.making }
    let d ← makeNew limit deep id
    modify fun s ↦
      { s with made := s.made.setIfInBounds id (some d), making := s.making.erase id }
    return d

/-- The data of a node that has none yet. -/
def makeNew : (limit : Nat) → (deep : Bool) → NodeId → Make Datum
  | 0, _, _ => malformed
  | limit + 1, deep, id => do
    let tag := (← nodeOf id).tag
    match emptyContent? tag with
    | some content =>
      setContent id content
      if deep then fill limit true id else modify fun s ↦ { s with waiting := id :: s.waiting }
      return .held id
    | none =>
      let text : Make String := do scalarText ((← get).graph.size + 1) id
      let finished (p : Plain) : Make Datum := return .plain p
      if tag == Tag.null then
        let _ ← text
        finished .null
      else if tag == Tag.bool then finished (.boolean (← liftScalar (CoreScalar.bool (← text))))
      else if tag == Tag.int then finished (.int (← liftScalar (CoreScalar.int (← text))))
      else if tag == Tag.float then
        finished (.double (← numberAt id (← liftScalar (CoreScalar.float (← text)))))
      else if tag == Tag.binary then finished (.bytes (← CoreScalar.binary (← text)))
      else if tag == Tag.timestamp || tag == Tag.string then finished (.string (← text))
      else if tag == "!sub" then finished (.node (.substitution ⟨← text, false⟩))
      else if tag == "!sub?" then finished (.node (.substitution ⟨← text, true⟩))
      else if tag == "!concat" then finished (.node (← makeConcatenation limit id))
      else if tag == "!alt" then finished (.node (← makeAlternative limit id))
      else if tag == "!float32" then finished (.node (← singleOf id (← text)))
      else if tag == "!duration" then
        finished (.node (.duration (← asDurationProblem (makeDuration limit id))))
      else problem ("could not determine a constructor for the tag " ++ Text.quoted tag)

def makeConcatenation : (limit : Nat) → NodeId → Make Value
  | 0, _ => malformed
  | limit + 1, id => do
    match ← nodeOf id with
    | .sequence _ items =>
      let ds ← items.mapM (make limit true)
      if ds.isEmpty then problem "!concat needs at least one fragment"
      return .concatenation (← ds.mapM valueOf)
    | _ => problem "!concat expects a sequence of fragments"

def makeAlternative : (limit : Nat) → NodeId → Make Value
  | 0, _ => malformed
  | limit + 1, id => do
    match ← nodeOf id with
    | .mapping .. =>
      let es ← makeEntries limit true id
      let find (key : String) : Option Datum := es.findSome? fun (k, d) ↦
        if Plain.sameKey k (.string key) then some d else none
      match find "value", find "alternative" with
      | some d, some (.plain (.node (.substitution r))) => return .alternative (← valueOf d) r
      | _, _ => problem "!alt needs a 'value' and an 'alternative' given as !sub or !sub?"
    | _ => problem "!alt expects a mapping with 'value' and 'alternative'"

def makeDuration : (limit : Nat) → NodeId → Make Int
  | 0, _ => malformed
  | limit + 1, id => do
    match ← nodeOf id with
    | .mapping .. =>
      let es ← makeEntries limit true id
      liftScalar (spanOf (← get) es)
    | _ =>
      let text ← scalarText ((← get).graph.size + 1) id
      liftScalar (CoreScalar.integer 10 text.toList)

/-- The entries of a mapping, its merge keys followed. -/
def makeEntries : (limit : Nat) → (deep : Bool) → NodeId → Make (List (Plain × Datum))
  | 0, _, _ => malformed
  | limit + 1, deep, id => do
    match ← nodeOf id with
    | .mapping .. =>
      flatten (4 * (← get).pairCount + 4) id
      ((← pairsOf id).getD []).foldlM (fun es (key, value) ↦ do
        let k ← keyOf (← make limit deep key)
        let d ← make limit deep value
        putEntry es k d) []
    | node => problem ("expected a mapping node, but found " ++ node.kindText)

/-- The pair that an item of an ordered map holds: it is a mapping of one. -/
def makeOrdered : (limit : Nat) → (deep : Bool) → NodeId → Make (Datum × Datum)
  | 0, _, _ => malformed
  | limit + 1, deep, id => do
    match ← nodeOf id with
    | .mapping _ [(key, value)] =>
      let k ← make limit deep key
      return (k, ← make limit deep value)
    | _ => malformed

def fill : (limit : Nat) → (deep : Bool) → NodeId → Make Unit
  | 0, _, _ => malformed
  | limit + 1, deep, id => do
    let node ← nodeOf id
    if node.tag == Tag.sequence then
      match node with
      | .sequence _ items => setContent id (.items (← items.mapM (make limit deep)))
      | node => problem ("expected a sequence node, but found " ++ node.kindText)
    else if node.tag == Tag.mapping then
      setContent id (.entries (← makeEntries limit deep id))
    else if node.tag == Tag.set then
      setContent id (.members ((← makeEntries limit deep id).map Prod.fst))
    else
      match node with
      | .sequence _ items => items.forM fun item ↦ do addPair id (← makeOrdered limit deep item)
      | _ => malformed

end

/-- Fills the waiting collections, round after round, those met first first. -/
def fillAll (limit : Nat) : (rounds : Nat) → Make Unit
  | 0 => return
  | rounds + 1 => do
    let s ← get
    if s.waiting.isEmpty then return
    set { s with waiting := [] }
    s.waiting.reverse.forM (fill limit false)
    fillAll limit rounds

/-- The value of a graph, or none if its root is null. -/
def makeRoot (root : NodeId) : Make (Option Value) := do
  let size := (← get).graph.size
  let d ← make (8 * size + 8) false root
  fillAll (8 * size + 8) (size + 1)
  match d with
  | .plain .null => return none
  | d => return some (← valueOf d)

end Store

/-- The value of a source, as the document of a number; none if there is
nothing in it, or null. -/
def valueOfSource (source : Source) (document : Nat) : Except LoadFault (Option Value) := do
  match ← Graph.ofSource source with
  | (_, none) => return none
  | (graph, some root) =>
    let (v, _) ← (Store.makeRoot root).run (.ofGraph graph document)
    return v

end LayeredConfig.Yaml
