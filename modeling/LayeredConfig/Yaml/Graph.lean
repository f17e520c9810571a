import LayeredConfig.Yaml.Node
import LayeredConfig.Yaml.Tag
import LayeredConfig.Yaml.TokenStream

/-!
# The graph of a document

Tokens are read from the left into nodes, none sooner than it is needed.  An
anchor names the node that it stands before as soon as that begins, so a
collection may hold an alias of itself.  A text holds one document at most.
-/

namespace LayeredConfig.Yaml

/-- A graph that is being built, and the scanner that gives its tokens. -/
structure Builder where
  scanner : Scanner
  nodes : Graph
  anchors : Members String NodeId
  handles : Members String String

namespace Builder

abbrev Build (α : Type) := StateT Builder (Except LoadFault) α

def malformed {α : Type} : Build α := throw .malformed

def scan {α : Type} (x : Scan α) : Build α := do
  let (a, scanner) ← x.run (← get).scanner
  modify fun b ↦ { b with scanner }
  return a

/-- The next token, or none at the end of the text. -/
def peek : Build (Option Token) := scan Scanner.peek

def drop : Build Unit := scan Scanner.drop

/-- Whether the next token passes a test; the end of the text passes none. -/
def nextIs (p : Token → Bool) : Build Bool := return (← peek).any p

def isKey : Token → Bool
  | .key => true
  | _ => false

def isValue : Token → Bool
  | .value => true
  | _ => false

def isBlockEntry : Token → Bool
  | .blockEntry => true
  | _ => false

def isBlockEnd : Token → Bool
  | .blockEnd => true
  | _ => false

def isFlowEntry : Token → Bool
  | .flowEntry => true
  | _ => false

def isSequenceEnd : Token → Bool
  | .flowSequenceEnd => true
  | _ => false

def isMappingEnd : Token → Bool
  | .flowMappingEnd => true
  | _ => false

def isDocumentStart : Token → Bool
  | .documentStart => true
  | _ => false

def isDocumentEnd : Token → Bool
  | .documentEnd => true
  | _ => false

def isDirective : Token → Bool
  | .directive _ => true
  | _ => false

def expect (p : Token → Bool) : Build Unit := do
  if ← nextIs p then drop else malformed

def accept (p : Token → Bool) : Build Bool := do
  if ← nextIs p then
    drop
    return true
  else return false

def addNode (node : Node) : Build NodeId := do
  let b ← get
  set { b with nodes := b.nodes.push node }
  return b.nodes.size

/-- Replaces a node that was added before its members. -/
def setNode (id : NodeId) (node : Node) : Build Unit :=
  modify fun b ↦ { b with nodes := b.nodes.setIfInBounds id node }

/-- A scalar that is not written at all. -/
def emptyScalar : Build NodeId := addNode (.scalar Tag.null "")

/-- The anchor and the tag before a node, in either order. -/
structure Properties where
  anchor : Option String
  tag : Option TagMark

def anchor? : Build (Option String) := do
  match ← peek with
  | some (.anchor name) =>
    drop
    return some name
  | _ => return none

def tag? : Build (Option TagMark) := do
  match ← peek with
  | some (.tag mark) =>
    drop
    return some mark
  | _ => return none

def properties : Build Properties := do
  match ← anchor? with
  | some name => return ⟨some name, ← tag?⟩
  | none =>
    match ← tag? with
    | some mark => return ⟨← anchor?, some mark⟩
    | none => return ⟨none, none⟩

/-- The text of a tag; its handle must be known. -/
def tagText : Option TagMark → Build (Option String)
  | none => return none
  | some ⟨none, suffix⟩ => return some suffix
  | some ⟨some handle, suffix⟩ => do
    match (← get).handles.get? handle with
    | some pre => return some (pre ++ suffix)
    | none => malformed

/-- Whether the form of a node decides its tag. -/
def isImplicit (tag : Option String) : Bool := tag.all (· == "!")

/-- Demands that the anchor is new. -/
def checkAnchor (anchor : Option String) : Build Unit := do
  match anchor with
  | some name => if ((← get).anchors.get? name).isSome then malformed
  | none => return

/-- Adds a node under its anchor. -/
def addAnchored (anchor : Option String) (node : Node) : Build NodeId := do
  checkAnchor anchor
  let id ← addNode node
  if let some name := anchor then modify fun b ↦ { b with anchors := b.anchors.put name id }
  return id

def scalarTag (tag : Option String) (text : String) (plain : Bool) : String :=
  match tag with
  | none => if plain then Tag.ofPlain text else Tag.string
  | some "!" => Tag.ofPlain text
  | some tag => tag

def collectionTag (tag : Option String) (standard : String) : String :=
  if isImplicit tag then standard else tag.getD standard

mutual

/-- A node.  Block collections begin only where a block may stand, and a
sequence without indentation of its own only as part of a block mapping. -/
def node : (limit : Nat) → (block indentless : Bool) → Build NodeId
  | 0, _, _ => malformed
  | limit + 1, block, indentless => do
    if let some (.alias name) ← peek then
      drop
      match (← get).anchors.get? name with
      | some id => return id
      | none => malformed
    else
      let p ← properties
      let tag ← tagText p.tag
      let sequence (items : Build (List NodeId)) : Build NodeId := do
        let tag := collectionTag tag Tag.sequence
        let id ← addAnchored p.anchor (.sequence tag [])
        setNode id (.sequence tag (← items))
        return id
      let mapping (pairs : Build (List (NodeId × NodeId))) : Build NodeId := do
        let tag := collectionTag tag Tag.mapping
        let id ← addAnchored p.anchor (.mapping tag [])
        setNode id (.mapping tag (← pairs))
        return id
      match ← peek with
      | some (.scalar text plain) =>
        drop
        addAnchored p.anchor (.scalar (scalarTag tag text plain) text)
      | some .flowSequenceStart =>
        drop
        sequence (flowItems limit true)
      | some .flowMappingStart =>
        drop
        mapping (flowPairs limit true)
      | other =>
        match other, block, indentless with
        | some .blockEntry, _, true => sequence (indentlessItems limit)
        | some .blockSequenceStart, true, _ =>
          drop
          sequence (blockItems limit)
        | some .blockMappingStart, true, _ =>
          drop
          mapping (blockPairs limit)
        | _, _, _ =>
          if p.anchor.isSome || tag.isSome then
            let tag := if isImplicit tag then Tag.null else tag.getD Tag.null
            addAnchored p.anchor (.scalar tag "")
          else malformed

/-- A node, or nothing before one of some tokens. -/
def nodeUnless : (limit : Nat) → (stop : Token → Bool) → (block indentless : Bool) → Build NodeId
  | 0, _, _, _ => malformed
  | limit + 1, stop, block, indentless => do
    if ← nextIs stop then emptyScalar else node limit block indentless

def blockItems : (limit : Nat) → Build (List NodeId)
  | 0 => malformed
  | limit + 1 => do
    if ← accept isBlockEntry then
      let item ← nodeUnless limit (fun t ↦ isBlockEntry t || isBlockEnd t) true false
      return item :: (← blockItems limit)
    else
      expect isBlockEnd
      return []

/-- The items of a sequence at the column of the mapping around it. -/
def indentlessItems : (limit : Nat) → Build (List NodeId)
  | 0 => malformed
  | limit + 1 => do
    if ← accept isBlockEntry then
      let stop (t : Token) := isBlockEntry t || isKey t || isValue t || isBlockEnd t
      let item ← nodeUnless limit stop true false
      return item :: (← indentlessItems limit)
    else return []

def blockPairs : (limit : Nat) → Build (List (NodeId × NodeId))
  | 0 => malformed
  | limit + 1 => do
    let stop (t : Token) := isKey t || isValue t || isBlockEnd t
    if ← accept isKey then
      let key ← nodeUnless limit stop true true
      let value ←
        if ← accept isValue then nodeUnless limit stop true true else emptyScalar
      return (key, value) :: (← blockPairs limit)
    else
      expect isBlockEnd
      return []

/-- The items of a flow sequence, and its end. -/
def flowItems : (limit : Nat) → (first : Bool) → Build (List NodeId)
  | 0, _ => malformed
  | limit + 1, first => do
    if ← accept isSequenceEnd then return []
    if !first then expect isFlowEntry
    if ← accept isKey then
      -- A pair among the items is a mapping of its own.
      let id ← addNode (.mapping Tag.mapping [])
      let stop (t : Token) := isFlowEntry t || isSequenceEnd t
      let key ← nodeUnless limit (fun t ↦ isValue t || stop t) false false
      let value ← if ← accept isValue then nodeUnless limit stop false false else emptyScalar
      setNode id (.mapping Tag.mapping [(key, value)])
      return id :: (← flowItems limit false)
    else if ← accept isSequenceEnd then return []
    else
      let item ← node limit false false
      return item :: (← flowItems limit false)

/-- The pairs of a flow mapping, and its end. -/
def flowPairs : (limit : Nat) → (first : Bool) → Build (List (NodeId × NodeId))
  | 0, _ => malformed
  | limit + 1, first => do
    if ← accept isMappingEnd then return []
    if !first then expect isFlowEntry
    if ← accept isKey then
      let stop (t : Token) := isFlowEntry t || isMappingEnd t
      let key ← nodeUnless limit (fun t ↦ isValue t || stop t) false false
      let value ← if ← accept isValue then nodeUnless limit stop false false else emptyScalar
      return (key, value) :: (← flowPairs limit false)
    else if ← accept isMappingEnd then return []
    else
      -- A node alone is a key.
      let key ← node limit false false
      let value ← emptyScalar
      return (key, value) :: (← flowPairs limit false)

end

/-- The handles that need no directive. -/
def standardHandles : Members String String := [("!", "!"), ("!!", Tag.corePrefix)]

/-- The directives before a document: one version at most, and each handle
once. -/
def directives : (limit : Nat) → (versioned : Bool) → Build Unit
  | 0, _ => return
  | limit + 1, versioned => do
    match ← peek with
    | some (.directive d) =>
      drop
      match d with
      | .version major _ =>
        if versioned || major != 1 then malformed
        directives limit true
      | .tag handle pre =>
        if ((← get).handles.get? handle).isSome then malformed
        modify fun b ↦ { b with handles := b.handles.put handle pre }
        directives limit versioned
      | .other => directives limit versioned
    | _ => return

/-- Adds the standard handles that no directive has given. -/
def completeHandles (handles : Members String String) : Members String String :=
  standardHandles.foldl (fun hs (h, pre) ↦ if (hs.get? h).isSome then hs else hs.put h pre) handles

def explicitDocument (limit : Nat) : Build NodeId := do
  modify fun b ↦ { b with handles := [] }
  directives limit false
  modify fun b ↦ { b with handles := completeHandles b.handles }
  expect isDocumentStart
  match ← peek with
  | none => emptyScalar
  | some t =>
    if isDirective t || isDocumentStart t || isDocumentEnd t then emptyScalar
    else node limit true false

def documentEnds : (limit : Nat) → Build Unit
  | 0 => return
  | limit + 1 => do
    if ← accept isDocumentEnd then documentEnds limit

/-- Demands that nothing follows the one document, after the mark of its end
and further marks. -/
def endOfText (limit : Nat) : Build Unit := do
  let _ ← accept isDocumentEnd
  documentEnds limit
  match ← peek with
  | none => return
  | some _ =>
    -- The directives of another document are read all the same.
    modify fun b ↦ { b with handles := [] }
    directives limit false
    malformed

/-- The root of the one document of a text, if it has any. -/
def document (limit : Nat) : Build (Option NodeId) := do
  match ← peek with
  | none => return none
  | some t =>
    let root ←
      if isDirective t || isDocumentStart t then explicitDocument limit else node limit true false
    endOfText limit
    return some root

end Builder

/-- The graph of a source and its root; an empty text has none. -/
def Graph.ofSource (source : Source) : Except LoadFault (Graph × Option NodeId) := do
  let limit := 16 * source.chars.length + 16
  let (root, b) ← (Builder.document limit).run
    { scanner := .start source, nodes := #[], anchors := [], handles := Builder.standardHandles }
  return (b.nodes, root)

end LayeredConfig.Yaml
