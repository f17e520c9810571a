import LayeredConfig.Yaml.Lexeme

/-!
# The tokens of a source

Tokens are read when they are asked for, and no sooner: what comes later in
the source may be at fault without harm.  Indentation opens and closes block
collections.  A scalar, an alias or a collection may turn out to be a key when
a colon follows it on its line; where it began is remembered, the tokens of a
key are put in front of it then, and until it is known whether it is one the
token is not handed out.
-/

namespace LayeredConfig.Yaml

/-- Where a key may have begun: the count of tokens before it, and the place. -/
structure PossibleKey where
  before : Nat
  /-- The block cannot go on without a key here. -/
  required : Bool
  index : Nat
  line : Nat
  column : Nat

structure Scanner where
  cursor : Cursor
  pending : List Token
  /-- Count of the tokens that have been handed out. -/
  taken : Nat
  /-- The end of the source has been read. -/
  finished : Bool
  /-- Depth of flow collections. -/
  flow : Nat
  /-- Column of the innermost open block collection, or minus one. -/
  indent : Int
  /-- Columns of the collections around it. -/
  indents : List Int
  keyAllowed : Bool
  /-- Possible keys by the depth of flow collections. -/
  keys : List (Nat × PossibleKey)

/-- Steps of a scanner. -/
abbrev Scan (α : Type) := StateT Scanner (Except LoadFault) α

namespace Scanner

def start (source : Source) : Scanner :=
  { cursor := .start source, pending := [], taken := 0, finished := false, flow := 0, indent := -1
    indents := [], keyAllowed := true, keys := [] }

def read {α : Type} (r : Read α) : Scan α := do
  let (a, cursor) ← r.run (← get).cursor
  modify fun s ↦ { s with cursor }
  return a

def emit (t : Token) : Scan Unit := modify fun s ↦ { s with pending := s.pending ++ [t] }

/-- Puts a token after the first `before` tokens. -/
def insert (before : Nat) (t : Token) : Scan Unit :=
  modify fun s ↦ { s with pending := s.pending.insertIdx (before - s.taken) t }

def allowKey (allowed : Bool) : Scan Unit := modify fun s ↦ { s with keyAllowed := allowed }

/-- Forgets the possible key of the current depth. -/
def forgetKey : Scan Unit := modify fun s ↦ { s with keys := s.keys.filter (·.1 != s.flow) }

/-- Forgets the possible key of the current depth; a required one must not be
forgotten. -/
def dropKey : Scan Unit := do
  let s ← get
  if (s.keys.lookup s.flow).any PossibleKey.required then throw .malformed
  forgetKey

/-- Whether a possible key is on another line or too far back. -/
def isStale (c : Cursor) (key : PossibleKey) : Bool :=
  key.line != c.line || 1024 < c.index - key.index

/-- Forgets the possible keys that can be keys no more. -/
def dropStaleKeys : Scan Unit := do
  let s ← get
  if s.keys.any fun (_, key) ↦ isStale s.cursor key && key.required then throw .malformed
  set { s with keys := s.keys.filter fun (_, key) ↦ !isStale s.cursor key }

/-- Remembers that a key may begin here. -/
def saveKey : Scan Unit := do
  let s ← get
  if s.keyAllowed then
    let c := s.cursor
    let required := s.flow == 0 && s.indent == c.column
    dropKey
    let key : PossibleKey := ⟨s.taken + s.pending.length, required, c.index, c.line, c.column⟩
    modify fun s ↦ { s with keys := (s.flow, key) :: s.keys }

/-- Closes the block collections that are indented beyond a column. -/
def unwind (column : Int) : Scan Unit := do
  let s ← get
  if s.flow == 0 then go s.indents
where
  go : List Int → Scan Unit
    | [] => return
    | outer :: rest => do
      if column < (← get).indent then
        modify fun s ↦ { s with indent := outer, indents := rest }
        emit .blockEnd
        go rest

/-- Opens a block collection at a column and tells so, if it is deeper than the
current. -/
def deepen (column : Nat) : Scan Bool := do
  let s ← get
  if s.indent < column then
    set { s with indent := column, indents := s.indent :: s.indents }
    return true
  else return false

def skipBlank : (limit : Nat) → Scan Unit
  | 0 => return
  | limit + 1 => do
    read Read.skipSpaces
    read Read.skipComment
    if !(← read Read.lineEnd).isEmpty then
      if (← get).flow == 0 then allowKey true
      skipBlank limit

/-- Ends all blocks for a directive, a divider of documents or the end. -/
def leaveDocument : Scan Unit := do
  unwind (-1)
  dropKey
  allowKey false

def directive : Scan Unit := do
  leaveDocument
  emit (.directive (← read Lexeme.directive))

def divider (t : Token) : Scan Unit := do
  leaveDocument
  read (Read.skip 3)
  emit t

/-- Moves over a mark of one character. -/
def mark (t : Token) : Scan Unit := do
  read Read.next
  emit t

def openFlow (t : Token) : Scan Unit := do
  saveKey
  modify fun s ↦ { s with flow := s.flow + 1, keyAllowed := true }
  mark t

def closeFlow (t : Token) : Scan Unit := do
  dropKey
  modify fun s ↦ { s with flow := s.flow - 1, keyAllowed := false }
  mark t

def flowEntry : Scan Unit := do
  allowKey true
  dropKey
  mark .flowEntry

/-- Demands that a key may begin here, and opens a block collection if this is
deeper. -/
def openBlock (t : Token) : Scan Unit := do
  let s ← get
  if s.flow == 0 then
    if !s.keyAllowed then throw .malformed
    if ← deepen s.cursor.column then emit t

def blockEntry : Scan Unit := do
  openBlock .blockSequenceStart
  allowKey true
  dropKey
  mark .blockEntry

def key : Scan Unit := do
  openBlock .blockMappingStart
  allowKey ((← get).flow == 0)
  dropKey
  mark .key

def value : Scan Unit := do
  let s ← get
  match s.keys.lookup s.flow with
  | some key =>
    forgetKey
    insert key.before .key
    if s.flow == 0 then
      if ← deepen key.column then insert key.before .blockMappingStart
    allowKey false
  | none =>
    openBlock .blockMappingStart
    allowKey (s.flow == 0)
    dropKey
  mark .value

/-- A lexeme that may be a key. -/
def simple {α : Type} (lexeme : Read α) (t : α → Token) : Scan Unit := do
  saveKey
  allowKey false
  emit (t (← read lexeme))

def blockScalar (folded : Bool) : Scan Unit := do
  allowKey true
  dropKey
  let text ← read (Lexeme.blockScalar (← get).indent folded)
  emit (.scalar text false)

def plainScalar : Scan Unit := do
  saveKey
  let s ← get
  let (text, passed) ← read (Lexeme.plainScalar (s.flow != 0) s.indent)
  allowKey passed
  emit (.scalar text true)

/-- Whether a mark stands alone: the end of a token follows. -/
def standsAlone : Scan Bool := return endsToken (← read (Read.peekAt 1))

/-- Characters that do not begin a plain scalar, or not always. -/
def isIndicator (ch : Char) : Bool :=
  endsToken (some ch) || "-?:,[]\x7b\x7d#&*!|>'\x22%@\x60".toList.contains ch

/-- Whether a plain scalar can begin with the next character. -/
def atPlain (ch : Char) : Scan Bool := do
  if !isIndicator ch then return true
  if ← standsAlone then return false
  return ch == '-' || ((← get).flow == 0 && (ch == '?' || ch == ':'))

/-- Whether documents are divided here. -/
def atDivider (mark : Char) : Scan Bool := do
  if (← get).cursor.column == 0 then read (Read.atDivider [mark]) else return false

/-- Whether a mark of keys or values is here, which needs nothing after it in
flow collections. -/
def atPairMark : Scan Bool := do
  if (← get).flow != 0 then return true else standsAlone

def plainToken (ch : Char) : Scan Unit := do
  if ← atPlain ch then plainScalar else throw .malformed

def token (ch : Char) : Scan Unit := do
  let s ← get
  match ch with
  | '[' => openFlow .flowSequenceStart
  | '\x7b' => openFlow .flowMappingStart
  | ']' => closeFlow .flowSequenceEnd
  | '\x7d' => closeFlow .flowMappingEnd
  | ',' => flowEntry
  | '*' => simple Lexeme.anchorName .alias
  | '&' => simple Lexeme.anchorName .anchor
  | '!' => simple Lexeme.tag .tag
  | '\x27' => simple (Lexeme.quotedScalar '\x27') (.scalar · false)
  | '\x22' => simple (Lexeme.quotedScalar '\x22') (.scalar · false)
  | '%' => if s.cursor.column == 0 then directive else plainToken ch
  | '-' =>
    if ← atDivider '-' then divider .documentStart
    else if ← standsAlone then blockEntry
    else plainToken ch
  | '.' => if ← atDivider '.' then divider .documentEnd else plainToken ch
  | '?' => if ← atPairMark then key else plainToken ch
  | ':' => if ← atPairMark then value else plainToken ch
  | '|' => if s.flow == 0 then blockScalar false else plainToken ch
  | '>' => if s.flow == 0 then blockScalar true else plainToken ch
  | ch => plainToken ch

/-- Reads the next token, past blanks and comments. -/
def advance : Scan Unit := do
  -- A byte order mark may stand at the start.
  if (← get).cursor.index == 0 then
    if (← read Read.peek) == some '\ufeff' then read Read.next
  skipBlank (← read Read.limit)
  dropStaleKeys
  unwind (← get).cursor.column
  match ← read Read.peek with
  | some ch => token ch
  | none =>
    -- The end of the source ends all.
    leaveDocument
    modify fun s ↦ { s with keys := [], finished := true }

/-- Whether the next token is not known yet: there is none, or a key may turn
out to begin in front of it. -/
def needsMore : Scan Bool := do
  let s ← get
  if s.finished then return false
  if s.pending.isEmpty then return true
  dropStaleKeys
  return (← get).keys.any fun (_, key) ↦ key.before == s.taken

/-- Reads so many tokens at most, as long as the next is not known. -/
def prepare : (limit : Nat) → Scan Unit
  | 0 => return
  | limit + 1 => do
    if ← needsMore then
      advance
      prepare limit

/-- The next token, or none at the end of the source. -/
def peek : Scan (Option Token) := do
  prepare ((← read Read.limit) + 1)
  return (← get).pending.head?

/-- Hands out the next token. -/
def drop : Scan Unit :=
  modify fun s ↦ { s with pending := s.pending.tail, taken := s.taken + 1 }

end Scanner

end LayeredConfig.Yaml
