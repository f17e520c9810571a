import LayeredConfig.Float.Binary
import LayeredConfig.Text.Utf8

/-!
# Text streams

A file is read as text on demand: bytes are taken in chunks, decoded, and
handed out as characters in reads of a given size.  Every line end becomes a
line feed, so a carriage return at the end of a chunk waits for what follows.
A chunk is at least a fixed count of bytes; it is larger where the chunk
before it needed more bytes for its characters.  A fault of the encoding tells
its place in its chunk, with the bytes held back from the chunk before in
front.
-/

namespace LayeredConfig.Text

structure Stream where
  /-- Bytes not yet taken. -/
  bytes : List UInt8
  /-- Bytes of a character that is not complete. -/
  held : List UInt8
  /-- Whether a carriage return waits. -/
  returned : Bool
  /-- Characters not yet handed out. -/
  ready : List Char
  /-- Bytes per character in the chunk before. -/
  ratio : Double

namespace Stream

def ofBytes (bytes : List UInt8) : Stream := ⟨bytes, [], false, [], .zero .double false⟩

/-- Bytes of one chunk at least. -/
def leastChunk : Nat := 8192

/-- Bytes of the chunk that is to give so many characters. -/
def chunkSize (s : Stream) (wanted : Nat) : Nat :=
  max leastChunk (((s.ratio.mul (.ofInt .double wanted)).truncate?.getD 0).toNat)

/-- The text with every line end written as a line feed. -/
def unifyLineEnds : List Char → List Char
  | '\r' :: '\n' :: rest => '\n' :: unifyLineEnds rest
  | '\r' :: rest => '\n' :: unifyLineEnds rest
  | c :: rest => c :: unifyLineEnds rest
  | [] => []

/-- Takes a chunk, the characters of which are then ready, and tells whether it may go on. -/
def takeChunk (s : Stream) (wanted : Nat) : Except Utf8.Fault (Bool × Stream) := do
  let chunk := s.bytes.take (s.chunkSize wanted)
  let last := chunk.isEmpty
  let (decoded, held) ← Utf8.decode last 0 none (s.held ++ chunk)
  let joined := if s.returned && (last || !decoded.isEmpty) then '\r' :: decoded else decoded
  -- A carriage return at the end waits for what follows it.
  let waits := !last && joined.getLast? == some '\r'
  let cs := unifyLineEnds (if waits then joined.dropLast else joined)
  let returned := waits || (s.returned && !last && decoded.isEmpty)
  let ratio : Double :=
    if cs.isEmpty then .zero .double false else .ofRatio .double false chunk.length cs.length
  return (!last || !cs.isEmpty, ⟨s.bytes.drop chunk.length, held, returned, s.ready ++ cs, ratio⟩)

/-- Takes chunks until so many characters are ready or the stream is over. -/
def fill : (limit : Nat) → (wanted : Nat) → Stream → Except Utf8.Fault Stream
  | 0, _, s => .ok s
  | limit + 1, wanted, s =>
    if s.ready.length < wanted then do
      let (goesOn, s) ← s.takeChunk (wanted - s.ready.length)
      if goesOn then fill limit wanted s else return s
    else .ok s

/-- Hands out so many characters, fewer only at the end of the stream. -/
def read (s : Stream) (wanted : Nat) : Except Utf8.Fault (List Char × Stream) := do
  let s ← fill (s.bytes.length + 3) wanted s
  return (s.ready.take wanted, { s with ready := s.ready.drop wanted })

/-- All reads of a size up to the end, or to the fault that ends them. -/
def reads (size : Nat) : (limit : Nat) → Stream → List (List Char) × Option Utf8.Fault
  | 0, _ => ([], none)
  | limit + 1, s =>
    match s.read size with
    | .error f => ([], some f)
    | .ok ([], _) => ([], none)
    | .ok (cs, s) =>
      let (more, fault) := reads size limit s
      (cs :: more, fault)

end Stream

end LayeredConfig.Text
