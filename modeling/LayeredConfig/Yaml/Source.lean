import LayeredConfig.Text.Stream
import LayeredConfig.Yaml.Fault

/-!
# Sources of documents

The characters that a document is read from.  A text is looked over as a whole
before anything is read; a stream is taken in block by block while the
document is read, and only a block that is needed can be at fault.  So a
source is the characters before the first block that is at fault, and that
fault.
-/

namespace LayeredConfig.Yaml

/-- Characters that a document may hold. -/
def isAllowed (c : Char) : Bool :=
  let n := c.toNat
  n == 0x09 || n == 0x0A || n == 0x0D || (0x20 ≤ n && n ≤ 0x7E) || n == 0x85 ||
    (0xA0 ≤ n && n ≤ 0xD7FF) || (0xE000 ≤ n && n ≤ 0xFFFD) || 0x10000 ≤ n

structure Source where
  chars : List Char
  /-- What is met when more characters are needed; none at the end of the
  text. -/
  ending : Option LoadFault

namespace Source

/-- A source that is taken in by blocks, each of which is refused as a whole if
it holds a character that no document may hold. -/
def ofBlocks : List (List Char) → (ending : Option LoadFault) → Source
  | [], ending => ⟨[], ending⟩
  | block :: rest, ending =>
    if block.all isAllowed then
      let later := ofBlocks rest ending
      ⟨block ++ later.chars, later.ending⟩
    else ⟨[], some .malformed⟩

/-- The first two reads are taken in as one block. -/
def ofReads : List (List Char) → (ending : Option LoadFault) → Source
  | first :: second :: rest, ending => ofBlocks ((first ++ second) :: rest) ending
  | [first], none => ofBlocks [first] none
  | _, ending => ⟨[], ending⟩

def ofText (cs : List Char) : Source := ofBlocks [cs] none

def readSize : Nat := 4096

def reads : (limit : Nat) → List Char → List (List Char)
  | 0, _ => []
  | _, [] => []
  | limit + 1, cs => cs.take readSize :: reads limit (cs.drop readSize)

def ofStreamText (cs : List Char) : Source := ofReads (reads (cs.length / readSize + 1) cs) none

def ofBytes (bytes : List UInt8) : Source :=
  let limit := bytes.length / readSize + 2
  let (blocks, fault) := (Text.Stream.ofBytes bytes).reads readSize limit
  ofReads blocks (fault.map .undecodable)

end Source

end LayeredConfig.Yaml
