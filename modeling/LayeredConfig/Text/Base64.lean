import LayeredConfig.Text.Quoted

/-!
# Reading base 64

Letters carry six bits each and every other character but the padding mark is
skipped.  Padding that completes a group of four ends the data.
-/

namespace LayeredConfig.Text.Base64

/-- The six bits of a letter. -/
def sextet? (c : Char) : Option Nat :=
  if 'A' ≤ c && c ≤ 'Z' then some (c.toNat - 65)
  else if 'a' ≤ c && c ≤ 'z' then some (c.toNat - 71)
  else if '0' ≤ c && c ≤ '9' then some (c.toNat + 4)
  else if c = '+' then some 62
  else if c = '/' then some 63
  else none

inductive Fault where
  /-- A single letter is left over; how many there are in all. -/
  | loneLetter (count : Nat)
  | badPadding
  deriving DecidableEq

def Fault.message : Fault → String
  | .loneLetter count => "Invalid base64-encoded string: number of data characters (" ++
      count.repr ++ ") cannot be 1 more than a multiple of 4"
  | .badPadding => "Incorrect padding"

/-- Where the reader stands: bytes so far, latest first, letters of the group,
its bits that are not written yet, and the padding marks in it. -/
structure Reader where
  bytes : List UInt8
  letters : Nat
  bits : Nat
  padding : Nat

def Reader.letter (r : Reader) (v : Nat) : Reader :=
  match r.letters with
  | 0 => ⟨r.bytes, 1, v, 0⟩
  | 1 => ⟨UInt8.ofNat (r.bits * 4 + v / 16) :: r.bytes, 2, v % 16, 0⟩
  | 2 => ⟨UInt8.ofNat (r.bits * 16 + v / 4) :: r.bytes, 3, v % 4, 0⟩
  | _ => ⟨UInt8.ofNat (r.bits * 64 + v) :: r.bytes, 0, 0, 0⟩

def run (r : Reader) : List Char → Except Fault (List UInt8)
  | [] =>
    if r.letters = 0 then .ok r.bytes.reverse
    else if r.letters = 1 then .error (.loneLetter (r.bytes.length / 3 * 4 + 1))
    else .error .badPadding
  | c :: rest =>
    if c = '=' then
      if 2 ≤ r.letters then
        if 4 ≤ r.letters + r.padding + 1 then .ok r.bytes.reverse
        else run { r with padding := r.padding + 1 } rest
      else run r rest
    else
      match sextet? c with
      | some v => run (r.letter v) rest
      | none => run r rest

def decode (cs : List Char) : Except Fault (List UInt8) := run ⟨[], 0, 0, 0⟩ cs

/-- The refusal of a text that is not ASCII: its first run of such characters. -/
def asciiRefusal? (cs : List Char) : Option String :=
  let before := cs.takeWhile fun c ↦ c.toNat < 0x80
  let run := (cs.drop before.length).takeWhile fun c ↦ 0x80 ≤ c.toNat
  match run with
  | [] => none
  | [c] =>
    let n := c.toNat
    let code :=
      if n < 0x100 then 'x' :: hexDigits 2 n
      else if n < 0x10000 then 'u' :: hexDigits 4 n
      else 'U' :: hexDigits 8 n
    some ("'ascii' codec can't encode character '\\" ++ String.ofList code ++ "' in position " ++
      before.length.repr ++ ": ordinal not in range(128)")
  | several =>
    some ("'ascii' codec can't encode characters in position " ++ before.length.repr ++ "-" ++
      (before.length + several.length - 1).repr ++ ": ordinal not in range(128)")

end LayeredConfig.Text.Base64
