import LayeredConfig.Text.Quoted

/-!
# Reading UTF-8

Bytes become characters one by one.  After the first byte of a character it is
known how many more are owed and which the next may be.  Bytes that come in
pieces are decoded piece by piece; the bytes of a character that is not
complete are held back for the next piece.
-/

namespace LayeredConfig.Text.Utf8

inductive Problem where
  | badStart
  | badContinuation
  | cutOff
  deriving DecidableEq

/-- Bytes that form no character: what is wrong, the first of them, and their
places from `start` to before `stop`. -/
structure Fault where
  problem : Problem
  first : UInt8
  start : Nat
  stop : Nat
  deriving DecidableEq

def Problem.text : Problem → String
  | .badStart => "invalid start byte"
  | .badContinuation => "invalid continuation byte"
  | .cutOff => "unexpected end of data"

def Fault.message (f : Fault) : String :=
  let place :=
    if f.stop = f.start + 1 then
      "byte 0x" ++ String.ofList (hexDigits 2 f.first.toNat) ++ " in position " ++ f.start.repr
    else "bytes in position " ++ f.start.repr ++ "-" ++ (f.stop - 1).repr
  "'utf-8' codec can't decode " ++ place ++ ": " ++ f.problem.text

/-- A character whose bytes are not all read: those that are, how many are
owed, the range of the next, and the bits so far. -/
structure Pending where
  bytes : List UInt8
  start : Nat
  owed : Nat
  low : Nat
  high : Nat
  bits : Nat

/-- The character that begins with a byte. -/
def lead? (b : UInt8) (place : Nat) : Option Pending :=
  let n := b.toNat
  let owes (owed low high bits : Nat) : Option Pending := some ⟨[b], place, owed, low, high, bits⟩
  if n < 0xC2 then none
  else if n < 0xE0 then owes 1 0x80 0xBF (n - 0xC0)
  else if n = 0xE0 then owes 2 0xA0 0xBF 0
  else if n = 0xED then owes 2 0x80 0x9F 13
  else if n < 0xF0 then owes 2 0x80 0xBF (n - 0xE0)
  else if n = 0xF0 then owes 3 0x90 0xBF 0
  else if n < 0xF4 then owes 3 0x80 0xBF (n - 0xF0)
  else if n = 0xF4 then owes 3 0x80 0x8F 4
  else none

/-- Puts a character in front of what follows. -/
def consChar {α : Type} (c : Char) (read : List Char × α) : List Char × α := (c :: read.1, read.2)

/-- Whether two bytes begin the form of a surrogate, which is no character. -/
def beginsSurrogate (bytes : List UInt8) (b : UInt8) : Bool :=
  bytes == [0xED] && 0xA0 ≤ b.toNat && b.toNat ≤ 0xBF

/-- Decodes bytes from a place on.  The bytes of a character that is not complete
are held back, unless they are the last. -/
def decode (last : Bool) : (place : Nat) → Option Pending → List UInt8 →
    Except Fault (List Char × List UInt8)
  | _, none, [] => .ok ([], [])
  | place, some p, [] =>
    if last then .error ⟨.cutOff, p.bytes.headD 0, p.start, place⟩ else .ok ([], p.bytes)
  | place, none, b :: rest =>
    if b.toNat < 0x80 then (decode last (place + 1) none rest).map (consChar (Char.ofNat b.toNat))
    else
      match lead? b place with
      | some p => decode last (place + 1) (some p) rest
      | none => .error ⟨.badStart, b, place, place + 1⟩
  | place, some p, b :: rest =>
    if p.low ≤ b.toNat && b.toNat ≤ p.high then
      let bits := p.bits * 64 + (b.toNat - 0x80)
      if p.owed ≤ 1 then (decode last (place + 1) none rest).map (consChar (Char.ofNat bits))
      else
        decode last (place + 1)
          (some ⟨p.bytes ++ [b], p.start, p.owed - 1, 0x80, 0xBF, bits⟩) rest
    -- Two bytes that begin a surrogate are refused with the third.
    else if !last && rest.isEmpty && beginsSurrogate p.bytes b then .ok ([], p.bytes ++ [b])
    else .error ⟨.badContinuation, p.bytes.headD 0, p.start, place⟩

end LayeredConfig.Text.Utf8
