import LayeredConfig.Decimal.Numeral

/-!
# Spans of time

A span is a signed count of nanoseconds.  Its text uses one small unit below a
second, and hours, minutes and seconds from a second on.  A calendar span
counts days, seconds and microseconds, with only the days signed.
-/

namespace LayeredConfig

namespace Duration

/-- Digits of a fraction of so many places, without the zeros at the end, and
with a point in front if any digit is left. -/
def fractionText (places n : Nat) : String :=
  let digits := Nat.toDigits 10 n
  let padded := List.replicate (places - digits.length) '0' ++ digits
  let kept := (padded.reverse.dropWhile (· = '0')).reverse
  if kept.isEmpty then "" else String.ofList ('.' :: kept)

/-- A count of thousandths, millionths, … as a decimal in the whole unit. -/
def decimalText (places n : Nat) : String :=
  (n / Nat.pow 10 places).repr ++ fractionText places (n % Nat.pow 10 places)

/-- Text of a positive count of nanoseconds. -/
def magnitudeText (n : Nat) : String :=
  if n < 1000 then n.repr ++ "ns"
  else if n < 1000000 then decimalText 3 n ++ "µs"
  else if n < 1000000000 then decimalText 6 n ++ "ms"
  else
    let seconds := n / 1000000000
    let minutes := seconds / 60
    let hours := minutes / 60
    let shown := (seconds % 60).repr ++ fractionText 9 (n % 1000000000) ++ "s"
    let shown := if minutes = 0 then shown else (minutes % 60).repr ++ "m" ++ shown
    if hours = 0 then shown else hours.repr ++ "h" ++ shown

/-- Text of a span, such as `1h0m2.5s`. -/
def text (nanoseconds : Int) : String :=
  if nanoseconds = 0 then "0s"
  else if nanoseconds < 0 then "-" ++ magnitudeText nanoseconds.natAbs
  else magnitudeText nanoseconds.natAbs

def milliseconds (nanoseconds : Int) : Int := nanoseconds.tdiv 1000000

def microseconds (nanoseconds : Int) : Int := nanoseconds.tdiv 1000

def hours (nanoseconds : Int) : Nat := nanoseconds.natAbs / 3600000000000

end Duration

/-- A calendar span: days of either sign, and seconds and microseconds that
only count on from them. -/
structure Span where
  days : Int
  seconds : Nat
  microseconds : Nat
  deriving DecidableEq

namespace Span

/-- Most days, in either direction. -/
def dayLimit : Nat := 999999999

/-- Why a span of so many days does not exist. -/
inductive Overflow where
  | days (n : Int)
  | tooLarge
  deriving DecidableEq

def Overflow.message : Overflow → String
  | .days n => "days=" ++ Numeral.ofInt n ++ "; must have magnitude <= 999999999"
  | .tooLarge => "Python int too large to convert to C int"

/-- Count of days, refused beyond the limit, and as too large beyond the
range of 32 bits. -/
def checkDays (days : Int) : Except Overflow Int :=
  if days < -2147483648 || 2147483648 ≤ days then .error .tooLarge
  else if dayLimit < days.natAbs then .error (.days days)
  else .ok days

def ofMicroseconds (total : Int) : Except Overflow Span := do
  let seconds := total.fdiv 1000000
  let days ← checkDays (seconds.fdiv 86400)
  return ⟨days, (seconds.fmod 86400).toNat, (total.fmod 1000000).toNat⟩

def toMicroseconds (s : Span) : Int :=
  (s.days * 86400 + s.seconds) * 1000000 + s.microseconds

end Span

namespace Duration

def ofSpan (s : Span) : Int := s.toMicroseconds * 1000

/-- The calendar span of a count of nanoseconds, toward zero to a whole
microsecond. -/
def toSpan (nanoseconds : Int) : Except Span.Overflow Span :=
  Span.ofMicroseconds (microseconds nanoseconds)

end Duration

end LayeredConfig
