import LayeredConfig.Decimal.Numeral

/-!
# Instants

An instant is a count of a unit of time since the start of 1970, in the
calendar that never changed its rules.  The unit is that of the last part of
the text that the instant is read from, so the text also shows how exact the
instant is.  Counts are held in 64 bits and wrap around; the least count is
that of no time at all.
-/

namespace LayeredConfig

/-- Units of time.  From the second on each is a thousandth of the one
before. -/
inductive TimeUnit where
  | year | month | day | hour | minute
  /-- The second divided by ten to the power of three times the rank. -/
  | second (rank : Fin 7)
  deriving DecidableEq

namespace Calendar

/-- Days before the first of March of a year, from the first of March of the
year zero on. -/
def daysBeforeMarch (year : Int) : Int :=
  365 * year + year.fdiv 4 - year.fdiv 100 + year.fdiv 400

/-- Days of the months from March to before a month, which March is the first
of. -/
def daysBeforeMonth (fromMarch : Nat) : Nat := (153 * fromMarch + 2) / 5

def dayNumber (year : Int) (month day : Nat) : Int :=
  let (year, fromMarch) := if month < 3 then (year - 1, month + 9) else (year, month - 3)
  daysBeforeMarch year + daysBeforeMonth fromMarch + day - 1 - 719468

/-- Year, month and day of a day number. -/
def ofDayNumber (n : Int) : Int × Nat × Nat :=
  -- Four centuries have as many days as any other four, and the estimate of the year
  -- in them is exact.
  let cycle := (n + 719468).fdiv 146097
  let day := ((n + 719468).fmod 146097).toNat
  let year := (day - day / 1460 + day / 36524 - day / 146096) / 365
  let dayOfYear := day - (365 * year + year / 4 - year / 100)
  let fromMarch := (5 * dayOfYear + 2) / 153
  let month := if fromMarch < 10 then fromMarch + 3 else fromMarch - 9
  (year + cycle * 400 + (if month < 3 then 1 else 0), month,
    dayOfYear - daysBeforeMonth fromMarch + 1)

def isLeap (year : Int) : Bool := year % 4 == 0 && (year % 100 != 0 || year % 400 == 0)

def daysInMonth (year : Int) (month : Nat) : Nat :=
  if month = 2 then (if isLeap year then 29 else 28)
  else if [4, 6, 9, 11].contains month then 30 else 31

end Calendar

/-- A count of units since the start of 1970, or no time. -/
inductive Instant where
  | never
  | counted (unit : TimeUnit) (count : Int)

namespace Instant

/-- The least whole number of 64 bits stands for no time. -/
def ofCount (unit : TimeUnit) (count : Int) : Instant :=
  let wrapped := count.bmod (Nat.pow 2 64)
  if wrapped = -(Nat.pow 2 63 : Nat) then never else .counted unit wrapped

/-- Exact distance from the start of 1970, in the smallest units. -/
def distance? : Instant → Option Int
  | never => none
  | .counted unit count =>
    let days (n : Int) : Int := n * 86400 * Nat.pow 10 18
    some (match unit with
      | .year => days (Calendar.dayNumber (1970 + count) 1 1)
      | .month =>
        days (Calendar.dayNumber (1970 + count.fdiv 12) ((count.fmod 12).toNat + 1) 1)
      | .day => days count
      | .hour => count * 3600 * Nat.pow 10 18
      | .minute => count * 60 * Nat.pow 10 18
      | .second rank => count * Nat.pow 10 (18 - 3 * rank))

/-- No time is not even the same as itself. -/
def same (a b : Instant) : Bool :=
  match a.distance?, b.distance? with
  | some x, some y => x == y
  | _, _ => false

/-! ## Text -/

/-- A number with zeros in front up to a width, which counts the sign. -/
def padded (width : Nat) (n : Int) : String :=
  let digits := (Nat.toDigits 10 n.natAbs)
  let sign : List Char := if n < 0 then ['-'] else []
  String.ofList (sign ++ List.replicate (width - sign.length - digits.length) '0' ++ digits)

def dateText (days : Int) : String :=
  let (year, month, day) := Calendar.ofDayNumber days
  padded 4 year ++ "-" ++ padded 2 month ++ "-" ++ padded 2 day

/-- Date and time of a count of seconds: hours, and so many parts of the rest
as the unit shows. -/
def timeText (seconds : Int) (parts : Nat) : String :=
  let inDay := seconds.fmod 86400
  let shown := [inDay.fdiv 3600, (inDay.fdiv 60).fmod 60, inDay.fmod 60]
  dateText (seconds.fdiv 86400) ++ "T" ++ ":".intercalate ((shown.take parts).map (padded 2))

def text : Instant → String
  | never => "NaT"
  | .counted unit count =>
    match unit with
    | .year => padded 4 (1970 + count)
    | .month => padded 4 (1970 + count.fdiv 12) ++ "-" ++ padded 2 (count.fmod 12 + 1)
    | .day => dateText count
    | .hour => timeText (count * 3600) 1
    | .minute => timeText (count * 60) 2
    | .second rank =>
      let parts : Int := Nat.pow 10 (3 * rank)
      let fraction := if rank = 0 then "" else "." ++ padded (3 * rank) (count.fmod parts)
      timeText (count.fdiv parts) 3 ++ fraction

def form (i : Instant) : String :=
  -- The unit is named where the text alone would not be read as an instant of it.
  let unit := match i with
    | .counted .hour _ => ",'h'"
    | _ => ""
  "np.datetime64('" ++ i.text ++ "'" ++ unit ++ ")"

/-! ## Reading -/

inductive Refusal where
  /-- Reading stops at a position. -/
  | unreadable (text : String) (position : Nat)
  /-- A part of the text has no meaning in the calendar. -/
  | outOfRange (part text : String)
  deriving DecidableEq

def Refusal.message : Refusal → String
  | .unreadable text position => "Error parsing datetime string \x22" ++ text ++
      "\x22 at position " ++ position.repr
  | .outOfRange part text => part ++ " out of range in datetime string \x22" ++ text ++ "\x22"

/-- Where reading stops: at what is left of the text, or in a part. -/
inductive Stop where
  | before (rest : List Char)
  | outOfRange (part : String)

/-- Values of the digits that a text starts with. -/
def leadingDigits (cs : List Char) : List Nat :=
  (cs.takeWhile Char.isDigit).filterMap Text.asciiDigit?

/-- A two-digit part of at least `low` and below `high`. -/
def twoDigits (part : String) (low high : Nat) : List Char → Except Stop (Nat × List Char)
  | a :: b :: rest =>
    match Text.asciiDigit? a, Text.asciiDigit? b with
    | some x, some y =>
      let n := 10 * x + y
      if low ≤ n && n < high then .ok (n, rest) else .error (.outOfRange part)
    | _, _ => .error (.before (a :: b :: rest))
  | rest => .error (.before rest)

/-- A part of one digit or two. -/
def offsetPart (part : String) (high : Nat) (cs : List Char) : Except Stop (Nat × List Char) :=
  match cs with
  | a :: b :: rest =>
    match Text.asciiDigit? a, Text.asciiDigit? b with
    | some _, some _ => twoDigits part 0 high cs
    | some x, none => .ok (x, b :: rest)
    | none, _ => .error (.before cs)
  | [a] =>
    match Text.asciiDigit? a with
    | some x => .ok (x, [])
    | none => .error (.before cs)
  | [] => .error (.before [])

/-- Reading goes on after a hyphen. -/
def afterHyphen : List Char → Except Stop (List Char)
  | '-' :: rest => .ok rest
  | rest => .error (.before rest)

/-- Nothing but spaces may be left. -/
def finish {α : Type} (x : α) (cs : List Char) : Except Stop α :=
  match cs.dropWhile Numeral.isSpace with
  | [] => .ok x
  | rest => .error (.before rest)

/-- Minutes that a zone is ahead; the zone may be missing, and its minutes
too. -/
def readZone (cs : List Char) : Except Stop Int := do
  match cs with
  | 'Z' :: rest => finish 0 rest
  | sign :: rest =>
    if sign = '+' || sign = '-' then
      let (hours, rest) ← offsetPart "Timezone hours offset" 24 rest
      let (minutes, rest) ←
        match rest with
        | [] => pure (0, [])
        | ':' :: rest => offsetPart "Timezone minutes offset" 60 rest
        | rest => offsetPart "Timezone minutes offset" 60 rest
      let ahead : Int := hours * 60 + minutes
      finish (if sign = '-' then -ahead else ahead) rest
    else finish 0 cs
  | [] => return 0

def readTime (days : Int) (cs : List Char) : Except Stop Instant := do
  let (hour, rest) ← twoDigits "Hours" 0 24 cs
  match rest with
  | ':' :: rest =>
    let (minute, rest) ← twoDigits "Minutes" 0 60 rest
    let minutes : Int := days * 1440 + hour * 60 + minute
    match rest with
    | ':' :: rest =>
      let (second, rest) ← twoDigits "Seconds" 0 60 rest
      let seconds (ahead : Int) : Int := (minutes - ahead) * 60 + second
      match rest with
      | '.' :: rest =>
        let digits := (leadingDigits rest).take 18
        let rank := max 1 ((digits.length + 2) / 3)
        let fraction := Numeral.ofDigits 10 digits * Nat.pow 10 (3 * rank - digits.length)
        let ahead ← readZone (rest.drop digits.length)
        return .ofCount (.second (Fin.ofNat 7 rank))
          (seconds ahead * Nat.pow 10 (3 * rank) + fraction)
      | rest => return .ofCount (.second 0) (seconds (← readZone rest))
    | rest => return .ofCount .minute (minutes - (← readZone rest))
  | rest => return .ofCount .hour ((days * 1440 + hour * 60 - (← readZone rest)).fdiv 60)

/-- Reads a date, and the time of the day if there is more. -/
def readDate (negative : Bool) (cs : List Char) : Except Stop Instant := do
  let magnitude : Int := Numeral.ofDigits 10 (leadingDigits cs)
  let year := (if negative then -magnitude else magnitude).bmod (Nat.pow 2 64)
  match cs.dropWhile Char.isDigit with
  | [] => return .ofCount .year (year - 1970)
  | rest =>
    let (month, rest) ← twoDigits "Month" 1 13 (← afterHyphen rest)
    match rest with
    | [] => return .ofCount .month ((year - 1970) * 12 + month - 1)
    | rest =>
      let (day, rest) ← twoDigits "Day" 1 (Calendar.daysInMonth year month + 1)
        (← afterHyphen rest)
      let days := Calendar.dayNumber year month day
      match rest with
      | [] => return .ofCount .day days
      | mark :: rest =>
        if mark = 'T' || mark = ' ' then readTime days rest else throw (.before (mark :: rest))

def read (s : String) : Except Refusal Instant :=
  let cs := s.toList
  let word := String.ofList (cs.map Char.toLower)
  if word == "" || word == "nat" then .ok never
  else if word == "today" then .ok (.counted .day 0)
  else if word == "now" then .ok (.counted (.second 0) 0)
  else
    let (_, rest) := Numeral.takeSign (cs.dropWhile Numeral.isSpace)
    let outcome := if rest.isEmpty then .error (.before []) else readDate (cs.head? = some '-') rest
    let text := String.ofList (cs.takeWhile (·.toNat ≠ 0))
    outcome.mapError fun
      | .before rest => .unreadable text (cs.length - rest.length)
      | .outOfRange part => .outOfRange part text

end Instant

end LayeredConfig
