import Relief.Text.Quoted

/-!
Dates and times of day, as plain scalars write them.
-/
namespace Relief.Yaml

/-- How far a clock is ahead of the first meridian, in minutes, and how that is written. -/
structure Zone where
  ahead : Int
  name : String
  deriving DecidableEq, Repr

structure Clock where
  hour : Nat
  minute : Nat
  second : Nat
  /-- The digits after the point of the second. -/
  fraction : List Nat
  zone : Option Zone
  deriving DecidableEq, Repr

structure Stamp where
  year : Nat
  month : Nat
  day : Nat
  clock : Option Clock
  deriving DecidableEq, Repr

namespace Stamp

/-- A number of so many digits at least and at most, and what follows. -/
def number? (least most : Nat) (cs : List Char) : Option (Nat × List Char) :=
  let ds := (cs.takeWhile Char.isDigit).take most
  if ds.length < least then none
  else some (ds.foldl (fun n c => 10 * n + (c.toNat - 48)) 0, cs.drop ds.length)

def past? (mark : Char) : List Char → Option (List Char)
  | c :: cs => if c = mark then some cs else none
  | [] => none

def isGap (c : Char) : Bool := c == ' ' || c == '\t'

/-- The zone at the end of a text. -/
def zone? (cs : List Char) : Option (Option Zone) :=
  match cs.dropWhile isGap with
  | [] => if cs.isEmpty then some none else none
  | ['Z'] => some (some ⟨0, "Z"⟩)
  | sign :: rest => do
    if sign != '+' && sign != '-' then none
    let (hours, after) ← number? 1 2 rest
    let (minutes, after) ← match after with
      | ':' :: after => number? 2 2 after
      | _ => some (0, after)
    if !after.isEmpty then none
    let ahead : Int := 60 * hours + minutes
    return some ⟨if sign == '-' then -ahead else ahead, String.ofList (sign :: rest)⟩

def clock? (cs : List Char) : Option Clock := do
  let (hour, cs) ← number? 1 2 cs
  let (minute, cs) ← number? 2 2 (← past? ':' cs)
  let (second, cs) ← number? 2 2 (← past? ':' cs)
  let (fraction, cs) := match cs with
    | '.' :: cs => (cs.takeWhile Char.isDigit, cs.dropWhile Char.isDigit)
    | _ => ([], cs)
  return ⟨hour, minute, second, fraction.map (·.toNat - 48), ← zone? cs⟩

/-- The clock after a date. A letter or blanks divide the two. -/
def clockAfter? : List Char → Option (Option Clock)
  | [] => some none
  | c :: cs =>
    if c == 'T' || c == 't' then (clock? cs).map some
    else if isGap c then (clock? (cs.dropWhile isGap)).map some
    else none

def parse? (cs : List Char) : Option Stamp := do
  let (year, cs) ← number? 4 4 cs
  let (month, cs) ← number? 1 2 (← past? '-' cs)
  let (day, cs) ← number? 1 2 (← past? '-' cs)
  return ⟨year, month, day, ← clockAfter? cs⟩

def dateLength : Nat := 10

/-- Whether a plain scalar is a stamp. A date alone has all its digits. -/
def isPlain (cs : List Char) : Bool :=
  match parse? cs with
  | some s => s.clock.isSome || cs.length == dateLength
  | none => false

def isLeap (year : Nat) : Bool :=
  year % 4 == 0 && (year % 100 != 0 || year % 400 == 0)

def daysIn (year month : Nat) : Nat :=
  if month == 2 then if isLeap year then 29 else 28
  else if month ∈ [4, 6, 9, 11] then 30
  else 31

def lastYear : Nat := 9999

def isDate (year month day : Nat) : Bool :=
  0 < year && year ≤ lastYear && 0 < month && month ≤ 12 && 0 < day && day ≤ daysIn year month

def dayMinutes : Nat := 1440

def Zone.isValid (z : Zone) : Bool := z.ahead.natAbs < dayMinutes

/-- Whether there is such a date and such a time. -/
def isValid (s : Stamp) : Bool :=
  isDate s.year s.month s.day
    && s.clock.all fun c =>
      c.hour < 24 && c.minute < 60 && c.second < 60 && c.zone.all Zone.isValid

/-- The day after. -/
def nextDay (s : Stamp) : Stamp :=
  if s.day < daysIn s.year s.month then { s with day := s.day + 1 }
  else if s.month < 12 then { s with month := s.month + 1, day := 1 }
  else { s with year := s.year + 1, month := 1, day := 1 }

/-- A time as a second of its day and millionths of that second. -/
def Clock.instant (c : Clock) : Nat × Nat :=
  let sixth := (c.fraction ++ List.replicate 6 0).take 6
  let micro := sixth.foldl (fun n d => 10 * n + d) 0
  let rounded := if (c.fraction[6]?).any (4 < ·) then micro + 1 else micro
  (3600 * c.hour + 60 * c.minute + c.second + rounded / 1000000, rounded % 1000000)

def padded (width n : Nat) : String :=
  let s := toString n
  String.ofList (List.replicate (width - s.length) '0') ++ s

def dateText (s : Stamp) : String :=
  padded 4 s.year ++ "-" ++ padded 2 s.month ++ "-" ++ padded 2 s.day

def Zone.text (z : Zone) : String :=
  let n := z.ahead.natAbs
  (if z.ahead < 0 then "-" else "+") ++ padded 2 (n / 60) ++ ":" ++ padded 2 (n % 60)

def Zone.code (z : Zone) : String :=
  let seconds := (60 * z.ahead) % 86400
  let span :=
    if z.ahead = 0 then "0"
    else if z.ahead < 0 then
      "days=-1" ++ (if seconds = 0 then "" else ", seconds=" ++ toString seconds)
    else "seconds=" ++ toString seconds
  "tzinfo=datetime.timezone(datetime.timedelta(" ++ span ++ "), " ++ Text.quoted z.name ++ ")"

def dateParts (s : Stamp) : List String :=
  [toString s.year, toString s.month, toString s.day]

/-- How many days of its year come before a month. -/
def daysBeforeMonth (year month : Nat) : Nat :=
  (List.range (month - 1)).foldl (fun n k => n + daysIn year (k + 1)) 0

/-- The number of a day, counted from the first one of the calendar. -/
def dayNumber (s : Stamp) : Nat :=
  let past := s.year - 1
  365 * past + past / 4 - past / 100 + past / 400 + daysBeforeMonth s.year s.month + s.day

/-- What a stamp is taken for. -/
structure Reading where
  text : String
  /-- What it is within other values. -/
  code : String
  /-- The millionths of a second before it, if it has a zone. -/
  instant : Option Int
  deriving DecidableEq, Repr

/-- The reading of a stamp. None if it is rounded to a time after the last one. -/
def reading? (s : Stamp) : Option Reading :=
  match s.clock with
  | none =>
    some ⟨s.dateText, "datetime.date(" ++ String.intercalate ", " s.dateParts ++ ")", none⟩
  | some c =>
    let (seconds, micro) := Clock.instant c
    let s := if seconds < 86400 then s else s.nextDay
    let (hour, minute, second) := (seconds / 3600 % 24, seconds / 60 % 60, seconds % 60)
    let text := s.dateText ++ " " ++ padded 2 hour ++ ":" ++ padded 2 minute ++ ":"
      ++ padded 2 second ++ (if micro = 0 then "" else "." ++ padded 6 micro)
      ++ (c.zone.map Zone.text).getD ""
    let fine := if micro ≠ 0 then [second, micro] else if second ≠ 0 then [second] else []
    let parts := s.dateParts ++ ([hour, minute] ++ fine).map toString
      ++ (c.zone.map Zone.code).toList
    let instant (z : Zone) : Int :=
      (86400 * (s.dayNumber : Int) + (seconds % 86400 : Nat) - 60 * z.ahead) * 1000000 + micro
    if s.year ≤ lastYear then
      some ⟨text, "datetime.datetime(" ++ String.intercalate ", " parts ++ ")", c.zone.map instant⟩
    else none

end Stamp

end Relief.Yaml
