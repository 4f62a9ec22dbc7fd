import ComponentMarkup.Text.Numeral

/-!
# Dates and times

A moment is a date, a time of day, or a date with a time and perhaps its time zone.  There are several ways to
write the same moment: the time may follow a `T`, a `t` or a space, and zeros may end its fraction.  Reading
keeps the parts and writing chooses one form for them.
-/

namespace ComponentMarkup.Toml

open ComponentMarkup.Text

/-- A day. -/
structure Date where
  /-- The year, of four digits. -/
  year : Nat
  /-- The month, from 1. -/
  month : Nat
  /-- The day of the month, from 1. -/
  day : Nat

/-- A time of day. -/
structure Time where
  /-- The hour, from 0. -/
  hour : Nat
  /-- The minute of the hour, from 0. -/
  minute : Nat
  /-- The second of the minute, from 0; 60 is a leap second. -/
  second : Nat
  /-- The billionths of a second. -/
  nanosecond : Nat

/-- How a time of day is related to universal time. -/
inductive Zone where
  /-- It is universal time. -/
  | universal
  /-- It is some minutes ahead of universal time. -/
  | ahead (minutes : Int)

/-- A date, a time of day, or both. -/
inductive Moment where
  /-- A day. -/
  | date (date : Date)
  /-- A time on any day. -/
  | time (time : Time)
  /-- A time on a day, in a time zone or without one. -/
  | dateTime (date : Date) (time : Time) (zone : Option Zone)

/-! ## Reading -/

/-- A number of exactly `width` digits, and what follows it. -/
def fixedNumber? (width : Nat) (cs : List Char) : Option (Nat × List Char) :=
  let digits := cs.take width
  if digits.length = width && digits.all isDigit then some (numeralValue digits, cs.drop width)
  else none

/-- A number of two digits between bounds, and what follows it. -/
def twoDigits? (least greatest : Nat) (cs : List Char) : Option (Nat × List Char) :=
  (fixedNumber? 2 cs).filter fun (n, _) => least ≤ n && n ≤ greatest

/-- What follows a character. -/
def after? (c : Char) (cs : List Char) : Option (List Char) :=
  if cs.head? == some c then some cs.tail else none

/-- How many days a month has. -/
def daysOf (year month : Nat) : Nat :=
  if month = 2 then
    if year % 4 = 0 && (year % 100 ≠ 0 || year % 400 = 0) then 29 else 28
  else if month = 4 || month = 6 || month = 9 || month = 11 then 30
  else 31

/-- Reads a day that is in the calendar. -/
def readDate? (cs : List Char) : Option (Date × List Char) := do
  let (year, cs) ← fixedNumber? 4 cs
  let cs ← after? '-' cs
  let (month, cs) ← twoDigits? 1 12 cs
  let cs ← after? '-' cs
  let (day, cs) ← twoDigits? 1 (daysOf year month) cs
  return ({ year, month, day }, cs)

/-- The billionths that the digits of a fraction stand for; digits from the tenth on are dropped. -/
def nanosecondsOf (digits : List Char) : Nat :=
  let digits := digits.take 9
  numeralValue (digits ++ List.replicate (9 - digits.length) '0')

/-- Reads a time of day. -/
def readTime? (cs : List Char) : Option (Time × List Char) := do
  let (hour, cs) ← twoDigits? 0 23 cs
  let cs ← after? ':' cs
  let (minute, cs) ← twoDigits? 0 59 cs
  let cs ← after? ':' cs
  let (second, cs) ← twoDigits? 0 60 cs
  match cs with
  | '.' :: rest =>
    if rest.head?.any isDigit then
      let nanosecond := nanosecondsOf (rest.takeWhile isDigit)
      some ({ hour, minute, second, nanosecond }, rest.dropWhile isDigit)
    else none
  | cs => some ({ hour, minute, second, nanosecond := 0 }, cs)

/-- The minutes of a distance from universal time. -/
def minutes? (cs : List Char) : Option Nat := do
  let (hours, cs) ← twoDigits? 0 23 cs
  let cs ← after? ':' cs
  let (minutes, cs) ← twoDigits? 0 59 cs
  if cs.isEmpty then some (60 * hours + minutes) else none

/-- The time zone that a text stands for, the empty text standing for none. -/
def zone? : List Char → Option (Option Zone)
  | [] => some none
  | ['Z'] | ['z'] => some (some .universal)
  | '+' :: cs => (minutes? cs).map fun minutes => some (.ahead minutes)
  | '-' :: cs => (minutes? cs).map fun minutes => some (.ahead (-minutes))
  | _ => none

/-- The time of day that a text stands for, with its time zone if it has one. -/
def zonedTime? (cs : List Char) : Option (Time × Option Zone) :=
  (readTime? cs).bind fun (time, rest) => (zone? rest).map fun zone => (time, zone)

/-- The moment that a text without spaces stands for. -/
def moment? (cs : List Char) : Option Moment :=
  match readDate? cs with
  | some (date, []) => some (.date date)
  | some (date, c :: cs) =>
    if c == 'T' || c == 't' then (zonedTime? cs).map fun (time, zone) => .dateTime date time zone
    else none
  | none => (readTime? cs).bind fun (time, rest) => if rest.isEmpty then some (.time time) else none

/-! ## Writing -/

/-- A number with zeros before it, so that it has at least `width` digits. -/
def padded (width n : Nat) : List Char :=
  let digits := Nat.toDigits 10 n
  List.replicate (width - digits.length) '0' ++ digits

/-- A day, as year, month and day. -/
def Date.written (date : Date) : List Char :=
  padded 4 date.year ++ '-' :: padded 2 date.month ++ '-' :: padded 2 date.day

/-- The fraction of a second without zeros at its end, or nothing if there is none. -/
def fractionWritten (nanosecond : Nat) : List Char :=
  if nanosecond = 0 then []
  else '.' :: ((padded 9 nanosecond).reverse.dropWhile (· == '0')).reverse

/-- A time of day, as hour, minute, second and fraction. -/
def Time.written (time : Time) : List Char :=
  padded 2 time.hour ++ ':' :: padded 2 time.minute ++ ':' :: padded 2 time.second ++
    fractionWritten time.nanosecond

/-- A time zone, as a `Z` or as a sign, hours and minutes.  No distance at all is written with a plus. -/
def Zone.written : Zone → List Char
  | universal => ['Z']
  | ahead minutes =>
    let size := minutes.natAbs
    (if minutes < 0 then '-' else '+') :: padded 2 (size / 60) ++ ':' :: padded 2 (size % 60)

/-- A moment, with a `T` between date and time. -/
def Moment.text : Moment → String
  | date d => String.ofList d.written
  | time t => String.ofList t.written
  | dateTime d t zone => String.ofList (d.written ++ 'T' :: t.written ++ (zone.map Zone.written).getD [])

end ComponentMarkup.Toml
