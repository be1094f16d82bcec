/-!
# Dates and moments

Days of the Gregorian calendar from year 1 to year 9999, and moments within a
day, to the microsecond, with or without a distance from universal time.  The
constructors check their parts from the year down and name the first one that
is out of range.
-/

namespace TextMate

structure Date where
  year : Nat
  month : Nat
  day : Nat
  deriving DecidableEq, Repr

/-- A moment, with its distance from universal time in minutes if that is known. -/
structure Moment where
  date : Date
  hour : Nat
  minute : Nat
  second : Nat
  microsecond : Nat
  offset : Option Int
  deriving DecidableEq, Repr

/-- The part of a date or moment that is out of range. -/
inductive CalendarFault where
  | year (n : Nat)
  | month
  | day
  | hour
  | minute
  | second
  | offset (minutes : Int)
  deriving DecidableEq, Repr

namespace Calendar

/-- Whole days and remaining seconds of a number of minutes; the seconds are never negative. -/
def daysAndSeconds (minutes : Int) : Int × Int :=
  (minutes.fdiv 1440, minutes.fmod 1440 * 60)

def durationText (minutes : Int) : String :=
  let (days, seconds) := daysAndSeconds minutes
  let parts :=
    (if days == 0 then [] else ["days=" ++ toString days])
      ++ (if seconds == 0 then [] else ["seconds=" ++ toString seconds])
  "datetime.timedelta(" ++ (if parts.isEmpty then "0" else ", ".intercalate parts) ++ ")"

def isLeap (year : Nat) : Bool :=
  year % 4 == 0 && (year % 100 != 0 || year % 400 == 0)

def monthLength (year month : Nat) : Nat :=
  if month == 2 then (if isLeap year then 29 else 28)
  else if month == 4 || month == 6 || month == 9 || month == 11 then 30
  else 31

def daysBeforeYear (year : Nat) : Nat :=
  let y := year - 1
  y * 365 + y / 4 - y / 100 + y / 400

def dayNumber (date : Date) : Nat :=
  daysBeforeYear date.year
    + ((List.range (date.month - 1)).foldl
        (fun days m => days + monthLength date.year (m + 1)) 0)
    + date.day

end Calendar

open Calendar

def CalendarFault.message : CalendarFault → String
  | .year n => "year " ++ toString n ++ " is out of range"
  | .month => "month must be in 1..12"
  | .day => "day is out of range for month"
  | .hour => "hour must be in 0..23"
  | .minute => "minute must be in 0..59"
  | .second => "second must be in 0..59"
  | .offset minutes =>
      "offset must be a timedelta strictly between -timedelta(hours=24) and "
        ++ "timedelta(hours=24), not " ++ durationText minutes ++ "."

def Date.ofParts (year month day : Nat) : Except CalendarFault Date :=
  if year < 1 || 9999 < year then .error (.year year)
  else if month < 1 || 12 < month then .error .month
  else if day < 1 || monthLength year month < day then .error .day
  else .ok ⟨year, month, day⟩

/-- The moment with the given parts; its distance from universal time is checked first. -/
def Moment.ofParts (year month day hour minute second microsecond : Nat)
    (offset : Option Int) : Except CalendarFault Moment := do
  match offset with
  | some minutes => if 1440 <= minutes.natAbs then throw (.offset minutes)
  | none => pure ()
  let date ← Date.ofParts year month day
  if 23 < hour then throw .hour
  if 59 < minute then throw .minute
  if 59 < second then throw .second
  return ⟨date, hour, minute, second, microsecond, offset⟩

def Calendar.padded (width n : Nat) : String :=
  let digits := (toString n).toList
  String.ofList (List.replicate (width - digits.length) '0' ++ digits)

def Date.text (date : Date) : String :=
  padded 4 date.year ++ "-" ++ padded 2 date.month ++ "-" ++ padded 2 date.day

def Calendar.offsetText (minutes : Int) : String :=
  (if minutes < 0 then "-" else "+") ++ padded 2 (minutes.natAbs / 60) ++ ":"
    ++ padded 2 (minutes.natAbs % 60)

/-- A moment as its day, a blank, and its time; microseconds only where there are some. -/
def Moment.text (moment : Moment) : String :=
  moment.date.text ++ " " ++ padded 2 moment.hour ++ ":" ++ padded 2 moment.minute ++ ":"
    ++ padded 2 moment.second
    ++ (if moment.microsecond == 0 then "" else "." ++ padded 6 moment.microsecond)
    ++ (moment.offset.map offsetText).getD ""

def Date.callText (date : Date) : String :=
  "datetime.date(" ++ toString date.year ++ ", " ++ toString date.month ++ ", "
    ++ toString date.day ++ ")"

/-- A moment as a constructor call, without the seconds and microseconds that are zero at
its end. -/
def Moment.callText (moment : Moment) : String :=
  let fields :=
    [moment.date.year, moment.date.month, moment.date.day, moment.hour, moment.minute]
      ++ (if moment.microsecond != 0 then [moment.second, moment.microsecond]
          else if moment.second != 0 then [moment.second] else [])
  let zone :=
    match moment.offset with
    | none => []
    | some minutes =>
        ["tzinfo=datetime.timezone"
          ++ (if minutes == 0 then ".utc" else "(" ++ durationText minutes ++ ")")]
  "datetime.datetime(" ++ ", ".intercalate (fields.map (fun n => toString n) ++ zone) ++ ")"

/-- Microseconds from the start of year 1 to a moment, on its own clock or, where its
distance from universal time is known, on the universal one. -/
def Moment.clock (moment : Moment) : Int :=
  let minutes : Int :=
    ((dayNumber moment.date * 24 + moment.hour) * 60 + moment.minute : Nat)
      - moment.offset.getD 0
  (minutes * 60 + (moment.second : Int)) * 1000000 + (moment.microsecond : Int)

/-- Two moments are the same when both or neither know their distance from universal time
and their clocks agree. -/
def Moment.same (a b : Moment) : Bool :=
  a.offset.isSome == b.offset.isSome && a.clock == b.clock

end TextMate
