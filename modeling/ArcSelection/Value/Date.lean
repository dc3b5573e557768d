/-!
# Dates and times of day

Documents may hold calendar dates and moments.  The library only stores, compares and
prints them.
-/

namespace ArcSelection

/-- A calendar date. -/
structure Date where
  year : Nat
  month : Nat
  day : Nat
deriving DecidableEq, Inhabited

/-- A date with a time of day, and the offset of its zone in minutes where one is given. -/
structure Moment where
  date : Date
  hour : Nat
  minute : Nat
  second : Nat
  microsecond : Nat
  zone : Option Int
deriving DecidableEq, Inhabited

/-- A number in at least `width` digits. -/
def padded (width n : Nat) : String :=
  let ds := toString n
  String.ofList (List.replicate (width - ds.length) '0') ++ ds

/-- What is wrong with a date or a moment. -/
inductive CalendarFault where
  | year (n : Nat)
  | month
  | day
  | hour
  | minute
  | second
  | zone (minutes : Int)
deriving Inhabited

namespace CalendarFault

/-- An offset of a zone as a number of days and a number of seconds within a day. -/
def offsetText (minutes : Int) : String :=
  let days := minutes.fdiv (24 * 60)
  let seconds := 60 * (minutes - days * (24 * 60))
  let parts := (if days = 0 then [] else ["days=" ++ toString days]) ++
    (if seconds = 0 then [] else ["seconds=" ++ toString seconds])
  "datetime.timedelta(" ++ String.intercalate ", " parts ++ ")"

/-- The wording of what is wrong. -/
def message : CalendarFault -> String
  | .year n => "year " ++ toString n ++ " is out of range"
  | .month => "month must be in 1..12"
  | .day => "day is out of range for month"
  | .hour => "hour must be in 0..23"
  | .minute => "minute must be in 0..59"
  | .second => "second must be in 0..59"
  | .zone minutes =>
      "offset must be a timedelta strictly between -timedelta(hours=24) and " ++
        "timedelta(hours=24), not " ++ offsetText minutes ++ "."

end CalendarFault

namespace Date

/-- Whether February has a leap day. -/
def isLeapYear (year : Nat) : Bool :=
  year % 4 == 0 && (year % 100 != 0 || year % 400 == 0)

/-- The number of days of a month. -/
def daysIn (year month : Nat) : Nat :=
  if month = 2 then (if isLeapYear year then 29 else 28)
  else if month = 4 || month = 6 || month = 9 || month = 11 then 30
  else 31

/-- What keeps the three numbers from naming a day of the calendar. -/
def fault? (d : Date) : Option CalendarFault :=
  if d.year = 0 || d.year > 9999 then some (.year d.year)
  else if d.month = 0 || d.month > 12 then some .month
  else if d.day = 0 || d.day > daysIn d.year d.month then some .day
  else none

/-- The date as year, month and day. -/
def text (d : Date) : String :=
  padded 4 d.year ++ "-" ++ padded 2 d.month ++ "-" ++ padded 2 d.day

/-- The date as it is written inside messages. -/
def display (d : Date) : String :=
  "datetime.date(" ++ toString d.year ++ ", " ++ toString d.month ++ ", " ++
    toString d.day ++ ")"

end Date

namespace Moment

/-- What is wrong with the offset, which must be less than a day. -/
def zoneFault? (m : Moment) : Option CalendarFault :=
  m.zone.bind fun z => if z.natAbs < 24 * 60 then none else some (.zone z)

/-- What is wrong with the time of day. -/
def timeFault? (m : Moment) : Option CalendarFault :=
  if m.hour > 23 then some .hour
  else if m.minute > 59 then some .minute
  else if m.second > 59 then some .second
  else none

/-- What is wrong with a moment: its offset, its date or its time of day. -/
def fault? (m : Moment) : Option CalendarFault :=
  m.zoneFault?.or (m.date.fault?.or m.timeFault?)

/-- The offset of a zone with its sign. -/
def zoneText (z : Int) : String :=
  (if z < 0 then "-" else "+") ++ padded 2 (z.natAbs / 60) ++ ":" ++ padded 2 (z.natAbs % 60)

/-- The moment with the given text between date and time. -/
def textWith (separator : String) (m : Moment) : String :=
  m.date.text ++ separator ++ padded 2 m.hour ++ ":" ++ padded 2 m.minute ++ ":" ++
    padded 2 m.second ++
    (if m.microsecond = 0 then "" else "." ++ padded 6 m.microsecond) ++
    (match m.zone with
      | some z => zoneText z
      | none => "")

/-- The moment as date and time of day. -/
def text (m : Moment) : String := m.textWith " "

/-- The zone as it is written inside messages. -/
def zoneDisplay (z : Int) : String :=
  if z = 0 then "datetime.timezone.utc"
  else if z < 0 then
    "datetime.timezone(datetime.timedelta(days=-1, seconds=" ++
      toString (86400 + z * 60) ++ "))"
  else "datetime.timezone(datetime.timedelta(seconds=" ++ toString (z * 60) ++ "))"

/-- The moment as it is written inside messages. -/
def display (m : Moment) : String :=
  let parts := [m.date.year, m.date.month, m.date.day, m.hour, m.minute] ++
    (if m.microsecond != 0 then [m.second, m.microsecond]
     else if m.second != 0 then [m.second] else [])
  "datetime.datetime(" ++ String.intercalate ", " (parts.map toString) ++
    (match m.zone with
      | some z => ", tzinfo=" ++ zoneDisplay z
      | none => "") ++ ")"

end Moment

end ArcSelection
