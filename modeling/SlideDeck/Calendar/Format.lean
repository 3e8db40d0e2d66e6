import SlideDeck.Calendar.Civil

/-!
Texts of moments after a pattern. In a pattern, a percent sign begins a conversion; between the two a
number may be given another padding. The offset from universal time is always zero.
-/

namespace SlideDeck.Calendar

inductive Pad where
  | none
  | zero
  | blank
  deriving DecidableEq, Repr

inductive Number where
  | year | century | yearOfCentury | isoYear | isoYearOfCentury | quarter | month | day
  | weekFromSunday | weekFromMonday | isoWeek | weekdayFromSunday | weekdayFromMonday | ordinal
  | hour | hour12 | minute | second | nanosecond | timestamp
  deriving DecidableEq, Repr

inductive Item where
  | text (s : String)
  | number (n : Number) (pad : Pad)
  | shortWeekday
  | longWeekday
  | shortMonth
  | longMonth
  | upperHalf
  | lowerHalf
  | zone
  | iso
  deriving DecidableEq, Repr

/-! Patterns -/

def zeroPadded (n : Number) : Item := .number n .zero

def clock : List Item := [zeroPadded .hour, .text ":", zeroPadded .minute, .text ":", zeroPadded .second]

def clock12 : List Item :=
  [zeroPadded .hour12, .text ":", zeroPadded .minute, .text ":", zeroPadded .second, .text " ", .upperHalf]

def monthDayYear : List Item :=
  [zeroPadded .month, .text "/", zeroPadded .day, .text "/", zeroPadded .yearOfCentury]

def fullDate : List Item :=
  [.shortWeekday, .text " ", .shortMonth, .text " ", .number .day .blank, .text " "] ++ clock ++
    [.text " ", zeroPadded .year]

def conversion? : Char → Option (List Item)
  | 'A' => some [.longWeekday]
  | 'B' => some [.longMonth]
  | 'C' => some [zeroPadded .century]
  | 'D' | 'x' => some monthDayYear
  | 'F' => some [zeroPadded .year, .text "-", zeroPadded .month, .text "-", zeroPadded .day]
  | 'G' => some [zeroPadded .isoYear]
  | 'H' => some [zeroPadded .hour]
  | 'I' => some [zeroPadded .hour12]
  | 'M' => some [zeroPadded .minute]
  | 'P' => some [.lowerHalf]
  | 'R' => some [zeroPadded .hour, .text ":", zeroPadded .minute]
  | 'S' => some [zeroPadded .second]
  | 'T' | 'X' => some clock
  | 'U' => some [zeroPadded .weekFromSunday]
  | 'V' => some [zeroPadded .isoWeek]
  | 'W' => some [zeroPadded .weekFromMonday]
  | 'Y' => some [zeroPadded .year]
  | 'Z' => some [.zone]
  | 'a' => some [.shortWeekday]
  | 'b' | 'h' => some [.shortMonth]
  | 'c' => some fullDate
  | 'd' => some [zeroPadded .day]
  | 'e' => some [.number .day .blank]
  | 'f' => some [zeroPadded .nanosecond]
  | 'g' => some [zeroPadded .isoYearOfCentury]
  | 'j' => some [zeroPadded .ordinal]
  | 'k' => some [.number .hour .blank]
  | 'l' => some [.number .hour12 .blank]
  | 'm' => some [zeroPadded .month]
  | 'n' => some [.text "\n"]
  | 'p' => some [.upperHalf]
  | 'q' => some [.number .quarter .none]
  | 'r' => some clock12
  | 's' => some [.number .timestamp .none]
  | 't' => some [.text "\t"]
  | 'u' => some [.number .weekdayFromMonday .none]
  | 'v' => some [.number .day .blank, .text "-", .shortMonth, .text "-", zeroPadded .year]
  | 'w' => some [.number .weekdayFromSunday .none]
  | 'y' => some [zeroPadded .yearOfCentury]
  | 'z' => some [.text "+0000"]
  | '+' => some [.iso]
  | '%' => some [.text "%"]
  | _ => none

/-- Conversions of several characters: offsets with colons, and fractions of a second. -/
def longConversions : List (String × List Item) :=
  [(":::z", [.text "+00"]), ("::z", [.text "+00:00:00"]), (":z", [.text "+00:00"]),
    (".3f", [.text ".000"]), (".6f", [.text ".000000"]), (".9f", [.text ".000000000"]), (".f", []),
    ("3f", [.text "000"]), ("6f", [.text "000000"]), ("9f", [.text "000000000"])]

def pad? : Char → Option Pad
  | '-' => some .none
  | '0' => some .zero
  | '_' => some .blank
  | _ => none

def readConversion (cs : List Char) : Option (List Item × List Char) :=
  match longConversions.findSome? fun (s, items) =>
      (s.toList.isPrefixOf? cs).map fun rest => (items, rest) with
  | some r => some r
  | none =>
    match cs with
    | [] => none
    | c :: rest =>
      match pad? c, rest with
      | none, _ => (conversion? c).map fun items => (items, rest)
      | some pad, d :: rest =>
        match conversion? d with
        | some [.number n _] => some ([.number n pad], rest)
        | _ => none
      | some _, [] => none

/-- The items of a pattern; `none` if it has an unknown conversion. -/
def readPattern : Nat → List Char → Option (List Item)
  | 0, _ => some []
  | _, [] => some []
  | fuel + 1, '%' :: rest => do
    let (items, rest) ← readConversion rest
    return items ++ (← readPattern fuel rest)
  | fuel + 1, c :: rest => do
    return .text c.toString :: (← readPattern fuel rest)

def pattern? (s : String) : Option (List Item) := readPattern s.length s.toList

/-! Texts -/

def weekdays : List String :=
  ["Sunday", "Monday", "Tuesday", "Wednesday", "Thursday", "Friday", "Saturday"]

def months : List String :=
  ["January", "February", "March", "April", "May", "June", "July", "August", "September", "October",
    "November", "December"]

def abbreviate (s : String) : String := String.ofList (s.toList.take 3)

def fillTo (fill : Char) (width : Nat) (s : String) : String :=
  String.ofList (List.replicate (width - s.length) fill) ++ s

/-- Two digits of a byte; the first one goes on behind the digits if the byte is a hundred or more. -/
def twoDigits (pad : Pad) (n : Nat) : String :=
  let ones := (Char.ofNat ('0'.toNat + n % 10)).toString
  let tens := (Char.ofNat ('0'.toNat + n / 10)).toString
  if n < 10 then
    match pad with
    | .none => ones
    | .blank => " " ++ ones
    | .zero => "0" ++ ones
  else tens ++ ones

/-- Zeros stand behind the sign, blanks before it. -/
def padded (pad : Pad) (width : Nat) (plus : Bool) (n : Int) : String :=
  let sign := if n < 0 then "-" else if plus then "+" else ""
  let digits := toString n.natAbs
  let width := if plus then width + 1 else width
  match pad with
  | .none => sign ++ digits
  | .zero => sign ++ fillTo '0' (width - sign.length) digits
  | .blank => fillTo ' ' width (sign ++ digits)

def yearText (pad : Pad) (year : Int) : String :=
  padded pad 4 (year < 0 || 10000 ≤ year) year

def Number.text (pad : Pad) (m : Moment) : Number → String
  | .year => yearText pad m.date.year
  | .century => twoDigits pad (m.date.year / 100 % 256).toNat
  | .yearOfCentury => twoDigits pad (m.date.year % 100).toNat
  | .isoYear => yearText pad m.date.isoYear
  | .isoYearOfCentury => twoDigits pad (m.date.isoYear % 100).toNat
  | .quarter => toString ((m.date.month + 2) / 3)
  | .month => twoDigits pad m.date.month
  | .day => twoDigits pad m.date.day
  | .weekFromSunday => twoDigits pad (m.date.week m.date.sinceSunday)
  | .weekFromMonday => twoDigits pad (m.date.week m.date.sinceMonday)
  | .isoWeek => twoDigits pad m.date.isoWeek
  | .weekdayFromSunday => toString m.date.sinceSunday
  | .weekdayFromMonday => toString (m.date.sinceMonday + 1)
  | .ordinal => padded pad 3 false m.date.ordinal
  | .hour => twoDigits pad m.hour
  | .hour12 => twoDigits pad ((m.hour + 11) % 12 + 1)
  | .minute => twoDigits pad m.minute
  | .second => twoDigits pad m.second
  | .nanosecond => padded pad 9 false 0
  | .timestamp => padded pad 9 false m.toSeconds

def isoText (m : Moment) : String :=
  let two := twoDigits .zero
  yearText .zero m.date.year ++ "-" ++ two m.date.month ++ "-" ++ two m.date.day ++ "T" ++
    two m.hour ++ ":" ++ two m.minute ++ ":" ++ two m.second ++ "+00:00"

def Item.write (zone : String) (m : Moment) : Item → String
  | .text s => s
  | .number n pad => n.text pad m
  | .shortWeekday => abbreviate (weekdays.getD m.date.sinceSunday "")
  | .longWeekday => weekdays.getD m.date.sinceSunday ""
  | .shortMonth => abbreviate (months.getD (m.date.month - 1) "")
  | .longMonth => months.getD (m.date.month - 1) ""
  | .upperHalf => if m.hour < 12 then "AM" else "PM"
  | .lowerHalf => if m.hour < 12 then "am" else "pm"
  | .zone => zone
  | .iso => isoText m

/-- The text of a moment; `zone` is the name of the time zone. -/
def write (items : List Item) (zone : String) (m : Moment) : String :=
  String.join (items.map (·.write zone m))

end SlideDeck.Calendar
