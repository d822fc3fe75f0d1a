/-
Formats of timestamps.

- `TimeItem`: a piece of a format: text, a padded number, or one of the other things a format can ask for.
- `TimeFormat.parse?`: the pieces of a format. A percent sign opens a specifier; `-`, `_` and `0` before the letter of a
  number ask for no padding, spaces and zeros.
- `TimeFormat.render?`: an instant in a format, in universal time.
-/
import GraphGen.Time.Calendar

namespace GraphGen

/-- how a number is filled up to its width -/
inductive Padding where
  | none
  | zero
  | space
  deriving DecidableEq, Inhabited

/-- a number of an instant -/
inductive TimeNumber where
  | year
  | century
  | yearOfCentury
  | quarter
  | month
  | day
  | weekday
  | weekdayFromMonday
  | weekFromSunday
  | weekFromMonday
  | isoYear
  | isoYearOfCentury
  | isoWeek
  | dayOfYear
  | hour
  | hour12
  | minute
  | second
  | nanosecond
  | timestamp
  deriving DecidableEq, Inhabited

/-- a piece of a format -/
inductive TimeItem where
  | text (text : List Char)
  | number (field : TimeNumber) (padding : Padding)
  | monthName
  | shortMonthName
  | weekdayName
  | shortWeekdayName
  | upperHalfDay
  | lowerHalfDay
  /-- nothing, or a point and as many groups of three digits as are needed -/
  | shortFraction
  /-- so many digits of the fraction, with or without a point before them -/
  | fraction (digits : Nat) (point : Bool)
  /-- an offset that other programs read but that cannot be written -/
  | looseOffset
  deriving DecidableEq, Inhabited

/-- a format of timestamps -/
abbrev TimeFormat := List TimeItem

namespace TimeFormat

/-! ## Reading -/

/-- the number that a letter asks for, with its usual padding -/
def number? : Char → Option (TimeNumber × Padding)
  | 'Y' => some (.year, .zero)
  | 'C' => some (.century, .zero)
  | 'y' => some (.yearOfCentury, .zero)
  | 'q' => some (.quarter, .none)
  | 'm' => some (.month, .zero)
  | 'd' => some (.day, .zero)
  | 'e' => some (.day, .space)
  | 'w' => some (.weekday, .none)
  | 'u' => some (.weekdayFromMonday, .none)
  | 'U' => some (.weekFromSunday, .zero)
  | 'W' => some (.weekFromMonday, .zero)
  | 'G' => some (.isoYear, .zero)
  | 'g' => some (.isoYearOfCentury, .zero)
  | 'V' => some (.isoWeek, .zero)
  | 'j' => some (.dayOfYear, .zero)
  | 'H' => some (.hour, .zero)
  | 'k' => some (.hour, .space)
  | 'I' => some (.hour12, .zero)
  | 'l' => some (.hour12, .space)
  | 'M' => some (.minute, .zero)
  | 'S' => some (.second, .zero)
  | 'f' => some (.nanosecond, .zero)
  | 's' => some (.timestamp, .none)
  | _ => none

/-- a number filled up with zeros -/
def numberItem (field : TimeNumber) : TimeItem :=
  .number field .zero

/-- some text -/
def textItem (text : String) : TimeItem :=
  .text text.toList

/-- month, day and year of the century -/
def slashDate : TimeFormat :=
  [numberItem .month, textItem "/", numberItem .day, textItem "/", numberItem .yearOfCentury]

/-- year, month and day -/
def dashDate : TimeFormat :=
  [numberItem .year, textItem "-", numberItem .month, textItem "-", numberItem .day]

/-- hour and minute -/
def hourMinute : TimeFormat :=
  [numberItem .hour, textItem ":", numberItem .minute]

/-- hour, minute and second -/
def clock : TimeFormat :=
  hourMinute ++ [textItem ":", numberItem .second]

/-- the pieces that a single letter asks for -/
def letter? (c : Char) : Option TimeFormat :=
  match number? c with
  | some (field, padding) => some [.number field padding]
  | none =>
    match c with
    | 'B' => some [.monthName]
    | 'b' | 'h' => some [.shortMonthName]
    | 'A' => some [.weekdayName]
    | 'a' => some [.shortWeekdayName]
    | 'p' => some [.upperHalfDay]
    | 'P' => some [.lowerHalfDay]
    | 'D' | 'x' => some slashDate
    | 'F' => some dashDate
    | 'v' => some [.number .day .space, textItem "-", .shortMonthName, textItem "-", numberItem .year]
    | 'R' => some hourMinute
    | 'T' | 'X' => some clock
    | 'r' =>
      some [numberItem .hour12, textItem ":", numberItem .minute, textItem ":", numberItem .second, textItem " ",
        .upperHalfDay]
    | 'c' =>
      some ([.shortWeekdayName, textItem " ", .shortMonthName, textItem " ", .number .day .space, textItem " "] ++ clock
        ++ [textItem " ", numberItem .year])
    | '+' => some (dashDate ++ [textItem "T"] ++ clock ++ [.shortFraction, textItem "+00:00"])
    | 'Z' => some [textItem "UTC"]
    | 'z' => some [textItem "+0000"]
    | 't' => some [textItem "\t"]
    | 'n' => some [textItem "\n"]
    | '%' => some [textItem "%"]
    | _ => none

/-- the piece of a number with a padding of its own -/
def padded? (padding : Padding) (c : Char) : Option TimeFormat :=
  (number? c).map fun (field, _) => [.number field padding]

/-- the pieces of a format, none when a specifier is unknown or cut off -/
def pieces? : List Char → Option TimeFormat
  | [] => some []
  | '%' :: '-' :: c :: rest => do some ((← padded? .none c) ++ (← pieces? rest))
  | '%' :: '_' :: c :: rest => do some ((← padded? .space c) ++ (← pieces? rest))
  | '%' :: '0' :: c :: rest => do some ((← padded? .zero c) ++ (← pieces? rest))
  | '%' :: ':' :: ':' :: ':' :: 'z' :: rest => (pieces? rest).map (textItem "+00" :: ·)
  | '%' :: ':' :: ':' :: 'z' :: rest => (pieces? rest).map (textItem "+00:00:00" :: ·)
  | '%' :: ':' :: 'z' :: rest => (pieces? rest).map (textItem "+00:00" :: ·)
  | '%' :: '#' :: 'z' :: rest => (pieces? rest).map (.looseOffset :: ·)
  | '%' :: '.' :: 'f' :: rest => (pieces? rest).map (.shortFraction :: ·)
  | '%' :: '.' :: '3' :: 'f' :: rest => (pieces? rest).map (.fraction 3 true :: ·)
  | '%' :: '.' :: '6' :: 'f' :: rest => (pieces? rest).map (.fraction 6 true :: ·)
  | '%' :: '.' :: '9' :: 'f' :: rest => (pieces? rest).map (.fraction 9 true :: ·)
  | '%' :: '3' :: 'f' :: rest => (pieces? rest).map (.fraction 3 false :: ·)
  | '%' :: '6' :: 'f' :: rest => (pieces? rest).map (.fraction 6 false :: ·)
  | '%' :: '9' :: 'f' :: rest => (pieces? rest).map (.fraction 9 false :: ·)
  | '%' :: c :: rest => do some ((← letter? c) ++ (← pieces? rest))
  | ['%'] => none
  | c :: rest => (pieces? rest).map (.text [c] :: ·)

/-- the pieces of a format, none when a specifier is unknown or cut off -/
def parse? (format : String) : Option TimeFormat :=
  pieces? format.toList

/-! ## Writing -/

/-- a text filled up on the left -/
def fillLeft (c : Char) (width : Nat) (text : List Char) : List Char :=
  List.replicate (width - text.length) c ++ text

/-- the decimal digits of a number -/
def digits (n : Nat) : List Char :=
  (toString n).toList

/-- a number of at least `width` digits; zeros stand after the sign, spaces before it -/
def fillNumber (padding : Padding) (width : Nat) (sign : List Char) (n : Nat) : List Char :=
  match padding with
  | .none => sign ++ digits n
  | .zero => sign ++ fillLeft '0' (width - sign.length) (digits n)
  | .space => fillLeft ' ' width (sign ++ digits n)

/-- an integer with a sign when it is negative -/
def signed (padding : Padding) (width : Nat) (n : Int) : List Char :=
  fillNumber padding width (if n < 0 then ['-'] else []) n.natAbs

/-- a year of four digits; other years have a sign and up to four digits more -/
def yearText (padding : Padding) (year : Int) : List Char :=
  if 0 ≤ year && year < 10000 then signed padding 4 year
  else fillNumber padding 5 (if year < 0 then ['-'] else ['+']) year.natAbs

/-- a number of two digits -/
def twoDigits (padding : Padding) (n : Nat) : List Char :=
  fillNumber padding 2 [] n

/-- the weekday names from Sunday on -/
def weekdayNames : List String :=
  ["Sunday", "Monday", "Tuesday", "Wednesday", "Thursday", "Friday", "Saturday"]

/-- the month names -/
def monthNames : List String :=
  ["January", "February", "March", "April", "May", "June", "July", "August", "September", "October", "November",
    "December"]

/-- a name of a list -/
def nameAt (names : List String) (index : Nat) : List Char :=
  (names.getD index "").toList

/-- the first `count` digits of the nine that nanoseconds have -/
def fractionDigits (count nanoseconds : Nat) : List Char :=
  (fillLeft '0' 9 (digits nanoseconds)).take count

/-- a fraction with as few groups of three digits as tell it, nothing when it is zero -/
def shortFraction (nanoseconds : Nat) : List Char :=
  if nanoseconds = 0 then []
  else if nanoseconds % 1000000 = 0 then '.' :: fractionDigits 3 nanoseconds
  else if nanoseconds % 1000 = 0 then '.' :: fractionDigits 6 nanoseconds
  else '.' :: fractionDigits 9 nanoseconds

/-- the century of a year as a number of eight bits; its tens are counted on from the character zero -/
def centuryText (padding : Padding) (year : Int) : List Char :=
  let century := (year / 100 % 256).toNat
  if century < 10 then twoDigits padding century else Char.ofNat (48 + century / 10) :: digits (century % 10)

/-- a number of an instant -/
def numberText (t : Instant) (padding : Padding) : TimeNumber → List Char
  | .year => yearText padding t.date.year
  | .century => centuryText padding t.date.year
  | .yearOfCentury => twoDigits padding (t.date.year % 100).toNat
  | .quarter => digits ((t.date.month - 1) / 3 + 1)
  | .month => twoDigits padding t.date.month
  | .day => twoDigits padding t.date.day
  | .weekday => digits t.date.weekday
  | .weekdayFromMonday => digits (t.date.weekdayFromMonday + 1)
  | .weekFromSunday => twoDigits padding (t.date.weeksBegun t.date.weekday)
  | .weekFromMonday => twoDigits padding (t.date.weeksBegun t.date.weekdayFromMonday)
  | .isoYear => yearText padding t.date.isoWeek.year
  | .isoYearOfCentury => twoDigits padding (t.date.isoWeek.year % 100).toNat
  | .isoWeek => twoDigits padding t.date.isoWeek.week
  | .dayOfYear => fillNumber padding 3 [] t.date.dayOfYear
  | .hour => twoDigits padding t.hour
  | .hour12 => twoDigits padding t.hour12
  | .minute => twoDigits padding t.minute
  | .second => twoDigits padding t.second
  | .nanosecond => fillNumber padding 9 [] t.fraction
  | .timestamp => signed padding 9 t.seconds

/-- whether a piece can be written -/
def isWritable : TimeItem → Bool
  | .looseOffset => false
  | _ => true

/-- a piece of a format for an instant -/
def itemText (t : Instant) : TimeItem → List Char
  | .text text => text
  | .number field padding => numberText t padding field
  | .monthName => nameAt monthNames (t.date.month - 1)
  | .shortMonthName => (nameAt monthNames (t.date.month - 1)).take 3
  | .weekdayName => nameAt weekdayNames t.date.weekday
  | .shortWeekdayName => (nameAt weekdayNames t.date.weekday).take 3
  | .upperHalfDay => if t.hour < 12 then ['A', 'M'] else ['P', 'M']
  | .lowerHalfDay => if t.hour < 12 then ['a', 'm'] else ['p', 'm']
  | .shortFraction => shortFraction t.fraction
  | .fraction count point => (if point then ['.'] else []) ++ fractionDigits count t.fraction
  | .looseOffset => []

/-- an instant in a format, none when a piece cannot be written -/
def render? (format : TimeFormat) (t : Instant) : Option String :=
  if format.all isWritable then some (String.ofList (format.flatMap (itemText t))) else none

end TimeFormat

end GraphGen
