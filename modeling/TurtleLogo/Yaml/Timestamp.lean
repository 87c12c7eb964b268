import TurtleLogo.Text.Bytes

/-!
Points in time: a date, alone or with a time of day. Months, days and the parts of a time
may have one digit, seconds may have a fraction, and a time behind the letter T needs a
zone, while one behind a space has none.
-/
namespace TurtleLogo.Yaml
open Text

/-- A point in time as it is written, its zone as the seconds by which that is ahead if it is not
    the common one. -/
structure Moment where
  year : Nat
  month : Nat
  day : Nat
  hour : Nat
  minute : Nat
  second : Nat
  nanosecond : Nat
  zone : Option Int
  deriving DecidableEq, Repr

namespace Moment

def monthNames : List String :=
  ["January", "February", "March", "April", "May", "June", "July", "August", "September",
   "October", "November", "December"]

def zoneText : Option Int → String
  | none => "time.UTC"
  | some 0 => "time.Local"
  | some _ => "time.Location(\"\")"

def shown (m : Moment) : Bytes :=
  let parts := [m.day, m.hour, m.minute, m.second, m.nanosecond].map decimal
  utf8 "time.Date(" ++ joined (utf8 ", ")
    ([decimal m.year, utf8 ("time." ++ (monthNames[m.month - 1]?).getD "")] ++ parts ++
      [utf8 (zoneText m.zone)]) ++ utf8 ")"

/-- Whether moments of a zone are ever the same: of the zones that are given only those by whole
    hours are known. -/
def isKnownZone : Option Int → Bool
  | none => true
  | some zone => zone % 3600 == 0 && -12 * 3600 ≤ zone && zone ≤ 14 * 3600

def isSame (a b : Moment) : Bool := a == b && isKnownZone a.zone

def keys (m : Moment) : List Nat :=
  [m.nanosecond, m.year, m.month, m.day, m.hour, m.minute, m.second]

end Moment

def daysIn (year month : Nat) : Nat :=
  if month == 2 then if year % 4 == 0 && (year % 100 != 0 || year % 400 == 0) then 29 else 28
  else if month == 4 || month == 6 || month == 9 || month == 11 then 30
  else 31

def short? : Bytes → Option (Nat × Bytes)
  | [] => none
  | a :: rest =>
    if !isDigit a then none
    else match rest with
      | b :: tail =>
        if isDigit b then some (10 * digitValue a + digitValue b, tail)
        else some (digitValue a, rest)
      | [] => some (digitValue a, [])

def after? (mark : Char) : Bytes → Option Bytes
  | [] => none
  | b :: rest => if b == byte mark then some rest else none

def date? (text : Bytes) : Option (Moment × Bytes) := do
  let digits := text.takeWhile isDigit
  let year := natOfDigits digits
  let rest ← after? '-' (text.drop digits.length)
  let (month, rest) ← short? rest
  let rest ← after? '-' rest
  let (day, rest) ← short? rest
  if digits.length == 4 && 1 ≤ month && month ≤ 12 && 1 ≤ day && day ≤ daysIn year month then
    some (⟨year, month, day, 0, 0, 0, 0, none⟩, rest)
  else none

def fraction : Bytes → Nat × Bytes
  | mark :: digit :: rest =>
    if (mark == byte '.' || mark == byte ',') && isDigit digit then
      let digits := digit :: rest.takeWhile isDigit
      (natOfDigits ((digits ++ List.replicate 9 48).take 9), rest.dropWhile isDigit)
    else (0, mark :: digit :: rest)
  | text => (0, text)

def timeOn? (date : Moment) (text : Bytes) : Option (Moment × Bytes) := do
  let (hour, rest) ← short? text
  let rest ← after? ':' rest
  let (minute, rest) ← short? rest
  let rest ← after? ':' rest
  let (second, rest) ← short? rest
  let (nanosecond, rest) := fraction rest
  if hour < 24 && minute < 60 && second < 60 then
    some ({ date with hour, minute, second, nanosecond }, rest)
  else none

def zone? : Bytes → Option (Option Int)
  | [z] => if z == byte 'Z' then some none else none
  | [sign, h, i, colon, m, n] =>
    let hours := natOfDigits [h, i]
    let minutes := natOfDigits [m, n]
    let seconds : Int := 60 * (60 * hours + minutes)
    if colon == byte ':' && [h, i, m, n].all isDigit && hours ≤ 24 && minutes ≤ 60 then
      if sign == byte '+' then some (some seconds)
      else if sign == byte '-' then some (some (-seconds))
      else none
    else none
  | _ => none

def timestamp? (text : Bytes) : Option Moment := do
  let (date, rest) ← date? text
  match rest with
  | [] => return date
  | mark :: rest =>
    if mark == byte 'T' || mark == byte 't' then
      let (moment, rest) ← timeOn? date rest
      return { moment with zone := ← zone? rest }
    else
      let (moment, rest) ← timeOn? date (rest.dropWhile (· == space))
      if mark == space && rest.isEmpty then some moment else none

end TurtleLogo.Yaml
