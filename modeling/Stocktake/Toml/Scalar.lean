import Stocktake.Toml.Number

/-! Values without parts and without quotes: numbers, words and dates. -/

namespace Stocktake.Toml

/-- The number that exactly so many digits spell. -/
def fixedDigits? (count : Nat) (text : List Char) : Option Nat :=
  if text.length = count && text.all Char.isDigit then some (numberOfDigits 10 text) else none

/-- A year has a leap day when it divides by four, full centuries only when by four hundred. -/
def isLeapYear (year : Nat) : Bool :=
  year % 4 == 0 && (year % 100 != 0 || year % 400 == 0)

/-- The number of days of a month. -/
def daysIn (year month : Nat) : Nat :=
  if month == 2 then (if isLeapYear year then 29 else 28)
  else if month == 4 || month == 6 || month == 9 || month == 11 then 30
  else 31

/-- A date is written as year, month and day, and has to be in the calendar. -/
def isDate (text : List Char) : Bool :=
  match text.splitOn '-' with
  | [year, month, day] =>
    match fixedDigits? 4 year, fixedDigits? 2 month, fixedDigits? 2 day with
    | some year, some month, some day =>
      1 ≤ month && month ≤ 12 && 1 ≤ day && day ≤ daysIn year month
    | _, _, _ => false
  | _ => false

/-- Two digits that spell a number up to a bound. -/
def isPair (bound : Nat) (text : List Char) : Bool :=
  match fixedDigits? 2 text with
  | some n => n ≤ bound
  | none => false

/-- A time is written as hours, minutes and, unless left out, seconds with or without a fraction. -/
def isTime (text : List Char) : Bool :=
  match text.splitOn ':' with
  | [hours, minutes] => isPair 23 hours && isPair 59 minutes
  | [hours, minutes, seconds] =>
    isPair 23 hours && isPair 59 minutes &&
      match seconds.splitOn '.' with
      | [whole] => isPair 60 whole
      | [whole, fraction] => isPair 60 whole && !fraction.isEmpty && fraction.all Char.isDigit
      | _ => false
  | _ => false

/-- A time with the offset that it is told in: a zone letter, or signed hours and minutes. -/
def isOffsetTime (text : List Char) : Bool :=
  let isZone := fun c => c == 'Z' || c == 'z' || c == '+' || c == '-'
  isTime (text.takeWhile (!isZone ·)) &&
    match text.dropWhile (!isZone ·) with
    | [] => true
    | [zone] => zone == 'Z' || zone == 'z'
    | sign :: offset =>
      (sign == '+' || sign == '-') &&
        match offset.splitOn ':' with
        | [hours, minutes] => isPair 23 hours && isPair 59 minutes
        | _ => false

/-- A date and a time are joined by a letter or a space. -/
def isDateTime (text : List Char) : Bool :=
  isDate (text.take 10) &&
    match text.drop 10 with
    | [] => true
    | mark :: time => (mark == 'T' || mark == 't' || mark == ' ') && isOffsetTime time

/-- The value of a bare text that begins with a digit, behind a sign or without one. -/
def decimal? (negative : Bool) (body : List Char) (text : List Char) : Option Value :=
  match body.dropWhile Char.isDigit with
  | [] => if leadsWithZero body then none else some (.ofDigits negative 10 body)
  | c :: rest =>
    if c == '-' || c == ':' then
      if isDateTime text || isTime text then some (.dateTime (.ofList text)) else none
    else if c == '.' || (c :: rest).any isExponentMark || rest.contains '.' then float? body
    -- Behind an underscore the digits are looked at only by who needs the number.
    else if c == '_' && !rest.contains ' ' && !leadsWithZero body &&
        joinsDigits (isDigitOf 16) false body then
      some (.ofDigits negative 10 body)
    else none

/-- The value of a bare text that may begin with a sign. -/
def signedValue? (text : List Char) : Option Value :=
  let (negative, body) := signed text
  if body == "inf".toList || body == "nan".toList then some (.float (.ofList text))
  else if body.head?.any Char.isDigit then decimal? negative body text
  else none

/-- The integer of a base other than ten, which goes without a sign. -/
def based? (base : Nat) (digits : List Char) : Option Value :=
  if digits.all (fun c => isDigitOf base c || c == '_') && joinsDigits (isDigitOf base) false digits
  then some (.ofDigits false base digits)
  else none

/-- The value that a bare text spells. -/
def bareValue? (text : List Char) : Option Value :=
  if text == "true".toList then some (.bool true)
  else if text == "false".toList then some (.bool false)
  else
    match text with
    | '0' :: letter :: digits =>
      match base? letter with
      | some base => based? base digits
      | none => signedValue? text
    | _ => signedValue? text

end Stocktake.Toml
