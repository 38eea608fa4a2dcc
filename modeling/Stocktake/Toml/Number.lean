import Stocktake.Json.Token
import Stocktake.Toml.Value

/-! Numbers: integers in four bases and floats, with underscores between their digits. -/

namespace Stocktake.Toml

/-- Each underscore stands between two digits; `before` tells whether a digit comes before. -/
def joinsDigits (isDigit : Char → Bool) (before : Bool) : List Char → Bool
  | [] => true
  | c :: rest =>
    if c == '_' then before && rest.head?.any isDigit && joinsDigits isDigit false rest
    else joinsDigits isDigit (isDigit c) rest

/-- A digit of a base has a value below it. -/
def isDigitOf (base : Nat) (c : Char) : Bool :=
  (Json.hexValue? c).any (· < base)

/-- The number that digits of a base spell. -/
def numberOfDigits (base : Nat) (digits : List Char) : Nat :=
  digits.foldl (fun n c => n * base + (Json.hexValue? c).getD 0) 0

/-- The base that a letter behind a zero announces. -/
def base? (c : Char) : Option Nat :=
  if c == 'x' then some 16
  else if c == 'o' then some 8
  else if c == 'b' then some 2
  else none

/-- An integer has 128 bits, one of which is a sign when it is negative. -/
def integerInRange (n : Int) : Bool :=
  -170141183460469231731687303715884105728 ≤ n && n < 340282366920938463463374607431768211456

/-- The integer that a text of digits and underscores spells, when there is such an integer. -/
def Value.ofDigits (negative : Bool) (base : Nat) (text : List Char) : Value :=
  let digits := text.filter (· != '_')
  let significant := digits.dropWhile (· == '0')
  -- In any base, 129 digits that do not begin with a zero spell more than 128 bits hold.
  if digits.isEmpty || !digits.all (isDigitOf base) || significant.length > 128 then
    .unreadable (.ofList text)
  else
    let n := Int.ofNat (numberOfDigits base significant)
    let n := if negative then -n else n
    if integerInRange n then .integer n else .unreadable (.ofList text)

/-- The sign of a number, and what stands behind it. -/
def signed : List Char → Bool × List Char
  | '-' :: text => (true, text)
  | '+' :: text => (false, text)
  | text => (false, text)

/-- A number in decimal digits does not begin with a zero unless it is zero. -/
def leadsWithZero : List Char → Bool
  | '0' :: _ :: _ => true
  | _ => false

/-- Reads decimal digits, without the underscores between them. -/
def digitRun? (text : List Char) : Option (List Char × List Char) :=
  let inRun := fun c : Char => c.isDigit || c == '_'
  match (text.takeWhile inRun).filter (· != '_') with
  | [] => none
  | digits => some (digits, text.dropWhile inRun)

/-- A character that begins an exponent. -/
def isExponentMark (c : Char) : Bool :=
  c == 'e' || c == 'E'

/-- Reads the digits behind a point, when there is a point. -/
def fraction? : List Char → Option (List Char × List Char)
  | '.' :: text => digitRun? text
  | text => some ([], text)

/-- An exponent stops growing once it is beyond all that a float could need. -/
def exponentOf (digits : List Char) : Nat :=
  digits.foldl (fun n c => if n < 65536 then n * 10 + (Json.hexValue? c).getD 0 else n) 0

/-- Reads an exponent, which is zero when there is none. -/
def exponent? : List Char → Option (Int × List Char)
  | [] => some (0, [])
  | c :: text =>
    if isExponentMark c then
      let (negative, text) := signed text
      (digitRun? text).map fun (digits, rest) =>
        let n := Int.ofNat (exponentOf digits)
        (if negative then -n else n, rest)
    else some (0, c :: text)

/-- The first number that rounds to no float: half a step beyond the largest one. -/
def floatBound : Nat :=
  Nat.pow 2 1024 - Nat.pow 2 970

/-- The number of decimal digits of the bound. -/
def boundDigits : Nat :=
  309

/-- A float overflows when its digits, with the point behind the whole ones, reach the bound. -/
def overflows (whole fraction : List Char) (exponent : Int) : Bool :=
  let digits := whole ++ fraction
  let significant := digits.dropWhile (· == '0')
  -- Where the point stands, counted from the first digit that is not zero.
  let point := exponent + Int.ofNat whole.length -
    Int.ofNat (digits.length - significant.length)
  let leading := significant.take boundDigits
  let padded := leading ++ List.replicate (boundDigits - leading.length) '0'
  !significant.isEmpty &&
    (Int.ofNat boundDigits < point ||
      (point == Int.ofNat boundDigits && floatBound ≤ numberOfDigits 10 padded))

/-- The float that a text without a sign spells. -/
def float? (text : List Char) : Option Value := do
  let (whole, rest) ← digitRun? text
  let (fraction, rest) ← fraction? rest
  let (exponent, rest) ← exponent? rest
  if leadsWithZero whole || !rest.isEmpty || !joinsDigits Char.isDigit false text then none
  else if overflows whole fraction exponent then some (.unreadable (.ofList text))
  else some (.float (.ofList text))

end Stocktake.Toml
