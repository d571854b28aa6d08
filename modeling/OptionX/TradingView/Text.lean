import OptionX.Lib.Machine
import OptionX.TradingView.Json

/-!
# Numbers and times in texts

What the parser of `TradingViewExtensionProtocol.hpp` reads out of texts. Characters are bytes in the default locale.
-/

namespace OptionX.TradingView

open Lib.Machine

def isDigit (ch : UInt8) : Bool := 48 ≤ ch && ch ≤ 57

def isUpper (ch : UInt8) : Bool := 65 ≤ ch && ch ≤ 90

def isAlpha (ch : UInt8) : Bool := isUpper ch || (97 ≤ ch && ch ≤ 122)

def isAlnum (ch : UInt8) : Bool := isDigit ch || isAlpha ch

/-- `std::isspace`. -/
def isSpace (ch : UInt8) : Bool := ch = 32 || (9 ≤ ch && ch ≤ 13)

def toLower (ch : UInt8) : UInt8 := if isUpper ch then ch + 32 else ch

def lowerCopy (value : Text) : Text := value.map toLower

/-- What `trim_copy` takes away: a blank, a tab, a line feed or a carriage return. -/
def isBlank (ch : UInt8) : Bool := ch = 32 || ch = 9 || ch = 13 || ch = 10

def trimCopy (value : Text) : Text := (value.dropWhile isBlank).rdropWhile isBlank

def comma : UInt8 := 44

/-- Whether a text occurs in another, as `find` of a `std::string` tells. -/
def occursIn (part value : Text) : Bool := value.tails.any fun rest => part.isPrefixOf rest

/-! ## Whole numbers -/

def decimalValue (digits : Text) : Nat := digits.foldl (fun value ch => value * 10 + (ch.toNat - 48)) 0

def isSign (ch : UInt8) : Bool := ch = 45 || ch = 43

/-- What follows an optional sign. -/
def afterSign : Text → Text
  | [] => []
  | ch :: rest => if isSign ch then rest else ch :: rest

/-- `std::stoll` of an optional sign and digits; nothing where it throws. -/
def stoll (value : Text) : Option Int :=
  let magnitude : Int := decimalValue (afterSign value)
  let number := if value.head? = some 45 then -magnitude else magnitude
  if int64Min ≤ number ∧ number ≤ int64Max then some number else none

def strictIntegerStringToI64 (value : Text) : Option Int :=
  let trimmed := trimCopy value
  if trimmed = [] then none
  else
    let plain := trimmed.filter (· ≠ comma)
    if afterSign plain = [] then none
    else if (afterSign plain).all isDigit then stoll plain
    else none

/-! ## Times -/

structure Tm where
  year : Nat
  month : Nat
  day : Nat
  hour : Nat
  minute : Nat
  second : Nat
  deriving DecidableEq, Repr

/-- A field of `std::get_time`: up to so many digits with a value in the range. -/
def readField (width least most : Nat) (input : Text) : Option (Nat × Text) :=
  let digits := (input.take width).takeWhile isDigit
  let value := decimalValue digits
  if digits ≠ [] ∧ least ≤ value ∧ value ≤ most then some (value, input.drop digits.length) else none

/-- A plain character of the format, in either case. -/
def readChar (ch : UInt8) : Text → Option Text
  | [] => none
  | next :: input => if toLower next = toLower ch then some input else none

/-- `std::get_time` with the format `%Y-%m-%d`, a separator, and `%H:%M:%S`. -/
def getTime (separator : Text → Option Text) (input : Text) : Option Tm := do
  let (year, input) ← readField 4 0 9999 (input.dropWhile isSpace)
  let (month, input) ← readField 2 1 12 (← readChar 45 input)
  let (day, input) ← readField 2 1 31 (← readChar 45 input)
  let (hour, input) ← readField 2 0 23 (← separator input)
  let (minute, input) ← readField 2 0 59 (← readChar 58 input)
  let (second, _) ← readField 2 0 60 (← readChar 58 input)
  return { year, month, day, hour, minute, second }

/-- The days since 1970 of a date in the civil calendar. -/
def daysFromCivil (year month day : Nat) : Int :=
  let year : Int := if month ≤ 2 then year - 1 else year
  let era := year / 400
  let yearOfEra := year - era * 400
  let shifted : Int := if month ≤ 2 then month + 9 else month - 3
  let dayOfYear := (153 * shifted + 2) / 5 + day - 1
  era * 146097 + (yearOfEra * 365 + yearOfEra / 4 - yearOfEra / 100 + dayOfYear) - 719468

/-- `timegm`. -/
def utcTimegm (tm : Tm) : Int :=
  daysFromCivil tm.year tm.month tm.day * 86400 + tm.hour * 3600 + tm.minute * 60 + tm.second

/-- The milliseconds after the point, if they are digits. -/
def fractionMs (fraction : Text) : Option Int :=
  let fraction := fraction.take 3
  strictIntegerStringToI64 (fraction ++ List.replicate (3 - fraction.length) 48)

/-- The text before the point, and the milliseconds after it. -/
def splitFraction (value : Text) : Text × Option Int :=
  match value.dropWhile (· ≠ 46) with
  | [] => (value, some 0)
  | _ :: fraction => (value.takeWhile (· ≠ 46), fractionMs fraction)

def iso8601UtcStringToMs (value : Text) : Exact (Option Int) :=
  let trimmed := trimCopy value
  if trimmed = [] then .ok none
  else
    match splitFraction (if trimmed.getLast? = some 90 then trimmed.dropLast else trimmed) with
    | (_, none) => .ok none
    | (whole, some millis) =>
        -- The second format is tried where the first one fails.
        match (getTime (readChar 84) whole).or (getTime (fun input => some (input.dropWhile isSpace)) whole) with
        | none => .ok none
        | some tm =>
            let seconds := utcTimegm tm
            if seconds < 0 then .ok none
            else do
              let output ← i64 ((← i64 (seconds * 1000)) + millis)
              return some output

end OptionX.TradingView
