import OptionX.Lib.Decimal

/-!
# Canonical decimal text

`canonical_decimal_text` of `BridgeProtocolCanonicalization.hpp`. A string is the list of its characters; a byte of the
source is a character below 256, and all others are handled alike.
-/

namespace OptionX.Bridges

open Lib.Decimal (digitValue)

/-- `std::isspace` in the default locale. -/
def isSpace (c : Char) : Bool := c.toNat = 32 || (9 ≤ c.toNat && c.toNat ≤ 13)

def trimAsciiCopy (value : List Char) : List Char := (value.dropWhile isSpace).rdropWhile isSpace

/-- What the first loop collects. -/
structure Mantissa where
  digits : List Char := []
  scale : Int := 0
  sawDigit : Bool := false
  sawDot : Bool := false
  deriving DecidableEq

/-- The loop over the digits, up to the first character that belongs to neither of them. -/
def scanMantissa (m : Mantissa) : List Char → Mantissa × List Char
  | [] => (m, [])
  | ch :: rest =>
      if ch.isDigit then
        scanMantissa { m with
          digits := m.digits ++ [ch]
          sawDigit := true
          scale := if m.sawDot then m.scale + 1 else m.scale } rest
      else if ch = '.' ∧ m.sawDot = false then scanMantissa { m with sawDot := true } rest
      else (m, ch :: rest)

/-- The loop over the exponent, which must be digits to the end and not too large. -/
def scanExponent (exponent : Int) : List Char → Option Int
  | [] => some exponent
  | ch :: rest =>
      if !ch.isDigit then none
      else if exponent < 10000 then scanExponent (exponent * 10 + digitValue ch) rest
      else none

def splitSign : List Char → Bool × List Char
  | '+' :: rest => (false, rest)
  | '-' :: rest => (true, rest)
  | text => (false, text)

/-- What follows the digits, as the change of the scale. -/
def scanScale : List Char → Option Int
  | [] => some 0
  | ch :: rest =>
      if ch = 'e' ∨ ch = 'E' then
        let (exponentNegative, rest) := splitSign rest
        if rest = [] then none
        else (scanExponent 0 rest).map fun exponent => if exponentNegative then exponent else -exponent
      else none

/-- The last digits are given from the end. -/
def stripZeros : List Char → Int → List Char × Int
  | [], scale => ([], scale)
  | ch :: rest, scale => if 0 < scale ∧ ch = '0' then stripZeros rest (scale - 1) else (ch :: rest, scale)

/-- The text of a number of which the sign, the digits and the scale are known. -/
def normalize (negative : Bool) (digits : List Char) (scale : Int) : List Char :=
  let digits := digits.dropWhile (· = '0')
  if digits = [] then ['0']
  else
    let stripped := stripZeros digits.reverse scale
    let digits := stripped.1.reverse
    let scale := stripped.2
    if digits = [] then ['0']
    else
      let normalized := if negative then ['-'] else []
      if scale ≤ 0 then normalized ++ digits ++ List.replicate (-scale).toNat '0'
      else if digits.length ≤ scale.toNat then
        normalized ++ ['0', '.'] ++ List.replicate (scale.toNat - digits.length) '0' ++ digits
      else
        let split := digits.length - scale.toNat
        normalized ++ digits.take split ++ ['.'] ++ digits.drop split

/-- The sign, the digits and the scale of a decimal literal. -/
def scanDecimal (text : List Char) : Option (Bool × List Char × Int) :=
  let (negative, rest) := splitSign text
  let (mantissa, rest) := scanMantissa {} rest
  if !mantissa.sawDigit then none
  else (scanScale rest).map fun scale => (negative, mantissa.digits, mantissa.scale + scale)

def canonicalDecimalText (text : List Char) : List Char :=
  let text := trimAsciiCopy text
  if text = [] then text
  else
    match scanDecimal text with
    | none => text
    | some (negative, digits, scale) => normalize negative digits scale

end OptionX.Bridges
