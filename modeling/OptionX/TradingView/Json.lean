import Mathlib

/-!
# Values of a TradingView payload

Byte texts and JSON values as `TradingViewExtensionProtocol.hpp` reads them. The numbers with a fraction are of any
type; what the code needs of them, of the JSON library and of the case folding of Unicode stands in `Library`.
-/

namespace OptionX.TradingView

/-- The bytes of a `std::string`. -/
abbrev Text := List UInt8

/-- A literal, in UTF-8. -/
def text (literal : String) : Text := literal.toList.flatMap String.utf8EncodeChar

inductive Json (F : Type) where
  | null
  | boolean (value : Bool)
  | integer (value : Int64)
  | unsigned (value : UInt64)
  | float (value : F)
  | string (value : Text)
  | array (items : List (Json F))
  | object (members : List (Text × Json F))

/-- The floating-point numbers and the libraries below the parser. -/
structure Library (F : Type) where
  zero : F
  one : F
  isFinite : F → Bool
  less : F → F → Bool
  /-- `==` of two numbers. -/
  equal : F → F → Bool
  ofInt : Int → F
  /-- The whole part, toward zero. -/
  truncate : F → Int
  /-- `operator<<` of a stream. -/
  format : F → Text
  /-- `std::stod`: the number, and how many bytes it takes; nothing where it throws. -/
  stod : Text → Option (F × Nat)
  /-- `nlohmann::json::parse`; nothing where it throws. -/
  parse : Text → Option (Json F)
  dump : Json F → Text
  unicodeCaseFold : Text → Text

variable {F : Type}

def Json.isObject : Json F → Bool
  | .object _ => true
  | _ => false

/-- The value of a key, where the value is an object that contains it. -/
def Json.member? (value : Json F) (key : Text) : Option (Json F) :=
  match value with
  | .object members => members.lookup key
  | _ => none

def Json.contains (value : Json F) (key : Text) : Bool := (value.member? key).isSome

/-- `get<std::int64_t>()`: an unsigned number wraps. -/
def Json.int64? : Json F → Option Int
  | .integer value => some value.toInt
  | .unsigned value => some value.toInt64.toInt
  | _ => none

end OptionX.TradingView
