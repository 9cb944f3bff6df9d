import IdlModel.Json.Basic
import IdlModel.Json.Literal
import IdlModel.Text.Quoted

/-!
# What reading a value may fail with

A text is refused because it is not JSON (`Fault`) or because the JSON does not fit what is read
from it (`Mismatch`). Mismatches carry what their messages name.
-/

namespace IdlModel.Json

/-- What was found in the place of something else. -/
inductive Found where
  | null
  | bool (value : Bool)
  | number (value : Number)
  | string (value : String)
  | sequence
  | map

/-- What something was expected to be. -/
inductive Shape where
  | string
  | sequence
  | map
  /-- An object or array with the members of a record of this name. -/
  | record (name : String)
  /-- A record of one of several kinds, which names its kind. -/
  | tagged (name : String)
  /-- The name of a kind. -/
  | variant
  deriving DecidableEq, Repr

/-- How a value fails to fit. -/
inductive Mismatch where
  | invalidType (found : Found) (expected : Shape)
  | missingField (key : String)
  | duplicateField (key : String)
  | unknownVariant (word : String) (known : List String)
  /-- A record as an array that ends before the item at a position where it needs one. -/
  | tooShort (position : Nat) (record : String) (size : Nat)
  /-- A record as an array of more items than it has members. -/
  | tooLong (length size : Nat)

/-- Why nothing can be read from a text. -/
inductive ReadError where
  | fault (fault : Fault)
  | mismatch (mismatch : Mismatch)

/-- What is shown for something found. -/
def Found.text : Found → String
  | .null => "null"
  | .bool b => "boolean `" ++ (if b then "true" else "false") ++ "`"
  | .number (.integer n) => "integer `" ++ toString n ++ "`"
  | .number (.float f) => "floating point `" ++ (Number.float f).text ++ "`"
  | .string s => "string " ++ Text.quote s
  | .sequence => "sequence"
  | .map => "map"

/-- What is shown for something expected. -/
def Shape.text : Shape → String
  | .string => "a string"
  | .sequence => "a sequence"
  | .map => "a map"
  | .record name => "struct " ++ name
  | .tagged name => "internally tagged enum " ++ name
  | .variant => "variant identifier"

/-- The text of a mismatch. -/
def Mismatch.message : Mismatch → String
  | .invalidType found expected =>
    "invalid type: " ++ found.text ++ ", expected " ++ expected.text
  | .missingField key => "missing field `" ++ key ++ "`"
  | .duplicateField key => "duplicate field `" ++ key ++ "`"
  | .unknownVariant word known =>
    "unknown variant `" ++ word ++ "`, expected one of " ++
      ", ".intercalate (known.map fun k => "`" ++ k ++ "`")
  | .tooShort position record size =>
    "invalid length " ++ toString position ++ ", expected struct " ++ record ++ " with " ++
      toString size ++ " elements"
  | .tooLong length size =>
    "invalid length " ++ toString length ++ ", expected " ++ toString size ++
      " elements in sequence"

/-- The text of an error. -/
def ReadError.message : ReadError → String
  | .fault .endOfText => "unexpected end of text"
  | .fault .malformed => "malformed text"
  | .mismatch m => m.message

/-- What a value is when something else was expected. -/
def found : Json → Found
  | .null => .null
  | .bool b => .bool b
  | .number n => .number n
  | .string s => .string s
  | .array _ => .sequence
  | .object _ => .map

end IdlModel.Json
