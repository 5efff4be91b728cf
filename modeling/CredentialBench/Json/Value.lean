/-!
# JSON values

What a JSON text means. Integers within 64 bits are kept exactly; every other number is the binary64
number of the given bits. An object keeps its members in order; a name may occur more than once in
a value that is only ever written.
-/

namespace CredentialBench.Json

/-- A JSON value. -/
inductive Value
  | null
  | boolean (b : Bool)
  | integer (n : Int)
  | float (bits : UInt64)
  | string (s : String)
  | array (items : List Value)
  | object (members : List (String × Value))

namespace Value

/-- The value of an object's member of that name; `none` for a value that has none. -/
def get? (v : Value) (name : String) : Option Value :=
  match v with
  | object members => members.lookup name
  | _ => none

/-- The text of a string value. -/
def string? : Value → Option String
  | string s => some s
  | _ => none

/-- The truth value of a boolean value. -/
def boolean? : Value → Option Bool
  | boolean b => some b
  | _ => none

/-- A string value, or null where there is none. -/
def ofOption : Option String → Value
  | some s => string s
  | none => null

end Value

end CredentialBench.Json
