import TreeStream.Double.Basic
import TreeStream.Record

/-!
# JSON values

Objects keep the order in which their keys came. A number is an integer if its text has neither
fraction nor exponent and fits 64 bits, and a double otherwise; the two kinds print differently.
-/

namespace TreeStream

/-- A JSON number: integers lie between `-2 ^ 63` and `2 ^ 64 - 1`. -/
inductive JsonNumber where
  | int (value : Int)
  | float (value : Double)
  deriving DecidableEq

/-- A JSON value. -/
inductive Json where
  | null
  | bool (value : Bool)
  | number (value : JsonNumber)
  | string (text : String)
  | array (items : List Json)
  | object (fields : List (String × Json))

namespace Json

def ofNat (n : Nat) : Json := number (.int n)

def ofInt (i : Int) : Json := number (.int i)

/-- The object with these fields, a repeated key replacing the earlier value in place. -/
def ofFields (fields : List (String × Json)) : Json := object (Record.ofList fields).entries

/-- Fields with distinct keys stand in their object as they come. -/
theorem ofFields_of_nodup {fields : List (String × Json)} (h : (fields.map Prod.fst).Nodup) :
    ofFields fields = object fields :=
  congrArg object (Record.entries_ofList h)

/-- A string, or null where there is none. -/
def ofString? : Option String → Json
  | none => null
  | some s => string s

/-- The value under a key of an object. -/
def get? : Json → String → Option Json
  | object fields, key => fields.lookup key
  | _, _ => none

end Json

/-- The double nearest to a number. -/
def JsonNumber.toDouble : JsonNumber → Double
  | int i => Double.ofInt i
  | float d => d

end TreeStream
