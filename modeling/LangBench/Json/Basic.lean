import LangBench.Dict
import LangBench.Number.Decimal

/-!
Values of the JSON data format.

An object keeps its fields as a list, so that a text can be read before it is decided what a
repeated key means. `Json.canonical` decides: the last field of a key counts, and keys ascend.
-/

namespace LangBench

/-- A JSON value. A number without fraction and exponent is an integer where 64 bits hold it. -/
inductive Json where
  | null
  | bool (b : Bool)
  | int (n : Int)
  | real (x : Binary64)
  | str (s : String)
  | arr (items : List Json)
  | obj (fields : List (String × Json))
  deriving Inhabited

namespace Json

mutual

/-- Sort the fields of every object by key, the last field of a repeated key replacing others. -/
def canonical : Json → Json
  | .arr items => .arr (canonicalItems items)
  | .obj fields => .obj (Dict.ofList (canonicalFields fields)).entries
  | v => v

def canonicalItems : List Json → List Json
  | [] => []
  | v :: vs => v.canonical :: canonicalItems vs

/-- Bring the value of every field into canonical form. -/
def canonicalFields : List (String × Json) → List (String × Json)
  | [] => []
  | (key, v) :: fs => (key, v.canonical) :: canonicalFields fs

end

/-- The integer, if the value is one that is not negative. -/
def asNat? : Json → Option Nat
  | .int n => n.toNat?
  | _ => none

/-- The fields, if the value is an object; of a repeated key the last field counts. -/
def asObject? : Json → Option (Dict Json)
  | .obj fields => some (Dict.ofList fields)
  | _ => none

def ofNat (n : Nat) : Json := .int n

def ofNat? : Option Nat → Json
  | some n => .ofNat n
  | none => .null

end Json

end LangBench
