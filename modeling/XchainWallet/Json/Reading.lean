import XchainWallet.Json.RoundTrip

/-!
# How a script reads a value

A member of a value that has none, or of a value that is no object, is undefined: `none`. `truthy`
is what a condition makes of a value, and `shown` is `String(value)`, `none` where it throws: on an
object that has a member `toString` of its own, for no value that is read can be called.
-/

namespace Json

/-- The units of a name. -/
def units (name : String) : Units := unitsOf name.toList

@[simp]
theorem units_inj {a b : String} : units a = units b ↔ a = b := by
  refine ⟨fun h => ?_, congrArg units⟩
  exact String.toList_inj.mp (unitsOf_injective h)

namespace Value

/-- The own members of a value, those of an array under their indices. -/
def members : Value → List (Units × Value)
  | .obj members => members
  | .arr elements => elements.zipIdx.map fun p => (unitsOf p.2.repr.toList, p.1)
  | _ => []

/-- `value.name`, for a name that no array has. -/
def prop (name : String) : Value → Option Value
  | .obj members => (Keyed.find Prod.fst (units name) members).map Prod.snd
  | _ => none

/-- The value is an object or an array. -/
def isObject : Value → Bool
  | .obj _ => true
  | .arr _ => true
  | _ => false

end Value

/-- A value that is an object or an array, not null. -/
def isObject (v : Option Value) : Bool := v.any Value.isObject

/-- `v?.name`. -/
def prop (name : String) (v : Option Value) : Option Value := v.bind (Value.prop name)

/-- The string, where the value is one. -/
def text? : Option Value → Option Units
  | some (.str s) => some s
  | _ => none

/-- The number, where the value is one. -/
def number? : Option Value → Option Number
  | some (.num n) => some n
  | _ => none

/-- What a condition makes of a value. -/
def truthy : Option Value → Bool
  | none => false
  | some .null => false
  | some (.bool b) => b
  | some (.num (.finite units _)) => units ≠ 0
  | some (.num (.infinite _)) => true
  | some (.num .nan) => false
  | some (.str s) => s ≠ []
  | some (.arr _) => true
  | some (.obj _) => true

mutual

/-- `String(value)`, and `none` where it throws. -/
def Value.shown : Value → Option Units
  | .null => some (units "null")
  | .bool b => some (units (if b then "true" else "false"))
  | .num n => some (unitsOf n.text)
  | .str s => some s
  | .arr elements => do
    let parts ← shownElements elements
    some (List.intercalate (units ",") parts)
  | .obj members =>
    if members.any (·.1 = units "toString") then none
    else some (units "[object Object]")

/-- The parts of an array that is shown, an empty one for null. -/
def shownElements : List Value → Option (List Units)
  | [] => some []
  | .null :: vs => do
    let others ← shownElements vs
    some ([] :: others)
  | v :: vs => do
    let first ← v.shown
    let others ← shownElements vs
    some (first :: others)

end

/-- `String(v)`. -/
def shown : Option Value → Option Units
  | none => some (units "undefined")
  | some v => v.shown

end Json
