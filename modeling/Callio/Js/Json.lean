import Callio.Js.Number

/-! JSON values as JavaScript handles them. The text of a number, `Number::toString`,
is taken from outside. A value that `ToPrimitive` cannot convert throws: `none`. -/

namespace Js

/-- What `JSON.parse` gives; an object has its keys in the order of `Object.entries`. -/
inductive Json
  | null
  | boolean (b : Bool)
  | number (x : Number)
  | string (s : Text)
  | list (vs : List Json)
  | object (entries : List (Text × Json))

namespace Json

/-- `Object.entries(v)`. Those of a string or an array have indices for keys. -/
def entries : Json → List (Text × Json)
  | object es => es
  | string s => s.zipIdx.map fun e => (Nat.toDigits 10 e.2, string [e.1])
  | list vs => vs.zipIdx.map fun e => (Nat.toDigits 10 e.2, e.1)
  | _ => []

/-- `v?.key`, for a key that only objects have; `undefined` is `none`. -/
def get (v : Json) (key : String) : Option Json :=
  match v with
  | object es => es.lookup key.toList
  | _ => none

/-- `v ?? fallback`. -/
def orElse (v : Option Json) (fallback : Json) : Json :=
  match v with
  | none | some null => fallback
  | some v => v

/-- `Boolean(v)`. -/
def truthy : Option Json → Bool
  | none | some null => false
  | some (boolean b) => b
  | some (number x) => x ≠ .nan ∧ x ≠ .fin 0
  | some (string s) => s ≠ []
  | some (list _) | some (object _) => true

/-- `join(',')`. -/
def commaJoin : List Text → Text
  | [] => []
  | [s] => s
  | s :: ss => s ++ ',' :: commaJoin ss

section

variable (numberText : Number → Text)

mutual

/-- `String(v)`. No function is JSON, so an own `toString` is never one. -/
def toText : Json → Option Text
  | null => some "null".toList
  | boolean b => some (if b then "true".toList else "false".toList)
  | number x => some (numberText x)
  | string s => some s
  | list vs => (elementTexts vs).map commaJoin
  | object es => if es.any (·.1 = "toString".toList) then none else some "[object Object]".toList

/-- An element that is `null` is empty. -/
def elementTexts : List Json → Option (List Text)
  | [] => some []
  | null :: vs => do return [] :: (← elementTexts vs)
  | v :: vs => do return (← toText v) :: (← elementTexts vs)

end

/-- `Number(v)`. -/
def toNumber : Json → Option Number
  | null => some (.fin 0)
  | boolean b => some (.fin (if b then 1 else 0))
  | number x => some x
  | string s => some (.ofText s)
  | list vs => (toText numberText (list vs)).map .ofText
  | object es => (toText numberText (object es)).map .ofText

end

end Json

end Js
