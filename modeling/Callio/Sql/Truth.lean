import Mathlib.Tactic.Common

/-! SQL conditions. A comparison with NULL is neither true nor false, AND, OR
and NOT carry that on, and a WHERE clause keeps a row only if its condition is
true: `NOT p` can fail to select what `p` fails to select. -/

namespace Sql

/-- True, false or unknown. -/
abbrev Truth := Option Bool

namespace Truth

protected def not : Truth → Truth := Option.map Bool.not

/-- False beats unknown. -/
protected def and : Truth → Truth → Truth
  | some false, _ | _, some false => some false
  | some true, some true => some true
  | _, _ => none

/-- True beats unknown. -/
protected def or : Truth → Truth → Truth
  | some true, _ | _, some true => some true
  | some false, some false => some false
  | _, _ => none

/-- A WHERE clause keeps the row. -/
def holds (t : Truth) : Bool := t = some true

/-- A condition whose operands cannot be NULL. -/
def ofBool (b : Bool) : Truth := some b

@[simp] theorem holds_ofBool (b : Bool) : (ofBool b).holds = b := by
  cases b <;> rfl

@[simp] theorem holds_and (p q : Truth) : (p.and q).holds = (p.holds && q.holds) := by
  rcases p with _ | _ | _ <;> rcases q with _ | _ | _ <;> rfl

@[simp] theorem holds_or (p q : Truth) : (p.or q).holds = (p.holds || q.holds) := by
  rcases p with _ | _ | _ <;> rcases q with _ | _ | _ <;> rfl

/-- A negation selects what is false, not what is merely not true. -/
@[simp] theorem holds_not (p : Truth) : p.not.holds = (p = some false) := by
  rcases p with _ | _ | _ <;> simp [Truth.not, holds]

theorem and_eq_false (p q : Truth) :
    p.and q = some false ↔ p = some false ∨ q = some false := by
  rcases p with _ | _ | _ <;> rcases q with _ | _ | _ <;> simp [Truth.and]

theorem ofBool_eq_false (b : Bool) : ofBool b = some false ↔ b = false := by
  simp [ofBool]

end Truth

section comparisons

variable {α : Type}

/-- A comparison of columns: unknown as soon as one of them is NULL. -/
def relate (rel : α → α → Bool) : Option α → Option α → Truth
  | some a, some b => some (rel a b)
  | _, _ => none

def eq [DecidableEq α] (a b : Option α) : Truth := relate (fun x y => x = y) a b

def ne [DecidableEq α] (a b : Option α) : Truth := relate (fun x y => x ≠ y) a b

def isNull (a : Option α) : Truth := .ofBool a.isNone

def isNotNull (a : Option α) : Truth := .ofBool a.isSome

@[simp] theorem holds_relate (rel : α → α → Bool) (a b : Option α) :
    (relate rel a b).holds = true ↔ ∃ x ∈ a, ∃ y ∈ b, rel x y = true := by
  cases a <;> cases b <;> simp [relate, Truth.holds]

@[simp] theorem relate_eq_false (rel : α → α → Bool) (a b : Option α) :
    relate rel a b = some false ↔ ∃ x ∈ a, ∃ y ∈ b, rel x y = false := by
  cases a <;> cases b <;> simp [relate]

@[simp] theorem holds_isNull (a : Option α) : (isNull a).holds = a.isNone := by simp [isNull]

@[simp] theorem holds_isNotNull (a : Option α) : (isNotNull a).holds = a.isSome := by
  simp [isNotNull]

end comparisons

end Sql
