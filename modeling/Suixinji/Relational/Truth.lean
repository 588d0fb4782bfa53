import Mathlib.Data.Nat.Notation

/-! Truth values of a WHERE clause. A condition holds, fails, is NULL, or raises
(a failed cast aborts the whole statement); AND and OR evaluate left to right. -/
namespace Suixinji.Relational

inductive Truth where
  | yes
  | no
  | null
  | raised
  deriving DecidableEq

namespace Truth

def ofBool (b : Bool) : Truth := if b then yes else no

/-- A comparison with an operand that may be NULL. -/
def ofOption : Option Bool → Truth
  | none => null
  | some b => ofBool b

def not : Truth → Truth
  | yes => no
  | no => yes
  | null => null
  | raised => raised

def and : Truth → Truth → Truth
  | yes,b => b
  | no,_ => no
  | null,no => no
  | null,raised => raised
  | null,_ => null
  | raised,_ => raised

def or : Truth → Truth → Truth
  | yes,_ => yes
  | no,b => b
  | null,yes => yes
  | null,raised => raised
  | null,_ => null
  | raised,_ => raised

@[simp] theorem or_no (a : Truth) : a.or .no = a := by cases a <;> rfl

end Truth

end Suixinji.Relational
