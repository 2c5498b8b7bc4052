import JackLang.Vm.Instruction

/-! # Labels

Conditionals and loops of a unit are numbered together, and the labels of one
of them bear its number behind the name of their family.
-/

set_option autoImplicit false

namespace JackLang

inductive LabelFamily where
  | ifTrue | ifFalse | ifEnd | whileStart | whileEnd
deriving DecidableEq, Repr

namespace LabelFamily

def text : LabelFamily → String
  | .ifTrue => "IF_TRUE"
  | .ifFalse => "IF_FALSE"
  | .ifEnd => "IF_END"
  | .whileStart => "WHILE_EXP"
  | .whileEnd => "WHILE_END"

/-- The label of a family for the statement with the given number. -/
def label (family : LabelFamily) (number : Nat) : String :=
  family.text ++ toString number

end LabelFamily

end JackLang
