import LineScript.DataType
set_option autoImplicit false

/-! Declared variables: parameters, properties and the variables of pattern rules. -/

namespace LineScript

structure Variable where
  name : String
  type : DataType
  required : Bool
  default : Option String
  line : Nat
  deriving DecidableEq, Repr

end LineScript
