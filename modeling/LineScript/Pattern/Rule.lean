import LineScript.Pattern.Basic
import LineScript.Variable
set_option autoImplicit false

/-! Pattern rules: calls of a method with the captures of a pattern as arguments. -/

namespace LineScript

structure Rule where
  pattern : Pattern
  className : String
  method : String
  vars : List Variable
  overrides : Bool
  line : Nat
  deriving DecidableEq, Repr

structure BoundArg where
  name : String
  text : String
  type : DataType
  deriving DecidableEq, Repr

structure BoundCall where
  className : String
  method : String
  args : List BoundArg
  source : String
  deriving DecidableEq, Repr

namespace Rule

/-- Binds one capture to its variable, or to its own name if the rule lists no variable for it. A known
type written before a colon replaces the declared one. -/
def bindOne (lookup : String → Option DataType) (var : Option Variable) (name text : String) :
    BoundArg :=
  let declared := var.elim (⟨name, text, .untyped⟩ : BoundArg) fun v => ⟨v.name, text, v.type⟩
  match Text.splitAt text ":" with
  | some (head, value) =>
    match lookup head with
    | some t => { declared with text := value, type := t }
    | none => declared
  | none => declared

/-- Pairs the captures with the variables from the left. -/
def bindAll (lookup : String → Option DataType) :
    List Variable → List (String × String) → List BoundArg
  | _, [] => []
  | [], (n, t) :: r => bindOne lookup none n t :: bindAll lookup [] r
  | v :: vs, (n, t) :: r => bindOne lookup (some v) n t :: bindAll lookup vs r

def bind (rule : Rule) (lookup : String → Option DataType) (m : Pattern.Match) : List BoundArg :=
  bindAll lookup rule.vars m.captures

end Rule

end LineScript
