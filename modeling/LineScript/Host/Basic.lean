import LineScript.Value
set_option autoImplicit false

/-! Host functions: what a program can call outside of itself, by path. -/

namespace LineScript

inductive HostError where
  | notFound (path : String)
  | wrongArity (path : String) (expected found : Nat)
  | typeMismatch (expected found : String)
  | divisionByZero
  | invalidOperation (message : String)
  deriving DecidableEq, Repr

def HostError.message : HostError → String
  | notFound p => "Host function '" ++ p ++ "' not found"
  | wrongArity p expected found =>
    "'" ++ p ++ "' expects " ++ toString expected ++ " argument(s), found " ++ toString found
  | typeMismatch expected found =>
    "Type mismatch: expected " ++ expected ++ ", found '" ++ found ++ "'"
  | divisionByZero => "Division by zero"
  | invalidOperation m => "Invalid operation: " ++ m

/-- A function of the values given to it. It writes lines of output, also when it fails; without an
arity it takes any number of arguments. -/
structure HostFunction where
  arity : Option Nat
  run : List Value → List String × Except HostError Value

abbrev Host := Table HostFunction

namespace Host

/-- The known paths in order. -/
def paths (h : Host) : List String := h.keys.mergeSort fun a b => a ≤ b

def call (h : Host) (path : String) (args : List Value) : List String × Except HostError Value :=
  match h.get? path with
  | none => ([], .error (.notFound path))
  | some f =>
    match f.arity with
    | none => f.run args
    | some n =>
      if n = args.length then f.run args else ([], .error (.wrongArity path n args.length))

end Host

end LineScript
