import LineScript.ParseError
set_option autoImplicit false

/-! Findings of a tolerant reading: errors of dropped lines and warnings of replaced declarations. -/

namespace LineScript

inductive Replaced where
  | ofClass
  | ofMethod
  | ofContainer
  deriving DecidableEq, Repr

/-- A declaration took the place of an earlier one of the same name. -/
structure Warning where
  kind : Replaced
  name : String
  line : Nat
  deriving DecidableEq, Repr

namespace Warning

def message (w : Warning) : String :=
  let noun := match w.kind with
    | .ofClass => "Class"
    | .ofMethod => "Method"
    | .ofContainer => "Container"
  noun ++ " '" ++ w.name ++ "' on line " ++ toString w.line ++ " replaces an earlier declaration"

def code (w : Warning) : String :=
  "ezcode::parse::" ++
  match w.kind with
  | .ofClass => "duplicate_class"
  | .ofMethod => "duplicate_method"
  | .ofContainer => "duplicate_container"

end Warning

inductive Severity where
  | warning
  | error
  deriving DecidableEq, Repr

def Severity.text : Severity → String
  | warning => "warning"
  | error => "error"

structure Finding where
  line : Nat
  severity : Severity
  message : String
  deriving DecidableEq, Repr

structure Diagnostics where
  source : String
  errors : List ParseError
  warnings : List Warning
  deriving DecidableEq, Repr

namespace Diagnostics

def hasErrors (d : Diagnostics) : Bool := !d.errors.isEmpty

def hasWarnings (d : Diagnostics) : Bool := !d.warnings.isEmpty

/-- The findings by line, on one line errors before warnings and else in the order they were made. -/
def byLine (d : Diagnostics) : List Finding :=
  let all := d.errors.map (fun e => (⟨e.line, .error, e.message⟩ : Finding)) ++
    d.warnings.map fun w => ⟨w.line, .warning, w.message⟩
  all.mergeSort fun a b => a.line < b.line ||
    (a.line == b.line && (a.severity == .error || b.severity == .warning))

def reportCount (d : Diagnostics) : Nat := d.errors.length + d.warnings.length

def summary (d : Diagnostics) : String :=
  if d.errors.isEmpty && d.warnings.isEmpty then "No diagnostics"
  else toString d.errors.length ++ " errors, " ++ toString d.warnings.length ++ " warnings"

end Diagnostics

end LineScript
