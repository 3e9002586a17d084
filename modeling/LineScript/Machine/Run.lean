import LineScript.Machine.Line
import LineScript.Parser.Basic
set_option autoImplicit false

/-!
Running programs. Top-level lines are isolated from each other: a failing line is reported and the next
one runs. Everything here takes the depth of nested calls that it may use and gives nothing if that does
not suffice.
-/

namespace LineScript

structure Report where
  output : List String
  errors : List Reported
  status : Nat

namespace Report

def hasErrors (r : Report) : Bool := !r.errors.isEmpty

def text (r : Report) : String := "\n".intercalate r.output

end Report

namespace Machine

def load (m : Machine) (d : Declarations) : Machine := { m with declared := m.declared.merge d }

/-- Notes an error with its trace, also in the output. -/
def report (m : Machine) (e : RuntimeError) : Machine :=
  let r : Reported := ⟨e, m.failure.getD m.stack.trace⟩
  { m with failure := none, output := m.output.push r.message, errors := m.errors.push r }

def strayBreak : RuntimeError := .control "'break' used outside of a loop"

/-- Runs top-level lines, each whatever became of the others. The result is the last value. -/
def runIsolated (k : Calls) : Value → List (Row Token) → Machine → Outcome Value
  | last, [], m => .ok last m
  | last, row :: rows, m =>
    match k.runLine row { m with failure := none } with
    | .ok (.normal v) m => runIsolated k v rows m
    | .ok (.return_ v) m => runIsolated k v rows m
    | .ok .break_ m => runIsolated k last rows (m.report strayBreak)
    | .ok .yieldBreak m => runIsolated k last rows (m.report strayBreak)
    | .error e m => runIsolated k last rows (m.report e)
    | .outOfFuel m => .outOfFuel m

/-- Runs top-level lines up to the first error. -/
def runStrict (k : Calls) : Value → List (Row Token) → Machine → Outcome Value
  | last, [], m => .ok last m
  | _, row :: rows, m =>
    match k.runLine row { m with failure := none } with
    | .ok flow m => runStrict k flow.value rows m
    | .error e m => .error e m
    | .outOfFuel m => .outOfFuel m

def executeIsolated (fuel : Nat) (m : Machine) (rows : List (Row Token)) : Outcome Value :=
  runIsolated (.upTo fuel) .empty rows m

def execute (fuel : Nat) (m : Machine) (rows : List (Row Token)) : Outcome Value :=
  runStrict (.upTo fuel) .empty rows m

def takeOutput (m : Machine) : List String × Machine := (m.output.toList, { m with output := #[] })

def takeErrors (m : Machine) : List Reported × Machine := (m.errors.toList, { m with errors := #[] })

/-- Forgets the variables; declarations stay. -/
def resetVariables (m : Machine) : Machine :=
  { m.onMemory Memory.clear with stack := m.stack.clear, chain := .fresh }

/-- Runs a program. Its output ends with an empty line and a line that says it has ended. -/
def runProgram (fuel : Nat) (m : Machine) (p : Program) : Option (Report × Machine) :=
  (executeIsolated fuel (m.load p.declared) p.lines).finished?.map fun r =>
    let m := r.2
    let ending := ["", m.config.file ++ ": Exited with code 0."]
    (⟨m.output.toList ++ ending, m.errors.toList, 0⟩, { m with output := #[], errors := #[] })

def valueOf? (m : Machine) (name : String) : Option Value := (m.memory.get? name).map Binding.value

end Machine

/-- Reads a source tolerantly and runs it on a new machine. -/
def runSource (fuel : Nat) (config : Config) (source : String) : Option (Report × Diagnostics) :=
  match Parser.empty.parseTolerantWith fuel source with
  | none => none
  | some (_, program, diagnostics) =>
    ((Machine.new config Host.standard).runProgram fuel program).map fun r => (r.1, diagnostics)

end LineScript
