import LineScript.Machine.Run
set_option autoImplicit false

/-!
Sessions: one parser and one machine kept for several inputs, so that declarations and variables stay
known. Operations that run code take a fuel and give nothing if it does not suffice.
-/

namespace LineScript

inductive SessionError where
  | parse (e : ParseError)
  | runtime (e : RuntimeError)
  | assertionFailed (expected actual : String)
  | setup (message : String)
  | typeMismatch (expected actual : String)
  | variableNotFound (name : String)
  deriving DecidableEq, Repr

def SessionError.message : SessionError → String
  | parse e => "Parse error: " ++ e.message
  | runtime e => "Runtime error: " ++ e.message
  | assertionFailed expected actual =>
    "Assertion failed: expected " ++ expected ++ ", but got " ++ actual
  | setup m => "Setup error: " ++ m
  | typeMismatch expected actual => "Type error: expected " ++ expected ++ ", got " ++ actual
  | variableNotFound n => "Variable not found: " ++ n

structure Session where
  parser : Parser
  machine : Machine

namespace Session

def new (config : Config) (host : Host) : Session := ⟨.empty, .new config host⟩

def standard : Session := new .standard Host.standard

/-- Reads code strictly and runs it up to the first error; the result is the value of its last line. -/
def evaluate (fuel : Nat) (s : Session) (code : String) :
    Option (Except SessionError Value × Session) :=
  match s.parser.parseWith fuel code with
  | none => none
  | some (parser, .error e) => some (.error (.parse e), { s with parser })
  | some (parser, .ok program) =>
    match (s.machine.load program.declared).execute fuel program.lines with
    | .ok v machine => some (.ok v, ⟨parser, machine⟩)
    | .error e machine => some (.error (.runtime e), ⟨parser, machine⟩)
    | .outOfFuel _ => none

/-- Reads code strictly and runs it as a whole program. -/
def run (fuel : Nat) (s : Session) (code : String) : Option (Except SessionError Report × Session) :=
  match s.parser.parseWith fuel code with
  | none => none
  | some (parser, .error e) => some (.error (.parse e), { s with parser })
  | some (parser, .ok program) =>
    (s.machine.runProgram fuel program).map fun r => (.ok r.1, ⟨parser, r.2⟩)

/-- What running code line by line gave. -/
structure Isolated where
  value : Value
  errors : List Reported
  diagnostics : Diagnostics

/-- Reads code tolerantly, without keeping its declarations in the parser, and runs its lines each
whatever became of the others. -/
def runIsolated (fuel : Nat) (s : Session) (code : String) : Option (Isolated × Session) :=
  match s.parser.parseTolerantWith fuel code with
  | none => none
  | some (_, program, diagnostics) =>
    ((s.machine.load program.declared).executeIsolated fuel program.lines).finished?.map fun r =>
      let (errors, machine) := r.2.takeErrors
      (⟨r.1, errors, diagnostics⟩, { s with machine })

/-- Evaluates code and judges its value. -/
def check (fuel : Nat) (s : Session) (code : String) (judge : Value → Except SessionError Unit) :
    Option (Except SessionError Unit × Session) :=
  (s.evaluate fuel code).map fun r => (r.1.bind judge, r.2)

def expectText (expected : String) (v : Value) : Except SessionError Unit :=
  if v.toText = expected then .ok () else .error (.assertionFailed expected v.toText)

def expectInt (expected : Int) (v : Value) : Except SessionError Unit :=
  match v.whole? with
  | none => .error (.typeMismatch "int" v.typeName)
  | some n =>
    if n = expected then .ok ()
    else .error (.assertionFailed (String.ofList (Numeral.ofInt expected))
      (String.ofList (Numeral.ofInt n)))

def expectBool (expected : Bool) (v : Value) : Except SessionError Unit :=
  match v.truth with
  | .error _ => .error (.typeMismatch "bool" v.typeName)
  | .ok b =>
    if b = expected then .ok ()
    else .error (.assertionFailed (Value.bool expected).toText (Value.bool b).toText)

/-- Declares a global variable. -/
def define (s : Session) (name : String) (v : Value) : Except SessionError Unit × Session :=
  match s.machine.memory.declare ⟨name, v, .untyped, true, 0⟩ with
  | .ok memory => (.ok (), { s with machine := s.machine.setMemory memory })
  | .error e =>
    (.error (.setup ("Failed to define variable '" ++ name ++ "': " ++ e.message)), s)

def get (s : Session) (name : String) : Except SessionError Value :=
  match s.machine.valueOf? name with
  | some v => .ok v
  | none => .error (.variableNotFound name)

/-- Forgets the variables; declarations stay known. -/
def clear (s : Session) : Session := { s with machine := s.machine.resetVariables }

def takeOutput (s : Session) : List String × Session :=
  let (output, machine) := s.machine.takeOutput
  (output, { s with machine })

end Session

end LineScript
