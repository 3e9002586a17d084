import LineScript.Block
import LineScript.Session
import LineScript.Text.Backspace
set_option autoImplicit false

/-!
The interactive console: inputs are evaluated in one session, commands start with a slash, and an input
goes on over several lines until its braces are closed. Backspaces are applied to each line first.
-/

namespace LineScript

structure ConsoleConfig where
  showTypes : Bool
  verboseErrors : Bool
  prompt : String
  persistHistory : Bool
  historyFile : Option String

def ConsoleConfig.standard : ConsoleConfig :=
  ⟨false, false, "ezcode> ", true, some ".ezcode_history"⟩

structure ConsoleStats where
  inputs : Nat
  errors : Nat
  commands : Nat

structure Console where
  session : Session
  config : ConsoleConfig
  stats : ConsoleStats

inductive ConsoleError where
  | parse (e : ParseError)
  | runtime (e : RuntimeError)
  | command (message : String)
  | internal (message : String)

def ConsoleError.message : ConsoleError → String
  | parse e => "Parse error: " ++ e.message
  | runtime e => "Runtime error: " ++ e.message
  | command m => "REPL command error: " ++ m
  | internal m => "Internal REPL error: " ++ m

def ConsoleError.ofSession : SessionError → ConsoleError
  | .parse e => .parse e
  | .runtime e => .runtime e
  | e => .internal e.message

inductive ConsoleReply where
  | value (v : Value) (output : List String)
  | command (message : String)
  | nothing
  | leave

/-- The lines that a run of the console shows, and whether it ends in order. -/
structure Transcript where
  lines : List String
  inOrder : Bool

def Transcript.after (t : Transcript) (lines : List String) : Transcript :=
  { t with lines := lines ++ t.lines }

namespace Console

def new (config : ConsoleConfig) : Console := ⟨.standard, config, ⟨0, 0, 0⟩⟩

def helpText : String := "\n".intercalate
  ["EZCode REPL Commands:",
   "  /help, /h           Show this help message",
   "  /vars, /variables   List global variables",
   "  /classes            List declared classes and methods",
   "  /clear              Forget all variables",
   "  /reset              Start a fresh session",
   "  /stats              Show session statistics",
   "  /config             Show current configuration",
   "  /types [on|off]     Toggle type display",
   "  /quit, /q, /exit    Exit the REPL",
   "",
   "Examples:",
   "  undefined x => 42                    Declare a variable",
   "  runexec => EZCode.print ~> x         Call a host function",
   "  method double : @int:n => @int \x7b     Multi-line input continues",
   "  return runexec => EZCode.multiply ~> n, 2",
   "  \x7d                                    until braces balance",
   "",
   "Use Ctrl+C to cancel input, Ctrl+D to exit."]

def boolText (b : Bool) : String := if b then "true" else "false"

def variablesText (c : Console) : String :=
  match c.session.machine.memory.globals with
  | [] => "No variables defined"
  | globals =>
    let entry (b : Binding) : String :=
      if c.config.showTypes then
        "  " ++ b.name ++ ": " ++ b.value.typeName ++ " = " ++ b.value.toText
      else "  " ++ b.name ++ " = " ++ b.value.toText
    "\n".intercalate ("Variables:" :: globals.map entry)

def declarationsText (c : Console) : String :=
  let d := c.session.machine.declared
  match d.classes, d.methods with
  | [], [] => "No classes or methods declared"
  | classes, methods =>
    "\n".intercalate
      ((classes.map fun e =>
          "  class " ++ e.2.name ++ " [" ++ ", ".intercalate (Table.keys e.2.methods) ++ "]") ++
        methods.map fun e =>
          "  method " ++ e.2.name ++ " (" ++ toString e.2.params.length ++ " params)")

def statsText (c : Console) : String := "\n".intercalate
  ["Session Statistics:",
   "  Inputs evaluated: " ++ toString c.stats.inputs,
   "  Errors encountered: " ++ toString c.stats.errors,
   "  Commands executed: " ++ toString c.stats.commands]

def configText (c : Console) : String := "\n".intercalate
  ["REPL Configuration:",
   "  Show types: " ++ boolText c.config.showTypes,
   "  Verbose errors: " ++ boolText c.config.verboseErrors,
   "  Prompt: \"" ++ c.config.prompt ++ "\"",
   "  Persist history: " ++ boolText c.config.persistHistory,
   "  History file: " ++ c.config.historyFile.getD "<none>"]

/-- Runs a command given by its words. -/
def runCommand (c : Console) (words : List String) : Except ConsoleError ConsoleReply × Console :=
  let c := { c with stats := { c.stats with commands := c.stats.commands + 1 } }
  let say (message : String) (c : Console) : Except ConsoleError ConsoleReply × Console :=
    (.ok (.command message), c)
  match words with
  | [] => (.ok .nothing, c)
  | name :: args =>
    if name = "/help" ∨ name = "/h" then say helpText c
    else if name = "/vars" ∨ name = "/variables" then say c.variablesText c
    else if name = "/classes" then say c.declarationsText c
    else if name = "/clear" then say "Variables cleared" { c with session := c.session.clear }
    else if name = "/reset" then say "Session reset" { c with session := .standard }
    else if name = "/stats" then say c.statsText c
    else if name = "/config" then say c.configText c
    else if name = "/quit" ∨ name = "/q" ∨ name = "/exit" then (.ok .leave, c)
    else if name = "/types" then
      match args with
      | "on" :: _ =>
        say "Type display enabled" { c with config := { c.config with showTypes := true } }
      | "off" :: _ =>
        say "Type display disabled" { c with config := { c.config with showTypes := false } }
      | _ => say ("Type display is " ++ if c.config.showTypes then "on" else "off") c
    else
      (.error (.command ("Unknown command: " ++ name ++ ". Type /help for available commands.")), c)

/-- Evaluates one complete input. Output written before an error stays for the next value. -/
def evaluateLine (fuel : Nat) (c : Console) (input : String) :
    Option (Except ConsoleError ConsoleReply × Console) :=
  match Text.trim input.toList with
  | [] => some (.ok .nothing, c)
  | '/' :: '/' :: _ => some (.ok .nothing, c)
  | '/' :: rest => some (c.runCommand ((Text.words ('/' :: rest)).map String.ofList))
  | _ =>
    let c := { c with stats := { c.stats with inputs := c.stats.inputs + 1 } }
    (c.session.evaluate fuel input).map fun r =>
      match r with
      | (.error e, session) => (.error (.ofSession e), { c with session })
      | (.ok v, session) =>
        let (output, session) := session.takeOutput
        (.ok (.value v output), { c with session })

/-- The lines that a reply shows. -/
def display (c : Console) : ConsoleReply → List String
  | .value v output =>
    output ++
      if v.isEmpty then []
      else if c.config.showTypes then [v.toText ++ ": " ++ v.typeName]
      else [v.toText]
  | .command message => [message]
  | .nothing => []
  | .leave => []

/-- Joins lines to complete inputs: an empty line is an input of its own, and an input goes on until its
braces are closed. What is still open at the end is dropped. A line that cannot be read ends the inputs
with a `none`. -/
def inputsFrom (pending : Option String) : List String → List (Option String)
  | [] => []
  | line :: rest =>
    match Text.typed line.toList with
    | none => [none]
    | some typed =>
      let line := String.ofList typed
      match pending with
      | none =>
        if Text.isBlankText line then some "" :: inputsFrom none rest
        else if Brace.isComplete line then some line :: inputsFrom none rest
        else inputsFrom (some line) rest
      | some text =>
        let text := text ++ "\n" ++ line
        if Brace.isComplete text then some text :: inputsFrom none rest
        else inputsFrom (some text) rest

/-- The lines that the inputs show, up to the one that leaves or cannot be read. -/
def respond (fuel : Nat) (c : Console) : List (Option String) → Option Transcript
  | [] => some ⟨[], true⟩
  | none :: _ => some ⟨[], false⟩
  | some input :: rest =>
    match c.evaluateLine fuel input with
    | none => none
    | some (.ok .leave, _) => some ⟨[], true⟩
    | some (.ok reply, c) => (respond fuel c rest).map (·.after (c.display reply))
    | some (.error _, c) =>
      let c := { c with stats := { c.stats with errors := c.stats.errors + 1 } }
      let (output, session) := c.session.takeOutput
      (respond fuel { c with session } rest).map (·.after output)

def version : String := "0.1.0"

def banner : List String :=
  ["EZCode REPL v" ++ version, "Type /help for commands, /quit to exit", ""]

/-- All that the console shows for the given input lines. -/
def transcript (fuel : Nat) (c : Console) (lines : List String) : Option Transcript :=
  (c.respond fuel (inputsFrom none lines)).map fun t =>
    ⟨banner ++ t.lines ++ (if t.inOrder then ["Goodbye!"] else []), t.inOrder⟩

end Console

end LineScript
