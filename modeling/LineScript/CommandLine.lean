import LineScript.Console
import LineScript.Outline
set_option autoImplicit false

/-!
The command line: what the arguments ask for, and what each command prints. Reading files and standard
input is left to the caller.
-/

namespace LineScript

inductive Command where
  | run (file : String) (maxDepth : Nat)
  | tokens (file : String)
  | outline (file : String)
  | console
  deriving DecidableEq, Repr

/-- What the arguments ask for; arguments that make no sense are a misuse. -/
inductive Request where
  | command (c : Command)
  | version
  | help
  | misuse
  deriving DecidableEq, Repr

namespace CommandLine

/-- What was read of a command's arguments so far. -/
structure Options where
  verbose : Bool
  quiet : Bool
  maxDepth : Option Nat
  files : List String
  deriving DecidableEq, Repr

def Options.none : Options := ⟨false, false, .none, []⟩

/-- The arguments that a command takes besides the ones common to all. -/
structure Shape where
  takesFile : Bool
  takesRunOptions : Bool

/-- Why reading arguments stops early. -/
inductive Stop where
  | help
  | version
  | misuse
  deriving DecidableEq, Repr

/-- Notes a flag, which may be given once. -/
def setFlag (shape : Shape) (o : Options) (c : Char) : Except Stop Options :=
  if c = 'v' then if o.verbose then .error .misuse else .ok { o with verbose := true }
  else if c = 'q' ∧ shape.takesRunOptions then
    if o.quiet then .error .misuse else .ok { o with quiet := true }
  else if c = 'h' then .error .help
  else .error .misuse

def setFlags (shape : Shape) (o : Options) : List Char → Except Stop Options
  | [] => .ok o
  | c :: cs => (setFlag shape o c).bind fun o => setFlags shape o cs

def setDepth (o : Options) (value : List Char) : Except Stop Options :=
  if o.maxDepth.isSome then .error .misuse
  else
    match (Numeral.unsigned? value).filter fun n : Nat => Numeral.uint64.holds n with
    | some n => .ok { o with maxDepth := some n }
    | none => .error .misuse

def addFile (shape : Shape) (o : Options) (file : String) : Except Stop Options :=
  if shape.takesFile && o.files.isEmpty && !file.isEmpty then .ok { o with files := [file] }
  else .error .misuse

/-- Reads the arguments after a command's name. After two dashes all are files. -/
def readOptions (shape : Shape) : Bool → Options → List String → Except Stop Options
  | _, o, [] => .ok o
  | true, o, a :: r => (addFile shape o a).bind fun o => readOptions shape true o r
  | false, o, a :: r =>
    match a.toList with
    | '-' :: '-' :: [] => readOptions shape true o r
    | '-' :: '-' :: name =>
      if name = "verbose".toList then (setFlag shape o 'v').bind fun o => readOptions shape false o r
      else if name = "quiet".toList then (setFlag shape o 'q').bind fun o => readOptions shape false o r
      else if name = "help".toList then .error .help
      else if !shape.takesRunOptions then .error .misuse
      else if name = "max-depth".toList then
        match r with
        | [] => .error .misuse
        | value :: r =>
          if value.toList.head? = some '-' then .error .misuse
          else (setDepth o value.toList).bind fun o => readOptions shape false o r
      else if "max-depth=".toList.isPrefixOf name then
        (setDepth o (name.drop 10)).bind fun o => readOptions shape false o r
      else .error .misuse
    | '-' :: c :: cs => (setFlags shape o (c :: cs)).bind fun o => readOptions shape false o r
    | _ => (addFile shape o a).bind fun o => readOptions shape false o r

def Stop.request : Stop → Request
  | .help => .help
  | .version => .version
  | .misuse => .misuse

/-- The request of a command that works on one file. -/
def fileRequest (shape : Shape) (args : List String) (make : Options → String → Command) : Request :=
  match readOptions shape false .none args with
  | .error s => s.request
  | .ok o =>
    match o.files with
    | [file] => .command (make o file)
    | _ => .misuse

/-- Help on all commands or on one of them, itself included. No command has commands of its own. -/
def helpRequest : List String → Request
  | [] => .help
  | [name] => if ["run", "tokens", "parse", "repl", "help"].contains name then .help else .misuse
  | _ => .misuse

def commandRequest (name : String) (args : List String) : Request :=
  if name = "run" then
    fileRequest ⟨true, true⟩ args fun o file =>
      .run file (o.maxDepth.getD CallStack.defaultDepth)
  else if name = "tokens" then fileRequest ⟨true, false⟩ args fun _ file => .tokens file
  else if name = "parse" then fileRequest ⟨true, false⟩ args fun _ file => .outline file
  else if name = "repl" then
    match readOptions ⟨false, false⟩ false .none args with
    | .error s => s.request
    | .ok _ => .command .console
  else if name = "help" then helpRequest args
  else .misuse

/-- Flags before the command, in one argument. -/
def leadingFlags (verbose : Bool) : List Char → Except Stop Bool
  | [] => .ok verbose
  | c :: cs =>
    if c = 'v' ∧ verbose = false then leadingFlags true cs
    else if c = 'V' then .error .version
    else if c = 'h' then .error .help
    else .error .misuse

/-- What the arguments ask for. -/
def request (verbose : Bool) : List String → Request
  | [] => .help
  | a :: r =>
    match a.toList with
    | '-' :: '-' :: [] => if r.isEmpty then .help else .misuse
    | '-' :: '-' :: name =>
      if name = "verbose".toList ∧ verbose = false then request true r
      else if name = "version".toList then .version
      else if name = "help".toList then .help
      else .misuse
    | '-' :: c :: cs =>
      match leadingFlags verbose (c :: cs) with
      | .ok verbose => request verbose r
      | .error s => s.request
    | _ => commandRequest a r

end CommandLine

/-- What a command prints and its exit status. -/
structure Printed where
  text : String
  status : Nat
  deriving DecidableEq, Repr

namespace Command

/-- The file that the command reads, a dash standing for standard input. -/
def file? : Command → Option String
  | run f _ => some f
  | tokens f => some f
  | outline f => some f
  | console => none

/-- The last part of a path, if it names something. -/
def fileName? (path : String) : Option (List Char) :=
  match ((Text.pieces '/' path.toList).filter fun p => !p.isEmpty && p != ['.']).getLast? with
  | some ['.', '.'] => none
  | name => name

/-- The file's name without its extension; standard input and nameless paths run as `main`. -/
def programName (path : String) : String :=
  match fileName? path with
  | none => "main"
  | some name =>
    let stem := match Text.cutLast ['.'] name with
      | some (c :: cs, _) => c :: cs
      | _ => name
    if stem = ['-'] then "main" else String.ofList stem

def printLines (lines : List String) : String := String.join (lines.map fun l => l ++ "\n")

/-- A number right-aligned in four columns. -/
def column (n : Nat) : String :=
  let digits := Numeral.ofNat n
  String.ofList (List.replicate (4 - digits.length) ' ' ++ digits)

def tokensLine (l : Line) : String :=
  column l.number ++ ": " ++
    " ".intercalate ((Token.ofText l.text).map fun t => t.kind.label ++ "(" ++ t.text ++ ")")

/-- The lines of standard input as the console reads them: a line end is a line feed, with a carriage
return before it or not. -/
def inputLines (input : String) : List String :=
  let lines := Text.pieces '\n' input.toList
  let ended := lines.dropLast.map fun l => if l.getLast? = some '\r' then l.dropLast else l
  let last := lines.getLast?.getD []
  (ended ++ if last.isEmpty then [] else [last]).map String.ofList

/-- The exit status of a console that breaks off. -/
def brokenOffStatus : Nat := 101

/-- Executes a command on the text of its file, or of standard input for the console. A missing file
gives no text. -/
def execute (fuel : Nat) (c : Command) (source : Option String) : Option Printed :=
  match c, source with
  | console, source =>
    ((Console.new .standard).transcript fuel (inputLines (source.getD ""))).map fun t =>
      ⟨printLines t.lines, if t.inOrder then 0 else brokenOffStatus⟩
  | _, none => some ⟨"", 1⟩
  | run file maxDepth, some source =>
    (runSource fuel ⟨programName file, maxDepth⟩ source).map fun r =>
      ⟨printLines r.1.output, r.1.status⟩
  | tokens _, some source =>
    some ⟨printLines ((Line.ofSource source).map tokensLine), 0⟩
  | outline _, some source =>
    (Parser.empty.parseTolerantWith fuel source).map fun r =>
      ⟨Outline.program r.2.1 ++ "\n", if r.2.2.hasErrors then 1 else 0⟩

end Command

namespace Request

def versionText : String := "ezcode " ++ Console.version

/-- Answers a request, given the text that its command reads. -/
def answer (fuel : Nat) (r : Request) (source : Option String) : Option Printed :=
  match r with
  | .command c => c.execute fuel source
  | .version => some ⟨versionText ++ "\n", 0⟩
  | .help => some ⟨"", 0⟩
  | .misuse => some ⟨"", 2⟩

end Request

end LineScript
