import LineScript.ParseError
import LineScript.Text.Word
set_option autoImplicit false

/-!
Host calls: a path into the host's functions with the texts of its arguments. A path with a single quote
in it names a variable whose text is the call to make.
-/

namespace LineScript

structure HostCall where
  path : String
  args : List String
  deriving DecidableEq, Repr

namespace HostCall

def isDynamic (c : HostCall) : Bool := c.path.toList.contains '\''

/-- The path without the quotes around it. -/
def variableName (c : HostCall) : String :=
  let cs := c.path.toList.dropWhile (· == '\'')
  String.ofList (cs.reverse.dropWhile (· == '\'')).reverse

def text (c : HostCall) : String :=
  "runexec => " ++ c.path ++
    if c.args.isEmpty then "" else " ~> " ++ ", ".intercalate c.args

/-- The trimmed pieces between commas that hold something. -/
def readArgs (cs : List Char) : List String :=
  ((Text.pieces ',' cs).map Text.trim).filterMap fun a =>
    if a.isEmpty then none else some (String.ofList a)

/-- Reads what follows the word `runexec`: an arrow, the path, and arguments after a wavy arrow. -/
def ofTail (cs : List Char) : Except HostCallFault HostCall :=
  match Text.trimStart cs with
  | '=' :: '>' :: r =>
    let r := ((Text.cut " //".toList r).map Prod.fst).getD r
    let (path, args) := (Text.cut "~>".toList r).getD (r, [])
    let path := Text.trim path
    if path.isEmpty then .error .missingPath else .ok ⟨String.ofList path, readArgs args⟩
  | _ => .error .missingArrow

/-- Reads a call written with or without the word `runexec` in front. -/
def ofText? (text : String) : Option HostCall :=
  let text := Text.trimmed text
  match Text.cutWord "runexec" text with
  | some ([], after) => (ofTail after).toOption
  | some (_ :: _, _) => none
  | none => (ofTail text.toList).toOption

end HostCall

end LineScript
