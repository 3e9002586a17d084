import LineScript.CommandLine
set_option autoImplicit false

/-! The program: reads what the request needs, prints the answer and exits with its status. -/

namespace LineScript

partial def readAll (stream : IO.FS.Stream) (text : String) : IO String := do
  let line ← stream.getLine
  if line.isEmpty then return text else readAll stream (text ++ line)

/-- The text that a request works on: a file, or standard input. -/
def sourceOf : Request → IO (Option String)
  | .command c =>
    match c.file? with
    | some "-" | none => do return some (← readAll (← IO.getStdin) "")
    | some path => try return some (← IO.FS.readFile path) catch _ => return none
  | _ => return none

end LineScript

def main (args : List String) : IO UInt32 := do
  let request := LineScript.CommandLine.request false args
  match request.answer LineScript.ampleFuel (← LineScript.sourceOf request) with
  | some printed =>
    IO.print printed.text
    return printed.status.toUInt32
  | none => return 1
