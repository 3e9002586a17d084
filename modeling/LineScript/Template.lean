set_option autoImplicit false

/-!
Templates: text with named holes in braces. A backslash makes a brace plain. Patterns and replacements
are read into the same pieces, so both agree on where a hole starts and ends.
-/

namespace LineScript

namespace Template

inductive Piece where
  | plain (c : Char)
  | escaped (brace : Char)
  | hole (name : List Char)
  | unclosed (name : List Char)
  deriving DecidableEq, Repr

/-- Reads a template; the first argument holds the hole being read, its last character first. -/
def readFrom : Option (List Char) → List Char → List Piece
  | none, [] => []
  | some name, [] => [.unclosed name.reverse]
  | some name, c :: r =>
    if c = '\x7d' then .hole name.reverse :: readFrom none r else readFrom (some (c :: name)) r
  | none, '\\' :: '\x7b' :: r => .escaped '\x7b' :: readFrom none r
  | none, '\\' :: '\x7d' :: r => .escaped '\x7d' :: readFrom none r
  | none, c :: r => if c = '\x7b' then readFrom (some []) r else .plain c :: readFrom none r

def read (cs : List Char) : List Piece := readFrom none cs

end Template

end LineScript
