import LineScript.Text.Basic
set_option autoImplicit false

/-! Source lines: trimmed text with the number of the line in the source, counted from one. -/

namespace LineScript

structure Line where
  number : Nat
  text : String
  deriving DecidableEq, Repr, Inhabited

namespace Line

/-- Numbers the texts from `n` on and drops those without any character left. -/
def ofTexts (n : Nat) : List (List Char) → List Line
  | [] => []
  | cs :: r =>
    let t := Text.trim cs
    if t.isEmpty then ofTexts (n + 1) r else ⟨n, String.ofList t⟩ :: ofTexts (n + 1) r

/-- The lines of a source that hold more than blanks. -/
def ofSource (source : String) : List Line := ofTexts 1 (Text.pieces '\n' source.toList)

/-- The trimmed text as a line, if anything is left of it. -/
def trimmed? (number : Nat) (cs : List Char) : Option Line :=
  let t := Text.trim cs
  if t.isEmpty then none else some ⟨number, String.ofList t⟩

end Line

end LineScript
