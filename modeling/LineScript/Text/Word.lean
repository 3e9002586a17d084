import LineScript.Text.Alphanumeric
import LineScript.Text.Basic
set_option autoImplicit false

/-! Standing words: a word of a text with no letter, number or underscore on either side. -/

namespace LineScript.Text

def isWordEnd (c : Option Char) : Bool := !(c.map isWordChar).getD false

/-- The place of the first standing `word`, given the character before the text. -/
def wordAt (word : List Char) : Option Char → List Char → Option Nat
  | _, [] => none
  | prev, c :: r =>
    if word.isPrefixOf (c :: r) && isWordEnd prev && isWordEnd ((c :: r).drop word.length).head? then
      some 0
    else (wordAt word (some c) r).map (· + 1)

/-- The text before and after the first standing `word` that no comment hides. -/
def cutWord (word : String) (text : String) : Option (List Char × List Char) :=
  let cs := text.toList
  (wordAt word.toList none (code cs)).map fun n => (cs.take n, cs.drop (n + word.toList.length))

end LineScript.Text
