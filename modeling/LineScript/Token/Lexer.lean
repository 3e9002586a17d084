import LineScript.Text.Basic
import LineScript.Token.Kind
set_option autoImplicit false

/-!
Parts of a line. A part is a comment with all that follows it, an arrow, an at sign with the word after
it, one of five delimiters, or a word; only spaces and tabs stand between parts.
-/

namespace LineScript.Lexer

def isGap (c : Char) : Bool := c == ' ' || c == '\t'

def isDelimiter (c : Char) : Bool :=
  c == '\x7b' || c == '\x7d' || c == ':' || c == ',' || c == '?'

/-- Does a word go on here? It stops at a gap, a delimiter, an at sign, a comment and an arrow. -/
def wordHere : List Char → Bool
  | [] => false
  | '/' :: '/' :: _ => false
  | '=' :: '>' :: _ => false
  | c :: _ => !(isGap c || isDelimiter c || c == '@')

/-- The parts of a line. A character that opens or continues a word joins the word that follows it
directly. -/
def parts : List Char → List (List Char)
  | [] => []
  | '/' :: '/' :: r => ['/' :: '/' :: r]
  | '=' :: '>' :: r => ['=', '>'] :: parts r
  | c :: r =>
    if isGap c then parts r
    else if isDelimiter c then [c] :: parts r
    else if wordHere r then Text.attach c (parts r)
    else [c] :: parts r

def split (text : String) : List String := (parts text.toList).map String.ofList

end LineScript.Lexer
