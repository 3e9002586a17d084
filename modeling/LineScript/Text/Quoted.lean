import LineScript.Text.Extend
import LineScript.Text.Printable
set_option autoImplicit false

/-!
Quoted text: double quotes around the text, a backslash before a quote or a backslash, short names for
tab, line ends and the null character, and the hexadecimal code point of everything that would not show.
-/

namespace LineScript.Text

/-- The two halfwidth sound marks, which take a cell of their own. -/
def isHalfwidthMark (c : Char) : Bool := c == '\uFF9E' || c == '\uFF9F'

/-- Does the character show as one of its own? -/
def isShown (c : Char) : Bool := isPrintable c && (!isExtend c || isHalfwidthMark c)

def escapeChar (c : Char) : List Char :=
  if c = '\x00' then ['\\', '0']
  else if c = '\t' then ['\\', 't']
  else if c = '\r' then ['\\', 'r']
  else if c = '\n' then ['\\', 'n']
  else if c = '\\' then ['\\', '\\']
  else if c = '"' then ['\\', '"']
  else if !isShown c then
    ['\\', 'u', '\x7b'] ++ Nat.toDigits 16 c.toNat ++ ['\x7d']
  else [c]

def escape (cs : List Char) : List Char := cs.flatMap escapeChar

def quote (s : String) : String := String.ofList ('"' :: escape s.toList ++ ['"'])

/-- A list of quoted texts between brackets. -/
def quoteList (texts : List String) : String :=
  "[" ++ ", ".intercalate (texts.map quote) ++ "]"

end LineScript.Text
