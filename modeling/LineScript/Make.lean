import LineScript.Line
import LineScript.Pattern.Basic
set_option autoImplicit false

/-!
`make` declarations: templates to take out of the following lines and templates to put there instead.
One declaration passes over the lines once, from the first to the last, and never looks again at a line
that it produced.
-/

namespace LineScript

/-- The take patterns stand for consecutive lines; there is at least one. -/
structure Make where
  first : Pattern
  more : List Pattern
  replace : List String
  line : Nat
  deriving DecidableEq, Repr

namespace Make

/-- Fills one piece of a replacement; a hole without a value stays as it is written. -/
def fillPiece (lookup : String → Option String) : Template.Piece → List Char
  | .plain c => [c]
  | .escaped c => [c]
  | .hole name =>
    match lookup (String.ofList (Text.trim name)) with
    | some value => value.toList
    | none => '\x7b' :: name ++ ['\x7d']
  | .unclosed name => '\x7b' :: name

def substitute (template : List Char) (lookup : String → Option String) : List Char :=
  (Template.read template).flatMap (fillPiece lookup)

/-- The filled replacement lines; a name is looked up in the first match that captured it. -/
def fill (m : Make) (found : List Pattern.Match) : List (List Char) :=
  m.replace.map fun t => substitute t.toList fun name => found.findSome? fun f => f.get? name

/-- Puts `before` in front of the first text and `after` behind the last. -/
def surround (before after : List Char) : List (List Char) → List (List Char)
  | [] => []
  | [t] => [before ++ t ++ after]
  | t :: ts => (before ++ t) :: close after ts
where
  close (after : List Char) : List (List Char) → List (List Char)
    | [] => []
    | [t] => [t ++ after]
    | t :: ts => t :: close after ts

def lineOf (number : Nat) (cs : List Char) : Line := ⟨number, String.ofList (Text.trim cs)⟩

/-- What a line becomes in which the only take pattern is found. -/
def rewriteLine (m : Make) (line : Line) (found : Pattern.Match) : List Line :=
  match surround found.before found.after (m.fill [found]) with
  | [] =>
    let rest := lineOf line.number (found.before ++ ' ' :: found.after)
    if rest.text.isEmpty then [] else [rest]
  | texts => texts.map (lineOf line.number)

/-- One match for every take pattern on the lines at the front. -/
def matchWindow : List Pattern → List Line → Option (List Pattern.Match)
  | [], _ => some []
  | _ :: _, [] => none
  | p :: ps, l :: ls => do
    let found ← p.find l.text
    let rest ← matchWindow ps ls
    return found :: rest

/-- The number of lines that the take patterns stand for. -/
def width (m : Make) : Nat := m.more.length + 1

/-- What the lines at the front become, if the take patterns are found on them. -/
def rewrite? (m : Make) : List Line → Option (List Line)
  | [] => none
  | l :: r =>
    if m.more.isEmpty then (m.first.find l.text).map (m.rewriteLine l)
    else (matchWindow (m.first :: m.more) (l :: r)).map fun found =>
      (m.fill found).map (lineOf l.number)

/-- Passes over the lines from a place on. Lines are rewritten where they stand, and the pass goes on
behind what was put there. -/
def apply (m : Make) (lines : List Line) (index : Nat) : List Line :=
  if index < lines.length then
    match m.rewrite? (lines.drop index) with
    | some new =>
      m.apply (lines.take index ++ new ++ lines.drop (index + m.width)) (index + new.length)
    | none => m.apply lines (index + 1)
  else lines
termination_by lines.length - index
decreasing_by
  -- the lines behind the place get fewer, whatever was put before it
  · simp only [List.length_append,List.length_take,List.length_drop,width]
    omega
  · omega

/-- Reads take lines up to the one that starts with a closing brace. The result is the take texts, the
text after the arrow and the lines left; `number` is the line of the declaration. -/
def readTake (number : Nat) :
    List (List Char) → List Line → Except ParseError (List (List Char) × List Char) × List Line
  | _, [] => (.error ⟨number, .unclosedBlock⟩, [])
  | take, l :: r =>
    match Text.trim l.text.toList with
    | '\x7d' :: closing =>
      match Text.trim closing with
      | '=' :: '>' :: replace => (.ok (take, Text.trim replace), r)
      | _ => (.error ⟨l.number, .invalidMake .unfinishedTake⟩, r)
    | text => readTake number (take ++ [text]) r

/-- Reads replacement lines up to the one that starts with a closing brace. -/
def readReplace (number : Nat) :
    List (List Char) → List Line → Except ParseError (List (List Char)) × List Line
  | _, [] => (.error ⟨number, .unclosedBlock⟩, [])
  | replace, l :: r =>
    match Text.trim l.text.toList with
    | '\x7d' :: _ => (.ok replace, r)
    | text => readReplace number (replace ++ [text]) r

/-- Compiles the take texts once the whole declaration is read. -/
def ofTexts (number : Nat) (take replace : List (List Char)) : Except ParseError Make := do
  let patterns ← take.mapM fun t => Pattern.compile (String.ofList t) .nonBlank number
  match patterns with
  | [] => .error ⟨number, .invalidMake .emptyTake⟩
  | p :: ps => .ok ⟨p, ps, replace.map String.ofList, number⟩

def finish (number : Nat) (take : List (List Char)) (replace : List Char) (lines : List Line) :
    Except ParseError Make × List Line :=
  if take.isEmpty || take.any List.isEmpty then (.error ⟨number, .invalidMake .emptyTake⟩, lines)
  else if replace = ['\x7b'] then
    match readReplace number [] lines with
    | (.ok texts, rest) => (ofTexts number take texts, rest)
    | (.error e, rest) => (.error e, rest)
  else (ofTexts number take [replace], lines)

/-- Reads the declaration that `header` opens; the lines it used are gone, also on an error. -/
def read (header : Line) (lines : List Line) : Except ParseError Make × List Line :=
  let number := header.number
  let text := Text.trim header.text.toList
  if "make".toList.isPrefixOf text then
    let rest := Text.trim (text.drop 4)
    if rest = ['\x7b'] then
      match readTake number [] lines with
      | (.ok (take, replace), rest) => finish number take replace rest
      | (.error e, rest) => (.error e, rest)
    else
      match Text.cut ['=', '>'] rest with
      | some (take, replace) => finish number [Text.trim take] (Text.trim replace) lines
      | none => (.error ⟨number, .invalidMake .missingArrow⟩, lines)
  else (.error ⟨number, .invalidMake .notMake⟩, lines)

/-- Reads the declaration that `header` opens and applies it to the lines after it, which stand behind
the lines `before`. -/
def expandBehind (before : List Line) (header : Line) (lines : List Line) :
    Except ParseError Unit × List Line :=
  match read header lines with
  | (.ok m, rest) => (.ok (), m.apply (before ++ rest) before.length)
  | (.error e, rest) => (.error e, before ++ rest)

/-- Expands a declaration at the front. -/
def expand (header : Line) (lines : List Line) : Except ParseError Unit × List Line :=
  expandBehind [] header lines

/-- Expands the declaration at a place among the lines, or nothing if there is no such place. -/
def expandAt (lines : List Line) (index : Nat) : Option (Except ParseError Unit × List Line) :=
  match lines.drop index with
  | [] => none
  | header :: rest => some (expandBehind (lines.take index) header rest)

end Make

end LineScript
