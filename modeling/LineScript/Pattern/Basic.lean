import LineScript.ParseError
import LineScript.Table
import LineScript.Template
import LineScript.Text.Alphanumeric
import LineScript.Text.Basic
set_option autoImplicit false

/-!
Patterns: templates compiled into literals, captures and runs of blanks, matched against text. Every run
is tried from its longest reading down, so of all ways to cut the text the first found is the one whose
pieces are longest from the left.
-/

namespace LineScript

/-- What a capture may hold: a plain word, possibly with one colon inside, or any text without blanks. -/
inductive CaptureClass where
  | word
  | nonBlank
  deriving DecidableEq, Repr

namespace CaptureClass

def admits : CaptureClass → Char → Bool
  | word, c => Text.isWordChar c || c == ':'
  | nonBlank, c => !Text.isBlank c

/-- Is a run of admitted characters a whole capture? -/
def accepts : CaptureClass → List Char → Bool
  | nonBlank, cs => !cs.isEmpty
  | word, cs =>
    match cs.count ':' with
    | 0 => !cs.isEmpty
    | 1 => cs.head? != some ':' && cs.getLast? != some ':'
    | _ => false

end CaptureClass

inductive Segment where
  | literal (text : List Char)
  | capture (name : String)
  | space
  deriving DecidableEq, Repr

namespace Segment

def isCapture : Segment → Bool
  | capture _ => true
  | _ => false

def captureName? : Segment → Option String
  | capture n => some n
  | _ => none

end Segment

structure Pattern where
  source : String
  accept : CaptureClass
  segments : List Segment
  deriving DecidableEq, Repr

namespace Pattern

/-- Adds the literal read so far, its last character first, to the segments, the last one first. -/
def flush (done : List Segment) (literal : List Char) : List Segment :=
  if literal.isEmpty then done else .literal literal.reverse :: done

/-- Turns the pieces of a template into segments; `done` and `literal` are kept last one first. -/
def segmentsFrom (done : List Segment) (literal : List Char) :
    List Template.Piece → Except PatternFault (List Segment)
  | [] => .ok (flush done literal).reverse
  | .plain c :: r =>
    if Text.isBlank c then
      let done := flush done literal
      segmentsFrom (if done.head? = some .space then done else .space :: done) [] r
    else segmentsFrom done (c :: literal) r
  | .escaped c :: r => segmentsFrom done (c :: literal) r
  | .hole name :: r =>
    let done := flush done literal
    let name := Text.trim name
    if name.isEmpty then .error .namelessHole
    else if (done.head?.map Segment.isCapture).getD false then .error .adjacentHoles
    else segmentsFrom (.capture (String.ofList name) :: done) [] r
  | .unclosed _ :: _ => .error .unclosedHole

def compile (source : String) (accept : CaptureClass) (line : Nat) : Except ParseError Pattern :=
  let cs := Text.trim source.toList
  let refuse (f : PatternFault) : ParseError := ⟨line, .invalidPattern (String.ofList cs) f⟩
  if cs.isEmpty then .error (refuse .empty)
  else match segmentsFrom [] [] (Template.read cs) with
    | .ok segments => .ok ⟨String.ofList cs, accept, segments⟩
    | .error f => .error (refuse f)

def captureNames (p : Pattern) : List String := p.segments.filterMap Segment.captureName?

def captureCount (p : Pattern) : Nat := p.captureNames.length

/-- Adds a capture name to the slots, unless it has one: its slot is the number of names before it. -/
def addSlot (slots : Table Nat) (name : String) : Table Nat :=
  if slots.contains name then slots else slots.insert name slots.length

/-- The slot of each capture name, in the order of first appearance. -/
def slots (p : Pattern) : Table Nat := p.captureNames.foldl addSlot []

/-- Cuts the front of a text along the segments. The result is the captured pieces and the text left;
with `whole` nothing may be left. -/
def cutFrom (accept : CaptureClass) (whole : Bool) :
    List Segment → List Char → Option (List (List Char) × List Char)
  | [], cs => if whole && !cs.isEmpty then none else some ([], cs)
  | .literal text :: segs, cs =>
    if text.isPrefixOf cs then cutFrom accept whole segs (cs.drop text.length) else none
  | .space :: segs, cs =>
    let run := (cs.takeWhile Text.isBlank).length
    (List.range (run + 1)).reverse.findSome? fun k => cutFrom accept whole segs (cs.drop k)
  | .capture _ :: segs, cs =>
    let run := (cs.takeWhile accept.admits).length
    (List.range run).reverse.findSome? fun k =>
      if accept.accepts (cs.take (k + 1)) then
        (cutFrom accept whole segs (cs.drop (k + 1))).map fun p => (cs.take (k + 1) :: p.1, p.2)
      else none

/-- A match: the text before it, the matched text, the text after it, and the named captures. -/
structure Match where
  before : List Char
  text : List Char
  after : List Char
  captures : List (String × String)
  deriving DecidableEq, Repr

namespace Match

def start (m : Match) : Nat := Text.byteSize m.before

def stop (m : Match) : Nat := Text.byteSize m.before + Text.byteSize m.text

/-- The first capture of that name. -/
def get? (m : Match) (name : String) : Option String := m.captures.lookup name

end Match

/-- Names the captured pieces. -/
def named (p : Pattern) (pieces : List (List Char)) : List (String × String) :=
  p.captureNames.zip (pieces.map String.ofList)

/-- Matches the whole text, blanks around it apart. -/
def matchWhole (p : Pattern) (input : String) : Option Match :=
  let cs := input.toList
  let before := cs.takeWhile Text.isBlank
  let text := Text.trim cs
  (cutFrom p.accept true p.segments text).map fun r =>
    ⟨before, text, cs.drop (before.length + text.length), p.named r.1⟩

/-- Tries every start from left to right; `before` holds what was passed, its last character first. -/
def findFrom (p : Pattern) (before : List Char) : List Char → Option Match
  | [] => none
  | c :: r =>
    match cutFrom p.accept false p.segments (c :: r) with
    | some (pieces, rest) =>
      if rest.length < (c :: r).length then
        some ⟨before.reverse, (c :: r).take ((c :: r).length - rest.length), rest, p.named pieces⟩
      else findFrom p (c :: before) r
    | none => findFrom p (c :: before) r

/-- The leftmost match that is not empty. -/
def find (p : Pattern) (input : String) : Option Match := p.findFrom [] input.toList

end Pattern

end LineScript
