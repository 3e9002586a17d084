import LineScript.Line
import LineScript.ParseError
set_option autoImplicit false

/-!
Blocks in braces. A brace counts unless a backslash stands before it or a comment has begun on its line;
the same reading decides where a block closes and whether a text has all its blocks closed.
-/

namespace LineScript

namespace Brace

/-- Marks every character of a line: does it count? A backslash and the character after it do not, nor
does anything from a comment on. -/
def mark : List Char → List (Char × Bool)
  | [] => []
  | '\\' :: c :: r => ('\\', false) :: (c, false) :: mark r
  | '/' :: '/' :: r => ('/' :: '/' :: r).map fun c => (c, false)
  | c :: r => (c, true) :: mark r

def chars (cs : List (Char × Bool)) : List Char := cs.map Prod.fst

/-- The text before and after the first opening brace that counts. -/
def splitOpen : List (Char × Bool) → Option (List Char × List Char)
  | [] => none
  | (c, counts) :: r =>
    if counts && c == '\x7b' then some ([], chars r)
    else (splitOpen r).map fun p => (c :: p.1, p.2)

/-- How a line ends for blocks that are open at its start. -/
inductive Scan where
  | closed (inside after : List Char)
  | stillOpen (depth : Nat)
  deriving DecidableEq, Repr

def Scan.cons (c : Char) : Scan → Scan
  | closed inside after => closed (c :: inside) after
  | stillOpen depth => stillOpen depth

/-- Follows `depth` open blocks through a line, up to the brace that closes the outermost one. -/
def scan : Nat → List (Char × Bool) → Scan
  | depth, [] => .stillOpen depth
  | depth, (c, counts) :: r =>
    if counts && c == '\x7b' then (scan (depth + 1) r).cons c
    else if counts && c == '\x7d' then
      if depth ≤ 1 then .closed [] (chars r) else (scan (depth - 1) r).cons c
    else (scan depth r).cons c

/-- What a character adds to the depth. -/
def weight (p : Char × Bool) : Int :=
  if p.2 && p.1 == '\x7b' then 1 else if p.2 && p.1 == '\x7d' then -1 else 0

/-- What a line adds to the depth. -/
def balance (cs : List (Char × Bool)) : Int := cs.foldr (fun p n => weight p + n) 0

/-- Are at least as many blocks closed as opened? -/
def isComplete (input : String) : Bool :=
  (Text.pieces '\n' input.toList).foldr (fun l n => balance (mark l) + n) 0 ≤ 0

theorem chars_mark (cs : List Char) : chars (mark cs) = cs := by
  fun_induction mark cs with
  | case1 => rfl
  | case2 c r ih => simpa [chars] using ih
  | case3 r => simp [chars, Function.comp_def]
  | case4 c r _ _ ih => simpa [chars] using ih

end Brace

/-- A block at the front of some lines: the header before its brace, the lines inside, the number of
lines used up, what stands behind the closing brace, and the lines after it. -/
structure Block where
  head : String
  body : List Line
  consumed : Nat
  remainder : Option Line
  later : List Line
  deriving DecidableEq, Repr

namespace Block

/-- Reads on until the block closes; `body` and `consumed` hold what was read before. -/
def close (head : String) (depth consumed : Nat) (body : List Line) : List Line → Option Block
  | [] => none
  | l :: r =>
    match Brace.scan depth (Brace.mark l.text.toList) with
    | .closed inside after =>
      some ⟨head, body ++ (Line.trimmed? l.number inside).toList, consumed + 1,
        Line.trimmed? l.number after, r⟩
    | .stillOpen depth =>
      close head depth (consumed + 1) (body ++ (Line.trimmed? l.number l.text.toList).toList) r

/-- The block that the first line opens, itself or with a brace at the start of the second line. -/
def find : List Line → Except ParseError (Option Block)
  | [] => .ok none
  | header :: r =>
    let found :=
      match Brace.splitOpen (Brace.mark header.text.toList), r with
      | some (before, after), _ =>
        some (close (String.ofList (Text.trim before)) 1 0 []
          (⟨header.number, String.ofList after⟩ :: r))
      | none, next :: later =>
        match next.text.toList with
        | '\x7b' :: after =>
          some (close (Text.trimmed header.text) 1 1 [] (⟨next.number, String.ofList after⟩ :: later))
        | _ => none
      | none, [] => none
    match found with
    | none => .ok none
    | some none => .error ⟨header.number, .unclosedBlock⟩
    | some (some block) => .ok (some block)

/-- The lines left once the block is taken away. -/
def rest (b : Block) : List Line := b.remainder.toList ++ b.later

end Block

end LineScript
