import LineScript.Diagnostics
import LineScript.Make
import LineScript.Parser.Member
set_option autoImplicit false

/-!
Reading programs. The parser takes the construct at the front of the lines, again and again; strict
reading stops at the first error, tolerant reading drops the construct and goes on. A `make` line can
produce lines without end, so the readers carry a fuel and give nothing when it runs out.
-/

namespace LineScript

/-- A fuel that outlasts any reading or running that a caller could wait for. -/
def ampleFuel : Nat := 1000000000000000000

/-- What is known from the text read so far. -/
structure Parser where
  declared : Declarations
  warnings : List Warning

namespace Parser

def empty : Parser := ⟨.empty, []⟩

instance : Inhabited Parser := ⟨empty⟩

def warnIf (p : Parser) (replaced : Bool) (w : Warning) : Parser :=
  if replaced then { p with warnings := p.warnings ++ [w] } else p

def registerClass (p : Parser) (c : Class Token) : Parser :=
  let known := p.declared.classes.contains c.name
  { p with declared := { p.declared with classes := p.declared.classes.insert c.name c } }.warnIf
    known ⟨.ofClass, c.name, c.line⟩

def registerMethod (p : Parser) (m : Method Token) : Parser :=
  let known := p.declared.methods.contains m.name
  { p with declared := { p.declared with methods := p.declared.methods.insert m.name m } }.warnIf
    known ⟨.ofMethod, m.name, m.line⟩

def registerContainer (p : Parser) (c : Container) : Parser :=
  let known := p.declared.containers.contains c.name
  { p with
    declared := { p.declared with containers := p.declared.containers.insert c.name c } }.warnIf
    known ⟨.ofContainer, c.name, c.line⟩

/-- The result of reading one construct, with the parser and the lines left by it, also on an error. -/
structure Step where
  parser : Parser
  rest : List Line
  result : Except ParseError (Option (Row Token))

/-- Adds a method to a class under construction. -/
def addMethod (p : Parser) (c : Class Token) (m : Method Token) : Parser × Class Token :=
  (p.warnIf (Table.contains c.methods m.name) ⟨.ofMethod, c.name ++ "." ++ m.name, m.line⟩,
   { c with methods := Table.insert c.methods m.name m })

mutual

/-- Reads the construct at the front of the lines. -/
def nextLine : Nat → Parser → List Line → Option Step
  | 0, _, _ => none
  | _ + 1, p, [] => some ⟨p, [], .ok none⟩
  | fuel + 1, p, header :: tail =>
    match Lexer.split header.text with
    | [] => some ⟨p, tail, .ok none⟩
    | first :: more =>
      if first = "make" then
        match Make.expand header tail with
        | (.ok (), rest) => some ⟨p, rest, .ok none⟩
        | (.error e, rest) => some ⟨p, rest, .error e⟩
      else
        match StatementKind.ofKeyword? first with
        | some kind =>
          match StatementHead.read p.declared kind header tail with
          | (.error e, rest) => some ⟨p, rest, .error e⟩
          | (.ok head, rest) =>
            match parseLines fuel p head.body with
            | none => none
            | some (p, .error e) => some ⟨p, rest, .error e⟩
            | some (p, .ok body) =>
              let s : Statement Token :=
                ⟨kind, header.number, header.text, head.condition, body⟩
              some ⟨p, rest, .ok (some ⟨header, [.statement s]⟩)⟩
        | none =>
          if declaresClass (first :: more) then
            match ClassHead.read header tail with
            | (.error e, rest) => some ⟨p, rest, .error e⟩
            | (.ok head, rest) =>
              match parseMembers fuel p head.start head.body with
              | none => none
              | some (p, .error e) => some ⟨p, rest, .error e⟩
              | some (p, .ok c) => some ⟨p.registerClass c, rest, .ok (some ⟨header, [.ofClass c]⟩)⟩
          else if declaresMethod (first :: more) then
            match MethodHead.read p.declared header tail with
            | (.error e, rest) => some ⟨p, rest, .error e⟩
            | (.ok head, rest) =>
              match parseLines fuel p head.body with
              | none => none
              | some (p, .error e) => some ⟨p, rest, .error e⟩
              | some (p, .ok body) =>
                let m := head.build header.number body
                some ⟨p.registerMethod m, rest, .ok (some ⟨header, [.ofMethod m]⟩)⟩
          else if first = "container" then
            match Container.read p.declared header tail with
            | (.error e, rest) => some ⟨p, rest, .error e⟩
            | (.ok c, rest) =>
              some ⟨p.registerContainer c, rest, .ok (some ⟨header, [.ofContainer c]⟩)⟩
          else
            match p.declared.tokens header.text header.number with
            | .error e => some ⟨p, tail, .error e⟩
            | .ok [] => some ⟨p, tail, .ok none⟩
            | .ok tokens => some ⟨p, tail, .ok (some ⟨header, tokens⟩)⟩

/-- Reads all lines, up to the first error. -/
def parseLines : Nat → Parser → List Line → Option (Parser × Except ParseError (List (Row Token)))
  | 0, _, _ => none
  | _ + 1, p, [] => some (p, .ok [])
  | fuel + 1, p, l :: ls =>
    match nextLine fuel p (l :: ls) with
    | none => none
    | some ⟨p, _, .error e⟩ => some (p, .error e)
    | some ⟨p, rest, .ok row⟩ =>
      match parseLines fuel p rest with
      | none => none
      | some (p, .error e) => some (p, .error e)
      | some (p, .ok rows) => some (p, .ok (row.toList ++ rows))

/-- Reads the members of a class from the lines of its body, up to the first error. -/
def parseMembers : Nat → Parser → Class Token → List Line →
    Option (Parser × Except ParseError (Class Token))
  | 0, _, _, _ => none
  | _ + 1, p, c, [] => some (p, .ok c)
  | fuel + 1, p, c, line :: tail =>
    let parts := Lexer.split line.text
    let tokens := Token.codeOfText line.text
    if tokens.isEmpty then parseMembers fuel p c tail
    else if declaresClass parts then
      match ClassHead.read line tail with
      | (.error e, _) => some (p, .error e)
      | (.ok head, rest) =>
        match parseMembers fuel p head.start head.body with
        | none => none
        | some (p, .error e) => some (p, .error e)
        | some (p, .ok nested) =>
          parseMembers fuel (p.registerClass nested) { c with classes := c.classes ++ [nested] } rest
    else if declaresMethod parts then
      match MethodHead.read p.declared line tail with
      | (.error e, _) => some (p, .error e)
      | (.ok head, rest) =>
        match parseLines fuel p head.body with
        | none => none
        | some (p, .error e) => some (p, .error e)
        | some (p, .ok body) =>
          let r := p.addMethod c (head.build line.number body)
          parseMembers fuel r.1 r.2 rest
    else if (tokens.head?.map Token.kind) = some .get then
      match ConverterHead.read p.declared line tail with
      | (.error e, _) => some (p, .error e)
      | (.ok head, rest) =>
        match parseLines fuel p head.body with
        | none => none
        | some (p, .error e) => some (p, .error e)
        | some (p, .ok body) =>
          let c := { c with converters := c.converters ++ [head.build line.number body] }
          parseMembers fuel p c rest
    else
      match Member.addSimple p.declared c line tokens with
      | .error e => some (p, .error e)
      | .ok c => parseMembers fuel p c tail

end

/-- Reads all lines, collecting the errors. A refused construct that took no line loses its first
line. -/
def collectLines : Nat → Parser → List Line → Option (Parser × List (Row Token) × List ParseError)
  | 0, _, _ => none
  | _ + 1, p, [] => some (p, [], [])
  | fuel + 1, p, l :: ls =>
    match nextLine fuel p (l :: ls) with
    | none => none
    | some ⟨p, rest, .error e⟩ =>
      let rest := if rest.length = (l :: ls).length then rest.drop 1 else rest
      (collectLines fuel p rest).map fun r => (r.1, r.2.1, e :: r.2.2)
    | some ⟨p, rest, .ok row⟩ =>
      (collectLines fuel p rest).map fun r => (r.1, row.toList ++ r.2.1, r.2.2)

/-- Strict reading. A success drops the warnings, a failure keeps them for the next tolerant reading. -/
def parseWith (fuel : Nat) (p : Parser) (source : String) :
    Option (Parser × Except ParseError Program) :=
  match parseLines fuel p (Line.ofSource source) with
  | none => none
  | some (p, .error e) => some (p, .error e)
  | some (p, .ok rows) => some ({ p with warnings := [] }, .ok ⟨rows, p.declared⟩)

/-- Tolerant reading. -/
def parseTolerantWith (fuel : Nat) (p : Parser) (source : String) :
    Option (Parser × Program × Diagnostics) :=
  match collectLines fuel p (Line.ofSource source) with
  | none => none
  | some (p, rows, errors) =>
    some ({ p with warnings := [] }, ⟨rows, p.declared⟩, ⟨source, errors, p.warnings⟩)

end Parser

end LineScript
