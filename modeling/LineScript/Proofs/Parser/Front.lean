import LineScript.Parser.Basic
set_option autoImplicit false

/-!
The construct at the front of some lines, before its body is read. `front` and `memberFront` say what
one step of reading does by itself and which body it leaves to be read; the readers do that and read the
body. Whatever is known of these two functions is known of every step of reading.
-/

namespace LineScript

namespace Parser

/-- A construct is settled, or its body is still to be read; `finish` says what a body that was read
makes of it. The lines behind it are known in any case. -/
inductive Construct where
  | settled (s : Step)
  | ofLines (body rest : List Line) (finish : Parser → List (Row Token) → Parser × Row Token)
  | ofMembers (start : Class Token) (body rest : List Line)
    (finish : Parser → Class Token → Parser × Row Token)

/-- A member of a class, in the same way; a refused one leaves the class. -/
inductive Membership where
  | refused (e : ParseError)
  | settled (c : Class Token) (rest : List Line)
  | ofLines (body rest : List Line) (finish : Parser → List (Row Token) → Parser × Class Token)
  | ofMembers (start : Class Token) (body rest : List Line)
    (finish : Parser → Class Token → Parser × Class Token)

/-- The step made of a body that was read, or of the error in it. -/
def Step.close {α : Type} (rest : List Line) (finish : Parser → α → Parser × Row Token) :
    Parser × Except ParseError α → Step
  | (p, .error e) => ⟨p, rest, .error e⟩
  | (p, .ok a) => ⟨(finish p a).1, rest, .ok (some (finish p a).2)⟩

namespace Construct

/-- The body that is still to be read, with the lines behind the construct. -/
def nested? : Construct → Option (List Line × List Line)
  | settled _ => none
  | ofLines body rest _ => some (body, rest)
  | ofMembers _ body rest _ => some (body, rest)

/-- Reads the body, if there is one to be read. -/
def run (fuel : Nat) (p : Parser) : Construct → Option Step
  | settled s => some s
  | ofLines body rest finish => (parseLines fuel p body).map (Step.close rest finish)
  | ofMembers start body rest finish =>
    (parseMembers fuel p start body).map (Step.close rest finish)

end Construct

namespace Membership

def nested? : Membership → Option (List Line × List Line)
  | refused _ => none
  | settled _ _ => none
  | ofLines body rest _ => some (body, rest)
  | ofMembers _ body rest _ => some (body, rest)

/-- Reads the body, if there is one to be read, and goes on with the members behind it. -/
def run (fuel : Nat) (p : Parser) : Membership → Option (Parser × Except ParseError (Class Token))
  | refused e => some (p, .error e)
  | settled c rest => parseMembers fuel p c rest
  | ofLines body rest finish =>
    match parseLines fuel p body with
    | none => none
    | some (q, .error e) => some (q, .error e)
    | some (q, .ok rows) => parseMembers fuel (finish q rows).1 (finish q rows).2 rest
  | ofMembers start body rest finish =>
    match parseMembers fuel p start body with
    | none => none
    | some (q, .error e) => some (q, .error e)
    | some (q, .ok nested) => parseMembers fuel (finish q nested).1 (finish q nested).2 rest

end Membership

/-- The construct that a header opens. -/
def front (p : Parser) (header : Line) (tail : List Line) : Construct :=
  match Lexer.split header.text with
  | [] => .settled ⟨p, tail, .ok none⟩
  | first :: more =>
    if first = "make" then
      match Make.expand header tail with
      | (.ok (), rest) => .settled ⟨p, rest, .ok none⟩
      | (.error e, rest) => .settled ⟨p, rest, .error e⟩
    else
      match StatementKind.ofKeyword? first with
      | some kind =>
        match StatementHead.read p.declared kind header tail with
        | (.error e, rest) => .settled ⟨p, rest, .error e⟩
        | (.ok head, rest) => .ofLines head.body rest fun q body =>
          (q, ⟨header, [.statement ⟨kind, header.number, header.text, head.condition, body⟩]⟩)
      | none =>
        if declaresClass (first :: more) then
          match ClassHead.read header tail with
          | (.error e, rest) => .settled ⟨p, rest, .error e⟩
          | (.ok head, rest) => .ofMembers head.start head.body rest fun q c =>
            (q.registerClass c, ⟨header, [.ofClass c]⟩)
        else if declaresMethod (first :: more) then
          match MethodHead.read p.declared header tail with
          | (.error e, rest) => .settled ⟨p, rest, .error e⟩
          | (.ok head, rest) => .ofLines head.body rest fun q body =>
            (q.registerMethod (head.build header.number body),
              ⟨header, [.ofMethod (head.build header.number body)]⟩)
        else if first = "container" then
          match Container.read p.declared header tail with
          | (.error e, rest) => .settled ⟨p, rest, .error e⟩
          | (.ok c, rest) =>
            .settled ⟨p.registerContainer c, rest, .ok (some ⟨header, [.ofContainer c]⟩)⟩
        else
          match p.declared.tokens header.text header.number with
          | .error e => .settled ⟨p, tail, .error e⟩
          | .ok [] => .settled ⟨p, tail, .ok none⟩
          | .ok tokens => .settled ⟨p, tail, .ok (some ⟨header, tokens⟩)⟩

/-- The member of the class `c` that a line opens. -/
def memberFront (p : Parser) (c : Class Token) (line : Line) (tail : List Line) : Membership :=
  let parts := Lexer.split line.text
  let tokens := Token.codeOfText line.text
  if tokens.isEmpty then .settled c tail
  else if declaresClass parts then
    match ClassHead.read line tail with
    | (.error e, _) => .refused e
    | (.ok head, rest) => .ofMembers head.start head.body rest fun q nested =>
      (q.registerClass nested, { c with classes := c.classes ++ [nested] })
  else if declaresMethod parts then
    match MethodHead.read p.declared line tail with
    | (.error e, _) => .refused e
    | (.ok head, rest) => .ofLines head.body rest fun q body =>
      q.addMethod c (head.build line.number body)
  else if (tokens.head?.map Token.kind) = some .get then
    match ConverterHead.read p.declared line tail with
    | (.error e, _) => .refused e
    | (.ok head, rest) => .ofLines head.body rest fun q body =>
      (q, { c with converters := c.converters ++ [head.build line.number body] })
  else
    match Member.addSimple p.declared c line tokens with
    | .error e => .refused e
    | .ok c => .settled c tail

/-- Reading a construct is finding out what stands at the front and reading its body. -/
theorem nextLine_cons (fuel : Nat) (p : Parser) (header : Line) (tail : List Line) :
    nextLine (fuel + 1) p (header :: tail) = (front p header tail).run fuel p := by
  unfold nextLine front
  cases Lexer.split header.text with
  | nil => rfl
  | cons first more =>
    dsimp only
    split
    · rcases Make.expand header tail with ⟨e | _, rest⟩ <;> rfl
    · cases StatementKind.ofKeyword? first with
      | some kind =>
        dsimp only
        rcases StatementHead.read p.declared kind header tail with ⟨e | head, rest⟩
        · rfl
        · simp only [Construct.run]
          rcases parseLines fuel p head.body with _ | ⟨q, e | rows⟩ <;> rfl
      | none =>
        dsimp only
        split
        · rcases ClassHead.read header tail with ⟨e | head, rest⟩
          · rfl
          · simp only [Construct.run]
            rcases parseMembers fuel p head.start head.body with _ | ⟨q, e | c⟩ <;> rfl
        · split
          · rcases MethodHead.read p.declared header tail with ⟨e | head, rest⟩
            · rfl
            · simp only [Construct.run]
              rcases parseLines fuel p head.body with _ | ⟨q, e | rows⟩ <;> rfl
          · split
            · rcases Container.read p.declared header tail with ⟨e | c, rest⟩ <;> rfl
            · rcases p.declared.tokens header.text header.number with e | _ | ⟨t, ts⟩ <;> rfl

theorem parseMembers_cons (fuel : Nat) (p : Parser) (c : Class Token) (line : Line)
    (tail : List Line) :
    parseMembers (fuel + 1) p c (line :: tail) = (memberFront p c line tail).run fuel p := by
  rw [parseMembers]
  unfold memberFront
  dsimp only
  split
  · rfl
  · split
    · rcases ClassHead.read line tail with ⟨e | head, rest⟩ <;> rfl
    · split
      · rcases MethodHead.read p.declared line tail with ⟨e | head, rest⟩ <;> rfl
      · split
        · rcases ConverterHead.read p.declared line tail with ⟨e | head, rest⟩ <;> rfl
        · rcases Member.addSimple p.declared c line (Token.codeOfText line.text) with e | c <;> rfl

end Parser

end LineScript
