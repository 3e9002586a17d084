import LineScript.Block
import LineScript.Declarations
set_option autoImplicit false

/-!
Headers of constructs. Each reader takes the header line and the lines after it and gives what the header
says together with the lines of the body, beside the lines left; of a refused construct the lines that it
had already taken are gone.
-/

namespace LineScript

/-- Does the line open a declaration: the keyword after nothing but modifiers? -/
def declares (keyword : String) (modifiers : List String) : List String → Bool
  | [] => false
  | p :: r => p == keyword || (modifiers.contains p && declares keyword modifiers r)

def declaresClass (parts : List String) : Bool := declares "class" ["static", "semi", "ontop"] parts

def declaresMethod (parts : List String) : Bool := declares "method" ["static", "nocol"] parts

/-- The modifiers before the keyword and the tokens after it. -/
def afterModifiers (keyword : Kind) (modifiers : List Kind) :
    List Token → Option (List Kind × List Token)
  | [] => some ([], [])
  | t :: r =>
    if t.kind = keyword then some ([], r)
    else if modifiers.contains t.kind then
      (afterModifiers keyword modifiers r).map fun p => (t.kind :: p.1, p.2)
    else none

/-- The body of a construct without a brace of its own: a block, or else the line after the header. -/
def takeBody (construct : String) (header : Line) (tail : List Line) :
    Except ParseError (String × List Line) × List Line :=
  match Block.find (header :: tail), tail with
  | .error e, _ => (.error e, header :: tail)
  | .ok (some b), _ => (.ok (b.head, b.body), b.rest)
  | .ok none, next :: later => (.ok (header.text, [next]), later)
  | .ok none, [] => (.error ⟨header.number, .missingBody construct⟩, [header])

namespace Declarations

/-- A plain identifier becomes a bound call if a watch rule matches it. -/
def bindWord (d : Declarations) : Token → Token
  | .word .identifier t => ((d.watchCall? t).map Token.bound).getD (.word .identifier t)
  | t => t

/-- The tokens of a line; the word `runexec` and all that follows it is one host call. -/
def tokens (d : Declarations) (text : String) (line : Nat) : Except ParseError (List Token) :=
  match Text.cutWord "runexec" text with
  | none => .ok ((Token.codeOfText text).map d.bindWord)
  | some (before, after) =>
    match HostCall.ofTail after with
    | .error f => .error ⟨line, .invalidHostCall f⟩
    | .ok call => .ok ((Token.codeOfText (String.ofList before)).map d.bindWord ++ [.host call])

/-- A type written as a token. -/
def tokenType? (d : Declarations) (t : Token) : Option DataType :=
  match t.kind with
  | .dataType | .identifier => some (d.writtenType t.text)
  | _ => none

end Declarations

/-- Type and name of a parameter. -/
def paramOf? (d : Declarations) : List Token → Option (DataType × String)
  | [name] => if name.kind = .identifier then some (.untyped, name.text) else none
  | [type, name] =>
    if type.kind = .dataType ∧ name.kind = .identifier then
      some (d.writtenType type.text, name.text)
    else none
  | [type, colon, name] =>
    if (type.kind = .dataType ∨ type.kind = .identifier) ∧ colon.kind = .colon ∧
        name.kind = .identifier then
      some (d.writtenType type.text, name.text)
    else none
  | _ => none

/-- Reads parameters from their groups. A question mark makes its parameter and all later ones
optional. -/
def paramsFrom (d : Declarations) (line : Nat) (optional : Bool) :
    List (List Token) → Except ParseError (List Variable)
  | [] => .ok []
  | group :: r =>
    if group.isEmpty then .error ⟨line, .invalidParameter ","⟩
    else
      let isMark (t : Token) : Bool := t.kind = .question
      let bare := (group.reverse.dropWhile isMark).reverse
      let optional := optional || bare.length < group.length
      match paramOf? d bare with
      | none => .error ⟨line, .invalidParameter (Token.joinText bare)⟩
      | some (type, name) =>
        match paramsFrom d line optional r with
        | .ok vs => .ok (⟨name, type, !optional, none, line⟩ :: vs)
        | .error e => .error e

def readParams (d : Declarations) (tokens : List Token) (line : Nat) :
    Except ParseError (List Variable) :=
  paramsFrom d line false (Token.commaGroups tokens)

structure StatementHead where
  condition : Option (List Token)
  body : List Line

namespace StatementHead

/-- The header text and the lines of the body: a block, or the text after a colon, or the next line. -/
def split (kind : StatementKind) (header : Line) (tail : List Line) :
    Except ParseError (String × List Line) × List Line :=
  let missing : ParseError := ⟨header.number, .missingBody kind.keyword⟩
  match Block.find (header :: tail) with
  | .error e => (.error e, header :: tail)
  | .ok (some b) => (.ok (b.head, b.body), b.rest)
  | .ok none =>
    match Text.cut [':'] (Text.code header.text.toList), tail with
    | some (head, body), _ =>
      match Line.trimmed? header.number body with
      | none => (.error missing, tail)
      | some line => (.ok (String.ofList head, [line]), tail)
    | none, next :: later => (.ok (header.text, [next]), later)
    | none, [] => (.error missing, [header])

def read (d : Declarations) (kind : StatementKind) (header : Line) (tail : List Line) :
    Except ParseError StatementHead × List Line :=
  match split kind header tail with
  | (.error e, rest) => (.error e, rest)
  | (.ok (head, body), rest) =>
    match d.tokens head header.number with
    | .error e => (.error e, rest)
    | .ok tokens =>
      let condition := tokens.drop 1
      if !kind.isConditional then (.ok ⟨none, body⟩, rest)
      else if condition.isEmpty then
        (.error ⟨header.number, .missingCondition kind.keyword⟩, rest)
      else (.ok ⟨some condition, body⟩, rest)

end StatementHead

structure MethodHead where
  name : String
  isStatic : Bool
  nocol : Bool
  params : List Variable
  returns : Option DataType
  body : List Line

namespace MethodHead

/-- The tokens before and after the first arrow. -/
def splitArrow : List Token → List Token × Option (List Token)
  | [] => ([], none)
  | t :: r =>
    if t.kind = .arrow then ([], some r)
    else
      let p := splitArrow r
      (t :: p.1, p.2)

def readReturns (d : Declarations) (line : Nat) :
    Option (List Token) → Except ParseError (Option DataType)
  | none => .ok none
  | some tokens =>
    let invalid : ParseError := ⟨line, .invalidParameter ("=> " ++ Token.joinText tokens)⟩
    match tokens with
    | [t] => match d.tokenType? t with
      | some type => .ok (some type)
      | none => .error invalid
    | _ => .error invalid

def readSignature (d : Declarations) (line : Nat) (tokens : List Token) :
    Except ParseError (List Variable) :=
  match tokens with
  | [] => .ok []
  | colon :: params =>
    if colon.kind = .colon then readParams d params line
    else .error ⟨line, .invalidParameter (Token.joinText tokens)⟩

/-- Reads the header text of a method whose body is already cut off. -/
def ofText (d : Declarations) (line : Nat) (text : String) (body : List Line) :
    Except ParseError MethodHead :=
  match afterModifiers .methodWord [.static, .nocol] (Token.codeOfText text) with
  | some (modifiers, name :: rest) =>
    if name.kind = .identifier then do
      let (params, returns) := splitArrow rest
      let params ← readSignature d line params
      let returns ← readReturns d line returns
      return ⟨name.text, modifiers.contains .static, modifiers.contains .nocol, params, returns, body⟩
    else .error ⟨line, .missingName "method"⟩
  | _ => .error ⟨line, .missingName "method"⟩

def read (d : Declarations) (header : Line) (tail : List Line) :
    Except ParseError MethodHead × List Line :=
  match takeBody "method" header tail with
  | (.error e, rest) => (.error e, rest)
  | (.ok (text, body), rest) => (ofText d header.number text body, rest)

def build (h : MethodHead) (line : Nat) (body : List (Row Token)) : Method Token :=
  ⟨h.name, line, h.isStatic, h.nocol, h.params, h.returns, body⟩

end MethodHead

structure ClassHead where
  start : Class Token
  body : List Line

namespace ClassHead

/-- A class without members. -/
def emptyClass (name : String) (line : Nat) (modifiers : List Kind) (length : Nat) : Class Token :=
  { name, line, length
    isStatic := modifiers.contains .static
    semi := modifiers.contains .semi
    ontop := modifiers.contains .ontop
    properties := []
    methods := []
    classes := []
    watch := []
    params := none
    typeOf := none
    converters := []
    insideOf := [] }

def read (header : Line) (tail : List Line) : Except ParseError ClassHead × List Line :=
  match Block.find (header :: tail) with
  | .error e => (.error e, header :: tail)
  | .ok none => (.error ⟨header.number, .expectedBrace "class"⟩, header :: tail)
  | .ok (some b) =>
    let missing : Except ParseError ClassHead := .error ⟨header.number, .missingName "class"⟩
    match afterModifiers .classWord [.static, .semi, .ontop] (Token.codeOfText b.head) with
    | some (modifiers, [name]) =>
      if name.kind = .identifier then
        (.ok ⟨emptyClass name.text header.number modifiers b.consumed, b.body⟩, b.rest)
      else (missing, b.rest)
    | _ => (missing, b.rest)

end ClassHead

structure ConverterHead where
  type : DataType
  body : List Line

namespace ConverterHead

def read (d : Declarations) (header : Line) (tail : List Line) :
    Except ParseError ConverterHead × List Line :=
  match takeBody "get" header tail with
  | (.error e, rest) => (.error e, rest)
  | (.ok (text, body), rest) =>
    let invalid : Except ParseError ConverterHead := .error ⟨header.number, .invalidMember text⟩
    match Token.codeOfText text with
    | [get, arrow, type] =>
      if get.kind = .get ∧ arrow.kind = .arrow then
        match d.tokenType? type with
        | some t => (.ok ⟨t, body⟩, rest)
        | none => (invalid, rest)
      else (invalid, rest)
    | _ => (invalid, rest)

def build (h : ConverterHead) (line : Nat) (body : List (Row Token)) : Converter Token :=
  ⟨h.type, ⟨"get " ++ h.type.text, line, false, false, [], some h.type, body⟩⟩

end ConverterHead

namespace Container

/-- The classes named on the lines of a container's body. -/
def members (d : Declarations) (name : String) : List (Nat × Token) → Except ParseError (List String)
  | [] => .ok []
  | (line, t) :: r =>
    if d.classes.contains t.text then
      match members d name r with
      | .ok names => .ok (t.text :: names)
      | .error e => .error e
    else .error ⟨line, .unknownMember name t.text⟩

/-- The tokens of some lines without commas, each with its line. -/
def memberTokens (body : List Line) : List (Nat × Token) :=
  body.flatMap fun l =>
    ((Token.codeOfText l.text).filter fun t => t.kind != .comma).map fun t => (l.number, t)

def read (d : Declarations) (header : Line) (tail : List Line) :
    Except ParseError Container × List Line :=
  match Block.find (header :: tail) with
  | .error e => (.error e, header :: tail)
  | .ok none => (.error ⟨header.number, .expectedBrace "container"⟩, header :: tail)
  | .ok (some b) =>
    let missing : Except ParseError Container := .error ⟨header.number, .missingName "container"⟩
    match Token.codeOfText b.head with
    | [keyword, name] =>
      if keyword.kind = .containerWord ∧ name.kind = .identifier then
        ((members d name.text (memberTokens b.body)).map fun names =>
          ⟨name.text, header.number, names⟩, b.rest)
      else (missing, b.rest)
    | _ => (missing, b.rest)

end Container

end LineScript
