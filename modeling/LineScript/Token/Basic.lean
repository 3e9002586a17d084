import LineScript.HostCall
import LineScript.Line
import LineScript.Pattern.Rule
import LineScript.Table
import LineScript.Token.Kind
import LineScript.Token.Lexer
set_option autoImplicit false

/-!
Tokens. A token is a lexed word or a construct that the parser put in the place of the words it read:
a statement, a declaration, a call bound by a watch rule or a host call. The constructs are families over
the type of tokens, tied together by `Token`.
-/

namespace LineScript

/-- A line with the tokens read from it. -/
structure Row (τ : Type) where
  line : Line
  tokens : List τ

structure Method (τ : Type) where
  name : String
  line : Nat
  isStatic : Bool
  nocol : Bool
  params : List Variable
  returns : Option DataType
  body : List (Row τ)

/-- Gives an instance of a class as a value of another type. -/
structure Converter (τ : Type) where
  type : DataType
  method : Method τ

/-- `length` counts the source lines of the declaration. -/
structure Class (τ : Type) where
  name : String
  line : Nat
  isStatic : Bool
  semi : Bool
  ontop : Bool
  properties : List Variable
  methods : List (String × Method τ)
  classes : List (Class τ)
  watch : List Rule
  params : Option Rule
  typeOf : Option DataType
  converters : List (Converter τ)
  insideOf : List DataType
  length : Nat

structure Container where
  name : String
  line : Nat
  classes : List String
  deriving DecidableEq, Repr

structure Statement (τ : Type) where
  kind : StatementKind
  line : Nat
  text : String
  condition : Option (List τ)
  body : List (Row τ)

inductive Token where
  | word (kind : Kind) (text : String)
  | statement (s : Statement Token)
  | ofClass (c : Class Token)
  | ofMethod (m : Method Token)
  | ofContainer (c : Container)
  | bound (c : BoundCall)
  | host (c : HostCall)

namespace Method

def requiredCount {τ : Type} (m : Method τ) : Nat := (m.params.filter Variable.required).length

end Method

namespace Class

variable {τ : Type}

def property? (c : Class τ) (name : String) : Option Variable :=
  c.properties.find? fun v => v.name == name

def converter? (c : Class τ) (type : DataType) : Option (Converter τ) :=
  c.converters.find? fun v => v.type == type

/-- The type that instances carry: the class under its own name, standing for the tag it declares. -/
def instanceType (c : Class τ) : DataType :=
  .ofClass ((c.typeOf.map DataType.tag).getD .object) c.name

end Class

namespace Token

def kind : Token → Kind
  | word k _ => k
  | statement s => .statement s.kind
  | ofClass _ => .classWord
  | ofMethod _ => .methodWord
  | ofContainer _ => .containerWord
  | bound _ => .boundCall
  | host _ => .runexec

def text : Token → String
  | word _ t => t
  | statement s => s.kind.keyword
  | ofClass c => "class " ++ c.name
  | ofMethod m => "method " ++ m.name
  | ofContainer c => "container " ++ c.name
  | bound c => c.source
  | host c => c.text

def ofPart (part : String) : Token := word (Kind.ofPart part) part

def joinText (tokens : List Token) : String := " ".intercalate (tokens.map text)

/-- All tokens of a line, comments included. -/
def ofText (text : String) : List Token := (Lexer.split text).map ofPart

/-- The tokens of a line without its comment. -/
def codeOfText (text : String) : List Token := (ofText text).filter fun t => t.kind != .comment

/-- The groups of tokens between commas; never empty. -/
def commaGroups : List Token → List (List Token)
  | [] => [[]]
  | t :: r =>
    match commaGroups r with
    | [] => [[t]]
    | g :: gs => if t.kind = .comma then [] :: g :: gs else (t :: g) :: gs

/-- The arguments of a call: none, or the groups between commas. -/
def arguments (tokens : List Token) : List (List Token) :=
  if tokens.isEmpty then [] else commaGroups tokens

/-- Text like the source of the tokens: a space before each but commas and colons. -/
def sourceText (tokens : List Token) : String :=
  tokens.foldl (fun s t =>
    if s.isEmpty || t.kind = .comma || t.kind = .colon then s ++ t.text else s ++ " " ++ t.text) ""

end Token

namespace Row

def firstKind (r : Row Token) : Option Kind := r.tokens.head?.map Token.kind

end Row

/-- How a term of a condition is joined to the next one. -/
inductive Join where
  | and
  | or
  deriving DecidableEq, Repr

def Join.ofKind? : Kind → Option Join
  | .and => some .and
  | .or => some .or
  | _ => none

/-- One term of a condition. -/
structure Term where
  tokens : List Token
  negated : Bool
  join : Option Join

namespace Term

def text (t : Term) : String := Token.joinText t.tokens

/-- A leading `not` negates the term. -/
def ofTokens (tokens : List Token) (join : Option Join) : Term :=
  match tokens with
  | [] => ⟨[], false, join⟩
  | t :: r => if t.kind = .not then ⟨r, true, join⟩ else ⟨t :: r, false, join⟩

/-- Cuts a token run into terms at `and` and `or`; `current` is the term being read. -/
def splitFrom (current : List Token) : List Token → List Term
  | [] => [ofTokens current none]
  | t :: r =>
    match Join.ofKind? t.kind with
    | some j => ofTokens current (some j) :: splitFrom [] r
    | none => splitFrom (current ++ [t]) r

def split (tokens : List Token) : List Term := splitFrom [] tokens

end Term

end LineScript
