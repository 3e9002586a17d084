set_option autoImplicit false

/-! Kinds of tokens and the words of the language that fix them. -/

namespace LineScript

/-- The statements, each opened by a keyword of its own. -/
inductive StatementKind where
  | cond
  | elseCond
  | otherwise
  | loop
  | attempt
  | rescue
  deriving DecidableEq, Repr, Inhabited

namespace StatementKind

def keyword : StatementKind → String
  | cond => "if"
  | elseCond => "elif"
  | otherwise => "else"
  | loop => "loop"
  | attempt => "try"
  | rescue => "fail"

def ofKeyword? (word : String) : Option StatementKind :=
  [cond, elseCond, otherwise, loop, attempt, rescue].find? fun k => k.keyword == word

/-- Does the statement take a condition? -/
def isConditional : StatementKind → Bool
  | cond | elseCond | loop => true
  | otherwise | attempt | rescue => false

theorem ofKeyword?_keyword (k : StatementKind) : ofKeyword? k.keyword = some k := by
  cases k <;> decide

end StatementKind

inductive Kind where
  | identifier
  | comment
  | dataType
  | comma
  | question
  | colon
  | arrow
  | openBrace
  | closeBrace
  | statement (kind : StatementKind)
  | null
  | new
  | undefined
  | classWord
  | static
  | explicit
  | watch
  | params
  | typeOf
  | insideOf
  | semi
  | ontop
  | nocol
  | methodWord
  | containerWord
  | returnWord
  | get
  | and
  | not
  | or
  | make
  | is
  | runexec
  | override
  | breakWord
  | yield
  | boundCall
  deriving DecidableEq, Repr, Inhabited

namespace Kind

/-- The words with a meaning of their own. Every other word is an identifier. -/
def keywords : List (String × Kind) :=
  [("null", null), (",", comma), ("?", question), (":", colon), ("=>", arrow),
   ("\x7b", openBrace), ("\x7d", closeBrace), ("new", new),
   ("if", statement .cond), ("else", statement .otherwise), ("elif", statement .elseCond),
   ("loop", statement .loop), ("try", statement .attempt), ("fail", statement .rescue),
   ("undefined", undefined), ("class", classWord), ("static", static), ("explicit", explicit),
   ("watch", watch), ("params", params), ("typeof", typeOf), ("insideof", insideOf),
   ("semi", semi), ("ontop", ontop), ("nocol", nocol), ("method", methodWord),
   ("container", containerWord), ("return", returnWord), ("get", get),
   ("and", and), ("&", and), ("&&", and), ("not", not), ("!", not),
   ("or", or), ("|", or), ("||", or), ("make", make), ("is", is), ("runexec", runexec),
   ("override", override), ("break", breakWord), ("yield", yield)]

def ofKeyword? (word : String) : Option Kind := keywords.lookup word

def isStatement : Kind → Bool
  | statement _ => true
  | _ => false

/-- The kind of a lexed part. -/
def ofPart (part : String) : Kind :=
  match ofKeyword? part with
  | some k => k
  | none =>
    match part.toList with
    | '/' :: '/' :: _ => comment
    | '@' :: _ => dataType
    | _ => identifier

/-- The name of a kind in listings and outlines. -/
def label : Kind → String
  | identifier => "Identifier"
  | comment => "Comment"
  | dataType => "DataType"
  | comma => "Comma"
  | question => "QuestionMark"
  | colon => "Colon"
  | arrow => "Arrow"
  | openBrace => "OpenBrace"
  | closeBrace => "CloseBrace"
  | statement .cond => "If"
  | statement .elseCond => "Elif"
  | statement .otherwise => "Else"
  | statement .loop => "Loop"
  | statement .attempt => "Try"
  | statement .rescue => "Fail"
  | null => "Null"
  | new => "New"
  | undefined => "Undefined"
  | classWord => "Class"
  | static => "Static"
  | explicit => "Explicit"
  | watch => "Watch"
  | params => "Params"
  | typeOf => "TypeOf"
  | insideOf => "InsideOf"
  | semi => "Semi"
  | ontop => "Ontop"
  | nocol => "NoCol"
  | methodWord => "Method"
  | containerWord => "Container"
  | returnWord => "Return"
  | get => "Get"
  | and => "And"
  | not => "Not"
  | or => "Or"
  | make => "Make"
  | is => "Is"
  | runexec => "RunExec"
  | override => "Override"
  | breakWord => "Break"
  | yield => "Yield"
  | boundCall => "Match"

end Kind

end LineScript
