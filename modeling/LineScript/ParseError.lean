set_option autoImplicit false

/-! Reasons for refusing a source line, with the line and the wording of each. -/

namespace LineScript

inductive PatternFault where
  | empty
  | unclosedHole
  | namelessHole
  | adjacentHoles
  | missingKeyword
  | missingTarget
  deriving DecidableEq, Repr

def PatternFault.message : PatternFault → String
  | empty => "pattern is empty"
  | unclosedHole => "unclosed placeholder"
  | namelessHole => "placeholder without a name"
  | adjacentHoles => "placeholders must be separated by text"
  | missingKeyword => "missing rule keyword"
  | missingTarget => "missing '=>' and target method"

inductive MakeFault where
  | notMake
  | missingArrow
  | unfinishedTake
  | emptyTake
  deriving DecidableEq, Repr

def MakeFault.message : MakeFault → String
  | notMake => "expected 'make'"
  | missingArrow => "missing '=>'"
  | unfinishedTake => "multi-line take must be closed by '\x7d => <replace>'"
  | emptyTake => "take template is empty"

inductive HostCallFault where
  | missingArrow
  | missingPath
  deriving DecidableEq, Repr

def HostCallFault.message : HostCallFault → String
  | missingArrow => "expected '=>' after runexec"
  | missingPath => "missing host path"

namespace ParseError

inductive Cause where
  | missingName (keyword : String)
  | unclosedBlock
  | missingBody (construct : String)
  | expectedBrace (construct : String)
  | missingCondition (keyword : String)
  | invalidParameter (text : String)
  | invalidProperty (text : String)
  | invalidMember (text : String)
  | unknownMethod (method : String)
  | invalidPattern (pattern : String) (fault : PatternFault)
  | unknownMember (container name : String)
  | invalidMake (fault : MakeFault)
  | invalidHostCall (fault : HostCallFault)
  deriving DecidableEq, Repr

end ParseError

structure ParseError where
  line : Nat
  cause : ParseError.Cause
  deriving DecidableEq, Repr

namespace ParseError

def message (e : ParseError) : String :=
  let n := toString e.line
  match e.cause with
  | .missingName k => "Expected a name after '" ++ k ++ "' on line " ++ n
  | .unclosedBlock => "Block opened on line " ++ n ++ " is never closed"
  | .missingBody c => "'" ++ c ++ "' on line " ++ n ++ " has no body"
  | .expectedBrace c => "Expected '\x7b' to open the body of '" ++ c ++ "' on line " ++ n
  | .missingCondition k => "'" ++ k ++ "' on line " ++ n ++ " requires a condition"
  | .invalidParameter t => "Invalid parameter '" ++ t ++ "' on line " ++ n
  | .invalidProperty t => "Invalid property declaration '" ++ t ++ "' on line " ++ n
  | .invalidMember t => "'" ++ t ++ "' on line " ++ n ++ " is not a valid class member"
  | .unknownMethod m => "Pattern rule on line " ++ n ++ " targets unknown method '" ++ m ++ "'"
  | .invalidPattern p f => "Invalid pattern '" ++ p ++ "' on line " ++ n ++ ": " ++ f.message
  | .unknownMember c m =>
    "Container '" ++ c ++ "' on line " ++ n ++ " names unknown class '" ++ m ++ "'"
  | .invalidMake f => "Invalid macro on line " ++ n ++ ": " ++ f.message
  | .invalidHostCall f => "Invalid host call on line " ++ n ++ ": " ++ f.message

def code (e : ParseError) : String :=
  "ezcode::parse::" ++
  match e.cause with
  | .missingName _ => "missing_name"
  | .unclosedBlock => "unclosed_block"
  | .missingBody _ => "missing_body"
  | .expectedBrace _ => "expected_brace"
  | .missingCondition _ => "missing_condition"
  | .invalidParameter _ => "invalid_parameter"
  | .invalidProperty _ => "invalid_property"
  | .invalidMember _ => "invalid_class_member"
  | .unknownMethod _ => "unknown_pattern_method"
  | .invalidPattern _ _ => "invalid_pattern"
  | .unknownMember _ _ => "unknown_container_member"
  | .invalidMake _ => "invalid_macro"
  | .invalidHostCall _ => "invalid_host_call"

def help? (e : ParseError) : Option String :=
  match e.cause with
  | .missingName k => some ("Declarations look like '" ++ k ++ " Name'")
  | .unclosedBlock => some "Every '\x7b' needs a matching '\x7d'"
  | .missingBody _ => some "Use ': <line>', a following line, or a '\x7b \x7d' block"
  | .invalidParameter _ => some "Parameters are 'name' or '@type : name', separated by commas"
  | .invalidProperty _ =>
    some "Properties are '<Type> <name> new [: value]' or 'undefined <name>'"
  | .unknownMethod _ => some "Declare the method before the rule that binds to it"
  | .invalidMake _ => some "Macros look like 'make <take> => <replace>'"
  | .invalidHostCall _ => some "Host calls look like 'runexec => Path.To.Function ~> arg, arg'"
  | _ => none

end ParseError

end LineScript
