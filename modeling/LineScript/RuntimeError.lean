import LineScript.Text.Basic
set_option autoImplicit false

/-!
Errors of a running program. An error that leaves a construct is wrapped with the construct's name, so a
message reads from the outside in; the root message takes the wrapping off again.
-/

namespace LineScript

inductive RuntimeError where
  | undefined (name : String)
  | declaration (message : String)
  | parameterCount (method : String) (least most found : Nat)
  | parameterType (method param expected found : String)
  | missingMethod (owner method : String)
  | typeMismatch (expected value : String)
  | missingConverter (owner target : String)
  | notBoolean (text : String)
  | host (path message : String)
  | malformed (message : String)
  | stackOverflow (limit : Nat)
  | control (message : String)
  | inside (construct : String) (cause : RuntimeError)
  | custom (message : String)
  deriving DecidableEq, Repr

namespace RuntimeError

def message : RuntimeError → String
  | undefined n => "Could not find '" ++ n ++ "'"
  | declaration m => m
  | parameterCount m least most found =>
    "Method '" ++ m ++ "' expects between " ++ toString least ++ " and " ++ toString most ++
      " arguments, found " ++ toString found
  | parameterType m p expected found =>
    "Parameter '" ++ p ++ "' of '" ++ m ++ "' expects " ++ expected ++ ", found " ++ found
  | missingMethod o m => "'" ++ o ++ "' has no method '" ++ m ++ "'"
  | typeMismatch expected v => "Could not convert '" ++ v ++ "' to " ++ expected
  | missingConverter o t => "Class '" ++ o ++ "' has no 'get' converter to " ++ t
  | notBoolean t => "'" ++ t ++ "' is not a boolean value"
  | host p m => "Host call '" ++ p ++ "' failed: " ++ m
  | malformed m => m
  | stackOverflow n => "Stack overflow: maximum call depth of " ++ toString n ++ " exceeded"
  | control m => m
  | inside c e => "Error with \"" ++ c ++ "\", Error Message:\"" ++ e.message ++ "\""
  | custom m => m

def code : RuntimeError → String
  | undefined _ => "ezcode::runtime::undefined_identifier"
  | declaration _ => "ezcode::runtime::declaration"
  | parameterCount .. => "ezcode::runtime::parameter_count"
  | parameterType .. => "ezcode::runtime::parameter_type"
  | missingMethod .. => "ezcode::runtime::missing_method"
  | typeMismatch .. => "ezcode::runtime::type_error"
  | missingConverter .. => "ezcode::runtime::missing_converter"
  | notBoolean _ => "ezcode::runtime::not_boolean"
  | host .. => "ezcode::runtime::host"
  | malformed _ => "ezcode::runtime::syntax"
  | stackOverflow _ => "ezcode::runtime::stack_overflow"
  | control _ => "ezcode::runtime::control"
  | inside .. => "ezcode::runtime::construct"
  | custom _ => "ezcode::runtime::custom"

def help? : RuntimeError → Option String
  | undefined _ => some "Declare variables with 'undefined <name>' before using them"
  | parameterCount .. => some "Optional parameters are marked with '?' in the method header"
  | missingConverter .. => some "Add 'get => @type' to the class to allow the conversion"
  | notBoolean _ => some "Conditions accept true/false, yes/no, y/n and 1/0"
  | _ => none

/-- Wraps an error with the construct that it leaves. A stack overflow stays as it is. -/
def wrap (construct : String) : RuntimeError → RuntimeError
  | stackOverflow n => stackOverflow n
  | e => inside construct e

/-- The text inside one wrapping, if the text is wrapped. -/
def unwrapText? (cs : List Char) : Option (List Char) :=
  let head := "Error with \"".toList
  if head.isPrefixOf cs then
    (Text.cut "\", Error Message:\"".toList (cs.drop head.length)).map fun p =>
      if p.2.getLast? = some '"' then p.2.dropLast else p.2
  else none

/-- Takes wrappings off a text; the text gets shorter, so its length is fuel enough. -/
def rootText : Nat → List Char → List Char
  | 0, cs => cs
  | fuel + 1, cs =>
    match unwrapText? cs with
    | some inner => rootText fuel inner
    | none => cs

def rootMessage (e : RuntimeError) : String :=
  let cs := e.message.toList
  String.ofList (rootText cs.length cs)

end RuntimeError

end LineScript
