import LineScript.Declarations
import LineScript.Text.Quoted
set_option autoImplicit false

/-! Outlines: a program as nested lists in parentheses, one construct a line, indented by depth. -/

namespace LineScript.Outline

def pad (indent : Nat) : String := String.ofList (List.replicate indent ' ')

def token : Token → String
  | .bound c =>
    let args := c.args.map fun a => a.name ++ "=" ++ Text.quote a.text
    "(match " ++ c.className ++ "." ++ c.method ++ " " ++ " ".intercalate args ++ ")"
  | .host c =>
    let head := if c.isDynamic then "host-dynamic" else "host"
    if c.args.isEmpty then "(" ++ head ++ " " ++ c.path ++ ")"
    else "(" ++ head ++ " " ++ c.path ++ " " ++ Text.quoteList c.args ++ ")"
  | t => if t.kind = .identifier then Text.quote t.text else t.kind.label

def variableText (v : Variable) : String :=
  let head := "(" ++ v.name ++ (if v.required then "" else "?") ++ " " ++ v.type.text
  match v.default with
  | some d => head ++ " " ++ Text.quote d ++ ")"
  | none => head ++ ")"

def methodHead (m : Method Token) : String :=
  "(method " ++ m.name ++ (if m.isStatic then " :static" else "") ++
    (if m.nocol then " :nocol" else "") ++
    String.join (m.params.map fun v => " " ++ variableText v) ++
    (m.returns.elim "" fun t => " (returns " ++ t.text ++ ")")

/-- The members of a class that hold no lines. -/
def classParts (c : Class Token) : List String :=
  (if c.isStatic then [":static"] else []) ++
  (c.typeOf.elim [] fun t => ["(typeof " ++ t.text ++ ")"]) ++
  (if c.insideOf.isEmpty then []
    else ["(insideof " ++ " ".intercalate (c.insideOf.map DataType.text) ++ ")"]) ++
  (c.properties.map fun v => "(property " ++ variableText v ++ ")") ++
  (c.params.elim [] fun r =>
    ["(" ++ (if r.overrides then "params-override" else "params") ++ " " ++
      Text.quote r.pattern.source ++ " => " ++ r.method ++ ")"]) ++
  (c.watch.map fun r =>
    "(watch " ++ Text.quote r.pattern.source ++ " => " ++ r.method ++ ")")

mutual

def row (indent : Nat) : Row Token → String
  | ⟨line, []⟩ => "(line " ++ toString line.number ++ ")"
  | ⟨_, .statement s :: _⟩ => statement indent s
  | ⟨_, .ofClass c :: _⟩ => ofClass indent c
  | ⟨_, .ofMethod m :: _⟩ => method indent m
  | ⟨_, .ofContainer c :: _⟩ => "(container-ref " ++ c.name ++ ")"
  | ⟨line, tokens⟩ =>
    "(line " ++ toString line.number ++ " " ++ " ".intercalate (tokens.map token) ++ ")"

def body (indent : Nat) : List (Row Token) → String
  | [] => ""
  | r :: rs => "\n" ++ pad indent ++ row indent r ++ body indent rs

def statement (indent : Nat) : Statement Token → String
  | ⟨kind, _, _, condition, rows⟩ =>
    "(" ++ kind.keyword ++
      (condition.elim "" fun tokens => " " ++ Text.quote (Token.joinText tokens)) ++
      body (indent + 2) rows ++ ")"

def method (indent : Nat) : Method Token → String
  | ⟨name, line, isStatic, nocol, params, returns, rows⟩ =>
    methodHead ⟨name, line, isStatic, nocol, params, returns, []⟩ ++ body (indent + 2) rows ++ ")"

def converter (indent : Nat) : Converter Token → String
  | ⟨type, ⟨_, _, _, _, _, _, rows⟩⟩ =>
    "(get " ++ type.text ++ body (indent + 4) rows ++ ")"

def ofClass (indent : Nat) : Class Token → String
  | ⟨name, line, isStatic, semi, ontop, properties, methods, classes, watch, params, typeOf,
      converters, insideOf, length⟩ =>
    let parts := classParts ⟨name, line, isStatic, semi, ontop, properties, [], [], watch, params,
      typeOf, [], insideOf, length⟩
    let parts := parts ++ converterList indent converters ++ methodList (indent + 2) methods ++
      classList (indent + 2) classes
    "(class " ++ name ++ String.join (parts.map fun part => "\n" ++ pad (indent + 2) ++ part) ++ ")"

def converterList (indent : Nat) : List (Converter Token) → List String
  | [] => []
  | c :: cs => converter indent c :: converterList indent cs

def methodList (indent : Nat) : List (String × Method Token) → List String
  | [] => []
  | (_, m) :: ms => method indent m :: methodList indent ms

def classList (indent : Nat) : List (Class Token) → List String
  | [] => []
  | c :: cs => ofClass indent c :: classList indent cs

end

def container (c : Container) : String :=
  "(container " ++ c.name ++ " " ++ " ".intercalate c.classes ++ ")"

def program (p : Program) : String :=
  match p.declared.containers.values.map container ++ p.lines.map (row 2) with
  | [] => "(program)"
  | items => "(program\n  " ++ "\n  ".intercalate items ++ ")"

end LineScript.Outline
