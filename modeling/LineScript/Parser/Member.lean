import LineScript.Parser.Header
set_option autoImplicit false

/-! Members of a class that stand on one line: properties, pattern rules and type rules. -/

namespace LineScript.Member

def addProperty (c : Class Token) (v : Variable) (line : Line) : Except ParseError (Class Token) :=
  if (c.property? v.name).isSome then .error ⟨line.number, .invalidProperty line.text⟩
  else .ok { c with properties := c.properties ++ [v] }

/-- The initial text of a property: all that stands behind the first colon of its line. -/
def defaultText (line : Line) : Option String :=
  let value := ((Text.cut [':'] line.text.toList).map fun p => Text.trim p.2).getD []
  if value.isEmpty then none else some (String.ofList value)

/-- A type, a name and the word `new`, with an initial value after a colon. -/
def property (d : Declarations) (line : Line) (tokens : List Token) : Except ParseError Variable :=
  let invalid : ParseError := ⟨line.number, .invalidProperty line.text⟩
  match tokens with
  | type :: name :: rest =>
    match d.tokenType? type with
    | none => .error invalid
    | some t =>
      if name.kind = .identifier then
        match rest.drop 1 with
        | [] => .ok ⟨name.text, t, true, none, line.number⟩
        | colon :: _ =>
          if colon.kind = .colon then
            match defaultText line with
            | some value => .ok ⟨name.text, t, true, some value, line.number⟩
            | none => .error invalid
          else .error invalid
      else .error invalid
  | _ => .error invalid

/-- The types after the arrow, commas apart. -/
def typesAfterArrow (d : Declarations) (tokens : List Token) : Option (List DataType) :=
  match (MethodHead.splitArrow tokens).2 with
  | none => none
  | some rest => (rest.filter fun t => t.kind != .comma).mapM d.tokenType?

/-- The target of a rule: a method and the text of its variables. -/
def target (cs : List Char) : List Char × Option (List Char) :=
  match Text.cut [':'] cs with
  | some (method, vars) => (Text.trim method, some vars)
  | none => (Text.trim cs, none)

/-- Reads `<pattern> => <method> [: variables]` behind the keyword. The method has to be declared
already, in the class or globally. -/
def rule (d : Declarations) (c : Class Token) (line : Line) (keyword : String) (overrides : Bool) :
    Except ParseError Rule :=
  match Text.cutWord keyword line.text with
  | none => .error ⟨line.number, .invalidPattern line.text .missingKeyword⟩
  | some (_, after) =>
    let text := Text.trim after
    let text :=
      if overrides && "override".toList.isPrefixOf text then Text.trim (text.drop 8) else text
    match Text.cutLast ['=', '>'] text with
    | none => .error ⟨line.number, .invalidPattern (String.ofList text) .missingTarget⟩
    | some (pattern, rest) =>
      let (method, vars) := target rest
      let method := String.ofList method
      if method.isEmpty then .error ⟨line.number, .missingName "=>"⟩
      else if !Table.contains c.methods method && !d.methods.contains method then
        .error ⟨line.number, .unknownMethod method⟩
      else do
        let vars ← match vars with
          | some cs => readParams d (Token.codeOfText (String.ofList cs)) line.number
          | none => .ok []
        let pattern ← Pattern.compile (String.ofList pattern) .word line.number
        return ⟨pattern, c.name, method, vars, overrides, line.number⟩

/-- Adds what an `explicit` line says. -/
def addExplicit (d : Declarations) (c : Class Token) (line : Line) (tokens : List Token) :
    Except ParseError (Class Token) :=
  let invalid : Except ParseError (Class Token) := .error ⟨line.number, .invalidMember line.text⟩
  match tokens.drop 1 with
  | [] => invalid
  | second :: rest =>
    match second.kind with
    | .watch => do
      let r ← rule d c line "watch" false
      return { c with watch := c.watch ++ [r] }
    | .params => do
      let r ← rule d c line "params" (rest.head?.map Token.kind == some .override)
      return { c with params := some r }
    | .typeOf =>
      match typesAfterArrow d tokens with
      | some [t] => .ok { c with typeOf := some t }
      | _ => invalid
    | .insideOf =>
      match typesAfterArrow d tokens with
      | some (t :: ts) => .ok { c with insideOf := c.insideOf ++ t :: ts }
      | _ => invalid
    | _ => invalid

/-- Adds a member that stands on one line; only a line that fits no member at all is left in place. -/
def addSimple (d : Declarations) (c : Class Token) (line : Line) (tokens : List Token) :
    Except ParseError (Class Token) :=
  match tokens with
  | [] => .ok c
  | first :: rest =>
    match first.kind with
    | .explicit => addExplicit d c line tokens
    | .undefined =>
      match rest with
      | [name] =>
        if name.kind = .identifier then
          addProperty c ⟨name.text, .untyped, true, none, line.number⟩ line
        else .error ⟨line.number, .invalidProperty line.text⟩
      | _ => .error ⟨line.number, .invalidProperty line.text⟩
    | _ =>
      if (rest.drop 1).head?.map Token.kind = some .new then
        (property d line tokens).bind fun v => addProperty c v line
      else .error ⟨line.number, .invalidMember line.text⟩

end LineScript.Member
