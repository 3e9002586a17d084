import LineScript.Machine.Typing
set_option autoImplicit false

/-!
Calls: methods, instances, watch rules and host functions. Every action here is written over `Calls`,
the three actions that lead back into themselves: evaluating an expression, running a body and
constructing an instance. Arguments are evaluated where the call stands, before the callee has a frame.
-/

namespace LineScript

/-- The actions available to an action, and a bound on the passes of a loop. -/
structure Calls where
  fuel : Nat
  expression : List Token → Option DataType → Exec Value
  body : List (Row Token) → Exec Flow
  construct : Class Token → Option String → Exec Value

namespace Calls

def checkCount (method : Method Token) (found : Nat) : Except RuntimeError Unit :=
  let least := method.requiredCount
  let most := method.params.length
  if found < least || most < found then .error (.parameterCount method.name least most found)
  else .ok ()

/-- Pairs the parameters with the values; what is missing is bound empty. -/
def bindParams (d : Declarations) (method : Method Token) :
    List Variable → List Value → Except RuntimeError (List Binding)
  | [], _ => .ok []
  | p :: ps, [] => do
    let rest ← bindParams d method ps []
    return ⟨p.name, .empty, p.type, p.required, p.line⟩ :: rest
  | p :: ps, v :: vs => do
    let w ← d.bindParam method p v
    let rest ← bindParams d method ps vs
    return ⟨p.name, w, p.type, p.required, p.line⟩ :: rest

def methodBody (k : Calls) (e : Entry) : Exec Flow :=
  Exec.withScope .call do
    Exec.update fun m => m.enter e
    k.body e.method.body

/-- What a method gives back: a value for a primitive return type is converted. -/
def returned (method : Method Token) (v : Value) : Except RuntimeError Value :=
  match method.returns with
  | some (.plain t) => if !v.isEmpty && t.isPrimitive then v.coerce t else .ok v
  | _ => .ok v

/-- Runs a method with evaluated arguments, on an instance if one is given. -/
def invoke (k : Calls) (method : Method Token) (self : Option Reference) (values : List Value) :
    Exec Value := do
  Exec.ofExcept (checkCount method values.length)
  let d ← Exec.read Machine.declared
  let bindings ← Exec.ofExcept (bindParams d method method.params values)
  let config ← Exec.read Machine.config
  let flow ← Exec.withFrame ⟨.method, method.name, config.file, method.line⟩ <|
    match self with
    | some r => Exec.withScope (.ofInstance r) (k.methodBody ⟨method, values, bindings⟩)
    | none => k.methodBody ⟨method, values, bindings⟩
  Exec.ofExcept (returned method flow.value)

/-- Gives an instance as a value of another type through a converter of its class. -/
def convert (k : Calls) (r : Reference) (target : DataType) : Exec Value :=
  match r.ofClass.converter? target with
  | none => Exec.fail (.missingConverter r.ofClass.name target.text)
  | some c => do
    let v ← k.invoke c.method (some r) []
    match target with
    | .plain t => Exec.ofExcept (v.coerce t)
    | _ => pure v

/-- Converts to a wanted primitive type and leaves the value alone for any other. -/
def coerceTo (requested : Option DataType) (v : Value) : Except RuntimeError Value :=
  match requested with
  | some (.plain t) => v.coerce t
  | _ => .ok v

/-- Reads a variable. An instance of the wanted type comes as it is; one that stands for a primitive
type gives its value; any other is converted if a type is wanted. -/
def getValue (k : Calls) (b : Binding) (requested : Option DataType) : Exec Value :=
  match b.value.reference? with
  | none => pure b.value
  | some r => do
    let wanted := requested.bind DataType.typed?
    let m ← Exec.read id
    if wanted.elim false (m.declared.satisfies r.ofClass) then pure b.value
    else
      match r.ofClass.primitiveTag?, wanted with
      | some t, _ => do
        let v ← Exec.ofExcept ((m.memory.primitiveValue r).coerce t)
        Exec.ofExcept (coerceTo wanted v)
      | none, none => pure b.value
      | none, some target => k.convert r target

/-- The values of a call's arguments, each read for the parameter it goes to. -/
def argumentValues (k : Calls) : List (List Token × Variable) → Exec (List Value)
  | [] => pure []
  | (tokens, param) :: rest => do
    let v ← k.expression tokens param.type.typed?
    let vs ← k.argumentValues rest
    return v :: vs

/-- Calls a method with the tokens of its arguments. -/
def callWith (k : Calls) (method : Method Token) (self : Option Reference) (tokens : List Token) :
    Exec Value := do
  let groups := Token.arguments tokens
  Exec.ofExcept (checkCount method groups.length)
  let values ← k.argumentValues (groups.zip method.params)
  k.invoke method self values

/-- Calls a method with the tokens after its name: a colon and arguments between commas. -/
def callMethod (k : Calls) (method : Method Token) (self : Option Reference) (tokens : List Token) :
    Exec Value :=
  match tokens with
  | [] => k.callWith method self []
  | t :: rest =>
    if t.kind = .colon then k.callWith method self rest
    else if method.nocol then k.callWith method self tokens
    else
      Exec.fail (.malformed ("Expected ':' after '" ++ method.name ++ "', found '" ++ t.text ++ "'"))

/-- The value of a bound argument: a text that names a variable reads it. -/
def boundValue (k : Calls) (a : BoundArg) : Exec Value := do
  match ← Exec.lookup a.text with
  | some b => k.getValue b a.type.typed?
  | none => pure (Value.text a.text)

def boundValues (k : Calls) : List BoundArg → Exec (List Value)
  | [] => pure []
  | a :: rest => do
    let v ← k.boundValue a
    let vs ← k.boundValues rest
    return v :: vs

/-- A method of a class, or else a global one. -/
def methodOf (c : Class Token) (name : String) : Exec (Method Token) := do
  let m ← Exec.read id
  match (Table.get? c.methods name).orElse fun _ => m.declared.methods.get? name with
  | some f => pure f
  | none => Exec.fail (.missingMethod c.name name)

/-- The initial value of a property. A class that stands for no primitive type reads the text as the
initialiser of an instance. -/
def propertyDefault (k : Calls) (type : DataType) (text : String) : Exec Value := do
  let m ← Exec.read id
  match type.className?.bind m.declared.classes.get? with
  | some c =>
    if c.typeOf.isNone then k.construct c (some text) else evaluated
  | none => evaluated
where
  evaluated : Exec Value := do
    let v ← k.expression (Token.codeOfText text) type.typed?
    let d ← Exec.read Machine.declared
    Exec.ofExcept (d.conform type v)

/-- The value of a property when its instance is made. -/
def initialValue (k : Calls) (p : Variable) : Exec Value :=
  match p.default with
  | some text => k.propertyDefault p.type text
  | none => pure Value.empty

def initialProperties (k : Calls) : List Variable → Exec (List Binding)
  | [] => pure []
  | p :: ps => do
    let v ← k.initialValue p
    let rest ← k.initialProperties ps
    return ⟨p.name, v, p.type, p.required, p.line⟩ :: rest

/-- A new instance with every property at its initial value. -/
def newInstance (k : Calls) (route : Route) (c : Class Token) : Exec Reference := do
  let properties ← k.initialProperties c.properties
  fun m =>
    let (r, m) := m.allocate route c properties
    .ok r m

/-- Sets one property from an entry of an initialiser. -/
def assignEntry (k : Calls) (r : Reference) (entry : List Char) : Exec Unit := do
  match Text.cut [':'] entry with
  | none =>
    Exec.fail (.declaration ("Expected 'Property:Value' in '" ++ r.ofClass.name ++
      "' initialiser, found '" ++ String.ofList entry ++ "'"))
  | some (name, text) =>
    let name := String.ofList (Text.trim name)
    let text := String.ofList (Text.trim text)
    let m ← Exec.read id
    match Bindings.get? (m.memory.properties r) name with
    | none =>
      Exec.fail (.declaration ("'" ++ r.ofClass.name ++ "' has no property '" ++ name ++ "'"))
    | some b => do
      let v ← k.expression (Token.codeOfText text) b.type.typed?
      let d ← Exec.read Machine.declared
      let v ← Exec.ofExcept (d.conform b.type v)
      Exec.update fun m => m.onMemory fun s => s.setProperty r name v

def assignEntries (k : Calls) (r : Reference) : List (List Char) → Exec Unit
  | [] => pure ()
  | e :: es => do
    k.assignEntry r e
    k.assignEntries r es

/-- The entries of an initialiser: trimmed texts between commas. -/
def initEntries (cs : List Char) : List (List Char) :=
  ((Text.pieces ',' cs).map Text.trim).filter fun e => !e.isEmpty

/-- Initialises a new instance from a text: by the class's parameter rule if its pattern matches, or
else property by property, unless the rule overrides that. -/
def initialise (k : Calls) (c : Class Token) (r : Reference) (init : String) : Exec Unit := do
  let d ← Exec.read Machine.declared
  let found := c.params.bind fun rule =>
    (rule.pattern.matchWhole init).map fun m => (rule, rule.bind d.typeOf? m)
  match found with
  | some (rule, args) => do
    let method ← methodOf c rule.method
    let values ← k.boundValues args
    discard (k.invoke method (some r) values)
  | none =>
    if c.params.elim false Rule.overrides then
      Exec.fail (.declaration ("'" ++ init ++ "' does not match the parameters of '" ++ c.name ++ "'"))
    else k.assignEntries r (initEntries init.toList)

/-- Makes and initialises an instance. -/
def build (k : Calls) (route : Route) (c : Class Token) (init : Option String) : Exec Value := do
  let r ← k.newInstance route c
  let text := (init.map Text.trimmed).getD ""
  if text.isEmpty then pure (Value.instance r)
  else do
    k.initialise c r text
    pure (Value.instance r)

/-- Makes an instance under a name. An instance of the same class that has the name is replaced. -/
def instantiate (k : Calls) (c : Class Token) (name : String) (init : Option String) (line : Nat) :
    Exec Value := do
  let m ← Exec.read id
  Exec.ofExcept (m.checkNameFree name)
  if c.isStatic then
    Exec.fail (.declaration ("Static class '" ++ c.name ++ "' cannot be instantiated"))
  else do
    Exec.ofExcept (m.checkInside c)
    let existing ← Exec.lookup name
    let sameClass := existing.elim true fun b =>
      b.value.reference?.elim false fun r => r.ofClass.name == c.name
    if sameClass then do
      let v ← k.build .named c init
      match existing with
      | some _ => Exec.onMemory fun s => s.assign name v
      | none => Exec.onMemory fun s => s.declare ⟨name, v, c.instanceType, true, line⟩
      pure v
    else Exec.fail (.declaration ("'" ++ name ++ "' is already declared"))

/-- What a line or expression that starts with a class does: an instance under a name, or a static
method. -/
def classLine (k : Calls) (c : Class Token) (rest : List Token) (init : Option String) (line : Nat) :
    Exec Value :=
  match rest with
  | [] => Exec.fail (.declaration ("Expected '" ++ c.name ++ " <name> new'"))
  | name :: args =>
    if name.kind = .identifier then
      if args.head?.map Token.kind = some .new then k.instantiate c name.text init line
      else
        match Table.get? c.methods name.text with
        | some f =>
          if f.isStatic then k.callMethod f none args
          else
            Exec.fail (.declaration ("'" ++ c.name ++ "." ++ name.text ++
              "' is not static; call it on an instance"))
        | none =>
          Exec.fail (.declaration ("Expected '" ++ c.name ++ " " ++ name.text ++ " new'"))
    else Exec.fail (.declaration ("Expected '" ++ c.name ++ " <name> new'"))

/-- Runs the method of a watch rule on a new instance of the rule's class. -/
def callBound (k : Calls) (call : BoundCall) : Exec Value := do
  let d ← Exec.read Machine.declared
  match d.classes.get? call.className with
  | none => Exec.fail (.undefined call.className)
  | some c => do
    let method ← methodOf c call.method
    let values ← k.boundValues call.args
    let r ← k.newInstance .byWatch c
    k.invoke method (some r) values

/-- The call that a host call stands for: a dynamic one is read from the text of a variable. -/
def resolveHost (call : HostCall) : Exec HostCall :=
  if call.isDynamic then do
    match ← Exec.lookup call.variableName with
    | none => Exec.fail (.undefined call.variableName)
    | some b =>
      let text := b.value.toText
      let refused : Exec HostCall :=
        Exec.fail (.host call.path ("'" ++ text ++ "' is not a host call"))
      match HostCall.ofText? text with
      | some found => if found.isDynamic then refused else pure found
      | none => refused
  else pure call

def hostValues (k : Calls) : List String → Exec (List Value)
  | [] => pure []
  | a :: rest => do
    let v ← k.expression (Token.codeOfText a) none
    let vs ← k.hostValues rest
    return v :: vs

/-- Hands evaluated arguments to the host; what it writes is kept, also when it fails. -/
def runHost (path : String) (values : List Value) : Exec Value := fun m =>
  let (written, result) := m.host.call path values
  let m := { m with output := m.output ++ written }
  match result with
  | .ok v => .ok v m
  | .error e => .error (.host path e.message) (m.raise (.host path e.message))

def callHost (k : Calls) (call : HostCall) : Exec Value := do
  let call ← resolveHost call
  let values ← k.hostValues call.args
  let m ← Exec.read id
  Exec.withFrame ⟨.host, call.path, m.config.file, m.line⟩ (runHost call.path values)

/-- The value of one token: a call, a variable, or its text. -/
def resolveToken (k : Calls) (t : Token) (requested : Option DataType) : Exec Value :=
  match t with
  | .bound call => k.callBound call
  | .host call => k.callHost call
  | .word .null _ => pure .empty
  | .word .identifier name => do
    match ← Exec.lookup name with
    | some b => k.getValue b requested
    | none => pure (.text name)
  | t => pure (.text t.text)

def tokenTexts (k : Calls) : List Token → Exec (List String)
  | [] => pure []
  | t :: ts => do
    let v ← k.resolveToken t none
    let rest ← k.tokenTexts ts
    return v.toText :: rest

/-- Tokens that are no call: one gives its value, more give their texts with spaces between. -/
def plain (k : Calls) (tokens : List Token) (requested : Option DataType) : Exec Value :=
  match tokens with
  | [] => pure .empty
  | [t] => k.resolveToken t requested
  | ts => do
    let texts ← k.tokenTexts ts
    return .text (" ".intercalate texts)

/-- The initialiser in an expression: the text after the first colon. -/
def initOfTokens (tokens : List Token) : Option String :=
  let text := Token.sourceText ((tokens.dropWhile fun t => t.kind ≠ .colon).drop 1)
  if text.isEmpty then none else some text

/-- Evaluates a run of tokens: a variable, a method or a class in front decides what it is. -/
def evaluate (k : Calls) (tokens : List Token) (requested : Option DataType) : Exec Value :=
  match tokens with
  | [] => pure .empty
  | first :: rest =>
    if first.kind = .identifier then do
      let m ← Exec.read id
      match m.memory.get? first.text with
      | some b =>
        match rest with
        | [] => k.getValue b requested
        | next :: args =>
          match b.value.reference? with
          | none => k.plain tokens requested
          | some r =>
            match Table.get? r.ofClass.methods next.text with
            | some method => k.callMethod method (some r) args
            | none => k.plain tokens requested
      | none =>
        match m.findMethod? first.text, m.declared.classes.get? first.text with
        | some (method, self), _ => k.callMethod method self rest
        | none, some c => k.classLine c rest (initOfTokens tokens) m.line
        | none, none => k.plain tokens requested
    else k.plain tokens requested

end Calls

end LineScript
