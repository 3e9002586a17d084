import LineScript.Machine.Call
set_option autoImplicit false

/-!
Lines, statements and bodies. Inside a body the first error goes outwards, to the nearest attempt or to
the top; a body's statements are linked through the chain of that body.
-/

namespace LineScript

namespace Calls

/-- Joins the truth of a term to what was found before it. -/
def joinTruth (before : Option Bool) (join : Option Join) (now : Bool) : Bool :=
  match before, join with
  | some b, some .and => b && now
  | some b, some .or => b || now
  | _, _ => now

/-- Evaluates the terms of a condition from left to right, every one of them, and folds them with their
joins. -/
def conditionFrom (k : Calls) (before : Option Bool) (join : Option Join) : List Term → Exec Bool
  | [] =>
    match before with
    | some b => pure b
    | none => Exec.fail (.malformed "Empty condition")
  | t :: ts => do
    let v ← k.expression t.tokens none
    let b ← Exec.ofExcept v.truth
    k.conditionFrom (some (joinTruth before join (b != t.negated))) t.join ts

def condition (k : Calls) (tokens : List Token) : Exec Bool :=
  k.conditionFrom none none (Term.split tokens)

/-- The word of a condition that is a single plain identifier. -/
def countWord? (tokens : List Token) : Option String :=
  match Term.split tokens with
  | [t] =>
    match t.negated, t.tokens with
    | false, [.word .identifier name] => some name
    | _, _ => none
  | _ => none

/-- The number of passes that a value stands for: none if it is no number, an error if it has a
fraction. -/
def passes (v : Value) : Except RuntimeError (Option Nat) :=
  if v.reference?.isSome || !v.tag.isNumeric then .ok none
  else
    match v.number? with
    | none => .ok none
    | some x =>
      match Numeral.wholeOfDouble? x with
      | none => .error (.typeMismatch "int" v.toText)
      | some n => .ok (some (Numeral.uint64.clamp n).toNat)

/-- The fixed number of passes of a loop, if its condition is a single word that is no call and stands
for a number. -/
def loopCount (k : Calls) (tokens : List Token) : Exec (Option Nat) := do
  match countWord? tokens with
  | none => pure none
  | some name =>
    let m ← Exec.read id
    if (m.findMethod? name).isSome || m.declared.classes.contains name then pure none
    else do
      let v ← k.resolveToken (.word .identifier name) none
      Exec.ofExcept (passes v)

def runBlock (k : Calls) (body : List (Row Token)) : Exec Flow := Exec.withScope .block (k.body body)

/-- A loop with a fixed number of passes. -/
def countLoop (k : Calls) (body : List (Row Token)) : Nat → Machine → Outcome Flow
  | 0, m => .ok (.normal .empty) m
  | n + 1, m =>
    match k.runBlock body m with
    | .ok (.normal _) m => k.countLoop body n m
    | .ok (.return_ v) m => .ok (.return_ v) m
    | .ok .break_ m => .ok (.normal .empty) m
    | .ok .yieldBreak m => .ok (.normal .empty) m
    | .error e m => .error e m
    | .outOfFuel m => .outOfFuel m

/-- A loop that asks its condition before every pass. -/
def whileLoop (k : Calls) (tokens : List Token) (body : List (Row Token)) :
    Nat → Machine → Outcome Flow
  | 0, m => .outOfFuel m
  | n + 1, m =>
    match k.condition tokens m with
    | .ok false m => .ok (.normal .empty) m
    | .ok true m =>
      match k.runBlock body m with
      | .ok (.normal _) m => k.whileLoop tokens body n m
      | .ok (.return_ v) m => .ok (.return_ v) m
      | .ok .break_ m => .ok (.normal .empty) m
      | .ok .yieldBreak m => .ok (.normal .empty) m
      | .error e m => .error e m
      | .outOfFuel m => .outOfFuel m
    | .error e m => .error e m
    | .outOfFuel m => .outOfFuel m

def runLoop (k : Calls) (s : Statement Token) : Exec Flow :=
  match s.condition with
  | none => Exec.fail (.malformed "'loop' needs a count or condition")
  | some tokens => do
    match ← k.loopCount tokens with
    | some n => k.countLoop s.body n
    | none => k.whileLoop tokens s.body k.fuel

def setBranch (taken : Bool) : Exec Unit :=
  Exec.update fun m => { m with chain := { m.chain with branchTaken := taken } }

def setPending (message : Option String) : Exec Unit :=
  Exec.update fun m => { m with chain := { m.chain with pending := message } }

/-- Runs the body if the condition holds, and notes whether it did. -/
def branch (k : Calls) (s : Statement Token) : Exec Flow :=
  match s.condition with
  | none => Exec.fail (.malformed ("'" ++ s.kind.keyword ++ "' needs a condition"))
  | some tokens => do
    let taken ← k.condition tokens
    setBranch taken
    if taken then k.runBlock s.body else pure (.normal .empty)

/-- Runs a body and keeps the message of an error for the statement that handles it. -/
def attempt (k : Calls) (body : List (Row Token)) : Exec Flow := do
  setPending none
  fun m =>
    match k.runBlock body m with
    | .error e m =>
      .ok (.normal .empty)
        { m with failure := none, chain := { m.chain with pending := some e.message } }
    | r => r

/-- Runs the body once for a kept message, under the name `exception`. -/
def rescue (k : Calls) (s : Statement Token) : Exec Flow := do
  let chain ← Exec.read Machine.chain
  match chain.pending with
  | none => pure (.normal .empty)
  | some message => do
    setPending none
    Exec.withScope .block do
      Exec.update fun m => m.onMemory fun memory =>
        memory.bind ⟨"exception", .text message, .plain .string, true, s.line⟩
      k.body s.body

def runStatement (k : Calls) (s : Statement Token) : Exec Flow := do
  match s.kind with
  | .cond => k.branch s
  | .elseCond =>
    let chain ← Exec.read Machine.chain
    if chain.branchTaken then pure (.normal .empty) else k.branch s
  | .otherwise =>
    let chain ← Exec.read Machine.chain
    setBranch true
    if chain.branchTaken then pure (.normal .empty) else k.runBlock s.body
  | .loop => k.runLoop s
  | .attempt => k.attempt s.body
  | .rescue => k.rescue s

/-- The value of a new variable: that of the expression behind the arrow, if there is one. -/
def declaredValue (k : Calls) (name : String) (rest : List Token) : Exec Value :=
  match rest with
  | [] => pure .empty
  | arrow :: expression =>
    if arrow.kind = .arrow then do
      let v ← k.expression expression none
      if v.isEmpty then Exec.fail (.declaration ("'" ++ name ++ "' must be given a value"))
      else pure v
    else
      Exec.fail (.malformed ("Unexpected '" ++ arrow.text ++ "' in the declaration of '" ++ name ++ "'"))

def declareVariable (k : Calls) (row : Row Token) : Exec Value := do
  match row.tokens.drop 1 with
  | [] => Exec.fail (.declaration "Expected a variable name after 'undefined'")
  | t :: rest =>
    if t.kind ≠ .identifier then
      Exec.fail (.declaration "Expected a variable name after 'undefined'")
    else do
      let m ← Exec.read id
      Exec.ofExcept (m.checkNameFree t.text)
      let v ← k.declaredValue t.text rest
      Exec.onMemory fun s => s.declare ⟨t.text, v, .untyped, true, row.line.number⟩
      pure v

/-- A line that starts with a variable: a reading, an assignment or a method call. -/
def variableLine (k : Calls) (b : Binding) (rest : List Token) : Exec Value := do
  match rest with
  | [] => k.getValue b none
  | t :: args =>
    if t.kind = .arrow then do
      let v ← k.expression args b.type.typed?
      let d ← Exec.read Machine.declared
      let v ← Exec.ofExcept (d.conform b.type v)
      Exec.onMemory fun s => s.assign b.name v
      pure v
    else
      match b.value.reference? with
      | none => Exec.fail (.malformed ("Unexpected '" ++ t.text ++ "' after '" ++ b.name ++ "'"))
      | some r =>
        match Table.get? r.ofClass.methods t.text with
        | none => Exec.fail (.missingMethod r.ofClass.name t.text)
        | some method => k.callMethod method (some r) args

/-- The initialiser on a line: the text after its first colon, without a comment. -/
def initOfLine (text : String) : Option String :=
  match Text.cut [':'] (Text.code text.toList) with
  | none => none
  | some (_, rest) =>
    let rest := Text.trim rest
    if rest.isEmpty then none else some (String.ofList rest)

def identifierLine (k : Calls) (name : String) (rest : List Token) (line : Line) : Exec Value := do
  let m ← Exec.read id
  match m.memory.get? name, m.findMethod? name, m.declared.classes.get? name with
  | some b, _, _ => k.variableLine b rest
  | none, some (method, self), _ => k.callMethod method self rest
  | none, none, some c => k.classLine c rest (initOfLine line.text) line.number
  | none, none, none => Exec.fail (.undefined name)

/-- What a line does, by its first token. -/
def dispatch (k : Calls) (row : Row Token) : Exec Flow := do
  match row.tokens with
  | [] => pure (.normal .empty)
  | .statement s :: _ => k.runStatement s
  | .ofClass _ :: _ => pure (.normal .empty)
  | .ofMethod _ :: _ => pure (.normal .empty)
  | .ofContainer _ :: _ => pure (.normal .empty)
  | first :: rest =>
    match first.kind with
    | .comment | .make | .null => pure (.normal .empty)
    | .undefined => return .normal (← k.declareVariable row)
    | .returnWord => return .return_ (← k.expression rest none)
    | .breakWord =>
      if rest.isEmpty then pure .break_ else Exec.fail (.malformed ("Unexpected '" ++ first.text ++ "'"))
    | .yield =>
      if rest.map Token.kind = [.breakWord] then pure .yieldBreak
      else Exec.fail (.malformed "'yield' must be followed by 'break'")
    | .identifier => return .normal (← k.identifierLine first.text rest row.line)
    | .boundCall | .runexec => return .normal (← k.expression row.tokens none)
    | _ => Exec.fail (.malformed ("Unexpected '" ++ first.text ++ "'"))

/-- The name of the construct that an error leaving the line is wrapped with; an attempt lets none
out. -/
def constructName (row : Row Token) : Option String :=
  match row.tokens with
  | [] => none
  | first :: _ =>
    match first.kind with
    | .statement .attempt => none
    | .statement _ | .undefined | .returnWord | .breakWord | .yield => some first.text
    | .runexec => some "runexec"
    | _ => some row.line.text

def runLine (k : Calls) (row : Row Token) : Exec Flow :=
  Exec.wrapping (constructName row) <| Exec.atLine row.line.number do
    let config ← Exec.read Machine.config
    Exec.withFrame ⟨.line, row.line.text, config.file, row.line.number⟩ (k.dispatch row)

/-- Runs lines one after the other. A `yield break` is kept until all have run. -/
def runRows (k : Calls) : Value → Bool → List (Row Token) → Machine → Outcome Flow
  | last, yielded, [], m => .ok (if yielded then .yieldBreak else .normal last) m
  | last, yielded, row :: rows, m =>
    match k.runLine row m with
    | .ok (.normal v) m => k.runRows v yielded rows m
    | .ok .yieldBreak m => k.runRows last true rows m
    | .ok flow m => .ok flow m
    | .error e m => .error e m
    | .outOfFuel m => .outOfFuel m

def runBody (k : Calls) (rows : List (Row Token)) : Exec Flow :=
  Exec.withFreshChain (k.runRows .empty false rows)

/-- Nothing can be called. -/
def nothing : Calls := ⟨0, fun _ _ => Exec.endless, fun _ => Exec.endless, fun _ _ => Exec.endless⟩

/-- The actions with calls nested at most `n` deep. -/
def upTo : Nat → Calls
  | 0 => nothing
  | n + 1 =>
    { fuel := n
      expression := fun tokens requested m => (upTo n).evaluate tokens requested m
      body := fun rows m => (upTo n).runBody rows m
      construct := fun c init m => (upTo n).build .byDefault c init m }

end Calls

end LineScript
