import LineScript.Machine.Line
import LineScript.Proofs.Machine.Alike
set_option autoImplicit false

/-!
Code behind a barrier is blind to what lies below: on alike machines every action ends alike, one lemma
for each. Expressions leave the chain of the body around them alone, so they take any relation between
the two chains; lines ask the chains and need them equal.
-/

namespace LineScript

open Exec

/-- The actions that lead back into themselves do not see below a barrier. -/
structure Calls.Blind (k : Calls) : Prop where
  expression : ∀ {σ : Shield} {C : Chain → Chain → Prop} {m n : Machine}, σ.Barred →
    m.Alike σ C n → ∀ tokens requested,
      (k.expression tokens requested m).Alike σ C (k.expression tokens requested n)
  body : ∀ {σ : Shield} {C : Chain → Chain → Prop} {m n : Machine}, σ.Barred →
    m.Alike σ C n → ∀ rows, (k.body rows m).Alike σ C (k.body rows n)
  construct : ∀ {σ : Shield} {C : Chain → Chain → Prop} {m n : Machine}, σ.Barred →
    m.Alike σ C n → ∀ c init, (k.construct c init m).Alike σ C (k.construct c init n)

namespace Calls.Blind

variable {k : Calls} (hk : k.Blind) {σ : Shield} {C : Chain → Chain → Prop} {m n : Machine}

section expressions

variable (hσ : σ.Barred) (h : m.Alike σ C n)

include hk hσ h in
theorem methodBody (entry : Entry) : (k.methodBody entry m).Alike σ C (k.methodBody entry n) := by
  unfold Calls.methodBody
  refine alike_withScope h fun m' n' h' => alike_update_bind ?_
  have hb := h'.memory.foldl_bind (by simp [Shield.push]) entry.bindings
  have henter : (m'.enter entry).Alike (σ.push .call) C (n'.enter entry) := { h'.setMemory hb with }
  exact hk.body (hσ.push .call) henter entry.method.body

include hk h in
/-- A method of an instance puts up a barrier itself. -/
theorem invoke (method : Method Token) (self : Option Reference) (values : List Value)
    (hself : self = none → σ.Barred) :
    (k.invoke method self values m).Alike σ C (k.invoke method self values n) := by
  unfold Calls.invoke
  refine alike_ofExcept_bind h fun _ => alike_read_bind h.declared ?_
  -- the frames on the two call stacks may name different files, but they are of one kind
  refine alike_ofExcept_bind h fun bs => alike_config_bind ?_
  refine alike_bind (alike_withFrame (by rfl) h fun m' n' h' => ?_)
    fun flow _ _ h' => alike_ofExcept _ h'
  cases self with
  | none => exact hk.methodBody (hself rfl) h' _
  | some r =>
    exact alike_withScope h' fun _ _ h'' => hk.methodBody (σ.barred_push_ofInstance r) h'' _

include hk h in
theorem convert (r : Reference) (target : DataType) :
    (k.convert r target m).Alike σ C (k.convert r target n) := by
  unfold Calls.convert
  cases r.ofClass.converter? target with
  | none => exact alike_fail h
  | some c =>
    refine alike_bind (hk.invoke h c.method (some r) [] nofun) fun v m' n' h' => ?_
    split
    · exact alike_ofExcept _ h'
    · exact alike_pure h'

include hk hσ h

omit hσ in
theorem getValue (b : Binding) (requested : Option DataType) :
    (k.getValue b requested m).Alike σ C (k.getValue b requested n) := by
  unfold Calls.getValue
  cases b.value.reference? with
  | none => exact alike_pure h
  | some r =>
    refine alike_machine_bind ?_
    simp only [h.declared,h.memory.primitiveValue]
    refine alike_ite (alike_pure h) ?_
    cases r.ofClass.primitiveTag? with
    | some t => exact alike_ofExcept_bind h fun v => alike_ofExcept _ h
    | none =>
      cases requested.bind DataType.typed? with
      | none => exact alike_pure h
      | some target => exact hk.convert h r target

theorem argumentValues (args : List (List Token × Variable)) :
    (k.argumentValues args m).Alike σ C (k.argumentValues args n) := by
  induction args generalizing m n with
  | nil => exact alike_pure h
  | cons arg rest ih =>
    obtain ⟨tokens, param⟩ := arg
    refine alike_bind (hk.expression hσ h tokens _) fun v m' n' h' => ?_
    exact alike_bind (ih h') fun vs _ _ h'' => alike_pure h''

theorem callWith (method : Method Token) (self : Option Reference) (tokens : List Token) :
    (k.callWith method self tokens m).Alike σ C (k.callWith method self tokens n) := by
  unfold Calls.callWith
  refine alike_ofExcept_bind h fun _ => ?_
  refine alike_bind (hk.argumentValues hσ h _) fun values m' n' h' => ?_
  exact hk.invoke h' method self values fun _ => hσ

theorem callMethod (method : Method Token) (self : Option Reference) (tokens : List Token) :
    (k.callMethod method self tokens m).Alike σ C (k.callMethod method self tokens n) := by
  unfold Calls.callMethod
  cases tokens with
  | nil => exact hk.callWith hσ h method self []
  | cons t rest =>
    refine alike_ite (hk.callWith hσ h method self rest) ?_
    exact alike_ite (hk.callWith hσ h method self (t :: rest)) (alike_fail h)

theorem boundValue (a : BoundArg) : (k.boundValue a m).Alike σ C (k.boundValue a n) := by
  unfold Calls.boundValue
  refine alike_read_bind (h.memory.get? hσ _) ?_
  cases m.memory.get? a.text with
  | some b => exact hk.getValue h b _
  | none => exact alike_pure h

theorem boundValues (args : List BoundArg) :
    (k.boundValues args m).Alike σ C (k.boundValues args n) := by
  induction args generalizing m n with
  | nil => exact alike_pure h
  | cons a rest ih =>
    refine alike_bind (hk.boundValue hσ h a) fun v m' n' h' => ?_
    exact alike_bind (ih h') fun vs _ _ h'' => alike_pure h''

omit hk hσ in
theorem methodOf (c : Class Token) (name : String) :
    (Calls.methodOf c name m).Alike σ C (Calls.methodOf c name n) := by
  unfold Calls.methodOf
  refine alike_machine_bind ?_
  rw [h.declared]
  cases (Table.get? c.methods name).orElse fun _ => m.declared.methods.get? name with
  | some f => exact alike_pure h
  | none => exact alike_fail h

theorem evaluated (type : DataType) (text : String) :
    (propertyDefault.evaluated k type text m).Alike σ C
      (propertyDefault.evaluated k type text n) := by
  unfold propertyDefault.evaluated
  refine alike_bind (hk.expression hσ h _ _) fun v m' n' h' => ?_
  exact alike_read_bind h'.declared (alike_ofExcept _ h')

theorem propertyDefault (type : DataType) (text : String) :
    (k.propertyDefault type text m).Alike σ C (k.propertyDefault type text n) := by
  unfold Calls.propertyDefault
  refine alike_machine_bind ?_
  rw [h.declared]
  cases type.className?.bind m.declared.classes.get? with
  | none => exact hk.evaluated hσ h type text
  | some c => exact alike_ite (hk.construct hσ h c (some text)) (hk.evaluated hσ h type text)

theorem initialValue (p : Variable) : (k.initialValue p m).Alike σ C (k.initialValue p n) := by
  unfold Calls.initialValue
  cases p.default with
  | some text => exact hk.propertyDefault hσ h p.type text
  | none => exact alike_pure h

theorem initialProperties (vars : List Variable) :
    (k.initialProperties vars m).Alike σ C (k.initialProperties vars n) := by
  induction vars generalizing m n with
  | nil => exact alike_pure h
  | cons p ps ih =>
    refine alike_bind (hk.initialValue hσ h p) fun v m' n' h' => ?_
    exact alike_bind (ih h') fun rest _ _ h'' => alike_pure h''

/-- Both machines give a new instance the same number. -/
theorem newInstance (route : Route) (c : Class Token) :
    (k.newInstance route c m).Alike σ C (k.newInstance route c n) := by
  unfold Calls.newInstance
  refine alike_bind (hk.initialProperties hσ h c.properties) fun bs m' n' h' => ?_
  obtain ⟨hr, hs⟩ := h'.memory.allocate c bs
  dsimp only [Machine.allocate]
  rw [hr]
  exact .ok _ { h' with memory := hs }

theorem assignEntry (r : Reference) (entry : List Char) :
    (k.assignEntry r entry m).Alike σ C (k.assignEntry r entry n) := by
  unfold Calls.assignEntry
  cases Text.cut [':'] entry with
  | none => exact alike_fail h
  | some p =>
    refine alike_machine_bind ?_
    simp only [h.memory.properties]
    cases Bindings.get? (m.memory.properties r) (String.ofList (Text.trim p.1)) with
    | none => exact alike_fail h
    | some b =>
      refine alike_bind (hk.expression hσ h _ _) fun v m' n' h' => ?_
      refine alike_read_bind h'.declared (alike_ofExcept_bind h' fun u => ?_)
      exact .ok () (h'.setMemory (h'.memory.setProperty r _ u))

theorem assignEntries (r : Reference) (entries : List (List Char)) :
    (k.assignEntries r entries m).Alike σ C (k.assignEntries r entries n) := by
  induction entries generalizing m n with
  | nil => exact alike_pure h
  | cons e es ih => exact alike_bind (hk.assignEntry hσ h r e) fun _ m' n' h' => ih h'

theorem initialise (c : Class Token) (r : Reference) (init : String) :
    (k.initialise c r init m).Alike σ C (k.initialise c r init n) := by
  unfold Calls.initialise
  refine alike_read_bind h.declared ?_
  cases c.params.bind fun rule => _ with
  | some found =>
    refine alike_bind (methodOf h c _) fun method m₁ n₁ h₁ => ?_
    refine alike_bind (hk.boundValues hσ h₁ _) fun values m₂ n₂ h₂ => ?_
    exact alike_bind (hk.invoke h₂ method (some r) values nofun) fun _ _ _ h₃ => alike_pure h₃
  | none => exact alike_ite (alike_fail h) (hk.assignEntries hσ h r _)

theorem build (route : Route) (c : Class Token) (init : Option String) :
    (k.build route c init m).Alike σ C (k.build route c init n) := by
  unfold Calls.build
  refine alike_bind (hk.newInstance hσ h route c) fun r m' n' h' => ?_
  refine alike_ite (alike_pure h') ?_
  exact alike_bind (hk.initialise hσ h' c r _) fun _ _ _ h'' => alike_pure h''

theorem instantiate (c : Class Token) (name : String) (init : Option String) (line : Nat) :
    (k.instantiate c name init line m).Alike σ C (k.instantiate c name init line n) := by
  unfold Calls.instantiate
  refine alike_machine_bind ?_
  rw [h.checkNameFree hσ]
  refine alike_ofExcept_bind h fun _ => alike_ite (alike_fail h) ?_
  rw [h.checkInside hσ]
  refine alike_ofExcept_bind h fun _ => alike_read_bind (h.memory.get? hσ name) ?_
  refine alike_ite ?_ (alike_fail h)
  refine alike_bind (hk.build hσ h .named c init) fun v m' n' h' => ?_
  cases m.memory.get? name with
  | none =>
    exact alike_bind (alike_onMemory h' (h'.memory.declare hσ.ne_nil _))
      fun _ _ _ h'' => alike_pure h''
  | some b =>
    exact alike_bind (alike_onMemory h' (h'.memory.assign hσ name v))
      fun _ _ _ h'' => alike_pure h''

theorem classLine (c : Class Token) (rest : List Token) (init : Option String) (line : Nat) :
    (k.classLine c rest init line m).Alike σ C (k.classLine c rest init line n) := by
  unfold Calls.classLine
  cases rest with
  | nil => exact alike_fail h
  | cons name args =>
    refine alike_ite (alike_ite (hk.instantiate hσ h c name.text init line) ?_) (alike_fail h)
    cases Table.get? c.methods name.text with
    | none => exact alike_fail h
    | some f => exact alike_ite (hk.callMethod hσ h f none args) (alike_fail h)

theorem callBound (call : BoundCall) : (k.callBound call m).Alike σ C (k.callBound call n) := by
  unfold Calls.callBound
  refine alike_read_bind h.declared ?_
  cases m.declared.classes.get? call.className with
  | none => exact alike_fail h
  | some c =>
    refine alike_bind (methodOf h c call.method) fun method m₁ n₁ h₁ => ?_
    refine alike_bind (hk.boundValues hσ h₁ call.args) fun values m₂ n₂ h₂ => ?_
    refine alike_bind (hk.newInstance hσ h₂ .byWatch c) fun r m₃ n₃ h₃ => ?_
    exact hk.invoke h₃ method (some r) values nofun

omit hk in
theorem resolveHost (call : HostCall) :
    (Calls.resolveHost call m).Alike σ C (Calls.resolveHost call n) := by
  unfold Calls.resolveHost
  refine alike_ite (alike_read_bind (h.memory.get? hσ _) ?_) (alike_pure h)
  cases m.memory.get? call.variableName with
  | none => exact alike_fail h
  | some b =>
    dsimp only
    cases HostCall.ofText? b.value.toText with
    | none => exact alike_fail h
    | some found => exact alike_ite (alike_fail h) (alike_pure h)

theorem hostValues (args : List String) :
    (k.hostValues args m).Alike σ C (k.hostValues args n) := by
  induction args generalizing m n with
  | nil => exact alike_pure h
  | cons a rest ih =>
    refine alike_bind (hk.expression hσ h _ _) fun v m' n' h' => ?_
    exact alike_bind (ih h') fun vs _ _ h'' => alike_pure h''

omit hk hσ in
theorem runHost (path : String) (values : List Value) :
    (Calls.runHost path values m).Alike σ C (Calls.runHost path values n) := by
  have hc : n.host.call path values = m.host.call path values := by rw [h.host]
  unfold Calls.runHost
  rw [hc,h.output]
  have h' : Machine.Alike σ C { m with output := m.output ++ (m.host.call path values).1 }
      { n with output := m.output ++ (m.host.call path values).1 } := { h with output := rfl }
  dsimp only
  cases (m.host.call path values).2 with
  | ok v => exact .ok v h'
  | error e => exact .error _ (h'.raise _)

theorem callHost (call : HostCall) : (k.callHost call m).Alike σ C (k.callHost call n) := by
  unfold Calls.callHost
  refine alike_bind (resolveHost hσ h call) fun found m₁ n₁ h₁ => ?_
  refine alike_bind (hk.hostValues hσ h₁ found.args) fun values m₂ n₂ h₂ => alike_machine_bind ?_
  exact alike_withFrame (by rfl) h₂ fun _ _ h₃ => runHost h₃ found.path values

theorem resolveToken (t : Token) (requested : Option DataType) :
    (k.resolveToken t requested m).Alike σ C (k.resolveToken t requested n) := by
  unfold Calls.resolveToken
  split
  · exact hk.callBound hσ h _
  · exact hk.callHost hσ h _
  · exact alike_pure h
  · next name =>
    refine alike_read_bind (h.memory.get? hσ name) ?_
    cases m.memory.get? name with
    | some b => exact hk.getValue h b requested
    | none => exact alike_pure h
  · exact alike_pure h

theorem tokenTexts (tokens : List Token) :
    (k.tokenTexts tokens m).Alike σ C (k.tokenTexts tokens n) := by
  induction tokens generalizing m n with
  | nil => exact alike_pure h
  | cons t ts ih =>
    refine alike_bind (hk.resolveToken hσ h t none) fun v m' n' h' => ?_
    exact alike_bind (ih h') fun rest _ _ h'' => alike_pure h''

theorem plain (tokens : List Token) (requested : Option DataType) :
    (k.plain tokens requested m).Alike σ C (k.plain tokens requested n) := by
  unfold Calls.plain
  split
  · exact alike_pure h
  · exact hk.resolveToken hσ h _ requested
  · exact alike_bind (hk.tokenTexts hσ h _) fun _ _ _ h' => alike_pure h'

theorem evaluate (tokens : List Token) (requested : Option DataType) :
    (k.evaluate tokens requested m).Alike σ C (k.evaluate tokens requested n) := by
  unfold Calls.evaluate
  cases tokens with
  | nil => exact alike_pure h
  | cons first rest =>
    refine alike_ite (alike_machine_bind ?_) (hk.plain hσ h _ requested)
    rw [h.memory.get? hσ,h.findMethod? hσ,h.declared,h.line]
    cases m.memory.get? first.text with
    | some b =>
      cases rest with
      | nil => exact hk.getValue h b requested
      | cons next args =>
        dsimp only
        cases b.value.reference? with
        | none => exact hk.plain hσ h _ requested
        | some r =>
          dsimp only
          cases Table.get? r.ofClass.methods next.text with
          | some method => exact hk.callMethod hσ h method (some r) args
          | none => exact hk.plain hσ h _ requested
    | none =>
      cases m.findMethod? first.text with
      | some found => exact hk.callMethod hσ h found.1 found.2 rest
      | none =>
        cases m.declared.classes.get? first.text with
        | some c => exact hk.classLine hσ h c rest _ m.line
        | none => exact hk.plain hσ h _ requested

end expressions

section lines

variable (hσ : σ.Barred) (h : m.Alike σ Eq n)
include hk hσ h

theorem conditionFrom (before : Option Bool) (join : Option Join) (terms : List Term) :
    (k.conditionFrom before join terms m).Alike σ Eq (k.conditionFrom before join terms n) := by
  induction terms generalizing before join m n with
  | nil =>
    unfold Calls.conditionFrom
    cases before with
    | some b => exact alike_pure h
    | none => exact alike_fail h
  | cons t ts ih =>
    refine alike_bind (hk.expression hσ h t.tokens none) fun v m' n' h' => ?_
    exact alike_ofExcept_bind h' fun b => ih h' _ _

theorem condition (tokens : List Token) :
    (k.condition tokens m).Alike σ Eq (k.condition tokens n) :=
  hk.conditionFrom hσ h none none (Term.split tokens)

theorem loopCount (tokens : List Token) :
    (k.loopCount tokens m).Alike σ Eq (k.loopCount tokens n) := by
  unfold Calls.loopCount
  cases countWord? tokens with
  | none => exact alike_pure h
  | some name =>
    refine alike_machine_bind ?_
    rw [h.findMethod? hσ,h.declared]
    refine alike_ite (alike_pure h) ?_
    exact alike_bind (hk.resolveToken hσ h _ none) fun v _ _ h' => alike_ofExcept _ h'

theorem runBlock (body : List (Row Token)) :
    (k.runBlock body m).Alike σ Eq (k.runBlock body n) :=
  alike_withScope h fun _ _ h' => hk.body (hσ.push .block) h' body

theorem countLoop (body : List (Row Token)) (passes : Nat) :
    (k.countLoop body passes m).Alike σ Eq (k.countLoop body passes n) := by
  induction passes generalizing m n with
  | zero => exact .ok _ h
  | succ passes ih =>
    have hb := hk.runBlock hσ h body
    unfold Calls.countLoop
    generalize k.runBlock body m = o at hb
    generalize k.runBlock body n = o' at hb
    cases hb with
    | ok flow h' =>
      cases flow with
      | normal v => exact ih h'
      | return_ v => exact .ok _ h'
      | break_ => exact .ok _ h'
      | yieldBreak => exact .ok _ h'
    | error e h' => exact .error e h'
    | outOfFuel m' n' => exact .outOfFuel m' n'

theorem whileLoop (tokens : List Token) (body : List (Row Token)) (fuel : Nat) :
    (k.whileLoop tokens body fuel m).Alike σ Eq (k.whileLoop tokens body fuel n) := by
  induction fuel generalizing m n with
  | zero => exact .outOfFuel m n
  | succ fuel ih =>
    have hc := hk.condition hσ h tokens
    unfold Calls.whileLoop
    generalize k.condition tokens m = o at hc
    generalize k.condition tokens n = o' at hc
    cases hc with
    | error e h' => exact .error e h'
    | outOfFuel m' n' => exact .outOfFuel m' n'
    | @ok again m' n' h' =>
      cases again with
      | false => exact .ok _ h'
      | true =>
        have hb := hk.runBlock hσ h' body
        dsimp only
        generalize k.runBlock body m' = o at hb
        generalize k.runBlock body n' = o' at hb
        cases hb with
        | ok flow h'' =>
          cases flow with
          | normal v => exact ih h''
          | return_ v => exact .ok _ h''
          | break_ => exact .ok _ h''
          | yieldBreak => exact .ok _ h''
        | error e h'' => exact .error e h''
        | outOfFuel m'' n'' => exact .outOfFuel m'' n''

theorem runLoop (s : Statement Token) : (k.runLoop s m).Alike σ Eq (k.runLoop s n) := by
  unfold Calls.runLoop
  cases s.condition with
  | none => exact alike_fail h
  | some tokens =>
    refine alike_bind (hk.loopCount hσ h tokens) fun count m' n' h' => ?_
    cases count with
    | some passes => exact hk.countLoop hσ h' s.body passes
    | none => exact hk.whileLoop hσ h' tokens s.body k.fuel

theorem branch (s : Statement Token) : (k.branch s m).Alike σ Eq (k.branch s n) := by
  unfold Calls.branch
  cases s.condition with
  | none => exact alike_fail h
  | some tokens =>
    refine alike_bind (hk.condition hσ h tokens) fun taken m' n' h' => alike_update_bind ?_
    have h'' := h'.withBranch taken
    exact alike_ite (hk.runBlock hσ h'' s.body) (alike_pure h'')

theorem attempt (body : List (Row Token)) : (k.attempt body m).Alike σ Eq (k.attempt body n) := by
  unfold Calls.attempt
  refine alike_update_bind ?_
  have hb := hk.runBlock hσ (h.withPending none) body
  dsimp only
  generalize k.runBlock body { m with chain := { m.chain with pending := none } } = o at hb
  generalize k.runBlock body { n with chain := { n.chain with pending := none } } = o' at hb
  cases hb with
  | ok flow h' => exact .ok flow h'
  | error e h' => exact .ok _ { h'.withPending (some e.message) with }
  | outOfFuel m' n' => exact .outOfFuel m' n'

theorem rescue (s : Statement Token) : (k.rescue s m).Alike σ Eq (k.rescue s n) := by
  unfold Calls.rescue
  refine alike_read_bind h.chain.symm ?_
  cases m.chain.pending with
  | none => exact alike_pure h
  | some message =>
    refine alike_update_bind (alike_withScope (h.withPending none) fun m' n' h' => ?_)
    have hb := h'.memory.bind (by simp [Shield.push])
      ⟨"exception", .text message, .plain .string, true, s.line⟩
    exact alike_update_bind (hk.body (hσ.push .block) (h'.setMemory hb) s.body)

theorem runStatement (s : Statement Token) :
    (k.runStatement s m).Alike σ Eq (k.runStatement s n) := by
  unfold Calls.runStatement
  cases s.kind with
  | cond => exact hk.branch hσ h s
  | elseCond =>
    exact alike_read_bind h.chain.symm (alike_ite (alike_pure h) (hk.branch hσ h s))
  | otherwise =>
    refine alike_read_bind h.chain.symm (alike_update_bind ?_)
    have h' := h.withBranch true
    exact alike_ite (alike_pure h') (hk.runBlock hσ h' s.body)
  | loop => exact hk.runLoop hσ h s
  | attempt => exact hk.attempt hσ h s.body
  | rescue => exact hk.rescue hσ h s

theorem declaredValue (name : String) (rest : List Token) :
    (k.declaredValue name rest m).Alike σ Eq (k.declaredValue name rest n) := by
  unfold Calls.declaredValue
  cases rest with
  | nil => exact alike_pure h
  | cons arrow expression =>
    refine alike_ite ?_ (alike_fail h)
    refine alike_bind (hk.expression hσ h expression none) fun v m' n' h' => ?_
    exact alike_ite (alike_fail h') (alike_pure h')

theorem declareVariable (row : Row Token) :
    (k.declareVariable row m).Alike σ Eq (k.declareVariable row n) := by
  unfold Calls.declareVariable
  cases row.tokens.drop 1 with
  | nil => exact alike_fail h
  | cons t rest =>
    refine alike_ite (alike_fail h) (alike_machine_bind ?_)
    rw [h.checkNameFree hσ]
    refine alike_ofExcept_bind h fun _ => ?_
    refine alike_bind (hk.declaredValue hσ h t.text rest) fun v m' n' h' => ?_
    exact alike_bind (alike_onMemory h' (h'.memory.declare hσ.ne_nil _))
      fun _ _ _ h'' => alike_pure h''

theorem variableLine (b : Binding) (rest : List Token) :
    (k.variableLine b rest m).Alike σ Eq (k.variableLine b rest n) := by
  unfold Calls.variableLine
  cases rest with
  | nil => exact hk.getValue h b none
  | cons t args =>
    refine alike_ite ?_ ?_
    · refine alike_bind (hk.expression hσ h args _) fun v m' n' h' => ?_
      refine alike_read_bind h'.declared (alike_ofExcept_bind h' fun u => ?_)
      exact alike_bind (alike_onMemory h' (h'.memory.assign hσ b.name u))
        fun _ _ _ h'' => alike_pure h''
    · cases b.value.reference? with
      | none => exact alike_fail h
      | some r =>
        dsimp only
        cases Table.get? r.ofClass.methods t.text with
        | none => exact alike_fail h
        | some method => exact hk.callMethod hσ h method (some r) args

theorem identifierLine (name : String) (rest : List Token) (line : Line) :
    (k.identifierLine name rest line m).Alike σ Eq (k.identifierLine name rest line n) := by
  unfold Calls.identifierLine
  refine alike_machine_bind ?_
  rw [h.memory.get? hσ,h.findMethod? hσ,h.declared]
  cases m.memory.get? name with
  | some b => exact hk.variableLine hσ h b rest
  | none =>
    cases m.findMethod? name with
    | some found => exact hk.callMethod hσ h found.1 found.2 rest
    | none =>
      cases m.declared.classes.get? name with
      | some c => exact hk.classLine hσ h c rest _ line.number
      | none => exact alike_fail h

theorem dispatch (row : Row Token) : (k.dispatch row m).Alike σ Eq (k.dispatch row n) := by
  unfold Calls.dispatch
  generalize row.tokens = tokens
  split
  · exact alike_pure h
  · exact hk.runStatement hσ h _
  · exact alike_pure h
  · exact alike_pure h
  · exact alike_pure h
  · next first rest _ _ _ _ =>
    generalize first.kind = kind
    split
    · exact alike_pure h
    · exact alike_pure h
    · exact alike_pure h
    · exact alike_bind (hk.declareVariable hσ h row) fun _ _ _ h' => alike_pure h'
    · exact alike_bind (hk.expression hσ h rest none) fun _ _ _ h' => alike_pure h'
    · exact alike_ite (alike_pure h) (alike_fail h)
    · exact alike_ite (alike_pure h) (alike_fail h)
    · exact alike_bind (hk.identifierLine hσ h _ rest row.line) fun _ _ _ h' => alike_pure h'
    · exact alike_bind (hk.expression hσ h _ none) fun _ _ _ h' => alike_pure h'
    · exact alike_bind (hk.expression hσ h _ none) fun _ _ _ h' => alike_pure h'
    · exact alike_fail h

theorem runLine (row : Row Token) : (k.runLine row m).Alike σ Eq (k.runLine row n) := by
  unfold Calls.runLine
  refine alike_wrapping (alike_atLine h fun m' n' h' => alike_config_bind ?_)
  exact alike_withFrame (by rfl) h' fun _ _ h'' => hk.dispatch hσ h'' row

theorem runRows (last : Value) (yielded : Bool) (rows : List (Row Token)) :
    (k.runRows last yielded rows m).Alike σ Eq (k.runRows last yielded rows n) := by
  induction rows generalizing last yielded m n with
  | nil => exact .ok _ h
  | cons row rows ih =>
    have hl := hk.runLine hσ h row
    unfold Calls.runRows
    generalize k.runLine row m = o at hl
    generalize k.runLine row n = o' at hl
    cases hl with
    | ok flow h' =>
      cases flow with
      | normal v => exact ih h' v yielded
      | return_ v => exact .ok _ h'
      | break_ => exact .ok _ h'
      | yieldBreak => exact ih h' last true
    | error e h' => exact .error e h'
    | outOfFuel m' n' => exact .outOfFuel m' n'

end lines

include hk in
theorem runBody (hσ : σ.Barred) (h : m.Alike σ C n) (rows : List (Row Token)) :
    (k.runBody rows m).Alike σ C (k.runBody rows n) :=
  alike_withFreshChain h fun _ _ h' => hk.runRows hσ h' .empty false rows

end Calls.Blind

/-- The actions are blind however deep they may be nested. -/
theorem Calls.blind_upTo (fuel : Nat) : (Calls.upTo fuel).Blind := by
  induction fuel with
  | zero =>
    exact ⟨fun _ _ _ _ => .outOfFuel _ _, fun _ _ _ => .outOfFuel _ _,
      fun _ _ _ _ => .outOfFuel _ _⟩
  | succ fuel ih =>
    exact ⟨fun hσ h tokens requested => ih.evaluate hσ h tokens requested,
      fun hσ h rows => ih.runBody hσ h rows, fun hσ h c init => ih.build hσ h .byDefault c init⟩

end LineScript
