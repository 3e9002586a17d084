import LineScript.Machine.Line
set_option autoImplicit false

/-!
What code does not see of the machine. An expression neither asks nor sets the chain of the body that it
stands in, and it reports no error: with another chain and other errors reported it does the same and
leaves them as they are. Lines ask and set the chain, but report no error either. One rule for each way of
putting actions together, and one lemma for each action.
-/

namespace LineScript

variable {α β : Type} {c : Chain → Chain} {e : Array Reported → Array Reported}

/-- The machine with its chain and its reported errors changed. -/
def Machine.elsewhere (c : Chain → Chain) (e : Array Reported → Array Reported) (m : Machine) :
    Machine := { m with chain := c m.chain, errors := e m.errors }

/-- The second action did what the first did, on a machine that differs in its chain and its errors. -/
inductive Outcome.Elsewhere (c : Chain → Chain) (e : Array Reported → Array Reported) :
    Outcome α → Outcome α → Prop
  | ok (a : α) (m : Machine) : Outcome.Elsewhere c e (.ok a m) (.ok a (m.elsewhere c e))
  | error (x : RuntimeError) (m : Machine) :
    Outcome.Elsewhere c e (.error x m) (.error x (m.elsewhere c e))
  | outOfFuel (m n : Machine) : Outcome.Elsewhere c e (.outOfFuel m) (.outOfFuel n)

def Exec.Unaware (c : Chain → Chain) (e : Array Reported → Array Reported) (x : Exec α) : Prop :=
  ∀ m : Machine, (x m).Elsewhere c e (x (m.elsewhere c e))

theorem Outcome.Elsewhere.of_ok {a : α} {m : Machine} {o : Outcome α}
    (h : Outcome.Elsewhere c e (.ok a m) o) : o = .ok a (m.elsewhere c e) := by
  cases h
  rfl

theorem Outcome.Elsewhere.of_error {y : RuntimeError} {m : Machine} {o : Outcome α}
    (h : Outcome.Elsewhere c e (.error y m) o) : o = .error y (m.elsewhere c e) := by
  cases h
  rfl

theorem Outcome.Elsewhere.of_outOfFuel {m : Machine} {o : Outcome α}
    (h : Outcome.Elsewhere c e (.outOfFuel m) o) : ∃ n, o = .outOfFuel n := by
  cases h with
  | outOfFuel _ n => exact ⟨n, rfl⟩

namespace Exec

theorem unaware_bind {x : Exec α} {f : α → Exec β} (hx : x.Unaware c e)
    (hf : ∀ a, (f a).Unaware c e) : (x >>= f).Unaware c e := by
  intro m
  change (Exec.bind x f m).Elsewhere c e (Exec.bind x f (m.elsewhere c e))
  unfold Exec.bind
  have hm := hx m
  generalize x m = o at hm
  generalize x (m.elsewhere c e) = o' at hm
  cases hm with
  | ok a n => exact hf a n
  | error y n => exact .error y n
  | outOfFuel n n' => exact .outOfFuel n n'

theorem unaware_pure (a : α) : (Pure.pure a : Exec α).Unaware c e := fun m => .ok a m

theorem unaware_fail (y : RuntimeError) : (Exec.fail y : Exec α).Unaware c e :=
  fun m => .error y (m.raise y)

theorem unaware_ofExcept (r : Except RuntimeError α) : (Exec.ofExcept r).Unaware c e := by
  intro m
  cases r with
  | ok a => exact .ok a m
  | error y => exact .error y (m.raise y)

/-- What is read of the machine is the same elsewhere. -/
theorem unaware_read {p : Machine → α} (hp : ∀ m : Machine, p (m.elsewhere c e) = p m) :
    (Exec.read p).Unaware c e := by
  intro m
  change Outcome.Elsewhere c e (.ok (p m) m) (.ok (p (m.elsewhere c e)) (m.elsewhere c e))
  rw [hp]
  exact .ok (p m) m

/-- The whole machine is read, but what is done with it does not depend on where it stands. -/
theorem unaware_machine {f : Machine → Exec β} (hsame : ∀ m : Machine, f (m.elsewhere c e) = f m)
    (hf : ∀ m, (f m).Unaware c e) : (Exec.read id >>= f).Unaware c e := by
  intro m
  change (f m m).Elsewhere c e (f (m.elsewhere c e) (m.elsewhere c e))
  rw [hsame]
  exact hf m m

theorem unaware_update {p : Machine → Machine}
    (hp : ∀ m : Machine, p (m.elsewhere c e) = (p m).elsewhere c e) : (Exec.update p).Unaware c e := by
  intro m
  change Outcome.Elsewhere c e (.ok () (p m)) (.ok () (p (m.elsewhere c e)))
  rw [hp]
  exact .ok () (p m)

theorem unaware_ite {q : Prop} [Decidable q] {x y : Exec α} (hx : x.Unaware c e)
    (hy : y.Unaware c e) : (if q then x else y).Unaware c e := by
  by_cases hq : q
  · rwa [if_pos hq]
  · rwa [if_neg hq]

theorem unaware_onMemory (f : Memory → Except RuntimeError Memory) :
    (Exec.onMemory f).Unaware c e := by
  intro m
  have hf : f (m.elsewhere c e).memory = f m.memory := rfl
  unfold Exec.onMemory
  rw [hf]
  cases f m.memory with
  | ok s => exact .ok () (m.setMemory s)
  | error y => exact .error y (m.raise y)

/-- Both the change before the action and the change behind it may be made elsewhere. -/
theorem elsewhere_finally {d : Chain → Chain} {x : Exec α} {p q : Machine → Machine} {m n : Machine}
    (hx : (x m).Elsewhere d e (x n))
    (hp : ∀ m' : Machine, q (m'.elsewhere d e) = (p m').elsewhere c e) :
    (Exec.finally_ x p m).Elsewhere c e (Exec.finally_ x q n) := by
  unfold Exec.finally_
  generalize x m = o at hx
  generalize x n = o' at hx
  cases hx with
  | ok a m' =>
    dsimp only
    rw [hp]
    exact .ok a (p m')
  | error y m' =>
    dsimp only
    rw [hp]
    exact .error y (p m')
  | outOfFuel m' n' => exact .outOfFuel m' n'

theorem unaware_withScope {kind : FrameKind} {x : Exec α} (hx : x.Unaware c e) :
    (Exec.withScope kind x).Unaware c e :=
  fun m => elsewhere_finally (hx (m.onMemory fun s => s.push kind)) fun _ => rfl

theorem unaware_atLine {line : Nat} {x : Exec α} (hx : x.Unaware c e) :
    (Exec.atLine line x).Unaware c e :=
  fun m => elsewhere_finally (hx { m with line }) fun _ => rfl

/-- A body begins with a chain of its own, so it does not matter which one it is in. -/
theorem unaware_withFreshChain {x : Exec α} (hx : x.Unaware id e) :
    (Exec.withFreshChain x).Unaware c e :=
  fun m => elsewhere_finally (hx { m with chain := .fresh }) fun _ => rfl

theorem capture_elsewhere (m : Machine) : (m.elsewhere c e).capture = m.capture.elsewhere c e := by
  cases hf : m.failure with
  | some trace => simp [Machine.capture,Machine.elsewhere,hf]
  | none => simp [Machine.capture,Machine.elsewhere,hf]

theorem unaware_withFrame {f : CallFrame} {x : Exec α} (hx : x.Unaware c e) :
    (Exec.withFrame f x).Unaware c e := by
  intro m
  have hstack : (m.elsewhere c e).stack.push f = m.stack.push f := rfl
  unfold Exec.withFrame
  rw [hstack]
  cases m.stack.push f with
  | error y =>
    have hcapture : ((m.elsewhere c e).raise y).capture = (m.raise y).capture.elsewhere c e :=
      capture_elsewhere (m.raise y)
    dsimp only
    rw [hcapture]
    exact .error y (m.raise y).capture
  | ok stack =>
    have hm : (x { m with stack }).Elsewhere c e (x { m.elsewhere c e with stack }) :=
      hx { m with stack }
    dsimp only
    generalize x { m with stack } = o at hm
    generalize x { m.elsewhere c e with stack } = o' at hm
    cases hm with
    | ok a n => exact .ok a { n with stack := n.stack.pop }
    | error y n =>
      dsimp only
      rw [capture_elsewhere]
      exact .error y { n.capture with stack := n.capture.stack.pop }
    | outOfFuel n n' => exact .outOfFuel n n'

theorem unaware_wrapping {construct : Option String} {x : Exec α} (hx : x.Unaware c e) :
    (Exec.wrapping construct x).Unaware c e := by
  intro m
  have hm := hx m
  unfold Exec.wrapping
  generalize x m = o at hm
  generalize x (m.elsewhere c e) = o' at hm
  cases hm with
  | ok a n => exact .ok a n
  | error y n =>
    cases construct with
    | none => exact .error y n
    | some name => exact .error (y.wrap name) n
  | outOfFuel n n' => exact .outOfFuel n n'

end Exec

open Exec

/-- The actions that lead back into themselves see neither the chain nor the errors. -/
structure Calls.Unaware (k : Calls) (c : Chain → Chain) (e : Array Reported → Array Reported) :
    Prop where
  expression : ∀ tokens requested, (k.expression tokens requested).Unaware c e
  body : ∀ rows, (k.body rows).Unaware c e
  construct : ∀ ofClass init, (k.construct ofClass init).Unaware c e

namespace Calls.Unaware

variable {k : Calls}

section expressions

theorem methodOf (ofClass : Class Token) (name : String) :
    (Calls.methodOf ofClass name).Unaware c e := by
  unfold Calls.methodOf
  refine unaware_machine (fun _ => rfl) fun m => ?_
  cases (Table.get? ofClass.methods name).orElse fun _ => m.declared.methods.get? name with
  | some f => exact unaware_pure f
  | none => exact unaware_fail _

theorem resolveHost (call : HostCall) : (Calls.resolveHost call).Unaware c e := by
  unfold Calls.resolveHost
  refine unaware_ite (unaware_bind (unaware_read fun _ => rfl) fun found => ?_) (unaware_pure call)
  cases found with
  | none => exact unaware_fail _
  | some b =>
    dsimp only
    cases HostCall.ofText? b.value.toText with
    | none => exact unaware_fail _
    | some host => exact unaware_ite (unaware_fail _) (unaware_pure host)

theorem runHost (path : String) (values : List Value) : (Calls.runHost path values).Unaware c e := by
  intro m
  have hcall : (m.elsewhere c e).host.call path values = m.host.call path values := rfl
  unfold Calls.runHost
  rw [hcall]
  dsimp only
  cases (m.host.call path values).2 with
  | ok v => exact .ok v { m with output := m.output ++ (m.host.call path values).1 }
  | error y =>
    let written : Machine := { m with output := m.output ++ (m.host.call path values).1 }
    exact .error (.host path y.message) (written.raise (.host path y.message))

variable (hk : k.Unaware c e)
include hk

theorem methodBody (entry : Entry) : (k.methodBody entry).Unaware c e := by
  unfold Calls.methodBody
  exact unaware_withScope (unaware_bind (unaware_update fun _ => rfl) fun _ => hk.body entry.method.body)

theorem invoke (method : Method Token) (self : Option Reference) (values : List Value) :
    (k.invoke method self values).Unaware c e := by
  unfold Calls.invoke
  refine unaware_bind (unaware_ofExcept _) fun _ => ?_
  refine unaware_bind (unaware_read fun _ => rfl) fun d => ?_
  refine unaware_bind (unaware_ofExcept _) fun bs => ?_
  refine unaware_bind (unaware_read fun _ => rfl) fun config => ?_
  refine unaware_bind (unaware_withFrame ?_) fun flow => unaware_ofExcept _
  cases self with
  | none => exact hk.methodBody _
  | some r => exact unaware_withScope (hk.methodBody _)

theorem convert (r : Reference) (target : DataType) : (k.convert r target).Unaware c e := by
  unfold Calls.convert
  cases r.ofClass.converter? target with
  | none => exact unaware_fail _
  | some converter =>
    refine unaware_bind (hk.invoke converter.method (some r) []) fun v => ?_
    split
    · exact unaware_ofExcept _
    · exact unaware_pure v

theorem getValue (b : Binding) (requested : Option DataType) : (k.getValue b requested).Unaware c e := by
  unfold Calls.getValue
  cases b.value.reference? with
  | none => exact unaware_pure b.value
  | some r =>
    refine unaware_machine (fun _ => rfl) fun m => unaware_ite (unaware_pure b.value) ?_
    cases r.ofClass.primitiveTag? with
    | some t => exact unaware_bind (unaware_ofExcept _) fun v => unaware_ofExcept _
    | none =>
      cases requested.bind DataType.typed? with
      | none => exact unaware_pure b.value
      | some target => exact hk.convert r target

theorem argumentValues (args : List (List Token × Variable)) :
    (k.argumentValues args).Unaware c e := by
  induction args with
  | nil => exact unaware_pure []
  | cons arg rest ih =>
    obtain ⟨tokens, param⟩ := arg
    exact unaware_bind (hk.expression tokens _) fun v => unaware_bind ih fun vs => unaware_pure _

theorem callWith (method : Method Token) (self : Option Reference) (tokens : List Token) :
    (k.callWith method self tokens).Unaware c e := by
  unfold Calls.callWith
  refine unaware_bind (unaware_ofExcept _) fun _ => ?_
  exact unaware_bind (hk.argumentValues _) fun values => hk.invoke method self values

theorem callMethod (method : Method Token) (self : Option Reference) (tokens : List Token) :
    (k.callMethod method self tokens).Unaware c e := by
  unfold Calls.callMethod
  cases tokens with
  | nil => exact hk.callWith method self []
  | cons t rest =>
    refine unaware_ite (hk.callWith method self rest) ?_
    exact unaware_ite (hk.callWith method self (t :: rest)) (unaware_fail _)

theorem boundValue (a : BoundArg) : (k.boundValue a).Unaware c e := by
  unfold Calls.boundValue
  refine unaware_bind (unaware_read fun _ => rfl) fun found => ?_
  cases found with
  | some b => exact hk.getValue b _
  | none => exact unaware_pure _

theorem boundValues (args : List BoundArg) : (k.boundValues args).Unaware c e := by
  induction args with
  | nil => exact unaware_pure []
  | cons a rest ih =>
    exact unaware_bind (hk.boundValue a) fun v => unaware_bind ih fun vs => unaware_pure _

theorem evaluated (type : DataType) (text : String) :
    (propertyDefault.evaluated k type text).Unaware c e := by
  unfold propertyDefault.evaluated
  refine unaware_bind (hk.expression _ _) fun v => ?_
  exact unaware_bind (unaware_read fun _ => rfl) fun d => unaware_ofExcept _

theorem propertyDefault (type : DataType) (text : String) :
    (k.propertyDefault type text).Unaware c e := by
  unfold Calls.propertyDefault
  refine unaware_machine (fun _ => rfl) fun m => ?_
  cases type.className?.bind m.declared.classes.get? with
  | none => exact hk.evaluated type text
  | some found => exact unaware_ite (hk.construct found (some text)) (hk.evaluated type text)

theorem initialValue (p : Variable) : (k.initialValue p).Unaware c e := by
  unfold Calls.initialValue
  cases p.default with
  | some text => exact hk.propertyDefault p.type text
  | none => exact unaware_pure _

theorem initialProperties (vars : List Variable) : (k.initialProperties vars).Unaware c e := by
  induction vars with
  | nil => exact unaware_pure []
  | cons p ps ih =>
    exact unaware_bind (hk.initialValue p) fun v => unaware_bind ih fun rest => unaware_pure _

theorem newInstance (route : Route) (ofClass : Class Token) :
    (k.newInstance route ofClass).Unaware c e := by
  unfold Calls.newInstance
  exact unaware_bind (hk.initialProperties ofClass.properties) fun bs m =>
    .ok (m.allocate route ofClass bs).1 (m.allocate route ofClass bs).2

theorem assignEntry (r : Reference) (entry : List Char) : (k.assignEntry r entry).Unaware c e := by
  unfold Calls.assignEntry
  cases Text.cut [':'] entry with
  | none => exact unaware_fail _
  | some p =>
    refine unaware_machine (fun _ => rfl) fun m => ?_
    cases Bindings.get? (m.memory.properties r) (String.ofList (Text.trim p.1)) with
    | none => exact unaware_fail _
    | some b =>
      refine unaware_bind (hk.expression _ _) fun v => ?_
      refine unaware_bind (unaware_read fun _ => rfl) fun d => ?_
      exact unaware_bind (unaware_ofExcept _) fun u => unaware_update fun _ => rfl

theorem assignEntries (r : Reference) (entries : List (List Char)) :
    (k.assignEntries r entries).Unaware c e := by
  induction entries with
  | nil => exact unaware_pure ()
  | cons entry rest ih => exact unaware_bind (hk.assignEntry r entry) fun _ => ih

theorem initialise (ofClass : Class Token) (r : Reference) (init : String) :
    (k.initialise ofClass r init).Unaware c e := by
  unfold Calls.initialise
  refine unaware_bind (unaware_read fun _ => rfl) fun d => ?_
  cases ofClass.params.bind fun rule => _ with
  | some found =>
    refine unaware_bind (methodOf ofClass _) fun method => ?_
    refine unaware_bind (hk.boundValues _) fun values => ?_
    exact unaware_bind (hk.invoke method (some r) values) fun _ => unaware_pure ()
  | none => exact unaware_ite (unaware_fail _) (hk.assignEntries r _)

theorem build (route : Route) (ofClass : Class Token) (init : Option String) :
    (k.build route ofClass init).Unaware c e := by
  unfold Calls.build
  refine unaware_bind (hk.newInstance route ofClass) fun r => unaware_ite (unaware_pure _) ?_
  exact unaware_bind (hk.initialise ofClass r _) fun _ => unaware_pure _

theorem instantiate (ofClass : Class Token) (name : String) (init : Option String) (line : Nat) :
    (k.instantiate ofClass name init line).Unaware c e := by
  unfold Calls.instantiate
  refine unaware_machine (fun _ => rfl) fun m => ?_
  refine unaware_bind (unaware_ofExcept _) fun _ => unaware_ite (unaware_fail _) ?_
  refine unaware_bind (unaware_ofExcept _) fun _ => ?_
  refine unaware_bind (unaware_read fun _ => rfl) fun existing => unaware_ite ?_ (unaware_fail _)
  refine unaware_bind (hk.build .named ofClass init) fun v => ?_
  cases existing with
  | none => exact unaware_bind (unaware_onMemory _) fun _ => unaware_pure v
  | some b => exact unaware_bind (unaware_onMemory _) fun _ => unaware_pure v

theorem classLine (ofClass : Class Token) (rest : List Token) (init : Option String) (line : Nat) :
    (k.classLine ofClass rest init line).Unaware c e := by
  unfold Calls.classLine
  cases rest with
  | nil => exact unaware_fail _
  | cons name args =>
    refine unaware_ite (unaware_ite (hk.instantiate ofClass name.text init line) ?_) (unaware_fail _)
    cases Table.get? ofClass.methods name.text with
    | none => exact unaware_fail _
    | some f => exact unaware_ite (hk.callMethod f none args) (unaware_fail _)

theorem callBound (call : BoundCall) : (k.callBound call).Unaware c e := by
  unfold Calls.callBound
  refine unaware_bind (unaware_read fun _ => rfl) fun d => ?_
  cases d.classes.get? call.className with
  | none => exact unaware_fail _
  | some ofClass =>
    refine unaware_bind (methodOf ofClass call.method) fun method => ?_
    refine unaware_bind (hk.boundValues call.args) fun values => ?_
    exact unaware_bind (hk.newInstance .byWatch ofClass) fun r => hk.invoke method (some r) values

theorem hostValues (args : List String) : (k.hostValues args).Unaware c e := by
  induction args with
  | nil => exact unaware_pure []
  | cons a rest ih =>
    exact unaware_bind (hk.expression _ _) fun v => unaware_bind ih fun vs => unaware_pure _

theorem callHost (call : HostCall) : (k.callHost call).Unaware c e := by
  unfold Calls.callHost
  refine unaware_bind (resolveHost call) fun found => ?_
  refine unaware_bind (hk.hostValues found.args) fun values => ?_
  exact unaware_machine (fun _ => rfl) fun m => unaware_withFrame (runHost found.path values)

theorem resolveToken (t : Token) (requested : Option DataType) :
    (k.resolveToken t requested).Unaware c e := by
  unfold Calls.resolveToken
  split
  · exact hk.callBound _
  · exact hk.callHost _
  · exact unaware_pure _
  · refine unaware_bind (unaware_read fun _ => rfl) fun found => ?_
    cases found with
    | some b => exact hk.getValue b requested
    | none => exact unaware_pure _
  · exact unaware_pure _

theorem tokenTexts (tokens : List Token) : (k.tokenTexts tokens).Unaware c e := by
  induction tokens with
  | nil => exact unaware_pure []
  | cons t ts ih =>
    exact unaware_bind (hk.resolveToken t none) fun v => unaware_bind ih fun rest => unaware_pure _

theorem plain (tokens : List Token) (requested : Option DataType) :
    (k.plain tokens requested).Unaware c e := by
  unfold Calls.plain
  split
  · exact unaware_pure _
  · exact hk.resolveToken _ requested
  · exact unaware_bind (hk.tokenTexts _) fun _ => unaware_pure _

theorem evaluate (tokens : List Token) (requested : Option DataType) :
    (k.evaluate tokens requested).Unaware c e := by
  unfold Calls.evaluate
  cases tokens with
  | nil => exact unaware_pure _
  | cons first rest =>
    refine unaware_ite (unaware_machine (fun _ => rfl) fun m => ?_) (hk.plain _ requested)
    cases m.memory.get? first.text with
    | some b =>
      cases rest with
      | nil => exact hk.getValue b requested
      | cons next args =>
        dsimp only
        cases b.value.reference? with
        | none => exact hk.plain _ requested
        | some r =>
          dsimp only
          cases Table.get? r.ofClass.methods next.text with
          | some method => exact hk.callMethod method (some r) args
          | none => exact hk.plain _ requested
    | none =>
      dsimp only
      cases m.findMethod? first.text with
      | some found => exact hk.callMethod found.1 found.2 rest
      | none =>
        cases m.declared.classes.get? first.text with
        | some ofClass => exact hk.classLine ofClass rest _ m.line
        | none => exact hk.plain _ requested

theorem conditionFrom (before : Option Bool) (join : Option Join) (terms : List Term) :
    (k.conditionFrom before join terms).Unaware c e := by
  induction terms generalizing before join with
  | nil =>
    unfold Calls.conditionFrom
    cases before with
    | some b => exact unaware_pure b
    | none => exact unaware_fail _
  | cons t ts ih =>
    refine unaware_bind (hk.expression t.tokens none) fun v => ?_
    exact unaware_bind (unaware_ofExcept _) fun b => ih _ _

theorem condition (tokens : List Token) : (k.condition tokens).Unaware c e :=
  hk.conditionFrom none none (Term.split tokens)

theorem runBlock (body : List (Row Token)) : (k.runBlock body).Unaware c e :=
  unaware_withScope (hk.body body)

theorem loopCount (tokens : List Token) : (k.loopCount tokens).Unaware c e := by
  unfold Calls.loopCount
  cases countWord? tokens with
  | none => exact unaware_pure none
  | some name =>
    refine unaware_machine (fun _ => rfl) fun m => unaware_ite (unaware_pure none) ?_
    exact unaware_bind (hk.resolveToken _ none) fun v => unaware_ofExcept _

theorem countLoop (body : List (Row Token)) (passes : Nat) :
    Exec.Unaware c e (k.countLoop body passes) := by
  induction passes with
  | zero => exact fun m => .ok _ m
  | succ passes ih =>
    intro m
    have hb := hk.runBlock body m
    unfold Calls.countLoop
    generalize k.runBlock body m = o at hb
    generalize k.runBlock body (m.elsewhere c e) = o' at hb
    cases hb with
    | ok flow n =>
      cases flow with
      | normal v => exact ih n
      | return_ v => exact .ok _ n
      | break_ => exact .ok _ n
      | yieldBreak => exact .ok _ n
    | error y n => exact .error y n
    | outOfFuel n n' => exact .outOfFuel n n'

theorem whileLoop (tokens : List Token) (body : List (Row Token)) (fuel : Nat) :
    Exec.Unaware c e (k.whileLoop tokens body fuel) := by
  induction fuel with
  | zero => exact fun m => .outOfFuel m _
  | succ fuel ih =>
    intro m
    have hc := hk.condition tokens m
    unfold Calls.whileLoop
    generalize k.condition tokens m = o at hc
    generalize k.condition tokens (m.elsewhere c e) = o' at hc
    cases hc with
    | error y n => exact .error y n
    | outOfFuel n n' => exact .outOfFuel n n'
    | ok again n =>
      cases again with
      | false => exact .ok _ n
      | true =>
        have hb := hk.runBlock body n
        dsimp only
        generalize k.runBlock body n = o at hb
        generalize k.runBlock body (n.elsewhere c e) = o' at hb
        cases hb with
        | ok flow n =>
          cases flow with
          | normal v => exact ih n
          | return_ v => exact .ok _ n
          | break_ => exact .ok _ n
          | yieldBreak => exact .ok _ n
        | error y n => exact .error y n
        | outOfFuel n n' => exact .outOfFuel n n'

theorem runLoop (s : Statement Token) : (k.runLoop s).Unaware c e := by
  unfold Calls.runLoop
  cases s.condition with
  | none => exact unaware_fail _
  | some tokens =>
    refine unaware_bind (hk.loopCount tokens) fun count => ?_
    cases count with
    | some passes => exact hk.countLoop s.body passes
    | none => exact hk.whileLoop tokens s.body k.fuel

theorem declaredValue (name : String) (rest : List Token) :
    (k.declaredValue name rest).Unaware c e := by
  unfold Calls.declaredValue
  cases rest with
  | nil => exact unaware_pure _
  | cons arrow expression =>
    refine unaware_ite (unaware_bind (hk.expression expression none) fun v => ?_) (unaware_fail _)
    exact unaware_ite (unaware_fail _) (unaware_pure v)

theorem declareVariable (row : Row Token) : (k.declareVariable row).Unaware c e := by
  unfold Calls.declareVariable
  cases row.tokens.drop 1 with
  | nil => exact unaware_fail _
  | cons t rest =>
    refine unaware_ite (unaware_fail _) (unaware_machine (fun _ => rfl) fun m => ?_)
    refine unaware_bind (unaware_ofExcept _) fun _ => ?_
    refine unaware_bind (hk.declaredValue t.text rest) fun v => ?_
    exact unaware_bind (unaware_onMemory _) fun _ => unaware_pure v

theorem variableLine (b : Binding) (rest : List Token) : (k.variableLine b rest).Unaware c e := by
  unfold Calls.variableLine
  cases rest with
  | nil => exact hk.getValue b none
  | cons t args =>
    refine unaware_ite ?_ ?_
    · refine unaware_bind (hk.expression args _) fun v => ?_
      refine unaware_bind (unaware_read fun _ => rfl) fun d => ?_
      refine unaware_bind (unaware_ofExcept _) fun u => ?_
      exact unaware_bind (unaware_onMemory _) fun _ => unaware_pure u
    · cases b.value.reference? with
      | none => exact unaware_fail _
      | some r =>
        dsimp only
        cases Table.get? r.ofClass.methods t.text with
        | none => exact unaware_fail _
        | some method => exact hk.callMethod method (some r) args

theorem identifierLine (name : String) (rest : List Token) (line : Line) :
    (k.identifierLine name rest line).Unaware c e := by
  unfold Calls.identifierLine
  refine unaware_machine (fun _ => rfl) fun m => ?_
  cases m.memory.get? name with
  | some b => exact hk.variableLine b rest
  | none =>
    cases m.findMethod? name with
    | some found => exact hk.callMethod found.1 found.2 rest
    | none =>
      cases m.declared.classes.get? name with
      | some ofClass => exact hk.classLine ofClass rest _ line.number
      | none => exact unaware_fail _

end expressions

section lines

variable (hk : k.Unaware id e)
include hk

theorem branch (s : Statement Token) : (k.branch s).Unaware id e := by
  unfold Calls.branch
  cases s.condition with
  | none => exact unaware_fail _
  | some tokens =>
    refine unaware_bind (hk.condition tokens) fun taken => ?_
    refine unaware_bind (unaware_update fun _ => rfl) fun _ => ?_
    exact unaware_ite (hk.runBlock s.body) (unaware_pure _)

theorem attempt (body : List (Row Token)) : (k.attempt body).Unaware id e := by
  unfold Calls.attempt
  refine unaware_bind (unaware_update fun _ => rfl) fun _ m => ?_
  have hb := hk.runBlock body m
  dsimp only
  generalize k.runBlock body m = o at hb
  generalize k.runBlock body (m.elsewhere id e) = o' at hb
  cases hb with
  | ok flow n => exact .ok flow n
  | error y n =>
    exact .ok _ { n with failure := none, chain := { n.chain with pending := some y.message } }
  | outOfFuel n n' => exact .outOfFuel n n'

theorem rescue (s : Statement Token) : (k.rescue s).Unaware id e := by
  unfold Calls.rescue
  refine unaware_bind (unaware_read fun _ => rfl) fun chain => ?_
  cases chain.pending with
  | none => exact unaware_pure _
  | some message =>
    refine unaware_bind (unaware_update fun _ => rfl) fun _ => unaware_withScope ?_
    exact unaware_bind (unaware_update fun _ => rfl) fun _ => hk.body s.body

theorem runStatement (s : Statement Token) : (k.runStatement s).Unaware id e := by
  unfold Calls.runStatement
  cases s.kind with
  | cond => exact hk.branch s
  | elseCond =>
    refine unaware_bind (unaware_read fun _ => rfl) fun chain => ?_
    exact unaware_ite (unaware_pure _) (hk.branch s)
  | otherwise =>
    refine unaware_bind (unaware_read fun _ => rfl) fun chain => ?_
    refine unaware_bind (unaware_update fun _ => rfl) fun _ => ?_
    exact unaware_ite (unaware_pure _) (hk.runBlock s.body)
  | loop => exact hk.runLoop s
  | attempt => exact hk.attempt s.body
  | rescue => exact hk.rescue s

theorem dispatch (row : Row Token) : (k.dispatch row).Unaware id e := by
  unfold Calls.dispatch
  generalize row.tokens = tokens
  split
  · exact unaware_pure _
  · exact hk.runStatement _
  · exact unaware_pure _
  · exact unaware_pure _
  · exact unaware_pure _
  · next first rest _ _ _ _ =>
    generalize first.kind = kind
    split
    · exact unaware_pure _
    · exact unaware_pure _
    · exact unaware_pure _
    · exact unaware_bind (hk.declareVariable row) fun _ => unaware_pure _
    · exact unaware_bind (hk.expression rest none) fun _ => unaware_pure _
    · exact unaware_ite (unaware_pure _) (unaware_fail _)
    · exact unaware_ite (unaware_pure _) (unaware_fail _)
    · exact unaware_bind (hk.identifierLine _ rest row.line) fun _ => unaware_pure _
    · exact unaware_bind (hk.expression _ none) fun _ => unaware_pure _
    · exact unaware_bind (hk.expression _ none) fun _ => unaware_pure _
    · exact unaware_fail _

theorem runLine (row : Row Token) : (k.runLine row).Unaware id e := by
  unfold Calls.runLine
  refine unaware_wrapping (unaware_atLine ?_)
  exact unaware_bind (unaware_read fun _ => rfl) fun config => unaware_withFrame (hk.dispatch row)

theorem runRows (last : Value) (yielded : Bool) (rows : List (Row Token)) :
    Exec.Unaware id e (k.runRows last yielded rows) := by
  induction rows generalizing last yielded with
  | nil => exact fun m => .ok _ m
  | cons row rows ih =>
    intro m
    have hl := hk.runLine row m
    unfold Calls.runRows
    generalize k.runLine row m = o at hl
    generalize k.runLine row (m.elsewhere id e) = o' at hl
    cases hl with
    | ok flow n =>
      cases flow with
      | normal v => exact ih v yielded n
      | return_ v => exact .ok _ n
      | break_ => exact .ok _ n
      | yieldBreak => exact ih last true n
    | error y n => exact .error y n
    | outOfFuel n n' => exact .outOfFuel n n'

end lines

theorem runBody (hk : k.Unaware id e) (rows : List (Row Token)) : (k.runBody rows).Unaware c e :=
  unaware_withFreshChain (hk.runRows .empty false rows)

end Calls.Unaware

/-- The actions are unaware however deep they may be nested. -/
theorem Calls.unaware_upTo (fuel : Nat) (c : Chain → Chain) (e : Array Reported → Array Reported) :
    (Calls.upTo fuel).Unaware c e := by
  induction fuel generalizing c with
  | zero =>
    exact ⟨fun _ _ m => .outOfFuel m _, fun _ m => .outOfFuel m _, fun _ _ m => .outOfFuel m _⟩
  | succ fuel ih =>
    exact ⟨fun tokens requested => (ih c).evaluate tokens requested, fun rows => (ih id).runBody rows,
      fun ofClass init => (ih c).build .byDefault ofClass init⟩

end LineScript
