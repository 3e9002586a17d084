import LineScript.Proofs.Machine.Calls
import LineScript.Proofs.Machine.Steps
set_option autoImplicit false

/-!
Calls and expressions go step by step, and what they give is of a known class: one lemma for each action,
over actions that do. Every class that is declared is known.
-/

namespace LineScript

open Exec

variable {d : Declarations} {Known : Class Token → Prop}

theorem Machine.Has.findMethod? {m : Machine} (hm : m.Has d Known) {name : String}
    {f : Method Token} {self : Option Reference} (h : m.findMethod? name = some (f, self)) :
    d.Callable Known f ∧ ∀ r, self = some r → Known r.ofClass := by
  have hglobal (h : (m.declared.methods.get? name).map (fun f => (f, none)) = some (f, self)) :
      d.Callable Known f ∧ ∀ r, self = some r → Known r.ofClass := by
    obtain ⟨g, hg, he⟩ := Option.map_eq_some_iff.1 h
    cases he
    exact ⟨.global (hm.declared ▸ hg), by simp⟩
  unfold Machine.findMethod? at h
  dsimp only at h
  cases hi : m.memory.currentInstance? with
  | none =>
    rw [hi] at h
    exact hglobal h
  | some r =>
    have hr : Known r.ofClass := (hm.memory.currentInstance? hi).reference rfl
    rw [hi] at h
    dsimp only at h
    cases hf : Table.get? r.ofClass.methods name with
    | none =>
      rw [hf] at h
      exact hglobal h
    | some g =>
      rw [hf] at h
      cases h
      exact ⟨.ofClass hr hf, fun q hq => Option.some.inj hq ▸ hr⟩

/-- How a line or body is left carries an instance of a known class, if any. -/
abbrev Flow.Of (Known : Class Token → Prop) (flow : Flow) : Prop := flow.value.Of Known

/-- The actions that lead back into themselves go step by step. -/
structure Calls.Stepwise (d : Declarations) (Known : Class Token → Prop) (k : Calls) : Prop where
  expression : ∀ tokens requested m, m.Has d Known →
    (k.expression tokens requested m).Goes d Known m (Value.Of Known)
  body : ∀ rows m, m.Has d Known → (k.body rows m).Goes d Known m (Flow.Of Known)
  construct : ∀ c init m, m.Has d Known → Known c →
    (k.construct c init m).Goes d Known m (Value.Of Known)

namespace Calls.Stepwise

variable {k : Calls} {m : Machine} (hk : k.Stepwise d Known) (hm : m.Has d Known)
include hk hm

theorem methodBody {method : Method Token} {values : List Value} {bs : List Binding}
    (hf : d.Callable Known method) (hn : checkCount method values.length = .ok ())
    (hv : ∀ v ∈ values, v.Of Known) (hb : bindParams d method method.params values = .ok bs) :
    (k.methodBody ⟨method, values, bs⟩ m).Goes d Known m (Flow.Of Known) := by
  unfold Calls.methodBody
  refine goes_withScope hm (by simp) fun hm => ?_
  have hstep := Step.params (d := d) (m := m.onMemory fun s => s.push .call) rfl hf hn hb hv
  exact goes_update_bind hstep (hk.body method.body _ (hstep.has hm))

theorem invoke {method : Method Token} {self : Option Reference} {values : List Value}
    (hf : d.Callable Known method) (hself : ∀ r, self = some r → Known r.ofClass)
    (hv : ∀ v ∈ values, v.Of Known) :
    (k.invoke method self values m).Goes d Known m (Value.Of Known) := by
  unfold Calls.invoke
  refine goes_ofExcept_bind fun _ hn => goes_read_bind (goes_ofExcept_bind fun bs hb => goes_read_bind ?_)
  rw [hm.declared] at hb
  refine goes_bind (Q := Flow.Of Known) hm (goes_withFrame hm fun stack hm => ?_)
    fun flow m' _ hflow => goes_ofExcept fun v h => hflow.stems (stems_of_returned h)
  cases self with
  | none => exact hk.methodBody hm hf hn hv hb
  | some r =>
    refine goes_withScope hm ?_ fun hm => hk.methodBody hm hf hn hv hb
    rintro q ⟨⟩
    exact hself r rfl

theorem convert {r : Reference} (hr : Known r.ofClass) (target : DataType) :
    (k.convert r target m).Goes d Known m (Value.Of Known) := by
  unfold Calls.convert
  cases hc : r.ofClass.converter? target with
  | none => exact goes_fail _
  | some c =>
    have hcallable : d.Callable Known c.method := .converter hr (List.mem_of_find?_eq_some hc)
    refine goes_bind hm (hk.invoke hm hcallable (fun q hq => Option.some.inj hq ▸ hr) (by simp))
      fun v m' _ hv => ?_
    split
    · exact goes_ofExcept fun w h => hv.stems (Value.stems_of_coerce h)
    · exact goes_pure hv

theorem getValue {b : Binding} (hb : b.value.Of Known) (requested : Option DataType) :
    (k.getValue b requested m).Goes d Known m (Value.Of Known) := by
  unfold Calls.getValue
  cases hr : b.value.reference? with
  | none => exact goes_pure hb
  | some r =>
    refine goes_machine_bind (goes_ite (fun _ => goes_pure hb) fun _ => ?_)
    cases r.ofClass.primitiveTag? with
    | some t =>
      have hv := hm.memory.primitiveValue (Value.of_plain rfl) r
      refine goes_ofExcept_bind fun v h => goes_ofExcept fun w h' => ?_
      exact (hv.stems (Value.stems_of_coerce h)).stems (stems_of_coerceTo h')
    | none =>
      cases requested.bind DataType.typed? with
      | none => exact goes_pure hb
      | some target => exact hk.convert hm (hb.reference hr) target

theorem argumentValues (args : List (List Token × Variable)) :
    (k.argumentValues args m).Goes d Known m fun vs => ∀ v ∈ vs, v.Of Known := by
  induction args generalizing m with
  | nil => exact goes_pure (by simp)
  | cons arg rest ih =>
    obtain ⟨tokens, param⟩ := arg
    refine goes_bind hm (hk.expression tokens _ m hm) fun v m' hm' hv => ?_
    refine goes_bind hm' (ih hm') fun vs m'' _ hvs => goes_pure ?_
    exact List.forall_mem_cons.2 ⟨hv, hvs⟩

theorem callWith {method : Method Token} {self : Option Reference} (hf : d.Callable Known method)
    (hself : ∀ r, self = some r → Known r.ofClass) (tokens : List Token) :
    (k.callWith method self tokens m).Goes d Known m (Value.Of Known) := by
  unfold Calls.callWith
  refine goes_ofExcept_bind fun _ _ => ?_
  exact goes_bind hm (hk.argumentValues hm _) fun values m' hm' hv => hk.invoke hm' hf hself hv

theorem callMethod {method : Method Token} {self : Option Reference} (hf : d.Callable Known method)
    (hself : ∀ r, self = some r → Known r.ofClass) (tokens : List Token) :
    (k.callMethod method self tokens m).Goes d Known m (Value.Of Known) := by
  unfold Calls.callMethod
  cases tokens with
  | nil => exact hk.callWith hm hf hself []
  | cons t rest =>
    refine goes_ite (fun _ => hk.callWith hm hf hself rest) fun _ => ?_
    exact goes_ite (fun _ => hk.callWith hm hf hself (t :: rest)) fun _ => goes_fail _

theorem boundValue (a : BoundArg) : (k.boundValue a m).Goes d Known m (Value.Of Known) := by
  unfold Calls.boundValue
  refine goes_read_bind ?_
  cases hb : m.memory.get? a.text with
  | some b => exact hk.getValue hm (hm.memory.get? hb) _
  | none => exact goes_pure (Value.of_plain rfl)

theorem boundValues (args : List BoundArg) :
    (k.boundValues args m).Goes d Known m fun vs => ∀ v ∈ vs, v.Of Known := by
  induction args generalizing m with
  | nil => exact goes_pure (by simp)
  | cons a rest ih =>
    refine goes_bind hm (hk.boundValue hm a) fun v m' hm' hv => ?_
    refine goes_bind hm' (ih hm') fun vs m'' _ hvs => goes_pure ?_
    exact List.forall_mem_cons.2 ⟨hv, hvs⟩

omit hk in
theorem methodOf {c : Class Token} (hc : Known c) (name : String) :
    (Calls.methodOf c name m).Goes d Known m (d.Callable Known) := by
  unfold Calls.methodOf
  refine goes_machine_bind ?_
  cases hf : Table.get? c.methods name with
  | some f => exact goes_pure (.ofClass hc hf)
  | none =>
    cases hg : m.declared.methods.get? name with
    | some f => simpa [hg] using goes_pure (m := m) (.global (hm.declared ▸ hg))
    | none => simpa [hg] using goes_fail (m := m) (.missingMethod c.name name)

theorem evaluated (type : DataType) (text : String) :
    (propertyDefault.evaluated k type text m).Goes d Known m (Value.Of Known) := by
  unfold propertyDefault.evaluated
  refine goes_bind hm (hk.expression _ _ m hm) fun v m' _ hv => goes_read_bind ?_
  exact goes_ofExcept fun w h => hv.stems (Declarations.stems_of_conform h)

theorem assignEntry (r : Reference) (entry : List Char) :
    (k.assignEntry r entry m).Goes d Known m Anything := by
  unfold Calls.assignEntry
  cases Text.cut [':'] entry with
  | none => exact goes_fail _
  | some p =>
    refine goes_machine_bind ?_
    cases Bindings.get? (m.memory.properties r) (String.ofList (Text.trim p.1)) with
    | none => exact goes_fail _
    | some b =>
      refine goes_bind hm (hk.expression _ _ m hm) fun v m' _ hv => goes_read_bind ?_
      refine goes_ofExcept_bind fun w h => ?_
      exact ⟨.single (.property r _ (hv.stems (Declarations.stems_of_conform h))), trivial⟩

theorem assignEntries (r : Reference) (entries : List (List Char)) :
    (k.assignEntries r entries m).Goes d Known m Anything := by
  induction entries generalizing m with
  | nil => exact goes_pure trivial
  | cons e es ih => exact goes_bind hm (hk.assignEntry hm r e) fun _ m' hm' _ => ih hm'

theorem initialise {c : Class Token} {r : Reference} (hc : Known c) (hr : r.ofClass = c) (init : String) :
    (k.initialise c r init m).Goes d Known m Anything := by
  unfold Calls.initialise
  refine goes_read_bind ?_
  cases c.params.bind fun rule => _ with
  | some found =>
    refine goes_bind hm (methodOf hm hc _) fun method m₁ hm₁ hf => ?_
    refine goes_bind hm₁ (hk.boundValues hm₁ _) fun values m₂ hm₂ hv => ?_
    have hself : ∀ q, some r = some q → Known q.ofClass := fun q hq => Option.some.inj hq ▸ hr ▸ hc
    exact goes_bind hm₂ (hk.invoke hm₂ hf hself hv) fun _ _ _ _ => goes_pure trivial
  | none => exact goes_ite (fun _ => goes_fail _) fun _ => hk.assignEntries hm r _

omit hk hm in
theorem resolveHost (call : HostCall) : (Calls.resolveHost call m).Goes d Known m Anything := by
  unfold Calls.resolveHost
  refine goes_ite (fun _ => goes_read_bind ?_) fun _ => goes_pure trivial
  cases m.memory.get? call.variableName with
  | none => exact goes_fail _
  | some b =>
    dsimp only
    cases HostCall.ofText? b.value.toText with
    | none => exact goes_fail _
    | some found => exact goes_ite (fun _ => goes_fail _) fun _ => goes_pure trivial

theorem hostValues (args : List String) :
    (k.hostValues args m).Goes d Known m fun vs => ∀ v ∈ vs, v.Of Known := by
  induction args generalizing m with
  | nil => exact goes_pure (by simp)
  | cons a rest ih =>
    refine goes_bind hm (hk.expression _ _ m hm) fun v m' hm' hv => ?_
    refine goes_bind hm' (ih hm') fun vs m'' _ hvs => goes_pure ?_
    exact List.forall_mem_cons.2 ⟨hv, hvs⟩

omit hk in
theorem runHost (path : String) {values : List Value} (hv : ∀ v ∈ values, v.Of Known) :
    (Calls.runHost path values m).Goes d Known m (Value.Of Known) := by
  unfold Calls.runHost
  dsimp only
  refine .after (.single (.write m (m.host.call path values).1)) ?_
  cases hr : (m.host.call path values).2 with
  | ok v => exact ⟨.refl, hm.host path values v hv hr⟩
  | error e => exact .single (.raise _ _)

theorem callHost (call : HostCall) : (k.callHost call m).Goes d Known m (Value.Of Known) := by
  unfold Calls.callHost
  refine goes_bind hm (resolveHost call) fun found m₁ hm₁ _ => ?_
  refine goes_bind hm₁ (hk.hostValues hm₁ found.args) fun values m₂ hm₂ hv => goes_machine_bind ?_
  exact goes_withFrame hm₂ fun _ hm => runHost hm _ hv

section Declared

variable (hd : ∀ c, d.Declares c → Known c)
include hd

theorem propertyDefault (type : DataType) (text : String) :
    (k.propertyDefault type text m).Goes d Known m (Value.Of Known) := by
  unfold Calls.propertyDefault
  refine goes_machine_bind ?_
  cases hc : type.className?.bind m.declared.classes.get? with
  | none => exact hk.evaluated hm type text
  | some c =>
    obtain ⟨name, -, hc⟩ := Option.bind_eq_some_iff.1 hc
    have hknown : Known c := hd c ⟨name, hm.declared ▸ hc⟩
    exact goes_ite (fun _ => hk.construct c (some text) m hm hknown) fun _ => hk.evaluated hm type text

theorem initialValue (p : Variable) : (k.initialValue p m).Goes d Known m (Value.Of Known) := by
  unfold Calls.initialValue
  cases p.default with
  | some text => exact hk.propertyDefault hm hd p.type text
  | none => exact goes_pure (Value.of_plain rfl)

theorem initialProperties (vars : List Variable) :
    (k.initialProperties vars m).Goes d Known m fun bs => ∀ b ∈ bs, b.value.Of Known := by
  induction vars generalizing m with
  | nil => exact goes_pure (by simp)
  | cons p ps ih =>
    refine goes_bind hm (hk.initialValue hm hd p) fun v m' hm' hv => ?_
    refine goes_bind hm' (ih hm') fun rest m'' _ hrest => goes_pure ?_
    exact List.forall_mem_cons.2 ⟨hv, hrest⟩

theorem newInstance (route : Route) {c : Class Token} (hc : Known c) :
    (k.newInstance route c m).Goes d Known m fun r => r.ofClass = c := by
  unfold Calls.newInstance
  refine goes_bind hm (hk.initialProperties hm hd c.properties) fun bs m' _ hbs => ?_
  exact ⟨.single (.allocate route hc hbs), rfl⟩

theorem build (route : Route) {c : Class Token} (hc : Known c) (init : Option String) :
    (k.build route c init m).Goes d Known m (Value.Of Known) := by
  unfold Calls.build
  refine goes_bind hm (hk.newInstance hm hd route hc) fun r m' hm' hr => ?_
  have hv : (Value.instance r).Of Known := Value.of_instance (hr ▸ hc)
  refine goes_ite (fun _ => goes_pure hv) fun _ => ?_
  exact goes_bind hm' (hk.initialise hm' hc hr _) fun _ _ _ _ => goes_pure hv

theorem instantiate {c : Class Token} (hc : Known c) (name : String) (init : Option String) (line : Nat) :
    (k.instantiate c name init line m).Goes d Known m (Value.Of Known) := by
  unfold Calls.instantiate
  refine goes_machine_bind (goes_ofExcept_bind fun _ hfree => ?_)
  have hfree : d.Free name := hm.declared ▸ Machine.free_of_checkNameFree hfree
  refine goes_ite (fun _ => goes_fail _) fun _ => ?_
  refine goes_ofExcept_bind fun _ _ => goes_read_bind ?_
  refine goes_ite (fun _ => ?_) fun _ => goes_fail _
  refine goes_bind hm (hk.build hm hd .named hc init) fun v m' hm' hv => ?_
  cases m.memory.get? name with
  | none =>
    refine goes_bind hm' (goes_onMemory fun s hs => ?_) fun _ _ _ _ => goes_pure hv
    exact .declare hfree hv hs
  | some b =>
    refine goes_bind hm' (goes_onMemory fun s hs => ?_) fun _ _ _ _ => goes_pure hv
    exact .assign hv hs

theorem classLine {c : Class Token} (hc : Known c) (rest : List Token) (init : Option String)
    (line : Nat) : (k.classLine c rest init line m).Goes d Known m (Value.Of Known) := by
  unfold Calls.classLine
  cases rest with
  | nil => exact goes_fail _
  | cons name args =>
    refine goes_ite (fun _ => ?_) fun _ => goes_fail _
    refine goes_ite (fun _ => hk.instantiate hm hd hc name.text init line) fun _ => ?_
    cases hf : Table.get? c.methods name.text with
    | none => exact goes_fail _
    | some f =>
      exact goes_ite (fun _ => hk.callMethod hm (.ofClass hc hf) (by simp) args) fun _ => goes_fail _

theorem callBound (call : BoundCall) : (k.callBound call m).Goes d Known m (Value.Of Known) := by
  unfold Calls.callBound
  refine goes_read_bind ?_
  cases hc : m.declared.classes.get? call.className with
  | none => exact goes_fail _
  | some c =>
    have hknown : Known c := hd c ⟨call.className, hm.declared ▸ hc⟩
    refine goes_bind hm (methodOf hm hknown call.method) fun method m₁ hm₁ hf => ?_
    refine goes_bind hm₁ (hk.boundValues hm₁ call.args) fun values m₂ hm₂ hv => ?_
    refine goes_bind hm₂ (hk.newInstance hm₂ hd .byWatch hknown) fun r m₃ hm₃ hr => ?_
    exact hk.invoke hm₃ hf (fun q hq => Option.some.inj hq ▸ hr ▸ hknown) hv

theorem resolveToken (t : Token) (requested : Option DataType) :
    (k.resolveToken t requested m).Goes d Known m (Value.Of Known) := by
  unfold Calls.resolveToken
  split
  · exact hk.callBound hm hd _
  · exact hk.callHost hm _
  · exact goes_pure (Value.of_plain rfl)
  · next name =>
    refine goes_read_bind ?_
    cases hb : m.memory.get? name with
    | some b => exact hk.getValue hm (hm.memory.get? hb) requested
    | none => exact goes_pure (Value.of_plain rfl)
  · exact goes_pure (Value.of_plain rfl)

theorem tokenTexts (tokens : List Token) : (k.tokenTexts tokens m).Goes d Known m Anything := by
  induction tokens generalizing m with
  | nil => exact goes_pure trivial
  | cons t ts ih =>
    refine goes_bind hm (hk.resolveToken hm hd t none) fun v m' hm' _ => ?_
    exact goes_bind hm' (ih hm') fun _ _ _ _ => goes_pure trivial

theorem plain (tokens : List Token) (requested : Option DataType) :
    (k.plain tokens requested m).Goes d Known m (Value.Of Known) := by
  unfold Calls.plain
  split
  · exact goes_pure (Value.of_plain rfl)
  · exact hk.resolveToken hm hd _ requested
  · exact goes_bind hm (hk.tokenTexts hm hd _) fun _ _ _ _ => goes_pure (Value.of_plain rfl)

theorem evaluate (tokens : List Token) (requested : Option DataType) :
    (k.evaluate tokens requested m).Goes d Known m (Value.Of Known) := by
  unfold Calls.evaluate
  cases tokens with
  | nil => exact goes_pure (Value.of_plain rfl)
  | cons first rest =>
    refine goes_ite (fun _ => goes_machine_bind ?_) fun _ => hk.plain hm hd _ requested
    cases hb : m.memory.get? first.text with
    | some b =>
      cases rest with
      | nil => exact hk.getValue hm (hm.memory.get? hb) requested
      | cons next args =>
        dsimp only
        cases hr : b.value.reference? with
        | none => exact hk.plain hm hd _ requested
        | some r =>
          have hknown : Known r.ofClass := (hm.memory.get? hb).reference hr
          dsimp only
          cases hf : Table.get? r.ofClass.methods next.text with
          | some method =>
            exact hk.callMethod hm (.ofClass hknown hf) (fun q hq => Option.some.inj hq ▸ hknown) args
          | none => exact hk.plain hm hd _ requested
    | none =>
      cases hf : m.findMethod? first.text with
      | some found =>
        obtain ⟨hcallable, hself⟩ := hm.findMethod? hf
        exact hk.callMethod hm hcallable hself rest
      | none =>
        cases hc : m.declared.classes.get? first.text with
        | some c => exact hk.classLine hm hd (hd c ⟨first.text, hm.declared ▸ hc⟩) rest _ m.line
        | none => exact hk.plain hm hd _ requested

end Declared

end Calls.Stepwise

end LineScript
