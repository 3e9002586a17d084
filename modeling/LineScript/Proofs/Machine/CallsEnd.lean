import LineScript.Machine.Line
import LineScript.Proofs.Machine.Ends
import LineScript.Proofs.Token.Relexed
set_option autoImplicit false

/-!
Calls and expressions end, one lemma for each action, if method bodies end where fewer methods can still
be called. A text that is lexed while the program runs ends because each initialiser in it has a colon
less; a new instance ends because its defaults need only classes that do not need its own.
-/

namespace LineScript

open Exec Lexer

/-- The value is no instance of a class with a loop in it. -/
abbrev LoopFreeValue (v : Value) : Prop := v.loopFree = true

def Flow.LoopFree (flow : Flow) : Prop := flow.value.loopFree = true

theorem Token.sublist_of_mem_arguments {tokens group : List Token} (h : group ∈ arguments tokens) :
    group.Sublist tokens := by
  have hgroups (ts : List Token) : ∀ g ∈ commaGroups ts, g.Sublist ts := by
    induction ts with
    | nil => simp [commaGroups]
    | cons t r ih =>
      rw [commaGroups]
      split
      · simp
      · next g gs hr =>
        rw [hr] at ih
        obtain ⟨hg, hgs⟩ := List.forall_mem_cons.1 ih
        have hlater : ∀ x ∈ gs, x.Sublist (t :: r) := fun x hx => (hgs x hx).cons t
        split
        · exact List.forall_mem_cons.2 ⟨by simp, List.forall_mem_cons.2 ⟨hg.cons t, hlater⟩⟩
        · exact List.forall_mem_cons.2 ⟨hg.cons_cons t, hlater⟩
  unfold arguments at h
  split at h
  · cases h
  · exact hgroups tokens group h

/-- A method frame takes one of the calls that are left. -/
theorem Machine.Ready.pushMethod {d : Declarations} {depth : Nat} {m : Machine} (hm : m.Ready d depth)
    {f : CallFrame} (hf : f.kind = .method) {stack : CallStack} (hs : m.stack.push f = .ok stack) :
    ∃ k < depth, Machine.Ready d k { m with stack } := by
  unfold CallStack.push at hs
  rw [if_pos hf] at hs
  split at hs
  · cases hs
  · next hfull =>
    obtain rfl := Except.ok.inj hs
    have hroom := hm.room
    refine ⟨depth - 1, by omega, { hm with room := ?_ }⟩
    dsimp only
    omega

theorem Machine.Ready.pushOther {d : Declarations} {depth : Nat} {m : Machine} (hm : m.Ready d depth)
    {f : CallFrame} (hf : f.kind ≠ .method) {stack : CallStack} (hs : m.stack.push f = .ok stack) :
    Machine.Ready d depth { m with stack } := by
  unfold CallStack.push at hs
  rw [if_neg hf] at hs
  obtain rfl := Except.ok.inj hs
  exact { hm with }

/-- Bodies end wherever fewer than `depth` methods can still be called. -/
structure BodiesEnd (d : Declarations) (depth : Nat) : Prop where
  loopFree : d.loopFree = true
  body : ∀ k < depth, ∀ rows m, loopFreeBody rows = true → Machine.Ready d k m →
    Ends m Flow.LoopFree fun n => (Calls.upTo n).body rows m

namespace BodiesEnd

variable {d : Declarations} {depth : Nat} (hk : BodiesEnd d depth) {m : Machine}

section Methods

variable (hm : m.Ready d depth)
include hk hm

omit hm in
theorem methodBody {k : Nat} (hlt : k < depth) (hm : m.Ready d k) {entry : Entry}
    (hf : loopFreeBody entry.method.body = true) (hbs : ∀ b ∈ entry.bindings, b.value.loopFree = true) :
    Ends m Flow.LoopFree fun n => (Calls.upTo n).methodBody entry m := by
  unfold Calls.methodBody
  refine ends_withScope (ends_update_bind ?_)
  have hpush : (m.onMemory fun s => s.push .call).Ready d k := hm.setMemory (hm.memory.push nofun)
  have hbind := hpush.memory.foldl_bind hbs
  let m' := m.onMemory fun s => s.push .call
  have hkeep : m'.Keeps (m'.enter entry) := { hpush.keeps.setMemory hbind with }
  exact .after hkeep (hk.body k hlt entry.method.body _ hf (hkeep.ready hpush))

theorem invoke {method : Method Token} (hf : loopFreeBody method.body = true)
    {self : Option Reference} (hself : ∀ r, self = some r → r.ofClass.loopFree = true)
    {values : List Value} (hv : ∀ v ∈ values, v.loopFree = true) :
    Ends m LoopFreeValue fun n => (Calls.upTo n).invoke method self values m := by
  unfold Calls.invoke
  refine ends_ofExcept_bind hm.keeps fun _ _ => ends_read_bind ?_
  refine ends_ofExcept_bind hm.keeps fun bs hbs => ends_read_bind ?_
  have hbs := Calls.loopFree_bindParams hv hbs
  refine ends_bind (Q := Flow.LoopFree) (ends_withFrame hm.memory fun stack hs => ?_)
    fun flow m' hkeep hflow => ends_ofExcept hkeep fun w hw =>
      Value.loopFree_of_stems hflow (Calls.stems_of_returned hw)
  obtain ⟨k, hlt, hm⟩ := hm.pushMethod rfl hs
  cases self with
  | none => exact hk.methodBody hlt hm hf hbs
  | some r =>
    have hr : ∀ q, FrameKind.ofInstance r = .ofInstance q → q.ofClass.loopFree = true := by
      rintro q ⟨⟩
      exact hself r rfl
    exact ends_withScope (hk.methodBody hlt (hm.setMemory (hm.memory.push hr)) hf hbs)

theorem convert {r : Reference} (hr : r.ofClass.loopFree = true) (target : DataType) :
    Ends m LoopFreeValue fun n => (Calls.upTo n).convert r target m := by
  unfold Calls.convert
  cases hc : r.ofClass.converter? target with
  | none => exact ends_fail hm.keeps
  | some c =>
    have hf := Class.loopFree_converter hr hc
    refine ends_bind (hk.invoke hm hf (by rintro _ ⟨⟩; exact hr) (by simp)) fun v m' hkeep hv => ?_
    cases target with
    | plain t => exact ends_ofExcept hkeep fun w hw => Value.loopFree_of_stems hv (Value.stems_of_coerce hw)
    | ofClass tag name => exact ends_pure hkeep hv
    | ofContainer name => exact ends_pure hkeep hv

theorem getValue {b : Binding} (hb : b.value.loopFree = true) (requested : Option DataType) :
    Ends m LoopFreeValue fun n => (Calls.upTo n).getValue b requested m := by
  unfold Calls.getValue
  cases hr : b.value.reference? with
  | none => exact ends_pure hm.keeps hb
  | some r =>
    have hloop : r.ofClass.loopFree = true := by simpa [Value.loopFree,hr] using hb
    refine ends_machine_bind (ends_ite (fun _ => ends_pure hm.keeps hb) fun _ => ?_)
    cases r.ofClass.primitiveTag? with
    | some t =>
      refine ends_ofExcept_bind hm.keeps fun v hv => ends_ofExcept hm.keeps fun w hw => ?_
      have hv := Value.loopFree_of_stems (hm.memory.primitiveValue rfl r) (Value.stems_of_coerce hv)
      exact Value.loopFree_of_stems hv (Calls.stems_of_coerceTo hw)
    | none =>
      cases requested.bind DataType.typed? with
      | none => exact ends_pure hm.keeps hb
      | some target => exact hk.convert hm hloop target

theorem boundValue (a : BoundArg) :
    Ends m LoopFreeValue fun n => (Calls.upTo n).boundValue a m := by
  unfold Calls.boundValue
  refine ends_read_bind ?_
  cases hb : m.memory.get? a.text with
  | some b => exact hk.getValue hm (hm.memory.get? hb) _
  | none => exact ends_pure hm.keeps rfl

omit hm in
theorem boundValues (args : List BoundArg) (hm : m.Ready d depth) :
    Ends m (fun vs => ∀ v ∈ vs, v.loopFree = true) fun n => (Calls.upTo n).boundValues args m := by
  induction args generalizing m with
  | nil => exact ends_pure hm.keeps (by simp)
  | cons a rest ih =>
    refine ends_bind (hk.boundValue hm a) fun v m' hkeep hv => ?_
    refine ends_bind (.after hkeep (ih (hkeep.ready hm))) fun vs m'' hkeep' hvs => ?_
    exact ends_pure hkeep' (List.forall_mem_cons.2 ⟨hv, hvs⟩)

end Methods

end BodiesEnd

/-- Evaluating the tokens ends wherever at most `depth` methods can still be called. -/
def ExpressionEnds (d : Declarations) (depth : Nat) (tokens : List Token) : Prop :=
  ∀ requested m, Machine.Ready d depth m →
    Ends m LoopFreeValue fun n => (Calls.upTo n).expression tokens requested m

def TokenEnds (d : Declarations) (depth : Nat) (t : Token) : Prop :=
  ∀ requested m, Machine.Ready d depth m →
    Ends m LoopFreeValue fun n => (Calls.upTo n).resolveToken t requested m

/-- Whatever is cut out of the text and evaluated ends. -/
def TextEnds (d : Declarations) (depth : Nat) (text : List Char) : Prop :=
  ∀ value, Stands value text → ExpressionEnds d depth (Token.codeOfText (String.ofList value))

/-- Making an instance of the class ends. -/
def InstanceEnds (d : Declarations) (depth : Nat) (c : Class Token) : Prop :=
  ∀ route m, Machine.Ready d depth m →
    Ends m (fun r => r.ofClass = c) fun n => (Calls.upTo n).newInstance route c m

namespace BodiesEnd

variable {d : Declarations} {depth : Nat} (hk : BodiesEnd d depth) {m : Machine}

section Calls

variable (hm : m.Ready d depth)
include hk hm

omit hk hm in
theorem argumentValues {args : List (List Token × Variable)}
    (hargs : ∀ a ∈ args, ExpressionEnds d depth a.1) (hm : m.Ready d depth) :
    Ends m (fun vs => ∀ v ∈ vs, v.loopFree = true)
      fun n => (Calls.upTo n).argumentValues args m := by
  induction args generalizing m with
  | nil => exact ends_pure hm.keeps (by simp)
  | cons a rest ih =>
    obtain ⟨ha, hrest⟩ := List.forall_mem_cons.1 hargs
    refine ends_bind (ha _ m hm) fun v m' hkeep hv => ?_
    refine ends_bind (.after hkeep (ih hrest (hkeep.ready hm))) fun vs m'' hkeep' hvs => ?_
    exact ends_pure hkeep' (List.forall_mem_cons.2 ⟨hv, hvs⟩)

theorem callWith {method : Method Token} (hf : loopFreeBody method.body = true)
    {self : Option Reference} (hself : ∀ r, self = some r → r.ofClass.loopFree = true)
    {tokens : List Token} (hargs : ∀ g, g.Sublist tokens → ExpressionEnds d depth g) :
    Ends m LoopFreeValue fun n => (Calls.upTo n).callWith method self tokens m := by
  unfold Calls.callWith
  refine ends_ofExcept_bind hm.keeps fun _ _ => ?_
  have hgroups : ∀ a ∈ (Token.arguments tokens).zip method.params, ExpressionEnds d depth a.1 :=
    fun a ha => hargs a.1 (Token.sublist_of_mem_arguments (List.of_mem_zip ha).1)
  refine ends_bind (argumentValues hgroups hm) fun values m' hkeep hv => ?_
  exact .after hkeep (hk.invoke (hkeep.ready hm) hf hself hv)

theorem callMethod {method : Method Token} (hf : loopFreeBody method.body = true)
    {self : Option Reference} (hself : ∀ r, self = some r → r.ofClass.loopFree = true)
    {tokens : List Token} (hargs : ∀ g, g.Sublist tokens → ExpressionEnds d depth g) :
    Ends m LoopFreeValue fun n => (Calls.upTo n).callMethod method self tokens m := by
  unfold Calls.callMethod
  cases tokens with
  | nil => exact hk.callWith hm hf hself hargs
  | cons t rest =>
    refine ends_ite (fun _ => hk.callWith hm hf hself fun g hg => hargs g (hg.cons t)) fun _ => ?_
    exact ends_ite (fun _ => hk.callWith hm hf hself hargs) fun _ => ends_fail hm.keeps

omit hk in
theorem assignEntry (r : Reference) {entry : List Char}
    (htext : ∀ name text, Text.cut [':'] entry = some (name, text) →
      ExpressionEnds d depth (Token.codeOfText (String.ofList (Text.trim text)))) :
    Ends m Anything fun n => (Calls.upTo n).assignEntry r entry m := by
  unfold Calls.assignEntry
  cases hc : Text.cut [':'] entry with
  | none => exact ends_fail hm.keeps
  | some p =>
    refine ends_machine_bind ?_
    cases Bindings.get? (m.memory.properties r) (String.ofList (Text.trim p.1)) with
    | none => exact ends_fail hm.keeps
    | some b =>
      refine ends_bind (htext p.1 p.2 hc _ m hm) fun v m' hkeep hv => ends_read_bind ?_
      refine ends_ofExcept_bind hkeep fun w hw => .of_settles ⟨hkeep.setMemory ?_, trivial⟩
      exact hkeep.memory.setProperty (Value.loopFree_of_stems hv (Declarations.stems_of_conform hw))

omit hk hm in
theorem assignEntries (r : Reference) {entries : List (List Char)}
    (htext : ∀ entry ∈ entries, ∀ name text, Text.cut [':'] entry = some (name, text) →
      ExpressionEnds d depth (Token.codeOfText (String.ofList (Text.trim text))))
    (hm : m.Ready d depth) : Ends m Anything fun n => (Calls.upTo n).assignEntries r entries m := by
  induction entries generalizing m with
  | nil => exact ends_pure hm.keeps trivial
  | cons e es ih =>
    obtain ⟨he, hes⟩ := List.forall_mem_cons.1 htext
    exact ends_bind (assignEntry hm r he) fun _ m' hkeep _ => .after hkeep (ih hes (hkeep.ready hm))

theorem methodOf {c : Class Token} (hc : c.loopFree = true) (name : String) :
    Ends m (fun f : Method Token => loopFreeBody f.body = true) fun _ => Calls.methodOf c name m := by
  unfold Calls.methodOf
  refine ends_machine_bind ?_
  cases hf : (Table.get? c.methods name).orElse fun _ => m.declared.methods.get? name with
  | none => exact ends_fail hm.keeps
  | some f =>
    refine ends_pure hm.keeps ?_
    cases hown : Table.get? c.methods name with
    | some g =>
      obtain rfl : g = f := by simpa [hown] using hf
      exact Class.loopFree_method hc hown
    | none =>
      have hglobal : d.methods.get? name = some f := by simpa [hown,hm.declared] using hf
      exact Declarations.loopFree_method hk.loopFree hglobal

theorem initialise {c : Class Token} (hc : c.loopFree = true) {r : Reference} (hr : r.ofClass = c)
    {init : String} (htext : TextEnds d depth init.toList) :
    Ends m Anything fun n => (Calls.upTo n).initialise c r init m := by
  unfold Calls.initialise
  refine ends_read_bind ?_
  cases c.params.bind fun rule => _ with
  | some found =>
    refine ends_bind (hk.methodOf hm hc _) fun method m' hkeep hf => ?_
    have hm' := hkeep.ready hm
    refine ends_bind (.after hkeep (hk.boundValues _ hm')) fun values m'' hkeep' hv => ?_
    have hself : ∀ q, some r = some q → q.ofClass.loopFree = true := by
      rintro _ ⟨⟩
      exact hr ▸ hc
    exact ends_bind (.after hkeep' (hk.invoke (hkeep'.ready hm) hf hself hv))
      fun _ _ hkeep'' _ => ends_pure hkeep'' trivial
  | none =>
    refine ends_ite (fun _ => ends_fail hm.keeps) fun _ => assignEntries r (fun e he name text hcut => ?_) hm
    exact htext _ (Calls.stands_of_mem_initEntries he hcut)

theorem build (route : Route) {c : Class Token} (hc : c.loopFree = true)
    (hi : InstanceEnds d depth c) {init : Option String}
    (htext : ∀ text, init = some text → TextEnds d depth text.toList) :
    Ends m (fun v => ∃ r, v = .instance r ∧ r.ofClass = c)
      fun n => (Calls.upTo n).build route c init m := by
  unfold Calls.build
  refine ends_bind (hi route m hm) fun r m' hkeep hr => ?_
  refine ends_ite (fun _ => ends_pure hkeep ⟨r, rfl, hr⟩) fun hne => ?_
  have hends : TextEnds d depth ((init.map Text.trimmed).getD "").toList := by
    cases init with
    | none => exact absurd rfl hne
    | some text =>
      intro value hv
      refine htext text rfl value (hv.trans ?_)
      simpa [Text.trimmed] using stands_trim text.toList
  refine ends_bind (.after hkeep (hk.initialise (hkeep.ready hm) hc hr hends)) fun _ m'' hkeep' _ => ?_
  exact ends_pure hkeep' ⟨r, rfl, hr⟩

theorem instantiate {c : Class Token} (hc : c.loopFree = true) (hi : InstanceEnds d depth c)
    {init : Option String} (htext : ∀ text, init = some text → TextEnds d depth text.toList)
    (name : String) (line : Nat) :
    Ends m LoopFreeValue fun n => (Calls.upTo n).instantiate c name init line m := by
  unfold Calls.instantiate
  refine ends_machine_bind (ends_ofExcept_bind hm.keeps fun _ _ => ?_)
  refine ends_ite (fun _ => ends_fail hm.keeps) fun _ => ?_
  refine ends_ofExcept_bind hm.keeps fun _ _ => ends_read_bind ?_
  refine ends_ite (fun _ => ?_) fun _ => ends_fail hm.keeps
  refine ends_bind (hk.build hm .named hc hi htext) fun v m' hkeep hv => ?_
  obtain ⟨r, rfl, rfl⟩ := hv
  have hv : (Value.instance r).loopFree = true := hc
  cases m.memory.get? name with
  | none =>
    refine ends_bind (ends_onMemory hkeep fun s hs => hkeep.memory.declare hs hv) ?_
    exact fun _ _ hkeep' _ => ends_pure hkeep' hv
  | some b =>
    refine ends_bind (ends_onMemory hkeep fun s hs => hkeep.memory.assign hs hv) ?_
    exact fun _ _ hkeep' _ => ends_pure hkeep' hv

theorem classLine {c : Class Token} (hc : c.loopFree = true) (hi : InstanceEnds d depth c)
    {init : Option String} (htext : ∀ text, init = some text → TextEnds d depth text.toList)
    {rest : List Token} (hargs : ∀ g, g.Sublist rest → ExpressionEnds d depth g) (line : Nat) :
    Ends m LoopFreeValue fun n => (Calls.upTo n).classLine c rest init line m := by
  unfold Calls.classLine
  cases rest with
  | nil => exact ends_fail hm.keeps
  | cons name args =>
    refine ends_ite (fun _ => ?_) fun _ => ends_fail hm.keeps
    refine ends_ite (fun _ => hk.instantiate hm hc hi htext name.text line) fun _ => ?_
    cases hf : Table.get? c.methods name.text with
    | none => exact ends_fail hm.keeps
    | some f =>
      refine ends_ite (fun _ => ?_) fun _ => ends_fail hm.keeps
      exact hk.callMethod hm (Class.loopFree_method hc hf) (by simp) fun g hg => hargs g (hg.cons name)

theorem callBound {call : BoundCall}
    (hi : ∀ c, d.classes.get? call.className = some c → InstanceEnds d depth c) :
    Ends m LoopFreeValue fun n => (Calls.upTo n).callBound call m := by
  unfold Calls.callBound
  refine ends_read_bind ?_
  rw [hm.declared]
  cases hc : d.classes.get? call.className with
  | none => exact ends_fail hm.keeps
  | some c =>
    have hloop := Declarations.loopFree_class hk.loopFree hc
    refine ends_bind (hk.methodOf hm hloop call.method) fun method m₁ h₁ hf => ?_
    refine ends_bind (.after h₁ (hk.boundValues _ (h₁.ready hm))) fun values m₂ h₂ hv => ?_
    refine ends_bind (.after h₂ (hi c hc .byWatch m₂ (h₂.ready hm))) fun r m₃ h₃ hr => ?_
    have hself : ∀ q, some r = some q → q.ofClass.loopFree = true := by
      rintro _ ⟨⟩
      exact hr ▸ hloop
    exact .after h₃ (hk.invoke (h₃.ready hm) hf hself hv)

omit hk in
theorem resolveHost (call : HostCall) : Ends m Anything fun _ => Calls.resolveHost call m := by
  unfold Calls.resolveHost
  refine ends_ite (fun _ => ends_read_bind ?_) fun _ => ends_pure hm.keeps trivial
  cases m.memory.get? call.variableName with
  | none => exact ends_fail hm.keeps
  | some b =>
    dsimp only
    cases HostCall.ofText? b.value.toText with
    | none => exact ends_fail hm.keeps
    | some found => exact ends_ite (fun _ => ends_fail hm.keeps) fun _ => ends_pure hm.keeps trivial

omit hk hm in
theorem hostValues (htext : ∀ text : String, ExpressionEnds d depth (Token.codeOfText text))
    (args : List String) (hm : m.Ready d depth) :
    Ends m (fun vs => ∀ v ∈ vs, v.loopFree = true) fun n => (Calls.upTo n).hostValues args m := by
  induction args generalizing m with
  | nil => exact ends_pure hm.keeps (by simp)
  | cons a rest ih =>
    refine ends_bind (htext a _ m hm) fun v m' hkeep hv => ?_
    refine ends_bind (.after hkeep (ih (hkeep.ready hm))) fun vs m'' hkeep' hvs => ?_
    exact ends_pure hkeep' (List.forall_mem_cons.2 ⟨hv, hvs⟩)

omit hk in
/-- The host gives back at once; it only adds to the output. -/
theorem runHost (path : String) {values : List Value} (hv : ∀ v ∈ values, v.loopFree = true) :
    Ends m LoopFreeValue fun _ => Calls.runHost path values m := by
  have hkeep : m.Keeps { m with output := m.output ++ (m.host.call path values).1 } :=
    { hm.keeps with }
  unfold Calls.runHost
  dsimp only
  cases hr : (m.host.call path values).2 with
  | ok v => exact .of_settles ⟨hkeep, hm.host path values v hv hr⟩
  | error e => exact .of_settles (hkeep.raise _)

omit hk in
theorem callHost (htext : ∀ text : String, ExpressionEnds d depth (Token.codeOfText text))
    (call : HostCall) : Ends m LoopFreeValue fun n => (Calls.upTo n).callHost call m := by
  unfold Calls.callHost
  refine ends_bind (resolveHost hm call) fun found m₁ h₁ _ => ?_
  refine ends_bind (.after h₁ (hostValues htext found.args (h₁.ready hm))) fun values m₂ h₂ hv => ?_
  have hm₂ := h₂.ready hm
  refine ends_machine_bind (.after h₂ (ends_withFrame hm₂.memory fun stack hs => ?_))
  exact runHost (hm₂.pushOther (by simp) hs) found.path hv

omit hm in
theorem resolveWord (kind : Kind) (text : String) : TokenEnds d depth (.word kind text) := by
  intro requested m hm
  unfold Calls.resolveToken
  cases kind with
  | identifier =>
    refine ends_read_bind ?_
    cases hb : m.memory.get? text with
    | some b => exact hk.getValue hm (hm.memory.get? hb) requested
    | none => exact ends_pure hm.keeps rfl
  | _ => exact ends_pure hm.keeps rfl

theorem findMethod? {name : String} {found : Method Token × Option Reference}
    (h : m.findMethod? name = some found) :
    loopFreeBody found.1.body = true ∧ ∀ r, found.2 = some r → r.ofClass.loopFree = true := by
  have hglobal {f : Method Token} (hf : m.declared.methods.get? name = some f) :
      loopFreeBody f.body = true := Declarations.loopFree_method hk.loopFree (hm.declared ▸ hf)
  unfold Machine.findMethod? at h
  dsimp only at h
  split at h
  · obtain ⟨f, hf, rfl⟩ := Option.map_eq_some_iff.1 h
    exact ⟨hglobal hf, by simp⟩
  · next r hr =>
    have hloop := hm.memory.currentInstance? hr
    split at h
    · next f hf =>
      obtain rfl := Option.some.inj h
      exact ⟨Class.loopFree_method hloop hf, by rintro _ ⟨⟩; exact hloop⟩
    · obtain ⟨f, hf, rfl⟩ := Option.map_eq_some_iff.1 h
      exact ⟨hglobal hf, by simp⟩

omit hk hm in
theorem tokenTexts {tokens : List Token} (htok : ∀ t ∈ tokens, TokenEnds d depth t)
    (hm : m.Ready d depth) : Ends m Anything fun n => (Calls.upTo n).tokenTexts tokens m := by
  induction tokens generalizing m with
  | nil => exact ends_pure hm.keeps trivial
  | cons t ts ih =>
    obtain ⟨ht, hts⟩ := List.forall_mem_cons.1 htok
    refine ends_bind (ht none m hm) fun v m' hkeep _ => ?_
    refine ends_bind (.after hkeep (ih hts (hkeep.ready hm))) fun rest m'' hkeep' _ => ?_
    exact ends_pure hkeep' trivial

omit hk in
theorem plain {tokens : List Token} (htok : ∀ t ∈ tokens, TokenEnds d depth t)
    (requested : Option DataType) :
    Ends m LoopFreeValue fun n => (Calls.upTo n).plain tokens requested m := by
  unfold Calls.plain
  split
  · exact ends_pure hm.keeps rfl
  · exact htok _ (by simp) requested m hm
  · exact ends_bind (tokenTexts htok hm) fun _ _ hkeep _ => ends_pure hkeep rfl

theorem evaluate {tokens : List Token} (htok : ∀ t ∈ tokens, TokenEnds d depth t)
    (hargs : ∀ g, g.Sublist tokens → g.length < tokens.length → ExpressionEnds d depth g)
    (hclass : ∀ first rest, tokens = first :: rest → first.kind = .identifier →
      ∀ c, d.classes.get? first.text = some c → InstanceEnds d depth c ∧
        ∀ text, Calls.initOfTokens tokens = some text → TextEnds d depth text.toList)
    (requested : Option DataType) :
    Ends m LoopFreeValue fun n => (Calls.upTo n).evaluate tokens requested m := by
  unfold Calls.evaluate
  cases tokens with
  | nil => exact ends_pure hm.keeps rfl
  | cons first rest =>
    have hargs : ∀ g, g.Sublist rest → ExpressionEnds d depth g :=
      fun g hg => hargs g (hg.cons first) (Nat.lt_succ_of_le hg.length_le)
    refine ends_ite (fun hident => ends_machine_bind ?_) fun _ => plain hm htok requested
    cases hb : m.memory.get? first.text with
    | some b =>
      cases rest with
      | nil => exact hk.getValue hm (hm.memory.get? hb) requested
      | cons next args =>
        dsimp only
        cases hr : b.value.reference? with
        | none => exact plain hm htok requested
        | some r =>
          have hloop := hm.memory.reference hb hr
          dsimp only
          cases hf : Table.get? r.ofClass.methods next.text with
          | none => exact plain hm htok requested
          | some method =>
            refine hk.callMethod hm (Class.loopFree_method hloop hf) (by rintro _ ⟨⟩; exact hloop) ?_
            exact fun g hg => hargs g (hg.cons next)
    | none =>
      cases hf : m.findMethod? first.text with
      | some found =>
        obtain ⟨hbody, hself⟩ := hk.findMethod? hm hf
        exact hk.callMethod hm hbody hself hargs
      | none =>
        rw [hm.declared]
        cases hc : d.classes.get? first.text with
        | none => exact plain hm htok requested
        | some c =>
          obtain ⟨hi, htext⟩ := hclass first rest rfl hident c hc
          exact hk.classLine hm (Declarations.loopFree_class hk.loopFree hc) hi htext hargs m.line

end Calls

end BodiesEnd

end LineScript
