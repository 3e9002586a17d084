import LineScript.Proofs.Machine.Follows
set_option autoImplicit false

/-! Calls and expressions follow paths: one lemma for each action, over actions that do. -/

namespace LineScript

open Exec

theorem Machine.free_of_checkNameFree {m : Machine} {name : String} {u : Unit}
    (h : m.checkNameFree name = .ok u) : m.declared.Free name := by
  unfold Machine.checkNameFree at h
  split at h
  · cases h
  · next hm =>
    split at h
    · cases h
    · next hc =>
      split at h
      · cases h
      · next he =>
        refine ⟨?_, by simpa [Table.contains] using hc, he⟩
        unfold Machine.findMethod? at hm
        dsimp only at hm
        split at hm
        · simpa using hm
        · split at hm
          · simp at hm
          · simpa using hm

/-- The actions that lead back into themselves follow paths. -/
structure Calls.Sound (k : Calls) : Prop where
  expression : ∀ tokens requested m,
    (k.expression tokens requested m).Follows .expression m Anything
  body : ∀ rows m, (k.body rows m).Follows .lines m Anything
  construct : ∀ c init m, m.declared.Defaulted c →
    (k.construct c init m).Follows .expression m fun v => ∃ r, v = .instance r ∧ r.ofClass = c

namespace Calls.Sound

variable {k : Calls} (hk : k.Sound) {w : Stretch} (m : Machine)
include hk

theorem methodBody {method : Method Token} {values : List Value} {bs : List Binding}
    (hb : bindParams m.declared method method.params values = .ok bs) :
    (k.methodBody ⟨method, values, bs⟩ m).Follows .enclosed m Anything := by
  unfold Calls.methodBody
  refine follows_withScope (follows_update_bind ?_)
  have hsize : (bs.foldl Memory.bind (m.memory.push .call)).heap.size = m.memory.heap.size := by
    obtain ⟨cs, hc⟩ := Memory.foldl_bind_push m.memory .call bs
    rw [hc,Memory.heap_setTop]
    rfl
  let m' := m.onMemory fun s => s.push .call
  have hbound : m'.Ran .lines (m'.onMemory fun s => bs.foldl Memory.bind s) :=
    .setMemory (.refl _ _) (.params hb) hsize
  have hran : m'.Ran .lines (m'.enter ⟨method, values, bs⟩) := { hbound with }
  exact .after hran (hk.body method.body _)

theorem invoke (method : Method Token) (self : Option Reference) (values : List Value) :
    (k.invoke method self values m).Follows .enclosed m Anything := by
  unfold Calls.invoke
  refine follows_ofExcept_bind (.refl _ _) fun _ _ => follows_read_bind ?_
  refine follows_ofExcept_bind (.refl _ _) fun bs hb => follows_read_bind ?_
  refine follows_bind (Q := Anything) (follows_withFrame fun stack => ?_)
    fun flow m' hr _ => follows_ofExcept hr
  cases self with
  | none => exact hk.methodBody _ hb
  | some r =>
    exact follows_withScope (.lines (hk.methodBody _ hb))

theorem convert (r : Reference) (target : DataType) :
    (k.convert r target m).Follows .expression m Anything := by
  unfold Calls.convert
  cases r.ofClass.converter? target with
  | none => exact follows_fail (.refl _ _)
  | some c =>
    refine follows_bind (hk.invoke m c.method (some r) []).expression fun v m' hr _ => ?_
    split
    · exact follows_ofExcept hr
    · exact follows_pure hr trivial

theorem getValue (b : Binding) (requested : Option DataType) :
    (k.getValue b requested m).Follows .expression m Anything := by
  unfold Calls.getValue
  cases b.value.reference? with
  | none => exact follows_pure (.refl _ _) trivial
  | some r =>
    refine follows_machine_bind ?_
    refine follows_ite (fun _ => follows_pure (.refl _ _) trivial) fun _ => ?_
    cases r.ofClass.primitiveTag? with
    | some t => exact follows_ofExcept_bind (.refl _ _) fun v _ => follows_ofExcept (.refl _ _)
    | none =>
      cases requested.bind DataType.typed? with
      | none => exact follows_pure (.refl _ _) trivial
      | some target => exact hk.convert m r target

theorem argumentValues (args : List (List Token × Variable)) :
    (k.argumentValues args m).Follows .expression m Anything := by
  induction args generalizing m with
  | nil => exact follows_pure (.refl _ _) trivial
  | cons arg rest ih =>
    obtain ⟨tokens, param⟩ := arg
    refine follows_bind (hk.expression tokens _ m) fun v m' hr _ => ?_
    refine follows_bind (.after hr (ih m')) fun vs m'' hr' _ => ?_
    exact follows_pure hr' trivial

theorem callWith (method : Method Token) (self : Option Reference) (tokens : List Token) :
    (k.callWith method self tokens m).Follows .expression m Anything := by
  unfold Calls.callWith
  refine follows_ofExcept_bind (.refl _ _) fun _ _ => ?_
  refine follows_bind (hk.argumentValues m _) fun values m' hr _ => ?_
  exact .after hr (hk.invoke m' method self values).expression

theorem callMethod (method : Method Token) (self : Option Reference) (tokens : List Token) :
    (k.callMethod method self tokens m).Follows .expression m Anything := by
  unfold Calls.callMethod
  cases tokens with
  | nil => exact hk.callWith m method self []
  | cons t rest =>
    refine follows_ite (fun _ => hk.callWith m method self rest) fun _ => ?_
    refine follows_ite (fun _ => hk.callWith m method self (t :: rest)) fun _ => ?_
    exact follows_fail (.refl _ _)

theorem boundValue (a : BoundArg) : (k.boundValue a m).Follows .expression m Anything := by
  unfold Calls.boundValue
  refine follows_read_bind ?_
  cases m.memory.get? a.text with
  | some b => exact hk.getValue m b _
  | none => exact follows_pure (.refl _ _) trivial

theorem boundValues (args : List BoundArg) :
    (k.boundValues args m).Follows .expression m Anything := by
  induction args generalizing m with
  | nil => exact follows_pure (.refl _ _) trivial
  | cons a rest ih =>
    refine follows_bind (hk.boundValue m a) fun v m' hr _ => ?_
    refine follows_bind (.after hr (ih m')) fun vs m'' hr' _ => ?_
    exact follows_pure hr' trivial

omit hk in
theorem methodOf (c : Class Token) (name : String) :
    (methodOf c name m).Follows w m Anything := by
  unfold Calls.methodOf
  refine follows_machine_bind ?_
  cases (Table.get? c.methods name).orElse fun _ => m.declared.methods.get? name with
  | some f => exact follows_pure (.refl _ _) trivial
  | none => exact follows_fail (.refl _ _)

theorem evaluated (type : DataType) (text : String) :
    (propertyDefault.evaluated k type text m).Follows .expression m (m.declared.Initial type) := by
  unfold propertyDefault.evaluated
  refine follows_bind (hk.expression _ _ m) fun v m' hr _ => follows_read_bind ?_
  rw [hr.declared]
  cases hc : m.declared.conform type v with
  | ok u => exact ⟨hr, .inr (.inl ⟨v, hc⟩)⟩
  | error e => exact hr.raise e

theorem propertyDefault (type : DataType) (text : String)
    (hd : ∀ name c, type.className? = some name → m.declared.classes.get? name = some c →
      c.typeOf = none → m.declared.Defaulted c) :
    (k.propertyDefault type text m).Follows .expression m (m.declared.Initial type) := by
  unfold Calls.propertyDefault
  refine follows_machine_bind ?_
  cases hc : type.className?.bind m.declared.classes.get? with
  | none => exact hk.evaluated m type text
  | some c =>
    obtain ⟨name, hn, hc⟩ := Option.bind_eq_some_iff.1 hc
    refine follows_ite (fun hnone => ?_) fun _ => hk.evaluated m type text
    refine .mono (hk.construct c (some text) m (hd name c hn hc (by simpa using hnone))) ?_
    rintro v ⟨r, rfl, rfl⟩
    cases type with
    | plain t => cases hn
    | ofContainer n => cases hn
    | ofClass t n =>
      obtain rfl : n = name := Option.some.inj hn
      exact .inr (.inr ⟨t, n, r, rfl, hc, rfl⟩)

theorem initialValue {owner : Class Token} (howner : m.declared.Declares owner) {p : Variable}
    (hp : p ∈ owner.properties) :
    (k.initialValue p m).Follows .expression m (m.declared.Initial p.type) := by
  unfold Calls.initialValue
  cases hd : p.default with
  | some text =>
    refine hk.propertyDefault m p.type text fun name c hn hc hnone => ?_
    exact ⟨owner, howner, p, hp, by simp [hd], hnone, name, hn, hc⟩
  | none => exact follows_pure (.refl _ _) (.inl rfl)

theorem initialProperties {owner : Class Token} (howner : m.declared.Declares owner)
    {vars : List Variable} (hvars : vars ⊆ owner.properties) :
    (k.initialProperties vars m).Follows .expression m
      fun bs => ∀ b ∈ bs, m.declared.Initial b.type b.value := by
  induction vars generalizing m with
  | nil => exact follows_pure (.refl _ _) (by simp)
  | cons p ps ih =>
    obtain ⟨hp, hps⟩ := List.cons_subset.1 hvars
    refine follows_bind (hk.initialValue m howner hp) fun v m' hr hv => ?_
    have howner' : m'.declared.Declares owner := hr.declared ▸ howner
    refine follows_bind (.after hr (ih m' howner' hps)) fun rest m'' hr' hrest => follows_pure hr' ?_
    intro b hb
    rcases List.mem_cons.1 hb with rfl | hb
    · exact hv
    · exact hr.declared ▸ hrest b hb

/-- The instance is made after the defaults of its properties were evaluated; whose method is running has
not changed meanwhile. -/
theorem newInstance {route : Route} {c : Class Token} (hc : m.declared.Declares c)
    (hlaw : Birth.Lawful m.declared ⟨route, c, m.memory.currentInstance?⟩) :
    (k.newInstance route c m).Follows .expression m fun r => r.ofClass = c := by
  unfold Calls.newInstance
  refine follows_bind (hk.initialProperties m hc (List.Subset.refl _)) fun bs m' hr hbs => ?_
  rw [← Memory.currentInstance?_of_grows hr.path.grows] at hlaw
  exact ⟨hr.allocate (hr.path.trans (.allocate c hbs)) hlaw, rfl⟩

theorem assignEntry (r : Reference) (entry : List Char) :
    (k.assignEntry r entry m).Follows .expression m Anything := by
  unfold Calls.assignEntry
  cases Text.cut [':'] entry with
  | none => exact follows_fail (.refl _ _)
  | some p =>
    refine follows_machine_bind ?_
    cases hb : Bindings.get? (m.memory.properties r) (String.ofList (Text.trim p.1)) with
    | none => exact follows_fail (.refl _ _)
    | some b =>
      refine follows_bind (hk.expression _ _ m) fun v m' hr _ => follows_read_bind ?_
      refine follows_ofExcept_bind hr fun u hu => ?_
      rw [hr.declared] at hu
      exact ⟨hr.setMemory (.property hb hr.path hu) (Memory.size_setProperty _ r _ u), trivial⟩

theorem assignEntries (r : Reference) (entries : List (List Char)) :
    (k.assignEntries r entries m).Follows .expression m Anything := by
  induction entries generalizing m with
  | nil => exact follows_pure (.refl _ _) trivial
  | cons e es ih => exact follows_bind (hk.assignEntry m r e) fun _ m' hr _ => .after hr (ih m')

theorem initialise (c : Class Token) (r : Reference) (init : String) :
    (k.initialise c r init m).Follows .expression m Anything := by
  unfold Calls.initialise
  refine follows_read_bind ?_
  cases c.params.bind fun rule => _ with
  | some found =>
    refine follows_bind (methodOf m c _) fun method m' hr _ => ?_
    refine follows_bind (.after hr (hk.boundValues m' _)) fun values m'' hr' _ => ?_
    exact follows_bind (.after hr' (hk.invoke m'' method (some r) values).expression)
      fun _ _ hr'' _ => follows_pure hr'' trivial
  | none =>
    refine follows_ite (fun _ => follows_fail (.refl _ _)) fun _ => ?_
    exact hk.assignEntries m r _

theorem build {route : Route} {c : Class Token} (hc : m.declared.Declares c) (init : Option String)
    (hlaw : Birth.Lawful m.declared ⟨route, c, m.memory.currentInstance?⟩) :
    (k.build route c init m).Follows .expression m
      fun v => ∃ r, v = .instance r ∧ r.ofClass = c := by
  unfold Calls.build
  refine follows_bind (hk.newInstance m hc hlaw) fun r m' hr hc => ?_
  refine follows_ite (fun _ => follows_pure hr ⟨r, rfl, hc⟩) fun _ => ?_
  refine follows_bind (.after hr (hk.initialise m' c r _)) fun _ m'' hr' _ => ?_
  exact follows_pure hr' ⟨r, rfl, hc⟩

theorem instantiate {c : Class Token} (hc : m.declared.Declares c) (name : String)
    (init : Option String) (line : Nat) :
    (k.instantiate c name init line m).Follows .expression m Anything := by
  unfold Calls.instantiate
  refine follows_machine_bind (follows_ofExcept_bind (.refl _ _) fun _ hfree => ?_)
  have hfree := Machine.free_of_checkNameFree hfree
  refine follows_ite (fun _ => follows_fail (.refl _ _)) fun hstatic => ?_
  refine follows_ofExcept_bind (.refl _ _) fun _ hinside => follows_read_bind ?_
  refine follows_ite (fun hsame => ?_) fun _ => follows_fail (.refl _ _)
  have hlaw := Machine.permits_of_checkInside hstatic hinside
  refine follows_bind (hk.build m hc init hlaw) fun v m' hr hv => ?_
  obtain ⟨r, rfl, rfl⟩ := hv
  cases he : m.memory.get? name with
  | none =>
    refine follows_bind (follows_onMemory hr (fun s hs => ?_) fun s => Memory.size_of_declare)
      fun _ _ hr' _ => follows_pure hr' trivial
    exact .new hfree he hr.path hs
  | some b =>
    refine follows_bind (follows_onMemory hr (fun s hs => ?_) fun s => Memory.size_of_assign)
      fun _ _ hr' _ => follows_pure hr' trivial
    cases hb : b.value with
    | «instance» old =>
      have hn : old.ofClass.name = r.ofClass.name := by
        simpa [he,hb,Value.reference?] using hsame
      exact .renew he hb hn hr.path hs
    | _ => simp [he,hb,Value.reference?] at hsame

theorem classLine {c : Class Token} (hc : m.declared.Declares c) (rest : List Token)
    (init : Option String) (line : Nat) :
    (k.classLine c rest init line m).Follows .expression m Anything := by
  unfold Calls.classLine
  cases rest with
  | nil => exact follows_fail (.refl _ _)
  | cons name args =>
    refine follows_ite (fun _ => ?_) fun _ => follows_fail (.refl _ _)
    refine follows_ite (fun _ => hk.instantiate m hc name.text init line) fun _ => ?_
    cases Table.get? c.methods name.text with
    | none => exact follows_fail (.refl _ _)
    | some f =>
      exact follows_ite (fun _ => hk.callMethod m f none args) fun _ => follows_fail (.refl _ _)

theorem callBound (call : BoundCall) : (k.callBound call m).Follows .expression m Anything := by
  unfold Calls.callBound
  refine follows_read_bind ?_
  cases hc : m.declared.classes.get? call.className with
  | none => exact follows_fail (.refl _ _)
  | some c =>
    refine follows_bind (methodOf m c call.method) fun method m₁ h₁ _ => ?_
    refine follows_bind (.after h₁ (hk.boundValues m₁ call.args)) fun values m₂ h₂ _ => ?_
    have hd : m₂.declared.Declares c := ⟨call.className, h₂.declared ▸ hc⟩
    refine follows_bind (.after h₂ (hk.newInstance m₂ hd hd)) fun r m₃ h₃ _ => ?_
    exact .after h₃ (hk.invoke m₃ method (some r) values).expression

omit hk in
theorem resolveHost (call : HostCall) : (resolveHost call m).Follows w m Anything := by
  unfold Calls.resolveHost
  refine follows_ite (fun _ => follows_read_bind ?_) fun _ => follows_pure (.refl _ _) trivial
  cases m.memory.get? call.variableName with
  | none => exact follows_fail (.refl _ _)
  | some b =>
    dsimp only
    cases HostCall.ofText? b.value.toText with
    | none => exact follows_fail (.refl _ _)
    | some found =>
      exact follows_ite (fun _ => follows_fail (.refl _ _))
        fun _ => follows_pure (.refl _ _) trivial

theorem hostValues (args : List String) : (k.hostValues args m).Follows .expression m Anything := by
  induction args generalizing m with
  | nil => exact follows_pure (.refl _ _) trivial
  | cons a rest ih =>
    refine follows_bind (hk.expression _ _ m) fun v m' hr _ => ?_
    refine follows_bind (.after hr (ih m')) fun vs m'' hr' _ => ?_
    exact follows_pure hr' trivial

omit hk in
/-- The host only adds to the output. -/
theorem runHost (path : String) (values : List Value) :
    (runHost path values m).Follows w m Anything := by
  have hran : m.Ran w { m with output := m.output ++ (m.host.call path values).1 } :=
    { Machine.Ran.refl w m with output := by simp }
  unfold Calls.runHost
  dsimp only
  cases (m.host.call path values).2 with
  | ok v => exact ⟨hran, trivial⟩
  | error e => exact hran.raise _

theorem callHost (call : HostCall) : (k.callHost call m).Follows .expression m Anything := by
  unfold Calls.callHost
  refine follows_bind (resolveHost m call) fun found m₁ h₁ _ => ?_
  refine follows_bind (.after h₁ (hk.hostValues m₁ found.args)) fun values m₂ h₂ _ => ?_
  exact follows_machine_bind (.after h₂ (follows_withFrame fun _ => runHost _ _ values))

theorem resolveToken (t : Token) (requested : Option DataType) :
    (k.resolveToken t requested m).Follows .expression m Anything := by
  unfold Calls.resolveToken
  split
  · exact hk.callBound m _
  · exact hk.callHost m _
  · exact follows_pure (.refl _ _) trivial
  · next name =>
    refine follows_read_bind ?_
    cases m.memory.get? name with
    | some b => exact hk.getValue m b requested
    | none => exact follows_pure (.refl _ _) trivial
  · exact follows_pure (.refl _ _) trivial

theorem tokenTexts (tokens : List Token) :
    (k.tokenTexts tokens m).Follows .expression m Anything := by
  induction tokens generalizing m with
  | nil => exact follows_pure (.refl _ _) trivial
  | cons t ts ih =>
    refine follows_bind (hk.resolveToken m t none) fun v m' hr _ => ?_
    refine follows_bind (.after hr (ih m')) fun rest m'' hr' _ => ?_
    exact follows_pure hr' trivial

theorem plain (tokens : List Token) (requested : Option DataType) :
    (k.plain tokens requested m).Follows .expression m Anything := by
  unfold Calls.plain
  split
  · exact follows_pure (.refl _ _) trivial
  · exact hk.resolveToken m _ requested
  · exact follows_bind (hk.tokenTexts m _) fun _ _ hr _ => follows_pure hr trivial

theorem evaluate (tokens : List Token) (requested : Option DataType) :
    (k.evaluate tokens requested m).Follows .expression m Anything := by
  unfold Calls.evaluate
  cases tokens with
  | nil => exact follows_pure (.refl _ _) trivial
  | cons first rest =>
    refine follows_ite (fun _ => follows_machine_bind ?_) fun _ => hk.plain m _ requested
    cases m.memory.get? first.text with
    | some b =>
      cases rest with
      | nil => exact hk.getValue m b requested
      | cons next args =>
        dsimp only
        cases b.value.reference? with
        | none => exact hk.plain m _ requested
        | some r =>
          dsimp only
          cases Table.get? r.ofClass.methods next.text with
          | some method => exact hk.callMethod m method (some r) args
          | none => exact hk.plain m _ requested
    | none =>
      cases m.findMethod? first.text with
      | some found => exact hk.callMethod m found.1 found.2 rest
      | none =>
        cases hc : m.declared.classes.get? first.text with
        | some c => exact hk.classLine m ⟨first.text, hc⟩ rest _ m.line
        | none => exact hk.plain m _ requested

end Calls.Sound

end LineScript
