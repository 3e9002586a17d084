import Mathlib.Logic.Relation
import LineScript.Proofs.Machine.Follows
import LineScript.Proofs.Memory.Peopled
set_option autoImplicit false

/-!
What a machine can do in one step, said once. A stage is a machine while code runs on it or while an error
is on its way out; a step is one write to the memory, one frame more or less on the call stack, one error
that arises, goes on or is caught, each with what was checked before it. Facts about all stages that come
up are proved by induction over steps; that every action takes such steps is proved for each of them.
-/

namespace LineScript

/-- An instance that the value is has a class of that sort. -/
def Value.Of (Known : Class Token → Prop) (v : Value) : Prop :=
  ∀ r, v.reference? = some r → Known r.ofClass

/-- The functions of the host give back instances of no other classes than those of its arguments may be. -/
def Host.Of (Known : Class Token → Prop) (h : Host) : Prop :=
  ∀ path args v, (∀ a ∈ args, a.Of Known) → (h.call path args).2 = .ok v → v.Of Known

/-- A method that code can come by: a global one, one of a known class, or one of its converters. -/
inductive Declarations.Callable (d : Declarations) (Known : Class Token → Prop) : Method Token → Prop where
  | global {name : String} {f : Method Token} : d.methods.get? name = some f → Callable d Known f
  | ofClass {c : Class Token} {name : String} {f : Method Token} : Known c →
    Table.get? c.methods name = some f → Callable d Known f
  | converter {c : Class Token} {v : Converter Token} : Known c → v ∈ c.converters →
    Callable d Known v.method

inductive Mode where
  | running
  | failing (e : RuntimeError)

structure Stage where
  mode : Mode
  machine : Machine

inductive Step (d : Declarations) (Known : Class Token → Prop) : Stage → Stage → Prop where
  | enter {m : Machine} {kind : FrameKind} : (∀ r, kind = .ofInstance r → Known r.ofClass) →
    Step d Known ⟨.running, m⟩ ⟨.running, m.onMemory fun s => s.push kind⟩
  | leave (mode : Mode) (m : Machine) : Step d Known ⟨mode, m⟩ ⟨mode, m.onMemory Memory.pop⟩
  /-- The parameters of a method, in the frame of the call. -/
  | params {m : Machine} {s : Memory} {f : Method Token} {values : List Value} {bs : List Binding} :
    m.memory = s.push .call → d.Callable Known f → Calls.checkCount f values.length = .ok () →
    Calls.bindParams d f f.params values = .ok bs → (∀ v ∈ values, v.Of Known) →
    Step d Known ⟨.running, m⟩ ⟨.running, m.enter ⟨f, values, bs⟩⟩
  /-- The message of an error, in the frame of its handler. -/
  | handler {m : Machine} {s : Memory} (message : String) (line : Nat) : m.memory = s.push .block →
    Step d Known ⟨.running, m⟩ ⟨.running, m.onMemory fun s =>
      s.bind ⟨"exception", .text message, .plain .string, true, line⟩⟩
  | declare {m : Machine} {s : Memory} {name : String} {v : Value} {type : DataType} {line : Nat} :
    d.Free name → v.Of Known → m.memory.declare ⟨name, v, type, true, line⟩ = .ok s →
    Step d Known ⟨.running, m⟩ ⟨.running, m.setMemory s⟩
  | assign {m : Machine} {s : Memory} {name : String} {v : Value} : v.Of Known →
    m.memory.assign name v = .ok s → Step d Known ⟨.running, m⟩ ⟨.running, m.setMemory s⟩
  | property {m : Machine} {v : Value} (r : Reference) (name : String) : v.Of Known →
    Step d Known ⟨.running, m⟩ ⟨.running, m.onMemory fun s => s.setProperty r name v⟩
  | allocate {m : Machine} {c : Class Token} {bs : List Binding} (route : Route) : Known c →
    (∀ b ∈ bs, b.value.Of Known) → Step d Known ⟨.running, m⟩ ⟨.running, (m.allocate route c bs).2⟩
  | write (m : Machine) (written : List String) :
    Step d Known ⟨.running, m⟩ ⟨.running, { m with output := m.output ++ written }⟩
  | call {m : Machine} {f : CallFrame} {stack : CallStack} : m.stack.push f = .ok stack →
    Step d Known ⟨.running, m⟩ ⟨.running, { m with stack }⟩
  | back (m : Machine) : Step d Known ⟨.running, m⟩ ⟨.running, { m with stack := m.stack.pop }⟩
  | raise (m : Machine) (e : RuntimeError) : Step d Known ⟨.running, m⟩ ⟨.failing e, m.raise e⟩
  | capture (m : Machine) (e : RuntimeError) : Step d Known ⟨.failing e, m⟩ ⟨.failing e, m.capture⟩
  /-- An error leaves a frame of the call stack, with its trace kept. -/
  | unwind {m : Machine} {trace : List String} (e : RuntimeError) : m.failure = some trace →
    Step d Known ⟨.failing e, m⟩ ⟨.failing e, { m with stack := m.stack.pop }⟩
  | wrap (m : Machine) (e : RuntimeError) (construct : String) :
    Step d Known ⟨.failing e, m⟩ ⟨.failing (e.wrap construct), m⟩
  /-- An error is caught, and its trace forgotten. -/
  | caught (m : Machine) (e : RuntimeError) :
    Step d Known ⟨.failing e, m⟩ ⟨.running, { m with failure := none }⟩
  | note (mode : Mode) (m : Machine) (chain : Chain) (line : Nat) :
    Step d Known ⟨mode, m⟩ ⟨mode, { m with chain, line }⟩

abbrev Steps (d : Declarations) (Known : Class Token → Prop) : Stage → Stage → Prop :=
  Relation.ReflTransGen (Step d Known)

variable {d : Declarations} {Known : Class Token → Prop}

namespace Value

theorem of_plain {v : Value} (h : v.reference? = none) : v.Of Known := by simp [Of,h]

theorem Of.reference {v : Value} (h : v.Of Known) {r : Reference} (hr : v.reference? = some r) :
    Known r.ofClass := h r hr

theorem of_instance {r : Reference} (h : Known r.ofClass) : (Value.instance r).Of Known := by
  rintro _ ⟨⟩
  exact h

theorem Of.stems {v w : Value} (hv : v.Of Known) (h : w.Stems v) : w.Of Known := by
  rcases h with rfl | h
  · exact hv
  · exact of_plain h

end Value

theorem Calls.of_bindParams {f : Method Token} {ps : List Variable} {values : List Value} {bs : List Binding}
    (hv : ∀ v ∈ values, v.Of Known) (h : bindParams d f ps values = .ok bs) :
    ∀ b ∈ bs, b.value.Of Known :=
  forall_of_bindParams (fun _ _ => Value.of_plain rfl)
    (fun _ _ v hmem _ hw => (hv v hmem).stems (Declarations.stems_of_bindParam hw)) h

/-- The machine has these declarations, and there are instances of known classes only. -/
structure Machine.Has (d : Declarations) (Known : Class Token → Prop) (m : Machine) : Prop where
  declared : m.declared = d
  host : m.host.Of Known
  memory : m.memory.Peopled (Value.Of Known)

namespace Machine.Has

variable {m : Machine} (h : m.Has d Known)
include h

theorem setMemory {s : Memory} (hs : s.Peopled (Value.Of Known)) : (m.setMemory s).Has d Known :=
  { h with memory := hs }

theorem note (chain : Chain) (line : Nat) : Machine.Has d Known { m with chain, line } := { h with }

theorem capture : m.capture.Has d Known := by
  unfold Machine.capture
  split
  · exact h
  · exact { h with }

end Machine.Has

theorem Step.has {s t : Stage} (h : Step d Known s t) (hs : s.machine.Has d Known) :
    t.machine.Has d Known := by
  cases h with
  | enter hk => exact hs.setMemory (hs.memory.push fun r hr => Value.of_instance (hk r hr))
  | leave mode m => exact hs.setMemory hs.memory.pop
  | params _ _ _ hb hv => exact { hs with memory := hs.memory.foldl_bind (Calls.of_bindParams hv hb) }
  | handler message line _ => exact hs.setMemory (hs.memory.bind (Value.of_plain rfl))
  | declare _ hv hd => exact hs.setMemory (hs.memory.declare hd hv)
  | assign hv ha => exact hs.setMemory (hs.memory.assign ha hv)
  | property r name hv => exact hs.setMemory (hs.memory.setProperty hv)
  | @allocate m c bs route _ hb => exact { hs with memory := hs.memory.allocate c hb }
  | capture m e => exact hs.capture
  | write m written => exact { hs with }
  | call _ => exact { hs with }
  | back m => exact { hs with }
  | raise m e => exact { hs with }
  | unwind e _ => exact { hs with }
  | wrap m e construct => exact hs
  | caught m e => exact { hs with }
  | note mode m chain line => exact hs.note chain line

theorem Steps.has {s t : Stage} (h : Steps d Known s t) (hs : s.machine.Has d Known) :
    t.machine.Has d Known := by
  induction h with
  | refl => exact hs
  | tail _ hstep ih => exact hstep.has ih

variable {α β : Type}

/-- The action takes steps from the machine `m`; a value that it ends with satisfies `Q`. -/
def Outcome.Goes (d : Declarations) (Known : Class Token → Prop) (m : Machine) (Q : α → Prop) :
    Outcome α → Prop
  | .ok a m' => Steps d Known ⟨.running, m⟩ ⟨.running, m'⟩ ∧ Q a
  | .error e m' => Steps d Known ⟨.running, m⟩ ⟨.failing e, m'⟩
  | .outOfFuel m' => Steps d Known ⟨.running, m⟩ ⟨.running, m'⟩

namespace Outcome.Goes

variable {m m' : Machine} {Q : α → Prop} {o : Outcome α}

theorem after (hm : Steps d Known ⟨.running, m⟩ ⟨.running, m'⟩) (h : o.Goes d Known m' Q) :
    o.Goes d Known m Q := by
  cases o with
  | ok a m'' => exact ⟨hm.trans h.1, h.2⟩
  | error e m'' => exact hm.trans h
  | outOfFuel m'' => exact hm.trans h

end Outcome.Goes

namespace Exec

variable {m : Machine} {Q : α → Prop} {R : β → Prop}

theorem goes_bind {x : Exec α} {f : α → Exec β} (hm : m.Has d Known) (hx : (x m).Goes d Known m Q)
    (hf : ∀ a m', m'.Has d Known → Q a → (f a m').Goes d Known m' R) :
    ((x >>= f) m).Goes d Known m R := by
  rw [bind_apply,Exec.bind]
  cases hr : x m with
  | ok a m' =>
    rw [hr] at hx
    exact .after hx.1 (hf a m' (hx.1.has hm) hx.2)
  | error e m' => rwa [hr] at hx
  | outOfFuel m' => rwa [hr] at hx

theorem goes_pure {a : α} (ha : Q a) : ((Pure.pure a : Exec α) m).Goes d Known m Q := ⟨.refl, ha⟩

theorem goes_fail (e : RuntimeError) : ((Exec.fail e : Exec α) m).Goes d Known m Q := .single (.raise m e)

theorem goes_ofExcept {r : Except RuntimeError α} (hQ : ∀ a, r = .ok a → Q a) :
    (Exec.ofExcept r m).Goes d Known m Q := by
  cases r with
  | ok a => exact ⟨.refl, hQ a rfl⟩
  | error e => exact .single (.raise m e)

theorem goes_ofExcept_bind {r : Except RuntimeError α} {f : α → Exec β}
    (hf : ∀ a, r = .ok a → (f a m).Goes d Known m R) : ((Exec.ofExcept r >>= f) m).Goes d Known m R := by
  cases r with
  | ok a => exact hf a rfl
  | error e => exact .single (.raise m e)

theorem goes_read_bind {g : Machine → α} {f : α → Exec β} (h : (f (g m) m).Goes d Known m R) :
    ((Exec.read g >>= f) m).Goes d Known m R := h

theorem goes_machine_bind {f : Machine → Exec β} (h : (f m m).Goes d Known m R) :
    ((Exec.read id >>= f) m).Goes d Known m R := h

theorem goes_update_bind {g : Machine → Machine} {f : Unit → Exec β}
    (hg : Step d Known ⟨.running, m⟩ ⟨.running, g m⟩) (h : (f () (g m)).Goes d Known (g m) R) :
    ((Exec.update g >>= f) m).Goes d Known m R := .after (.single hg) h

theorem goes_ite {c : Prop} [Decidable c] {x y : Exec α} (hx : c → (x m).Goes d Known m Q)
    (hy : ¬c → (y m).Goes d Known m Q) : ((if c then x else y) m).Goes d Known m Q := by
  by_cases hc : c
  · rw [if_pos hc]
    exact hx hc
  · rw [if_neg hc]
    exact hy hc

theorem goes_onMemory {f : Memory → Except RuntimeError Memory}
    (hf : ∀ s, f m.memory = .ok s → Step d Known ⟨.running, m⟩ ⟨.running, m.setMemory s⟩) :
    (Exec.onMemory f m).Goes d Known m Anything := by
  unfold Exec.onMemory
  cases hs : f m.memory with
  | ok s => exact ⟨.single (hf s hs), trivial⟩
  | error e => exact .single (.raise m e)

/-- A change before the action, and one behind it on every way out. -/
theorem goes_finally {x : Exec α} {f : Machine → Machine} {m₀ : Machine}
    (hm : Step d Known ⟨.running, m₀⟩ ⟨.running, m⟩) (hf : ∀ mode m', Step d Known ⟨mode, m'⟩ ⟨mode, f m'⟩)
    (h : (x m).Goes d Known m Q) : (Exec.finally_ x f m).Goes d Known m₀ Q := by
  refine .after (.single hm) ?_
  unfold Exec.finally_
  cases hr : x m with
  | ok a m' =>
    rw [hr] at h
    exact ⟨h.1.tail (hf _ m'), h.2⟩
  | error e m' =>
    rw [hr] at h
    exact Relation.ReflTransGen.tail h (hf _ m')
  | outOfFuel m' => rwa [hr] at h

theorem goes_withScope {kind : FrameKind} {x : Exec α} (hm : m.Has d Known)
    (hk : ∀ r, kind = .ofInstance r → Known r.ofClass)
    (h : Machine.Has d Known (m.onMemory fun s => s.push kind) →
      (x (m.onMemory fun s => s.push kind)).Goes d Known (m.onMemory fun s => s.push kind) Q) :
    (Exec.withScope kind x m).Goes d Known m Q :=
  goes_finally (.enter hk) (fun mode m' => .leave mode m') (h ((Step.enter hk).has hm))

theorem goes_atLine {line : Nat} {x : Exec α} (hm : m.Has d Known)
    (h : Machine.Has d Known { m with line } → (x { m with line }).Goes d Known { m with line } Q) :
    (Exec.atLine line x m).Goes d Known m Q :=
  goes_finally (.note _ m m.chain line) (fun mode m' => .note mode m' m'.chain m.line) (h (hm.note _ _))

theorem goes_withFreshChain {x : Exec α} (hm : m.Has d Known)
    (h : Machine.Has d Known { m with chain := .fresh } →
      (x { m with chain := .fresh }).Goes d Known { m with chain := .fresh } Q) :
    (Exec.withFreshChain x m).Goes d Known m Q :=
  goes_finally (.note _ m .fresh m.line) (fun mode m' => .note mode m' m.chain m'.line) (h (hm.note _ _))

theorem goes_wrapping {construct : Option String} {x : Exec α} (h : (x m).Goes d Known m Q) :
    (Exec.wrapping construct x m).Goes d Known m Q := by
  unfold Exec.wrapping
  split
  · next e m' c hr =>
    rw [hr] at h
    exact Relation.ReflTransGen.tail h (.wrap m' e c)
  · exact h

theorem failure_capture (m : Machine) : ∃ trace, m.capture.failure = some trace := by
  cases hf : m.failure with
  | some trace => exact ⟨trace, by simp [Machine.capture,hf]⟩
  | none => exact ⟨m.stack.trace, by simp [Machine.capture,hf]⟩

theorem goes_withFrame {f : CallFrame} {x : Exec α} (hm : m.Has d Known)
    (h : ∀ stack, Machine.Has d Known { m with stack } →
      (x { m with stack }).Goes d Known { m with stack } Q) :
    (Exec.withFrame f x m).Goes d Known m Q := by
  unfold Exec.withFrame
  cases hs : m.stack.push f with
  | error e => exact (Relation.ReflTransGen.single (.raise m e)).tail (.capture _ e)
  | ok stack =>
    have hx := h stack { hm with }
    refine .after (.single (.call hs)) ?_
    dsimp only
    cases hr : x { m with stack } with
    | ok a m' =>
      rw [hr] at hx
      exact ⟨hx.1.tail (.back m'), hx.2⟩
    | error e m' =>
      rw [hr] at hx
      obtain ⟨trace, htrace⟩ := failure_capture m'
      exact (Relation.ReflTransGen.tail hx (.capture m' e)).tail (.unwind e htrace)
    | outOfFuel m' => rwa [hr] at hx

end Exec

end LineScript
