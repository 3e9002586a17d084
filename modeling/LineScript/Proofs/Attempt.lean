import LineScript.Proofs.Branching
import LineScript.Proofs.Trace
set_option autoImplicit false

/-!
Attempts and their handlers. An error on its way out takes frames away and nothing else, so what an attempt
catches finds every value and every line of output as it was where the error arose. The message is kept in
the chain of the body that the attempt stands in; the first handler behind it takes the message out before
its own body runs, and the frame that shows it goes with that body.
-/

namespace LineScript

namespace Memory

/-- The slot that each frame has for a name, innermost first, and that of the global bindings. -/
def slotsFor (name : String) (s : Memory) : List (Option Slot) :=
  s.frames.map (fun f => (Bindings.get? f.bindings name).map Binding.slot) ++
    [(Bindings.get? s.globals name).map Binding.slot]

theorem slotsFor_eq (name : String) (s : Memory) :
    s.slotsFor name = s.layout.map fun f => f.2.find? fun slot => slot.name == name := by
  simp [slotsFor,layout,Bindings.slot_get?,Function.comp_def]

end Memory

namespace Machine

/-- The machine with another message in the chain. -/
def withPending (message : Option String) (m : Machine) : Machine :=
  { m with chain := { m.chain with pending := message } }

/-- The machine in the body of a handler. -/
def handling (message : String) (line : Nat) (m : Machine) : Machine :=
  ((m.withPending none).onMemory fun s => s.push .block).onMemory fun s =>
    s.bind ⟨"exception", .text message, .plain .string, true, line⟩

theorem memory_capture (m : Machine) : m.capture.memory = m.memory := by
  unfold capture
  split
  · rfl
  · rfl

theorem get?_handling (message : String) (line : Nat) (m : Machine) :
    (m.handling message line).memory.get? "exception" =
      some ⟨"exception", .text message, .plain .string, true, line⟩ := by
  simp [handling,onMemory,setMemory,Memory.push,Memory.bind,Memory.setTop,Memory.top,Bindings.put,
    Memory.get?,Memory.find,Bindings.get?]

/-- Code that runs on the first machine comes by the second one. -/
def Reaches (m m' : Machine) : Prop :=
  Steps m.declared (fun _ => True) ⟨.running, m⟩ ⟨.running, m'⟩

/-- An error that arose on the machine `m` has taken frames away and changed nothing else. -/
structure Unwound (m m' : Machine) : Prop where
  output : m'.output = m.output
  globals : m'.memory.globals = m.memory.globals
  heap : m'.memory.heap = m.memory.heap
  frames : m'.memory.frames <:+ m.memory.frames

namespace Unwound

theorem refl (m : Machine) : m.Unwound m := ⟨rfl, rfl, rfl, List.suffix_refl _⟩

theorem trans {m m' m'' : Machine} (h : m.Unwound m') (h' : m'.Unwound m'') : m.Unwound m'' where
  output := h'.output.trans h.output
  globals := h'.globals.trans h.globals
  heap := h'.heap.trans h.heap
  frames := h'.frames.trans h.frames

theorem of_eq {m m' : Machine} (hmemory : m'.memory = m.memory) (houtput : m'.output = m.output) :
    m.Unwound m' := by
  refine ⟨houtput, ?_, ?_, ?_⟩ <;> simp [hmemory]

theorem pop (m : Machine) : m.Unwound (m.onMemory Memory.pop) :=
  ⟨rfl, rfl, rfl, List.drop_suffix 1 _⟩

theorem capture (m : Machine) : m.Unwound m.capture := by
  unfold Machine.capture
  split
  · exact .refl m
  · exact .of_eq rfl rfl

end Unwound

end Machine

variable {d : Declarations} {Known : Class Token → Prop}

/-- A machine on which an error is on its way out is one where it has just arisen, or has less frames than
one before. -/
theorem Step.failing_cases {s : Stage} {e : RuntimeError} {m : Machine}
    (h : Step d Known s ⟨.failing e, m⟩) :
    (∃ n, s = ⟨.running, n⟩ ∧ m = n.raise e) ∨
    ∃ e' n constructs, s = ⟨.failing e', n⟩ ∧ e = e'.wrapAll constructs ∧ m.raised = n.raised ∧
      n.Unwound m := by
  cases h with
  | raise n e => exact .inl ⟨n, rfl, rfl⟩
  | leave mode n => exact .inr ⟨e, n, [], rfl, rfl, rfl, .pop n⟩
  | capture n e => exact .inr ⟨e, n, [], rfl, rfl, n.raised_capture, .capture n⟩
  | @unwind n trace e hf => exact .inr ⟨e, n, [], rfl, rfl, rfl, .of_eq rfl rfl⟩
  | wrap n e construct => exact .inr ⟨e, m, [construct], rfl, rfl, rfl, .refl m⟩
  | note mode n chain line => exact .inr ⟨e, n, [], rfl, rfl, rfl, .of_eq rfl rfl⟩

/-- The machine on which the error arose is one that the code came by, and all that is lost on the way out
are frames. -/
theorem Steps.unwound {m m' : Machine} {e : RuntimeError}
    (h : Steps d Known ⟨.running, m⟩ ⟨.failing e, m'⟩) :
    ∃ p cause constructs, Steps d Known ⟨.running, m⟩ ⟨.running, p⟩ ∧ e = cause.wrapAll constructs ∧
      m'.raised = ⟨cause, p.stack⟩ :: p.raised ∧ p.Unwound m' := by
  generalize ht : (⟨.failing e, m'⟩ : Stage) = t at h
  induction h generalizing e m' with
  | refl => cases ht
  | @tail s t hsteps hstep ih =>
    subst ht
    rcases hstep.failing_cases with ⟨n, rfl, rfl⟩ | ⟨e', n, constructs, rfl, rfl, hraised, hunwound⟩
    · exact ⟨n, e, [], hsteps, rfl, rfl, .of_eq rfl rfl⟩
    · obtain ⟨p, cause, inner, hp, rfl, hcause, hearlier⟩ := ih rfl
      refine ⟨p, cause, inner ++ constructs, hp, ?_, hraised.trans hcause, hearlier.trans hunwound⟩
      simp [RuntimeError.wrapAll]

/-- What an attempt makes of its body: an error is caught and its message kept. -/
def Outcome.caught : Outcome Flow → Outcome Flow
  | .error e m => .ok (.normal .empty) { m.withPending (some e.message) with failure := none }
  | o => o

theorem Outcome.memory_of_closeLine {o : Outcome Flow} {row : Row Token} {outer : Nat} {m : Machine}
    (h : (o.closeLine row outer).Leaves m) : ∃ n, o.Leaves n ∧ m.memory = n.memory := by
  cases o with
  | ok flow n =>
    have hm : m = { n with stack := n.stack.pop, line := outer } := by
      simpa [Leaves,closeLine,eq_comm] using h
    exact ⟨n, .inl ⟨flow, rfl⟩, by rw [hm]⟩
  | error e n =>
    have hm : m = { n.capture with stack := n.capture.stack.pop, line := outer } := by
      simpa [Leaves,closeLine,eq_comm] using h
    exact ⟨n, .inr ⟨e, rfl⟩, by rw [hm,← n.memory_capture]⟩
  | outOfFuel n => simp [Leaves,closeLine] at h

theorem Exec.leaves_finally {α : Type} {x : Exec α} {f : Machine → Machine} {m m' : Machine}
    (h : (Exec.finally_ x f m).Leaves m') : ∃ n, (x m).Leaves n ∧ m' = f n := by
  unfold Exec.finally_ at h
  cases hr : x m with
  | ok a n => exact ⟨n, .inl ⟨a, rfl⟩, by simpa [hr,Outcome.Leaves,eq_comm] using h⟩
  | error e n => exact ⟨n, .inr ⟨e, rfl⟩, by simpa [hr,Outcome.Leaves,eq_comm] using h⟩
  | outOfFuel n => simp [hr,Outcome.Leaves] at h

namespace Calls

section equations

variable (k : Calls) {s : Statement Token}

theorem runStatement_attempt (hkind : s.kind = .attempt) (m : Machine) :
    k.runStatement s m = (k.runBlock s.body (m.withPending none)).caught := by
  simp only [runStatement,hkind]
  change (match k.runBlock s.body (m.withPending none) with
    | .error e m => _
    | r => r) = _
  cases k.runBlock s.body (m.withPending none) with
  | ok flow n => rfl
  | error e n => rfl
  | outOfFuel n => rfl

/-- Without a message a handler does nothing at all. -/
theorem runStatement_rescue_of_none (hkind : s.kind = .rescue) {m : Machine}
    (hpending : m.chain.pending = none) : k.runStatement s m = .ok (.normal .empty) m := by
  simp only [runStatement,hkind,rescue,Exec.bind_apply,Exec.bind,Exec.read,hpending]
  rfl

/-- With a message its body runs, in a frame that goes with it. -/
theorem runStatement_rescue_of_some (hkind : s.kind = .rescue) {m : Machine} {message : String}
    (hpending : m.chain.pending = some message) :
    k.runStatement s m = Exec.finally_ (k.body s.body) (fun n => n.onMemory Memory.pop)
      (m.handling message s.line) := by
  simp only [runStatement,hkind,rescue,Exec.bind_apply,Exec.bind,Exec.read,hpending]
  rfl

theorem runLine_of_statement {row : Row Token} (hs : row.statement? = some s) (m : Machine) :
    k.runLine row m = (k.runStatement s (m.openLine row)).closeLine row m.line := by
  rw [runLine_eq,k.dispatch_of_statement hs]

theorem runLine_rescue_of_none {row : Row Token} (hs : row.statement? = some s) (hkind : s.kind = .rescue)
    {m : Machine} (hpending : m.chain.pending = none) : k.runLine row m = .ok (.normal .empty) m := by
  have hinside : (m.openLine row).chain.pending = none := hpending
  rw [k.runLine_of_statement hs,k.runStatement_rescue_of_none hkind hinside,closeLine_openLine]

end equations

section chain

variable {fuel : Nat} {rows : List (Row Token)} {m m' : Machine}

/-- A body has a chain of its own. -/
theorem chain_of_body (h : ((Calls.upTo fuel).body rows m).Leaves m') : m'.chain = m.chain := by
  cases fuel with
  | zero =>
    have hend : (Calls.upTo 0).body rows m = .outOfFuel m := rfl
    simp [hend,Outcome.Leaves] at h
  | succ fuel =>
    obtain ⟨n, -, rfl⟩ := Exec.leaves_finally h
    rfl

theorem chain_of_handling {message : String} {line : Nat}
    (h : (Exec.finally_ ((Calls.upTo fuel).body rows) (fun n => n.onMemory Memory.pop)
      (m.handling message line)).Leaves m') : m'.chain = { m.chain with pending := none } := by
  obtain ⟨n, hn, rfl⟩ := Exec.leaves_finally h
  exact chain_of_body hn

end chain

section attempts

variable {fuel : Nat} {row : Row Token} {s : Statement Token} {m n : Machine}

/-- Whatever an attempt or a handler does is done in frames of its own. -/
theorem layout_of_runLine (hs : row.statement? = some s) (hkind : s.kind = .attempt ∨ s.kind = .rescue)
    {m' : Machine} (h : ((Calls.upTo fuel).runLine row m).Leaves m') :
    m'.memory.layout = m.memory.layout := by
  rw [runLine_of_statement _ hs] at h
  obtain ⟨n, hn, hmemory⟩ := Outcome.memory_of_closeLine h
  have hran : (m.openLine row).Ran .enclosed n := by
    rcases hkind with hkind | hkind
    · simp only [runStatement,hkind] at hn
      exact ((Calls.sound_upTo fuel).attempt _ s.body).ran hn
    · simp only [runStatement,hkind] at hn
      exact ((Calls.sound_upTo fuel).rescue _ s).ran hn
  rw [hmemory]
  exact hran.path.layout_eq

/-- The body of an attempt ends without an error: so does the line, and no message is kept. -/
theorem runLine_attempt_of_ok (hs : row.statement? = some s) (hkind : s.kind = .attempt) {flow : Flow}
    (h : (Calls.upTo fuel).runBlock s.body ((m.openLine row).withPending none) = .ok flow n) :
    ∃ m', (Calls.upTo fuel).runLine row m = .ok flow m' ∧ m'.chain = { m.chain with pending := none } ∧
      m'.memory = n.memory ∧ m'.output = n.output := by
  rw [runLine_of_statement _ hs,runStatement_attempt _ hkind,h]
  exact ⟨_, rfl, chain_of_runBlock (.inl ⟨flow, h⟩), rfl, rfl⟩

/-- The body of an attempt fails: the line ends as if it were empty and keeps the message. -/
theorem runLine_attempt_of_error (hs : row.statement? = some s) (hkind : s.kind = .attempt)
    {e : RuntimeError}
    (h : (Calls.upTo fuel).runBlock s.body ((m.openLine row).withPending none) = .error e n) :
    ∃ m', (Calls.upTo fuel).runLine row m = .ok (.normal .empty) m' ∧
      m'.chain = { m.chain with pending := some e.message } ∧ m'.failure = none ∧
      m'.raised = n.raised ∧ n.Unwound m' := by
  have hchain : n.chain = { m.chain with pending := none } := chain_of_runBlock (.inr ⟨e, h⟩)
  rw [runLine_of_statement _ hs,runStatement_attempt _ hkind,h]
  refine ⟨_, rfl, ?_, rfl, rfl, .of_eq rfl rfl⟩
  simp [Machine.withPending,hchain]

/-- Of what the body did before it failed, everything is there. -/
theorem unwound_of_runBlock {rows : List (Row Token)} {e : RuntimeError}
    (h : (Calls.upTo fuel).runBlock rows m = .error e n) :
    ∃ p cause constructs, m.Reaches p ∧ e = cause.wrapAll constructs ∧
      n.raised = ⟨cause, p.stack⟩ :: p.raised ∧ p.Unwound n := by
  have hgoes := (Calls.stepwise_upTo (fun _ _ => trivial) fuel).runBlock m.has_any rows
  rw [h] at hgoes
  exact Steps.unwound hgoes

end attempts

/-- A method that calls itself for ever, called inside of an attempt with two handlers. -/
def overflowingSource : String :=
  "method again\nagain\nundefined x => 0\ntry \x7b\nx => 1\nagain\n\x7d\nfail : x => exception\nfail : x => 2"

end Calls

end LineScript
