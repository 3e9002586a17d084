import LineScript.CallStack
import LineScript.Declarations
import LineScript.Host.Standard
import LineScript.Memory
set_option autoImplicit false

/-!
The running machine and actions on it. An action ends with a value or with an error, and in both cases
with the machine as it was left; running out of fuel is neither, and leaves the machine where it stood.
-/

namespace LineScript

structure Config where
  file : String
  maxDepth : Nat
  deriving DecidableEq, Repr

def Config.standard : Config := ⟨"main", CallStack.defaultDepth⟩

/-- What links the statements of one body: whether the last branch ran, for the branches that may
follow it, and the message of the error that the last attempt caught. -/
structure Chain where
  branchTaken : Bool
  pending : Option String
  deriving DecidableEq, Repr

def Chain.fresh : Chain := ⟨true, none⟩

/-- How a line or body was left. -/
inductive Flow where
  | normal (v : Value)
  | return_ (v : Value)
  | break_
  | yieldBreak

def Flow.value : Flow → Value
  | normal v => v
  | return_ v => v
  | break_ => .empty
  | yieldBreak => .empty

/-- An error that left a top-level line, with the frames on the stack where it arose. -/
structure Reported where
  error : RuntimeError
  trace : List String
  deriving DecidableEq, Repr

def Reported.message (r : Reported) : String :=
  r.error.message ++ ", StackTrace: \n\t" ++ "\n\t".intercalate r.trace

/-- What makes an instance: a name with `new`, the default of a property, or a call bound by a watch
rule. -/
inductive Route where
  | named
  | byDefault
  | byWatch
  deriving DecidableEq, Repr

/-- An instance is made: of which class, and inside of which instance's method. -/
structure Birth where
  route : Route
  ofClass : Class Token
  inside : Option Reference

/-- The body of a method is entered: with which arguments, and with what bound in its frame. -/
structure Entry where
  method : Method Token
  values : List Value
  bindings : List Binding

/-- An error arises: which one, and what is on the call stack. -/
structure Raise where
  error : RuntimeError
  stack : CallStack
  deriving DecidableEq, Repr

/-- `line` is the line being executed, `chain` belongs to the body being executed, and `failure` is the
trace of the error on its way out. `history` holds every memory that the machine has had so far, `births`
how every instance was made, `entries` how every method was entered and `raised` every error that arose, the
latest first; no action reads them. -/
structure Machine where
  config : Config
  declared : Declarations
  host : Host
  memory : Memory
  stack : CallStack
  output : Array String
  errors : Array Reported
  line : Nat
  chain : Chain
  failure : Option (List String)
  history : Memory → Prop
  births : List Birth
  entries : List Entry
  raised : List Raise

/-- Every error that arises is noted here. -/
def Machine.raise (m : Machine) (e : RuntimeError) : Machine :=
  { m with raised := ⟨e, m.stack⟩ :: m.raised }

inductive Outcome (α : Type) where
  | ok (value : α) (machine : Machine)
  | error (e : RuntimeError) (machine : Machine)
  | outOfFuel (machine : Machine)

namespace Outcome

variable {α : Type}

def machine : Outcome α → Machine
  | ok _ m => m
  | error _ m => m
  | outOfFuel m => m

/-- The value of an action that ended with one, and the machine it left. -/
def finished? : Outcome α → Option (α × Machine)
  | ok a m => some (a, m)
  | _ => none

theorem finished?_eq_some_iff {o : Outcome α} {a : α} {m : Machine} :
    o.finished? = some (a, m) ↔ o = ok a m := by
  cases o with
  | ok b n => simp [finished?]
  | error e n => simp [finished?]
  | outOfFuel n => simp [finished?]

end Outcome

def Exec (α : Type) : Type := Machine → Outcome α

namespace Exec

variable {α β : Type}

@[inline]
def pure (a : α) : Exec α := fun m => .ok a m

@[inline]
def bind (x : Exec α) (f : α → Exec β) : Exec β := fun m =>
  match x m with
  | .ok a m => f a m
  | .error e m => .error e m
  | .outOfFuel m => .outOfFuel m

instance : Monad Exec where
  pure := Exec.pure
  bind := Exec.bind

/-- Never finishes. -/
def endless : Exec α := fun m => .outOfFuel m

def fail (e : RuntimeError) : Exec α := fun m => .error e (m.raise e)

@[inline]
def read (f : Machine → α) : Exec α := fun m => .ok (f m) m

@[inline]
def update (f : Machine → Machine) : Exec Unit := fun m => .ok () (f m)

def ofExcept : Except RuntimeError α → Exec α
  | .ok a => fun m => .ok a m
  | .error e => fun m => .error e (m.raise e)

/-- Changes the machine on every way out. -/
@[inline]
def finally_ (x : Exec α) (f : Machine → Machine) : Exec α := fun m =>
  match x m with
  | .ok a m => .ok a (f m)
  | .error e m => .error e (f m)
  | .outOfFuel m => .outOfFuel m

end Exec

namespace Machine

def new (config : Config) (host : Host) : Machine :=
  { config, host
    declared := .empty
    memory := .empty
    stack := .new config.maxDepth
    output := #[]
    errors := #[]
    line := 0
    chain := .fresh
    failure := none
    history := fun s => s = .empty
    births := []
    entries := []
    raised := [] }

/-- Every change of the memory goes through here. -/
def setMemory (m : Machine) (memory : Memory) : Machine :=
  { m with memory, history := fun s => s = memory ∨ m.history s }

def onMemory (m : Machine) (f : Memory → Memory) : Machine := m.setMemory (f m.memory)

/-- Every instance is made here. -/
def allocate (m : Machine) (route : Route) (c : Class Token) (properties : List Binding) :
    Reference × Machine :=
  let (r, memory) := m.memory.allocate c properties
  (r, { m.setMemory memory with births := ⟨route, c, m.memory.currentInstance?⟩ :: m.births })

/-- Every method is entered here, in the frame of the call. -/
def enter (m : Machine) (e : Entry) : Machine :=
  { m.onMemory fun s => e.bindings.foldl Memory.bind s with entries := e :: m.entries }

/-- Keeps the frames on the stack as the trace of an error, unless one is kept already. -/
def capture (m : Machine) : Machine :=
  match m.failure with
  | some _ => m
  | none => { m with failure := some m.stack.trace }

end Machine

namespace Exec

variable {α : Type}

/-- Looks a name up among the variables. -/
def lookup (name : String) : Exec (Option Binding) := read fun m => m.memory.get? name

/-- An operation on the variables that may be refused. -/
def onMemory (f : Memory → Except RuntimeError Memory) : Exec Unit := fun m =>
  match f m.memory with
  | .ok memory => .ok () (m.setMemory memory)
  | .error e => .error e (m.raise e)

/-- Runs with a frame on the call stack. -/
def withFrame (f : CallFrame) (x : Exec α) : Exec α := fun m =>
  match m.stack.push f with
  | .error e => .error e (m.raise e).capture
  | .ok stack =>
    match x { m with stack } with
    | .ok a m => .ok a { m with stack := m.stack.pop }
    | .error e m =>
      let m := m.capture
      .error e { m with stack := m.stack.pop }
    | .outOfFuel m => .outOfFuel m

/-- Runs inside a new frame of variables. -/
def withScope (kind : FrameKind) (x : Exec α) : Exec α := fun m =>
  finally_ x (fun m => m.onMemory Memory.pop) (m.onMemory fun s => s.push kind)

/-- Runs a body: its statements are linked among themselves only. -/
def withFreshChain (x : Exec α) : Exec α := fun m =>
  let outer := m.chain
  finally_ x (fun m => { m with chain := outer }) { m with chain := .fresh }

/-- Runs while the given line is the one being executed. -/
def atLine (line : Nat) (x : Exec α) : Exec α := fun m =>
  let outer := m.line
  finally_ x (fun m => { m with line := outer }) { m with line }

/-- Wraps an error with the construct that it leaves. -/
def wrapping (construct : Option String) (x : Exec α) : Exec α := fun m =>
  match x m, construct with
  | .error e m, some c => .error (e.wrap c) m
  | r, _ => r

end Exec

end LineScript
