import LineScript.Value
set_option autoImplicit false

/-!
Variables. Frames are kept innermost first above the global bindings. A look-up goes outwards; a frame of
an instance shows the instance's properties and ends the look-up, so a method of an instance does not see
the variables of its caller.
-/

namespace LineScript

namespace Bindings

/-- The binding of a name; names are unique in a list of bindings. -/
def get? (bs : List Binding) (name : String) : Option Binding := bs.find? fun b => b.name == name

/-- Adds a binding at the end, or puts it in the place of the one with its name. -/
def put : List Binding → Binding → List Binding
  | [], b => [b]
  | c :: bs, b => if c.name = b.name then b :: bs else c :: put bs b

/-- Gives the binding of a name another value. -/
def setValue : List Binding → String → Value → List Binding
  | [], _, _ => []
  | c :: bs, name, v =>
    if c.name = name then { c with value := v } :: bs else c :: setValue bs name v

end Bindings

inductive FrameKind where
  | call
  | block
  | ofInstance (r : Reference)

structure Frame where
  kind : FrameKind
  bindings : List Binding

/-- The frames above the global bindings, innermost first, and the properties of every instance. -/
structure Memory where
  frames : List Frame
  globals : List Binding
  heap : Array (List Binding)

namespace Memory

def empty : Memory := ⟨[], [], #[]⟩

instance : Inhabited Memory := ⟨empty⟩

def depth (m : Memory) : Nat := m.frames.length

def push (m : Memory) (kind : FrameKind) : Memory := { m with frames := ⟨kind, []⟩ :: m.frames }

/-- Drops the innermost frame. The global bindings are no frame and stay. -/
def pop (m : Memory) : Memory := { m with frames := m.frames.drop 1 }

def pop? (m : Memory) : Except RuntimeError Memory :=
  if m.frames.isEmpty then .error (.custom "Cannot pop global scope") else .ok m.pop

def properties (m : Memory) (r : Reference) : List Binding := m.heap[r.id]?.getD []

/-- The nearest visible binding of a name. -/
def find (heap : Array (List Binding)) (globals : List Binding) (name : String) :
    List Frame → Option Binding
  | [] => Bindings.get? globals name
  | f :: fs =>
    match Bindings.get? f.bindings name with
    | some b => some b
    | none =>
      match f.kind with
      | .ofInstance r => Bindings.get? (heap[r.id]?.getD []) name
      | _ => find heap globals name fs

def get? (m : Memory) (name : String) : Option Binding := find m.heap m.globals name m.frames

/-- The bindings of the innermost frame, or the global ones. -/
def top (m : Memory) : List Binding :=
  match m.frames with
  | [] => m.globals
  | f :: _ => f.bindings

def setTop (m : Memory) (bs : List Binding) : Memory :=
  match m.frames with
  | [] => { m with globals := bs }
  | f :: fs => { m with frames := { f with bindings := bs } :: fs }

/-- Adds a binding to the innermost frame, replacing one of its name. -/
def bind (m : Memory) (b : Binding) : Memory := m.setTop (Bindings.put m.top b)

/-- Adds a binding of a new name to the innermost frame. -/
def declare (m : Memory) (b : Binding) : Except RuntimeError Memory :=
  if (Bindings.get? m.top b.name).isSome then
    .error (.declaration ("'" ++ b.name ++ "' is already declared in this scope"))
  else .ok (m.bind b)

def setProperties (m : Memory) (r : Reference) (bs : List Binding) : Memory :=
  { m with heap := m.heap.setIfInBounds r.id bs }

/-- Gives a property of an instance another value. -/
def setProperty (m : Memory) (r : Reference) (name : String) (v : Value) : Memory :=
  m.setProperties r (Bindings.setValue (m.properties r) name v)

/-- Where the nearest visible binding of a name is. -/
inductive Place where
  | frame (index : Nat)
  | global
  | property (r : Reference)

def locate (heap : Array (List Binding)) (globals : List Binding) (name : String) :
    Nat → List Frame → Option Place
  | _, [] => if (Bindings.get? globals name).isSome then some .global else none
  | n, f :: fs =>
    if (Bindings.get? f.bindings name).isSome then some (.frame n)
    else
      match f.kind with
      | .ofInstance r =>
        if (Bindings.get? (heap[r.id]?.getD []) name).isSome then some (.property r) else none
      | _ => locate heap globals name (n + 1) fs

/-- Gives the nearest visible binding of a name another value. -/
def assign (m : Memory) (name : String) (v : Value) : Except RuntimeError Memory :=
  match locate m.heap m.globals name 0 m.frames with
  | none => .error (.undefined name)
  | some .global => .ok { m with globals := Bindings.setValue m.globals name v }
  | some (.property r) => .ok (m.setProperty r name v)
  | some (.frame n) =>
    .ok { m with
      frames := m.frames.modify n fun f =>
        { f with bindings := Bindings.setValue f.bindings name v } }

/-- The instance whose method is running. -/
def currentInstance? (m : Memory) : Option Reference :=
  m.frames.findSome? fun f =>
    match f.kind with
    | .ofInstance r => some r
    | _ => none

/-- Forgets every variable. -/
def clear (m : Memory) : Memory := { m with frames := [], globals := [] }

/-- Makes an instance with the given properties. -/
def allocate (m : Memory) (c : Class Token) (properties : List Binding) : Reference × Memory :=
  (⟨m.heap.size, c⟩, { m with heap := m.heap.push properties })

/-- The value that an instance of a class standing for a primitive type holds. -/
def primitiveValue (m : Memory) (r : Reference) : Value :=
  let bs := m.properties r
  ((Bindings.get? bs "value").orElse fun _ => Bindings.get? bs "Value").elim .empty Binding.value

end Memory

end LineScript
