import LineScript.RuntimeError
set_option autoImplicit false

/-!
The call stack. Every line, method and host call that runs has a frame on it, and an error is reported
with the frames on the stack where it arose. Only methods count against the depth limit.
-/

namespace LineScript

inductive CallKind where
  | line
  | method
  | host
  deriving DecidableEq, Repr

structure CallFrame where
  kind : CallKind
  text : String
  file : String
  line : Nat
  deriving DecidableEq, Repr

def CallFrame.render (f : CallFrame) : String :=
  match f.kind with
  | .line =>
    "codeline: \"" ++ f.text ++ "\", file: \"" ++ f.file ++ "\", line: " ++ toString f.line
  | .method => "method: " ++ f.text ++ ", file: " ++ f.file ++ ", line: " ++ toString f.line
  | .host => "host-method: \"" ++ f.text ++ "\", file: " ++ f.file ++ ", line: " ++ toString f.line

/-- Frames are kept innermost first. -/
structure CallStack where
  frames : List CallFrame
  methodDepth : Nat
  maxDepth : Nat
  deriving DecidableEq, Repr

namespace CallStack

def defaultDepth : Nat := 256

def new (maxDepth : Nat) : CallStack := ⟨[], 0, maxDepth⟩

def push (s : CallStack) (f : CallFrame) : Except RuntimeError CallStack :=
  if f.kind = .method then
    if s.maxDepth ≤ s.methodDepth then .error (.stackOverflow s.maxDepth)
    else .ok { s with frames := f :: s.frames, methodDepth := s.methodDepth + 1 }
  else .ok { s with frames := f :: s.frames }

def top? (s : CallStack) : Option CallFrame := s.frames.head?

def pop (s : CallStack) : CallStack :=
  match s.frames with
  | [] => s
  | f :: fs =>
    { s with
      frames := fs
      methodDepth := if f.kind = .method then s.methodDepth - 1 else s.methodDepth }

def depth (s : CallStack) : Nat := s.frames.length

/-- The frames as text, innermost first. -/
def trace (s : CallStack) : List String := s.frames.map CallFrame.render

def clear (s : CallStack) : CallStack := { s with frames := [], methodDepth := 0 }

end CallStack

end LineScript
