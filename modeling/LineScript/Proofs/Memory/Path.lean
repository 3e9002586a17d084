import LineScript.Machine.Call
import LineScript.Proofs.Memory.Writes
set_option autoImplicit false

/-!
What running code can do to the memory, said once. A path is a sequence of frames pushed and popped,
bindings made and values written, each with what was checked before the write. Facts about all runs are
proved by induction over paths; that runs follow paths is proved for every action of the machine.
-/

namespace LineScript

/-- The name is not that of a method, of a class or of the binding that handlers see. -/
def Declarations.Free (d : Declarations) (name : String) : Prop :=
  d.methods.get? name = none ∧ d.classes.get? name = none ∧ name ≠ "exception"

/-- What a property may hold when its instance is made: nothing, a value checked against its type, or an
instance of the class that its type names. -/
def Declarations.Initial (d : Declarations) (type : DataType) (v : Value) : Prop :=
  v = .empty ∨ (∃ u, d.conform type u = .ok v) ∨
    ∃ tag name r, type = .ofClass tag name ∧ d.classes.get? name = some r.ofClass ∧ v = .instance r

/-- The code between two looks at the memory: code that runs in frames of its own, an expression, which
may declare a name that is not visible, or lines, which may declare any. -/
inductive Stretch where
  | enclosed
  | expression
  | lines

namespace Memory

inductive Path (d : Declarations) : Stretch → Memory → Memory → Prop where
  | refl {w : Stretch} (s : Memory) : Path d w s s
  | trans {w : Stretch} {s t u : Memory} : Path d w s t → Path d w t u → Path d w s u
  | expression {s t : Memory} : Path d .enclosed s t → Path d .expression s t
  | lines {s t : Memory} : Path d .expression s t → Path d .lines s t
  /-- A frame for the time of some lines. -/
  | scope {s t : Memory} (kind : FrameKind) :
    Path d .lines (s.push kind) t → Path d .enclosed s t.pop
  /-- The parameters of a method, in the frame of the call. -/
  | params {s : Memory} {method : Method Token} {values : List Value} {bs : List Binding} :
    Calls.bindParams d method method.params values = .ok bs →
    Path d .lines (s.push .call) (bs.foldl bind (s.push .call))
  /-- The message of an error, in the frame of its handler. -/
  | handler {s : Memory} (message : String) (line : Nat) :
    Path d .lines (s.push .block)
      ((s.push .block).bind ⟨"exception", .text message, .plain .string, true, line⟩)
  /-- A new variable. Its name may be visible in an outer frame. -/
  | declare {s t u : Memory} {name : String} {v : Value} {line : Nat} :
    d.Free name → Path d .expression s t → t.declare ⟨name, v, .untyped, true, line⟩ = .ok u →
    Path d .lines s u
  /-- A new instance under a name that is not visible. -/
  | new {s t u : Memory} {name : String} {r : Reference} {line : Nat} :
    d.Free name → s.get? name = none → Path d .expression s t →
    t.declare ⟨name, .instance r, r.ofClass.instanceType, true, line⟩ = .ok u →
    Path d .expression s u
  /-- A new instance in the place of one of its class. -/
  | renew {s t u : Memory} {name : String} {b : Binding} {old r : Reference} :
    s.get? name = some b → b.value = .instance old → old.ofClass.name = r.ofClass.name →
    Path d .expression s t → t.assign name (.instance r) = .ok u → Path d .expression s u
  /-- An assignment. The name is looked up before the expression is evaluated. -/
  | assign {s t u : Memory} {name : String} {b : Binding} {v w : Value} :
    s.get? name = some b → Path d .expression s t → d.conform b.type v = .ok w →
    t.assign name w = .ok u → Path d .expression s u
  | allocate {s : Memory} (c : Class Token) {bs : List Binding} :
    (∀ b ∈ bs, d.Initial b.type b.value) → Path d .expression s (s.allocate c bs).2
  /-- An entry of an initialiser. The property is looked up before the expression is evaluated. -/
  | property {s t : Memory} {r : Reference} {name : String} {b : Binding} {v w : Value} :
    Bindings.get? (s.properties r) name = some b → Path d .expression s t →
    d.conform b.type v = .ok w → Path d .expression s (t.setProperty r name w)

/-- The memory `t` comes up on the way of code that starts with `s`, possibly inside of frames that are
still open. -/
inductive Passes (d : Declarations) : Memory → Memory → Prop where
  | here {s t : Memory} : Path d .lines s t → Passes d s t
  | inside {s t u : Memory} (kind : FrameKind) :
    Path d .lines s t → Passes d (t.push kind) u → Passes d s u

variable {d : Declarations}

theorem Passes.after {s t u : Memory} (h : Path d .lines s t) (h' : Passes d t u) : Passes d s u := by
  cases h' with
  | here hp => exact .here (h.trans hp)
  | inside kind hp hi => exact .inside kind (h.trans hp) hi

theorem Path.toLines {w : Stretch} {s t : Memory} (h : Path d w s t) : Path d .lines s t := by
  cases w with
  | enclosed => exact .lines (.expression h)
  | expression => exact .lines h
  | lines => exact h

/-- Binding into a new frame only fills that frame. -/
theorem foldl_bind_push (s : Memory) (kind : FrameKind) (bs : List Binding) :
    ∃ cs, bs.foldl bind (s.push kind) = (s.push kind).setTop cs := by
  suffices h : ∀ cs, ∃ cs', bs.foldl bind ((s.push kind).setTop cs) = (s.push kind).setTop cs' from
    h []
  induction bs with
  | nil => exact fun cs => ⟨cs, rfl⟩
  | cons b bs ih => exact fun cs => ih (Bindings.put cs b)

/-- Along every path the frames stay and only the innermost one gets new slots, at its end. -/
theorem Path.grows {w : Stretch} {s t : Memory} (h : Path d w s t) : Grows s.layout t.layout := by
  induction h with
  | refl s => exact Grows.refl s
  | trans _ _ ih ih' => exact ih.trans ih'
  | expression _ ih => exact ih
  | lines _ ih => exact ih
  | @scope s t kind _ ih => exact layout_pop_of_grows ih ▸ Grows.refl s
  | @params s _ _ bs _ =>
    obtain ⟨cs, hc⟩ := foldl_bind_push s .call bs
    exact hc ▸ grows_push_setTop s .call cs
  | @handler s _ _ => exact grows_push_setTop s .block _
  | declare _ _ hd ih => exact ih.trans (grows_declare hd)
  | new _ _ _ hd ih => exact ih.trans (grows_declare hd)
  | renew _ _ _ _ ha ih => exact layout_assign ha ▸ ih
  | assign _ _ _ ha ih => exact layout_assign ha ▸ ih
  | @allocate s _ _ _ => exact Grows.refl s
  | property _ _ _ ih => exact ih

theorem Path.keepsInstances {w : Stretch} {s t : Memory} (h : Path d w s t) : KeepsInstances s t := by
  induction h with
  | refl s => exact .of_heap rfl
  | trans _ _ ih ih' => exact ih.trans ih'
  | expression _ ih => exact ih
  | lines _ ih => exact ih
  | scope _ _ ih => exact ih
  | @params s _ _ bs _ =>
    obtain ⟨cs, hc⟩ := foldl_bind_push s .call bs
    exact .of_heap (hc ▸ heap_setTop _ cs)
  | handler _ _ => exact .of_heap (heap_setTop _ _)
  | declare _ _ hd ih => exact ih.trans (.of_heap (bind_of_declare hd ▸ heap_setTop _ _))
  | new _ _ _ hd ih => exact ih.trans (.of_heap (bind_of_declare hd ▸ heap_setTop _ _))
  | renew _ _ _ _ ha ih => exact ih.trans (keepsInstances_assign ha)
  | assign _ _ _ ha ih => exact ih.trans (keepsInstances_assign ha)
  | @allocate s c bs _ => exact keepsInstances_allocate s c bs
  | property _ _ _ ih => exact ih.trans (keepsInstances_setProperty _ _ _ _)

/-- Code that runs in frames of its own leaves the layout as it was. -/
theorem Path.layout_eq {s t : Memory} (h : Path d .enclosed s t) : t.layout = s.layout := by
  generalize hw : Stretch.enclosed = w at h
  induction h with
  | refl s => rfl
  | trans _ _ ih ih' => exact (ih' hw).trans (ih hw)
  | scope kind hp _ => exact layout_pop_of_grows hp.grows
  | _ => cases hw

/-- While an expression is evaluated every visible name keeps its slot: what is declared meanwhile is
either gone with its frame or had a name that was not visible. -/
theorem Path.keepsNames {s t : Memory} (h : Path d .expression s t) : KeepsNames s t := by
  generalize hw : Stretch.expression = w at h
  induction h with
  | refl s => exact .refl s
  | trans _ _ ih ih' => exact (ih hw).trans (ih' hw)
  | expression hp _ => exact .of_layout hp.layout_eq hp.keepsInstances
  | @new s t u name r line _ hn _ hd ih =>
    obtain rfl := bind_of_declare hd
    intro other slot hs
    have hne : other ≠ name := by
      rintro rfl
      simp [slot?,hn] at hs
    rw [slot?,get?_bind_of_ne t hne]
    exact ih hw other slot hs
  | renew _ _ _ _ ha ih =>
    exact (ih hw).trans (.of_layout (layout_assign ha) (keepsInstances_assign ha))
  | assign _ _ _ ha ih =>
    exact (ih hw).trans (.of_layout (layout_assign ha) (keepsInstances_assign ha))
  | @allocate s c bs _ => exact .of_layout rfl (keepsInstances_allocate s c bs)
  | property _ _ _ ih =>
    exact (ih hw).trans (.of_layout rfl (keepsInstances_setProperty _ _ _ _))
  | _ => cases hw

end Memory

end LineScript
