import LineScript.Machine.Typing
import LineScript.Proofs.Memory.Writes
set_option autoImplicit false

/-!
The instances that are made while code runs. A machine notes each one with what made it and with the
instance whose method was running; `Machine.Bears` says what an action may add to these notes.
-/

namespace LineScript

namespace Declarations

def Declares (d : Declarations) (c : Class Token) : Prop := ∃ name, d.classes.get? name = some c

/-- An instance of the class may be made inside of a method of that instance, if there is one: the class is
not static, and the instance is of one of the types that it must be made inside of, if there are any. -/
def Permits (d : Declarations) (inside : Option Reference) (c : Class Token) : Prop :=
  c.isStatic = false ∧
    (c.insideOf = [] ∨ ∃ r, inside = some r ∧ ∃ t ∈ c.insideOf, d.satisfies r.ofClass t = true)

instance (d : Declarations) (inside : Option Reference) (c : Class Token) :
    Decidable (d.Permits inside c) :=
  match inside with
  | none => decidable_of_iff (c.isStatic = false ∧ c.insideOf = []) (by simp [Permits])
  | some r =>
    decidable_of_iff
      (c.isStatic = false ∧ (c.insideOf = [] ∨ ∃ t ∈ c.insideOf, d.satisfies r.ofClass t = true))
      (by simp [Permits])

/-- A property of a declared class has a default that is read as the initialiser of an instance of the
class. -/
def Defaulted (d : Declarations) (c : Class Token) : Prop :=
  ∃ owner, d.Declares owner ∧ ∃ p ∈ owner.properties, p.default.isSome ∧
    c.typeOf = none ∧ ∃ name, p.type.className? = some name ∧ d.classes.get? name = some c

theorem Defaulted.declares {d : Declarations} {c : Class Token} (h : d.Defaulted c) : d.Declares c := by
  obtain ⟨_, _, _, _, _, _, name, _, hc⟩ := h
  exact ⟨name, hc⟩

end Declarations

/-- What is known of an instance by what made it. -/
def Birth.Lawful (d : Declarations) (b : Birth) : Prop :=
  match b.route with
  | .named => d.Permits b.inside b.ofClass
  | .byDefault => d.Defaulted b.ofClass
  | .byWatch => d.Declares b.ofClass

namespace Memory

theorem currentInstance?_eq (s : Memory) :
    s.currentInstance? = (s.layout.map Prod.fst).findSome? fun kind =>
      match kind with
      | some (.ofInstance r) => some r
      | _ => none := by
  obtain ⟨frames, globals, heap⟩ := s
  induction frames with
  | nil => rfl
  | cons f fs ih =>
    obtain ⟨kind, bindings⟩ := f
    cases kind with
    | ofInstance r => rfl
    | _ => exact ih

/-- New slots do not change whose method is running. -/
theorem currentInstance?_of_grows {s t : Memory} (h : Grows s.layout t.layout) :
    t.currentInstance? = s.currentInstance? := by
  obtain ⟨_, _, _, _, hs, ht⟩ := h
  rw [currentInstance?_eq,currentInstance?_eq,hs,ht]
  rfl

theorem size_of_declare {s t : Memory} {b : Binding} (h : s.declare b = .ok t) :
    t.heap.size = s.heap.size := by
  rw [bind_of_declare h,bind,heap_setTop]

theorem size_of_assign {s t : Memory} {name : String} {v : Value} (h : s.assign name v = .ok t) :
    t.heap.size = s.heap.size := (writes_of_assign h).size_heap

end Memory

namespace Machine

theorem permits_of_checkInside {m : Machine} {c : Class Token} {u : Unit} (hc : ¬c.isStatic = true)
    (h : m.checkInside c = .ok u) : m.declared.Permits m.memory.currentInstance? c := by
  refine ⟨by simpa using hc, ?_⟩
  unfold checkInside at h
  dsimp only at h
  split at h
  · next hok =>
    rcases Bool.or_eq_true_iff.1 hok with hnil | hin
    · exact .inl (List.isEmpty_iff.1 hnil)
    · cases hr : m.memory.currentInstance? with
      | none => simp [hr] at hin
      | some r => exact .inr ⟨r, rfl, by simpa [hr] using hin⟩
  · cases h

/-- What running code adds to the notes: one for each instance that the second memory has more, each of an
instance made in the way that its class allows. -/
def Bears (d : Declarations) (m m' : Machine) : Prop :=
  ∃ made, m'.births = made ++ m.births ∧
    m'.memory.heap.size = made.length + m.memory.heap.size ∧ ∀ b ∈ made, b.Lawful d

namespace Bears

variable {d : Declarations} {m m' m'' : Machine}

theorem refl (d : Declarations) (m : Machine) : m.Bears d m := ⟨[], rfl, by simp, by simp⟩

theorem trans (h : m.Bears d m') (h' : m'.Bears d m'') : m.Bears d m'' := by
  obtain ⟨made, hb, hs, hl⟩ := h
  obtain ⟨made', hb', hs', hl'⟩ := h'
  refine ⟨made' ++ made, by rw [hb',hb,List.append_assoc], by simp; omega, fun b hmem => ?_⟩
  rcases List.mem_append.1 hmem with hmem | hmem
  · exact hl' b hmem
  · exact hl b hmem

theorem setMemory (h : m.Bears d m') {s : Memory} (hs : s.heap.size = m'.memory.heap.size) :
    m.Bears d (m'.setMemory s) := by
  obtain ⟨made, hb, hsize, hl⟩ := h
  exact ⟨made, hb, hs.trans hsize, hl⟩

theorem allocate {route : Route} {c : Class Token}
    (hlaw : Birth.Lawful d ⟨route, c, m.memory.currentInstance?⟩) (bs : List Binding) :
    m.Bears d (m.allocate route c bs).2 := by
  refine ⟨[⟨route, c, m.memory.currentInstance?⟩], rfl, ?_, by simpa using hlaw⟩
  simp [Machine.allocate,Machine.setMemory,Memory.allocate,Nat.add_comm]

end Bears

end Machine

end LineScript
