import LineScript.Proofs.Machine.Blind
import LineScript.Proofs.Machine.Lines
set_option autoImplicit false

/-!
Isolation. A method of an instance neither reads nor writes the variables of its callers: on machines that
differ in their variables only it ends in the same way, with the same output and the same instances, and
the variables that were there are as they were.
-/

namespace LineScript

namespace Machine

/-- The machines may differ in their variables, and in what no call can read. -/
structure Agrees (m n : Machine) : Prop where
  declared : n.declared = m.declared
  host : n.host = m.host
  heap : n.memory.heap = m.memory.heap
  stack : n.stack = m.stack
  line : n.line = m.line
  output : n.output = m.output

/-- What two calls do that were made on the machines `m` and `n` and left `m'` and `n'`. -/
structure SameEffect (m n m' n' : Machine) : Prop where
  heap : n'.memory.heap = m'.memory.heap
  output : ∃ written, m'.output.toList = m.output.toList ++ written ∧
    n'.output.toList = n.output.toList ++ written
  left : m'.memory.frames = m.memory.frames ∧ m'.memory.globals = m.memory.globals
  right : n'.memory.frames = n.memory.frames ∧ n'.memory.globals = n.memory.globals

/-- All variables of both machines, with no shared frame above them. -/
def shield (m n : Machine) : Shield :=
  ⟨[], (m.memory.frames, m.memory.globals), (n.memory.frames, n.memory.globals)⟩

variable {m n : Machine}

theorem Agrees.alike (h : m.Agrees n) : m.Alike (m.shield n) (fun _ _ => True) n where
  declared := h.declared
  host := h.host
  output := h.output
  line := h.line
  stack := h.stack ▸ .refl _
  chain := trivial
  memory := by
    refine ⟨⟨[], [], m.memory.heap⟩, rfl, rfl, ?_⟩
    rw [← h.heap]
    rfl

theorem Alike.sameEffect {C : Chain → Chain → Prop} {m' n' : Machine} {w : Stretch}
    (h : m'.Alike (m.shield n) C n') (hm : m.Ran w m') (hout : n.output = m.output) :
    m.SameEffect n m' n' := by
  obtain ⟨u, hk, hl, hr⟩ := h.memory
  have hu : u.frames = [] := List.map_eq_nil_iff.1 hk
  obtain ⟨written, hw⟩ := hm.output
  exact {
    heap := h.memory.heap
    output := ⟨written, hw.symm, by rw [h.output,hout,hw]⟩
    left := by simp [hl,Memory.onto,hu,shield]
    right := by simp [hr,Memory.onto,hu,shield] }

end Machine

theorem invoke_isolated (m n : Machine) (h : m.Agrees n) (fuel : Nat) (method : Method Token)
    (r : Reference) (values : List Value) :
    (∃ v m' n', (Calls.upTo fuel).invoke method (some r) values m = .ok v m' ∧
      (Calls.upTo fuel).invoke method (some r) values n = .ok v n' ∧ m.SameEffect n m' n') ∨
    (∃ e m' n', (Calls.upTo fuel).invoke method (some r) values m = .error e m' ∧
      (Calls.upTo fuel).invoke method (some r) values n = .error e n' ∧ m.SameEffect n m' n') ∨
    ∃ m' n', (Calls.upTo fuel).invoke method (some r) values m = .outOfFuel m' ∧
      (Calls.upTo fuel).invoke method (some r) values n = .outOfFuel n' := by
  have hl := (Calls.sound_upTo fuel).invoke m method (some r) values
  have hb := (Calls.blind_upTo fuel).invoke h.alike method (some r) values nofun
  generalize (Calls.upTo fuel).invoke method (some r) values m = o at hl hb
  generalize (Calls.upTo fuel).invoke method (some r) values n = o' at hb
  cases hb with
  | ok v ha => exact .inl ⟨v, _, _, rfl, rfl, ha.sameEffect hl.1 h.output⟩
  | error e ha => exact .inr (.inl ⟨e, _, _, rfl, rfl, ha.sameEffect hl h.output⟩)
  | outOfFuel m' n' => exact .inr (.inr ⟨m', n', rfl, rfl⟩)

/-- An instance with one property, and a method of it that sets the property and gives what the name of a
variable of its caller stands for. -/
def counter : Reference :=
  ⟨0, ⟨"Counter", 1, false, false, false, [⟨"count", .untyped, false, none, 2⟩], [], [], [], none, none,
    [], [], 4⟩⟩

def counting : Method Token :=
  ⟨"next", 3, false, false, [], none,
    [⟨⟨4, "count => one"⟩,
      [.word .identifier "count", .word .arrow "=>", .word .identifier "one"]⟩,
    ⟨⟨5, "return x"⟩, [.word .returnWord "return", .word .identifier "x"]⟩]⟩

theorem invoke_isolated_counting :
    let s : Memory := ⟨[], [], #[[⟨"count", .empty, .untyped, false, 2⟩]]⟩
    let t : Memory :=
      ⟨[⟨.block, [⟨"count", .empty, .untyped, true, 7⟩]⟩], [⟨"x", .int 1, .untyped, true, 6⟩], s.heap⟩
    let m := (Machine.new .standard .standard).setMemory s
    let n := (Machine.new .standard .standard).setMemory t
    m.Agrees n ∧ ∃ m' n', (Calls.upTo 2).invoke counting (some counter) [] m = .ok (.text "x") m' ∧
      (Calls.upTo 2).invoke counting (some counter) [] n = .ok (.text "x") n' ∧
      m'.memory.heap = #[[⟨"count", .text "one", .untyped, false, 2⟩]] ∧ m.SameEffect n m' n' := by
  intro s t m n
  have ha : m.Agrees n := ⟨rfl, rfl, rfl, rfl, rfl, rfl⟩
  refine ⟨ha, ?_⟩
  obtain ⟨m₁, hm₁, hh⟩ : ∃ m₁, (Calls.upTo 2).invoke counting (some counter) [] m =
      .ok (.text "x") m₁ ∧ m₁.memory.heap = #[[⟨"count", .text "one", .untyped, false, 2⟩]] :=
    ⟨_, rfl, rfl⟩
  rcases invoke_isolated m n ha 2 counting counter [] with
    ⟨v, m', n', hm, hn, he⟩ | ⟨e, m', n', hm, hn, he⟩ | ⟨m', n', hm, hn⟩
  · obtain ⟨rfl, rfl⟩ := Outcome.ok.inj (hm₁.symm.trans hm)
    exact ⟨m₁, n', hm, hn, hh, he⟩
  · cases hm₁.symm.trans hm
  · cases hm₁.symm.trans hm

end LineScript
