import LineScript.Machine.Run
import LineScript.Proofs.Machine.Lines
import LineScript.Proofs.Typing
set_option autoImplicit false

/-!
Who may make an instance. A class may be static, and it may ask for types that its instances are made
inside of. Every run notes how each of its instances was made: those under a name keep to what their class
asks for. The default of a property and a watch rule make instances of guarded classes anywhere.
-/

namespace LineScript

theorem creation_guarded (m : Machine) (fuel : Nat) (rows : List (Row Token)) (o : Outcome Value) :
    o = m.execute fuel rows ∨ o = m.executeIsolated fuel rows →
      ∃ made, o.machine.births = made ++ m.births ∧
        o.machine.memory.heap.size = made.length + m.memory.heap.size ∧
        ∀ b ∈ made, m.declared.Permits b.inside b.ofClass ∨
          b.route = .byDefault ∧ m.declared.Defaulted b.ofClass ∨
          b.route = .byWatch ∧ m.declared.Declares b.ofClass := by
  intro ho
  have hbears : m.Bears m.declared o.machine := by
    rcases ho with rfl | rfl
    · exact (m.execute_follows fuel rows).passed.2.2.2
    · exact (m.executeIsolated_follows fuel rows).passed.2.2.2
  obtain ⟨made, hbirths, hsize, hlawful⟩ := hbears
  refine ⟨made, hbirths, hsize, fun b hb => ?_⟩
  have hlaw := hlawful b hb
  unfold Birth.Lawful at hlaw
  split at hlaw
  · exact .inl hlaw
  · next hroute => exact .inr (.inl ⟨hroute, hlaw⟩)
  · next hroute => exact .inr (.inr ⟨hroute, hlaw⟩)

/-- Wheels are made inside of cars only, and a method of a car makes one. -/
def wheelSource : String :=
  "class Wheel \x7b\nexplicit insideof => @Car\n\x7d\nclass Car \x7b\nmethod fit\nWheel w new\n\x7d\n" ++
    "Car c new\nc fit"

theorem creation_guarded_wheel :
    ∃ q program, Parser.empty.parseWith 20 wheelSource = some (q, .ok program) ∧
      let m := (Machine.new .standard .standard).load program.declared
      let o := m.execute 9 program.lines
      (o.machine.births.map fun b => (b.route, b.ofClass.name, b.inside.map fun r => r.ofClass.name)) =
        [(.named, "Wheel", some "Car"), (.named, "Car", none)] ∧
      ∃ made, o.machine.births = made ++ m.births ∧
        o.machine.memory.heap.size = made.length + m.memory.heap.size ∧
        ∀ b ∈ made, m.declared.Permits b.inside b.ofClass ∨
          b.route = .byDefault ∧ m.declared.Defaulted b.ofClass ∨
          b.route = .byWatch ∧ m.declared.Declares b.ofClass := by
  have hrun : ((Parser.empty.parseWith 20 wheelSource).bind fun r => r.2.toOption.map fun program =>
      let m := (Machine.new .standard .standard).load program.declared
      (m.execute 9 program.lines).machine.births.map
        fun b => (b.route, b.ofClass.name, b.inside.map fun r => r.ofClass.name)) =
      some [(.named, "Wheel", some "Car"), (.named, "Car", none)] := by
    decide +kernel
  obtain ⟨⟨q, r⟩, hread, hrun⟩ := Option.bind_eq_some_iff.1 hrun
  obtain ⟨program, hr, hbirths⟩ := Option.map_eq_some_iff.1 hrun
  cases r with
  | error e => cases hr
  | ok found =>
    obtain rfl : found = program := Option.some.inj hr
    exact ⟨q, found, hread, hbirths, creation_guarded _ 9 found.lines _ (.inl rfl)⟩

/-- A shelf has a wheel by default, and a rule of a static class is used. -/
def shelfSource : String :=
  "class Car \x7b\n\x7d\nclass Wheel \x7b\nexplicit insideof => @Car\n@int size new : 1\n\x7d\n" ++
    "class Shelf \x7b\n@Wheel w new : size:2\n\x7d\nShelf s new\n" ++
    "static class Tool \x7b\nmethod use\nreturn 1\nexplicit watch grip => use\n\x7d\nundefined x => grip"

theorem creation_unguarded :
    ∃ q program, Parser.empty.parseWith 20 shelfSource = some (q, .ok program) ∧
      let m := (Machine.new .standard .standard).load program.declared
      ∃ v m', (m.execute 9 program.lines).finished? = some (v, m') ∧
        ((m'.births.filter fun b => ¬m.declared.Permits b.inside b.ofClass).map
          fun b => (b.route, b.ofClass.name)) = [(.byWatch, "Tool"), (.byDefault, "Wheel")] := by
  have hrun : ((Parser.empty.parseWith 20 shelfSource).bind fun r => r.2.toOption.bind fun program =>
      let m := (Machine.new .standard .standard).load program.declared
      (m.execute 9 program.lines).finished?.map fun o =>
        (o.2.births.filter fun b => ¬m.declared.Permits b.inside b.ofClass).map
          fun b => (b.route, b.ofClass.name)) = some [(.byWatch, "Tool"), (.byDefault, "Wheel")] := by
    decide +kernel
  obtain ⟨⟨q, r⟩, hread, hrun⟩ := Option.bind_eq_some_iff.1 hrun
  obtain ⟨program, hr, hrun⟩ := Option.bind_eq_some_iff.1 hrun
  cases r with
  | error e => cases hr
  | ok found =>
    obtain rfl : found = program := Option.some.inj hr
    obtain ⟨⟨v, m'⟩, hend, hbirths⟩ := Option.map_eq_some_iff.1 hrun
    exact ⟨q, found, hread, v, m', hend, hbirths⟩

end LineScript
