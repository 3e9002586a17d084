import LineScript.Proofs.Machine.Lines
import LineScript.Proofs.Memory.Typed
import LineScript.Proofs.Parser.Learns
set_option autoImplicit false

/-!
Typed slots stay well typed: in every memory that a new machine comes by while it runs a parsed program,
each variable and each property is empty or holds a value of its declared type.
-/

namespace LineScript

namespace Declarations

theorem named_empty : Named .empty := by simp [Named,empty]

theorem Named.insert {d : Declarations} (h : d.Named) (c : Class Token) :
    Named { d with classes := d.classes.insert c.name c } := by
  intro e he
  rcases Table.mem_of_mem_insert he with he | rfl
  · exact h e he
  · rfl

theorem Named.merge {d e : Declarations} (hd : d.Named) (he : e.Named) : (d.merge e).Named := by
  have hfold (t u : Table (Class Token)) (ht : ∀ x ∈ t, x.2.name = x.1)
      (hu : ∀ x ∈ u, x.2.name = x.1) : ∀ x ∈ t.merge u, x.2.name = x.1 := by
    unfold Table.merge
    induction u generalizing t with
    | nil => exact ht
    | cons y u ih =>
      obtain ⟨hy, hu⟩ := List.forall_mem_cons.1 hu
      refine ih _ (fun x hx => ?_) hu
      rcases Table.mem_of_mem_insert hx with hx | rfl
      · exact ht x hx
      · exact hy
  exact hfold d.classes e.classes hd he

end Declarations

theorem Parser.Learns.named {p q : Parser} (h : p.Learns q) (hp : p.declared.Named) :
    q.declared.Named :=
  h.declared_induction (fun _ c hd => hd.insert c) (fun _ _ hd => hd) (fun _ _ hd => hd) hp

theorem Program.Parsed.named {program : Program} (h : program.Parsed) : program.declared.Named := by
  obtain ⟨q, hl, hd⟩ := h.learned
  exact hd ▸ hl.named Declarations.named_empty

/-- However an action ended, the history of its machine goes on from that of the first. -/
theorem Outcome.Follows.passed {α : Type} {o : Outcome α} {w : Stretch} {m : Machine} {Q : α → Prop}
    (h : o.Follows w m Q) : m.Passed o.machine := by
  cases o with
  | ok a m' => exact h.1.passed
  | error e m' => exact Machine.Ran.passed h
  | outOfFuel m' => exact h

theorem Machine.Passed.typed {config : Config} {host : Host} {d : Declarations} {m : Machine}
    (hd : d.Named) (h : ((Machine.new config host).load d).Passed m) :
    m.history m.memory ∧ ∀ s, m.history s → s.Typed (Declarations.empty.merge d) := by
  have hd' : (Declarations.empty.merge d).Named := Declarations.named_empty.merge hd
  refine ⟨h.2.1 rfl, fun s hs => ?_⟩
  rcases h.2.2.1 s hs with rfl | hs
  · exact .empty
  · exact hs.typed hd' .empty

theorem slots_well_typed (program : Program) (hp : program.Parsed) (config : Config) (host : Host)
    (fuel : Nat) (o : Outcome Value) :
    let m := (Machine.new config host).load program.declared
    o = m.execute fuel program.lines ∨ o = m.executeIsolated fuel program.lines →
      o.machine.history o.machine.memory ∧
        ∀ s, o.machine.history s → s.Typed m.declared := by
  rintro m (rfl | rfl)
  · exact Machine.Passed.typed hp.named (m.execute_follows fuel program.lines).passed
  · exact Machine.Passed.typed hp.named (m.executeIsolated_follows fuel program.lines).passed

/-- A class with a typed property, and an instance whose property is set to another number. -/
def boxSource : String := "class Box \x7b\n@int size new : 3\n\x7d\nBox b new : size:7"

theorem slots_well_typed_box :
    ∃ q program, Parser.empty.parseWith 9 boxSource = some (q, .ok program) ∧
      let m := (Machine.new .standard .standard).load program.declared
      let m' := (m.execute 5 program.lines).machine
      (m'.memory.heap.toList.flatten.map fun b => (b.name, b.type, b.value.tag)) =
        [("size", .plain .int, .int)] ∧
      m'.history m'.memory ∧ ∀ s, m'.history s → s.Typed m.declared := by
  have hrun : ((Parser.empty.parseWith 9 boxSource).bind fun r => r.2.toOption.map fun program =>
      let m := (Machine.new .standard .standard).load program.declared
      (m.execute 5 program.lines).machine.memory.heap.toList.flatten.map
        fun b => (b.name, b.type, b.value.tag)) = some [("size", .plain .int, .int)] := by
    decide +kernel
  obtain ⟨⟨q, r⟩, hread, hrun⟩ := Option.bind_eq_some_iff.1 hrun
  obtain ⟨program, hr, hheap⟩ := Option.map_eq_some_iff.1 hrun
  cases r with
  | error e => cases hr
  | ok found =>
    obtain rfl : found = program := Option.some.inj hr
    have hp : found.Parsed := .strict .new hread
    exact ⟨q, found, hread, hheap, slots_well_typed found hp .standard .standard 5 _ (.inl rfl)⟩

end LineScript
