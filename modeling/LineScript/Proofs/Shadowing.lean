import LineScript.Proofs.Machine.LinesGo
set_option autoImplicit false

/-!
Names that are taken. The names of global methods and of classes are refused wherever a line makes a
variable. Two writes ask nobody: a call binds the parameters of its method, and a handler binds `exception`.
Every variable with a name that is taken came in through one of them; where no parameter and no handler can
bring one in, there is none, in any memory that a run comes by.
-/

namespace LineScript

namespace Declarations

/-- Is it the name of a global method or of a class? -/
def takes (d : Declarations) (name : String) : Bool := d.methods.contains name || d.classes.contains name

/-- A variable that was bound without a check of its name, in a frame of that kind: a parameter of a method
that can be called, or the message of an error. -/
def Unchecked (d : Declarations) (Known : Class Token → Prop) (kind : Option FrameKind) (name : String) :
    Prop :=
  (kind = some .call ∧ ∃ f, d.Callable Known f ∧ ∃ p ∈ f.params, p.name = name) ∨
    kind = some .block ∧ name = "exception"

/-- No parameter has a name that is taken, and neither has the message that handlers see. -/
def shadowless (d : Declarations) : Bool :=
  let apart (f : Method Token) : Bool := f.params.all fun p => !d.takes p.name
  !d.takes "exception" && (d.methods.all fun e => apart e.2) &&
    d.classes.all fun e => (e.2.methods.all fun f => apart f.2) && e.2.converters.all fun v => apart v.method

variable {d : Declarations}

theorem Free.not_takes {name : String} (h : d.Free name) : d.takes name = false := by
  obtain ⟨hm, hc, -⟩ := h
  simp [takes,Table.contains,hm,hc]

theorem not_takes_of_callable (h : d.shadowless = true) {f : Method Token} (hf : d.Callable d.Declares f)
    {p : Variable} (hp : p ∈ f.params) : d.takes p.name = false := by
  simp only [shadowless,Bool.and_eq_true,List.all_eq_true,Bool.not_eq_true'] at h
  obtain ⟨⟨-, hmethods⟩, hclasses⟩ := h
  cases hf with
  | global hf => exact hmethods _ (Table.mem_of_get? hf) p hp
  | ofClass hc hf =>
    obtain ⟨name, hc⟩ := hc
    exact (hclasses _ (Table.mem_of_get? hc)).1 _ (Table.mem_of_get? hf) p hp
  | converter hc hv =>
    obtain ⟨name, hc⟩ := hc
    exact (hclasses _ (Table.mem_of_get? hc)).2 _ hv p hp

theorem Unchecked.not_takes (h : d.shadowless = true) {kind : Option FrameKind} {name : String}
    (hu : d.Unchecked d.Declares kind name) : d.takes name = false := by
  rcases hu with ⟨-, f, hf, p, hp, rfl⟩ | ⟨-, rfl⟩
  · exact not_takes_of_callable h hf hp
  · simp only [shadowless,Bool.and_eq_true,Bool.not_eq_true'] at h
    exact h.1.1

end Declarations

theorem Host.of_standard (Known : Class Token → Prop) : standard.Of Known :=
  fun _ _ _ _ h => Value.of_plain (plain_of_standard h)

variable {d : Declarations} {Known : Class Token → Prop}

theorem Bindings.mem_slots_put {bs : List Binding} {b : Binding} {slot : Slot}
    (h : slot ∈ slots (put bs b)) : slot ∈ slots bs ∨ slot = b.slot := by
  obtain ⟨c, hc, rfl⟩ := List.mem_map.1 h
  have hall : ∀ a ∈ bs, a.slot ∈ slots bs ∨ a.slot = b.slot := fun a ha =>
    .inl (List.mem_map.2 ⟨a, ha, rfl⟩)
  exact forall_put hall (.inr rfl) c hc

theorem Calls.params_of_bindParams {f : Method Token} {ps : List Variable} {values : List Value}
    {bs : List Binding} (h : bindParams d f ps values = .ok bs) :
    ∀ b ∈ bs, ∃ p ∈ ps, p.name = b.name :=
  forall_of_bindParams (fun p hp => ⟨p, hp, rfl⟩) (fun p hp _ _ _ _ => ⟨p, hp, rfl⟩) h

namespace Memory

/-- The kind of the innermost frame; the global bindings have none. -/
def innermost? (s : Memory) : Option FrameKind := s.frames.head?.map Frame.kind

/-- Every variable with a name that is taken was bound without a check. -/
def Guarded (d : Declarations) (Known : Class Token → Prop) (s : Memory) : Prop :=
  ∀ entry ∈ s.layout, ∀ slot ∈ entry.2,
    d.takes slot.name = true → d.Unchecked Known entry.1 slot.name

theorem layout_bind (s : Memory) (b : Binding) :
    ∃ outer, s.layout = (s.innermost?, Bindings.slots s.top) :: outer ∧
      (s.bind b).layout = (s.innermost?, Bindings.slots (Bindings.put s.top b)) :: outer := by
  cases hf : s.frames with
  | nil => exact ⟨[], by simp [layout,innermost?,top,hf], by simp [layout,innermost?,bind,setTop,hf]⟩
  | cons f fs =>
    refine ⟨s.pop.layout, ?_, ?_⟩
    · simp [layout_of_frames hf,innermost?,top,hf]
    · simp [layout,innermost?,bind,setTop,pop,hf]

theorem innermost?_bind (s : Memory) (b : Binding) : (s.bind b).innermost? = s.innermost? := by
  have hkinds := congrArg List.head? (Shield.Covers.kinds_bind s b)
  simpa [innermost?] using hkinds

namespace Guarded

variable {s t : Memory}

theorem empty : Memory.empty.Guarded d Known := by simp [Guarded,layout,Memory.empty,Bindings.slots]

theorem of_layout (h : s.Guarded d Known) (hl : t.layout = s.layout) : t.Guarded d Known := by
  rwa [Guarded,hl]

theorem push (h : s.Guarded d Known) (kind : FrameKind) : (s.push kind).Guarded d Known := by
  rw [Guarded,layout_push]
  exact List.forall_mem_cons.2 ⟨by simp, h⟩

theorem pop (h : s.Guarded d Known) : s.pop.Guarded d Known := by
  cases hf : s.frames with
  | nil => simpa [Guarded,layout,Memory.pop,hf] using h
  | cons f fs =>
    rw [Guarded,layout_of_frames hf] at h
    exact (List.forall_mem_cons.1 h).2

theorem bind (h : s.Guarded d Known) {b : Binding}
    (hb : d.takes b.name = true → d.Unchecked Known s.innermost? b.name) :
    (s.bind b).Guarded d Known := by
  obtain ⟨outer, hs, ht⟩ := s.layout_bind b
  rw [Guarded,hs] at h
  obtain ⟨htop, houter⟩ := List.forall_mem_cons.1 h
  rw [Guarded,ht]
  refine List.forall_mem_cons.2 ⟨fun slot hslot htakes => ?_, houter⟩
  rcases Bindings.mem_slots_put hslot with hslot | rfl
  · exact htop slot hslot htakes
  · exact hb htakes

theorem foldl_bind (h : s.Guarded d Known) {bs : List Binding}
    (hbs : ∀ b ∈ bs, d.Unchecked Known s.innermost? b.name) :
    (bs.foldl Memory.bind s).Guarded d Known := by
  induction bs generalizing s with
  | nil => exact h
  | cons b bs ih =>
    obtain ⟨hb, hbs⟩ := List.forall_mem_cons.1 hbs
    exact ih (h.bind fun _ => hb) (s.innermost?_bind b ▸ hbs)

theorem declare (h : s.Guarded d Known) {b : Binding} (hfree : d.Free b.name)
    (hd : s.declare b = .ok t) : t.Guarded d Known := by
  obtain rfl := bind_of_declare hd
  exact h.bind (by simp [hfree.not_takes])

end Guarded

end Memory

/-- The memory at hand is guarded, and so is every one before it. -/
structure Machine.Guarded (d : Declarations) (Known : Class Token → Prop) (m : Machine) : Prop where
  now : m.memory.Guarded d Known
  noted : m.history m.memory
  always : ∀ s, m.history s → s.Guarded d Known

theorem Machine.Guarded.setMemory {m : Machine} (h : m.Guarded d Known) {s : Memory}
    (hs : s.Guarded d Known) : (m.setMemory s).Guarded d Known := by
  refine ⟨hs, .inl rfl, ?_⟩
  rintro t (rfl | ht)
  · exact hs
  · exact h.always t ht

theorem Machine.Guarded.capture {m : Machine} (h : m.Guarded d Known) : m.capture.Guarded d Known := by
  unfold Machine.capture
  split
  · exact h
  · exact { h with }

theorem Step.guarded {s t : Stage} (h : Step d Known s t) (hs : s.machine.Guarded d Known) :
    t.machine.Guarded d Known := by
  cases h with
  | enter _ => exact hs.setMemory (hs.now.push _)
  | leave mode m => exact hs.setMemory hs.now.pop
  | @params m s f values bs hm hf _ hb _ =>
    have hcall : m.memory.innermost? = some .call := congrArg Memory.innermost? hm
    have hbound : (bs.foldl Memory.bind m.memory).Guarded d Known :=
      hs.now.foldl_bind fun b hmem => .inl ⟨hcall, f, hf, Calls.params_of_bindParams hb b hmem⟩
    exact { hs.setMemory hbound with }
  | @handler m s message line hm =>
    have hblock : m.memory.innermost? = some .block := congrArg Memory.innermost? hm
    exact hs.setMemory (hs.now.bind fun _ => .inr ⟨hblock, rfl⟩)
  | declare hfree _ hd => exact hs.setMemory (hs.now.declare hfree hd)
  | assign _ ha => exact hs.setMemory (hs.now.of_layout (Memory.layout_assign ha))
  | property r name _ => exact hs.setMemory (hs.now.of_layout rfl)
  | @allocate m c bs route _ _ =>
    have hm := hs.setMemory (s := (m.memory.allocate c bs).2) (hs.now.of_layout rfl)
    exact ⟨hm.now, hm.noted, hm.always⟩
  | capture m e => exact hs.capture
  | wrap m e construct => exact hs
  | write m written => exact { hs with }
  | call _ => exact { hs with }
  | back m => exact { hs with }
  | raise m e => exact { hs with }
  | unwind e _ => exact { hs with }
  | caught m e => exact { hs with }
  | note mode m chain line => exact { hs with }

theorem Steps.guarded {s t : Stage} (h : Steps d Known s t) (hs : s.machine.Guarded d Known) :
    t.machine.Guarded d Known := by
  induction h with
  | refl => exact hs
  | tail _ hstep ih => exact hstep.guarded ih

theorem Outcome.Goes.machine {α : Type} {o : Outcome α} {m : Machine} {Q : α → Prop}
    (h : o.Goes d Known m Q) : ∃ mode, Steps d Known ⟨.running, m⟩ ⟨mode, o.machine⟩ := by
  cases o with
  | ok a m' => exact ⟨_, h.1⟩
  | error e m' => exact ⟨_, h⟩
  | outOfFuel m' => exact ⟨_, h⟩

namespace Machine

/-- What every top-level line and every report keep, a run keeps. -/
theorem runIsolated_keeps {P : Machine → Prop} {k : Calls}
    (hline : ∀ row m, P m → P (k.runLine row { m with failure := none }).machine)
    (hreport : ∀ e m, P m → P (m.report e)) (last : Value) (rows : List (Row Token)) {m : Machine}
    (hm : P m) : P (runIsolated k last rows m).machine := by
  induction rows generalizing last m with
  | nil => exact hm
  | cons row rows ih =>
    have hl := hline row m hm
    unfold runIsolated
    split
    · next hr => rw [hr] at hl; exact ih _ hl
    · next hr => rw [hr] at hl; exact ih _ hl
    · next hr => rw [hr] at hl; exact ih _ (hreport _ _ hl)
    · next hr => rw [hr] at hl; exact ih _ (hreport _ _ hl)
    · next hr => rw [hr] at hl; exact ih _ (hreport _ _ hl)
    · next hr => rwa [hr] at hl

theorem runStrict_keeps {P : Machine → Prop} {k : Calls}
    (hline : ∀ row m, P m → P (k.runLine row { m with failure := none }).machine) (last : Value)
    (rows : List (Row Token)) {m : Machine} (hm : P m) : P (runStrict k last rows m).machine := by
  induction rows generalizing last m with
  | nil => exact hm
  | cons row rows ih =>
    have hl := hline row m hm
    unfold runStrict
    split
    · next hr => rw [hr] at hl; exact ih _ hl
    · next hr => rwa [hr] at hl
    · next hr => rwa [hr] at hl

theorem guarded_topLine (hd : ∀ c, d.Declares c → Known c) (fuel : Nat) (row : Row Token) (m : Machine)
    (hm : m.Has d Known ∧ m.Guarded d Known) :
    let m' := ((Calls.upTo fuel).runLine row { m with failure := none }).machine
    m'.Has d Known ∧ m'.Guarded d Known := by
  have hhas : Machine.Has d Known { m with failure := none } := { hm.1 with }
  obtain ⟨mode, hsteps⟩ := ((Calls.stepwise_upTo hd fuel).runLine hhas hd row).machine
  exact ⟨hsteps.has hhas, hsteps.guarded { hm.2 with }⟩

/-- Whatever a new machine runs, and however the run ends. -/
theorem guarded_run (program : Program) (config : Config) (host : Host) (fuel : Nat) (o : Outcome Value) :
    let m := (Machine.new config host).load program.declared
    host.Of m.declared.Declares →
    o = m.execute fuel program.lines ∨ o = m.executeIsolated fuel program.lines →
      o.machine.Guarded m.declared m.declared.Declares := by
  intro m hhost ho
  have hline := guarded_topLine (d := m.declared) (fun _ hc => hc) fuel
  have hm : m.Has m.declared m.declared.Declares ∧ m.Guarded m.declared m.declared.Declares := by
    refine ⟨⟨rfl, hhost, .empty⟩, .empty, rfl, ?_⟩
    rintro s rfl
    exact .empty
  rcases ho with rfl | rfl
  · exact (runStrict_keeps hline .empty program.lines hm).2
  · exact (runIsolated_keeps hline (fun _ _ h => ⟨{ h.1 with }, { h.2 with }⟩) .empty program.lines hm).2

end Machine

/-- The invariant that a variable has the name of no method and of no class, as far as it holds. Global
variables keep it always. In a frame it is broken by parameters, which take any name that their method
gives them, and by a handler's `exception`; so it holds throughout if none of these names is taken. -/
theorem taken_names_only_unchecked (program : Program) (config : Config) (host : Host) (fuel : Nat)
    (o : Outcome Value) :
    let m := (Machine.new config host).load program.declared
    host.Of m.declared.Declares →
    o = m.execute fuel program.lines ∨ o = m.executeIsolated fuel program.lines →
      o.machine.history o.machine.memory ∧ ∀ s, o.machine.history s →
        (∀ b ∈ s.globals, m.declared.takes b.name = false) ∧
        (∀ f ∈ s.frames, ∀ b ∈ f.bindings, m.declared.takes b.name = true →
          m.declared.Unchecked m.declared.Declares (some f.kind) b.name) ∧
        (m.declared.shadowless = true →
          ∀ f ∈ s.frames, ∀ b ∈ f.bindings, m.declared.takes b.name = false) := by
  intro m hhost ho
  have hguarded := Machine.guarded_run program config host fuel o hhost ho
  refine ⟨hguarded.noted, fun s hs => ?_⟩
  have hslots := hguarded.always s hs
  have hframes (f : Frame) (hf : f ∈ s.frames) (b : Binding) (hb : b ∈ f.bindings)
      (ht : m.declared.takes b.name = true) :
      m.declared.Unchecked m.declared.Declares (some f.kind) b.name := by
    refine hslots (some f.kind, Bindings.slots f.bindings) ?_ b.slot (List.mem_map.2 ⟨b, hb, rfl⟩) ht
    exact List.mem_append_left _ (List.mem_map.2 ⟨f, hf, rfl⟩)
  refine ⟨fun b hb => ?_, hframes, fun hless f hf b hb => ?_⟩
  · cases ht : m.declared.takes b.name with
    | false => rfl
    | true =>
      have hu := hslots (none, Bindings.slots s.globals) (by simp [Memory.layout]) b.slot
        (List.mem_map.2 ⟨b, hb, rfl⟩) ht
      simp [Declarations.Unchecked] at hu
  · cases ht : m.declared.takes b.name with
    | false => rfl
    | true => rw [← (hframes f hf b hb ht).not_takes hless,ht]

/-- A class, a method whose parameter has a name of its own, and variables. -/
def apartSource : String :=
  "class Box \x7b\n@int size new : 3\n\x7d\nmethod same : x\nreturn x\nBox b new\nundefined y => same : 5"

theorem taken_names_only_unchecked_apart :
    ∃ q program, Parser.empty.parseWith 12 apartSource = some (q, .ok program) ∧
      let m := (Machine.new .standard .standard).load program.declared
      let m' := (m.executeIsolated 9 program.lines).machine
      m.declared.takes "Box" = true ∧ m.declared.takes "same" = true ∧
      m'.memory.globals.map Binding.name = ["b", "y"] ∧ m'.history m'.memory ∧
      ∀ s, m'.history s → (∀ b ∈ s.globals, m.declared.takes b.name = false) ∧
        ∀ f ∈ s.frames, ∀ b ∈ f.bindings, m.declared.takes b.name = false := by
  have hrun : ((Parser.empty.parseWith 12 apartSource).bind fun r => r.2.toOption.map fun program =>
      let m := (Machine.new .standard .standard).load program.declared
      (m.declared.takes "Box", m.declared.takes "same", m.declared.shadowless,
        (m.executeIsolated 9 program.lines).machine.memory.globals.map Binding.name)) =
      some (true, true, true, ["b", "y"]) := by
    decide +kernel
  obtain ⟨⟨q, r⟩, hread, hrun⟩ := Option.bind_eq_some_iff.1 hrun
  obtain ⟨program, hr, hrun⟩ := Option.map_eq_some_iff.1 hrun
  cases r with
  | error e => cases hr
  | ok found =>
    obtain rfl : found = program := Option.some.inj hr
    obtain ⟨hbox, hsame, hless, hglobals⟩ : _ ∧ _ ∧ _ ∧ _ := by simpa only [Prod.mk.injEq] using hrun
    obtain ⟨hnow, halways⟩ := taken_names_only_unchecked found .standard .standard 9 _
      (Host.of_standard _) (.inr rfl)
    refine ⟨q, found, hread, hbox, hsame, hglobals, hnow, fun s hs => ?_⟩
    obtain ⟨hglobal, -, hframes⟩ := halways s hs
    exact ⟨hglobal, hframes hless⟩

/-- A method whose parameter has the name of another method. -/
def shadowingSource : String :=
  "method foo\nreturn 1\nmethod bar : foo\nreturn foo\nundefined r => bar : 5\nrunexec => EZCode.print ~> r"

/-- Inside of the call the parameter hides the method: the run comes by a memory with a variable of the
method's name, and what is written in the end is the argument. -/
theorem parameter_shadows_method :
    ∃ q program, Parser.empty.parseWith 12 shadowingSource = some (q, .ok program) ∧
      let m := (Machine.new .standard .standard).load program.declared
      m.declared.methods.contains "foo" = true ∧
      (∃ s, (m.executeIsolated 2 program.lines).machine.history s ∧
        ∃ f ∈ s.frames, ∃ b ∈ f.bindings, b.name = "foo") ∧
      ∃ v m', m.executeIsolated 9 program.lines = .ok v m' ∧ m'.output = #["5"] ∧ m'.errors = #[] := by
  have hrun : ((Parser.empty.parseWith 12 shadowingSource).bind fun r => r.2.toOption.bind fun program =>
      let m := (Machine.new .standard .standard).load program.declared
      (m.executeIsolated 9 program.lines).finished?.map fun e =>
        (m.declared.methods.contains "foo", (m.executeIsolated 2 program.lines).machine.memory.frames.any
          fun f => f.bindings.any fun b => b.name == "foo", e.2.output, e.2.errors)) =
      some (true, true, #["5"], #[]) := by
    decide +kernel
  obtain ⟨⟨q, r⟩, hread, hrun⟩ := Option.bind_eq_some_iff.1 hrun
  obtain ⟨program, hr, hrun⟩ := Option.bind_eq_some_iff.1 hrun
  cases r with
  | error e => cases hr
  | ok found =>
    obtain rfl : found = program := Option.some.inj hr
    obtain ⟨⟨v, m'⟩, hends, hrun⟩ := Option.map_eq_some_iff.1 hrun
    obtain ⟨hfoo, hframes, houtput, herrors⟩ : _ ∧ _ ∧ _ ∧ _ := by simpa only [Prod.mk.injEq] using hrun
    have hnoted := (Machine.guarded_run found .standard .standard 2 _ (Host.of_standard _) (.inr rfl)).noted
    refine ⟨q, found, hread, hfoo, ⟨_, hnoted, ?_⟩, v, m', Outcome.finished?_eq_some_iff.1 hends,
      houtput, herrors⟩
    simpa [List.any_eq_true] using hframes

end LineScript
