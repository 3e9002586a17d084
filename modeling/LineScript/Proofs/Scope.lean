import LineScript.Proofs.Machine.Lines
set_option autoImplicit false

/-!
Scopes. Whatever a line does and however it ends, the frames it found are there again afterwards, with
the slots they had; only the innermost one may have got new slots, at its end. The call stack and the
number of the current line are back, too. Hence no run leaves a frame behind.
-/

namespace LineScript

variable {α : Type}

/-- The action has ended, with a value or with an error, and left this machine. -/
def Outcome.Leaves (o : Outcome α) (m : Machine) : Prop :=
  (∃ a, o = .ok a m) ∨ ∃ e, o = .error e m

/-- The error of an action that ended with one, and the machine it left. -/
def Outcome.failed? : Outcome α → Option (RuntimeError × Machine)
  | .error e m => some (e, m)
  | _ => none

theorem Outcome.failed?_eq_some_iff {o : Outcome α} {e : RuntimeError} {m : Machine} :
    o.failed? = some (e, m) ↔ o = .error e m := by
  cases o with
  | ok a n => simp [failed?]
  | error e n => simp [failed?]
  | outOfFuel n => simp [failed?]

theorem Outcome.Follows.ran {o : Outcome α} {w : Stretch} {m m' : Machine} {Q : α → Prop}
    (h : o.Follows w m Q) (hl : o.Leaves m') : m.Ran w m' := by
  rcases hl with ⟨a, rfl⟩ | ⟨e, rfl⟩
  · exact h.1
  · exact h

theorem Memory.depth_of_grows {s t : Memory} (h : Grows s.layout t.layout) : t.depth = s.depth := by
  obtain ⟨_, _, _, outer, hs, ht⟩ := h
  have hl : t.layout.length = s.layout.length := by rw [hs,ht]; rfl
  simpa [layout,depth] using hl

/-- A run from a new machine ends without frames and with nothing on the call stack. -/
theorem Machine.Ran.idle {config : Config} {host : Host} {d : Declarations} {m : Machine}
    (h : ((Machine.new config host).load d).Ran .lines m) :
    m.memory.depth = 0 ∧ m.stack = .new config.maxDepth :=
  ⟨Memory.depth_of_grows h.path.grows, h.stack⟩

theorem scopes_restored :
    (∀ (fuel : Nat) (row : Row Token) (m m' : Machine),
      ((Calls.upTo fuel).runLine row m).Leaves m' →
        Memory.Grows m.memory.layout m'.memory.layout ∧ m'.stack = m.stack ∧ m'.line = m.line) ∧
    (∀ (fuel : Nat) (body : List (Row Token)) (m m' : Machine),
      ((Calls.upTo fuel).runBlock body m).Leaves m' → m'.memory.layout = m.memory.layout) ∧
    (∀ (fuel : Nat) (handler : Statement Token) (m m' : Machine),
      ((Calls.upTo fuel).rescue handler m).Leaves m' → m'.memory.layout = m.memory.layout) ∧
    (∀ (fuel : Nat) (method : Method Token) (self : Option Reference) (values : List Value)
      (m m' : Machine), ((Calls.upTo fuel).invoke method self values m).Leaves m' →
        m'.memory.layout = m.memory.layout) ∧
    (∀ (fuel : Nat) (config : Config) (host : Host) (d : Declarations) (rows : List (Row Token))
      (m' : Machine), (((Machine.new config host).load d).execute fuel rows).Leaves m' ∨
        (((Machine.new config host).load d).executeIsolated fuel rows).Leaves m' →
        m'.memory.depth = 0 ∧ m'.stack = .new config.maxDepth) ∧
    ∀ (fuel : Nat) (config : Config) (host : Host) (p : Program) (report : Report) (m' : Machine),
      (Machine.new config host).runProgram fuel p = some (report, m') →
        m'.memory.depth = 0 ∧ m'.stack = .new config.maxDepth := by
  refine ⟨?_, ?_, ?_, ?_, ?_, ?_⟩
  · intro fuel row m m' h
    have hr := ((Calls.sound_upTo fuel).runLine m row).ran h
    exact ⟨hr.path.grows, hr.stack, hr.line⟩
  · intro fuel body m m' h
    exact (((Calls.sound_upTo fuel).runBlock m body).ran h).path.layout_eq
  · intro fuel handler m m' h
    exact (((Calls.sound_upTo fuel).rescue m handler).ran h).path.layout_eq
  · intro fuel method self values m m' h
    exact (((Calls.sound_upTo fuel).invoke m method self values).ran h).path.layout_eq
  · intro fuel config host d rows m' h
    rcases h with h | h
    · exact ((Machine.execute_follows fuel _ rows).ran h).idle
    · exact ((Machine.executeIsolated_follows fuel _ rows).ran h).idle
  · intro fuel config host p report m' h
    obtain ⟨⟨v, m⟩, hf, he⟩ := Option.map_eq_some_iff.1 h
    cases ho : ((Machine.new config host).load p.declared).executeIsolated fuel p.lines with
    | ok u n =>
      obtain ⟨rfl, rfl⟩ : u = v ∧ n = m := by simpa [ho,Outcome.finished?] using hf
      have hr := (Machine.executeIsolated_follows fuel _ p.lines).ran (.inl ⟨u, ho⟩)
      obtain ⟨-, rfl⟩ := Prod.mk.inj he
      exact hr.idle
    | error e n => simp [ho,Outcome.finished?] at hf
    | outOfFuel n => simp [ho,Outcome.finished?] at hf

/-- A branch that declares a variable and then fails. -/
def failingBranch : Statement Token :=
  ⟨.cond, 1, "if true \x7b", some [.word .identifier "true"],
    [⟨⟨2, "undefined x"⟩, [.word .undefined "undefined", .word .identifier "x"]⟩,
      ⟨⟨3, "nowhere"⟩, [.word .identifier "nowhere"]⟩]⟩

theorem scopes_restored_failing_branch :
    let m := Machine.new .standard .standard
    let row : Row Token := ⟨⟨1, "if true \x7b"⟩, [.statement failingBranch]⟩
    (∃ e m', (Calls.upTo 2).runLine row m = .error e m' ∧
      Memory.Grows m.memory.layout m'.memory.layout ∧ m'.stack = m.stack ∧ m'.line = m.line) ∧
    (∃ e m', (Calls.upTo 2).runBlock failingBranch.body m = .error e m' ∧
      m'.memory.layout = m.memory.layout) ∧
    (∃ m', (Calls.upTo 2).rescue failingBranch m = .ok (.normal .empty) m' ∧
      m'.memory.layout = m.memory.layout) ∧
    (∃ e m', (Calls.upTo 2).invoke ⟨"f", 1, false, false, [], none, failingBranch.body⟩ none [] m =
      .error e m' ∧ m'.memory.layout = m.memory.layout) ∧
    (∃ e m', (m.load .empty).execute 2 [row] = .error e m' ∧ m'.memory.depth = 0) ∧
    ∃ report m', m.runProgram 2 ⟨[row], .empty⟩ = some (report, m') ∧ m'.memory.depth = 0 := by
  intro m row
  obtain ⟨hline, hblock, hrescue, hinvoke, hexecute, hprogram⟩ := scopes_restored
  refine ⟨?_, ?_, ?_, ?_, ?_, ?_⟩
  · obtain ⟨e, m', h⟩ : ∃ e m', (Calls.upTo 2).runLine row m = .error e m' := ⟨_, _, rfl⟩
    exact ⟨e, m', h, hline 2 row m m' (.inr ⟨e, h⟩)⟩
  · obtain ⟨e, m', h⟩ : ∃ e m', (Calls.upTo 2).runBlock failingBranch.body m = .error e m' :=
      ⟨_, _, rfl⟩
    exact ⟨e, m', h, hblock 2 _ m m' (.inr ⟨e, h⟩)⟩
  · exact ⟨m, rfl, hrescue 2 failingBranch m m (.inl ⟨.normal .empty, rfl⟩)⟩
  · obtain ⟨e, m', h⟩ : ∃ e m', (Calls.upTo 2).invoke
        ⟨"f", 1, false, false, [], none, failingBranch.body⟩ none [] m = .error e m' := ⟨_, _, rfl⟩
    exact ⟨e, m', h, hinvoke 2 _ none [] m m' (.inr ⟨e, h⟩)⟩
  · obtain ⟨e, m', h⟩ : ∃ e m', (m.load .empty).execute 2 [row] = .error e m' := ⟨_, _, rfl⟩
    exact ⟨e, m', h, (hexecute 2 _ _ .empty [row] m' (.inl (.inr ⟨e, h⟩))).1⟩
  · obtain ⟨report, m', h⟩ : ∃ report m', m.runProgram 2 ⟨[row], .empty⟩ = some (report, m') :=
      ⟨_, _, rfl⟩
    exact ⟨report, m', h, (hprogram 2 _ _ _ report m' h).1⟩

end LineScript
