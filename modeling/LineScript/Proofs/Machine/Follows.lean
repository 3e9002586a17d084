import LineScript.Proofs.Machine.Births
import LineScript.Proofs.Memory.Path
set_option autoImplicit false

/-!
Actions that follow paths. `Machine.Ran` says what every action leaves as it was and how the memory got
from the one machine to the other; `Outcome.Follows` says so for every way out of an action. The rules
below take the actions of the machine apart, so that later proofs never unfold `Exec.bind`.
-/

namespace LineScript

theorem CallStack.pop_of_push {s t : CallStack} {f : CallFrame} (h : s.push f = .ok t) :
    t.pop = s := by
  unfold push at h
  split at h
  · next hm =>
    split at h
    · cases h
    · obtain rfl := Except.ok.inj h
      simp [pop,hm]
  · next hm =>
    obtain rfl := Except.ok.inj h
    simp [pop,hm]

namespace Machine

/-- The history goes on: nothing is struck from it, the memory at hand stays in it, and every memory that
the second machine has had, the first one has had or code comes by it from there. So do the notes of the
instances made. -/
def Passed (m m' : Machine) : Prop :=
  (∀ s, m.history s → m'.history s) ∧ (m.history m.memory → m'.history m'.memory) ∧
    (∀ s, m'.history s → m.history s ∨ Memory.Passes m.declared m.memory s) ∧ m.Bears m.declared m'

theorem Passed.refl (m : Machine) : m.Passed m :=
  ⟨fun _ h => h, fun h => h, fun _ h => .inl h, .refl m.declared m⟩

/-- What an action that has ended did to the machine. The chain, the reported errors and the trace of an
error may be any. -/
structure Ran (w : Stretch) (m m' : Machine) : Prop where
  config : m'.config = m.config
  declared : m'.declared = m.declared
  host : m'.host = m.host
  stack : m'.stack = m.stack
  line : m'.line = m.line
  output : m.output.toList <+: m'.output.toList
  path : Memory.Path m.declared w m.memory m'.memory
  passed : m.Passed m'

theorem Ran.refl (w : Stretch) (m : Machine) : m.Ran w m :=
  ⟨rfl, rfl, rfl, rfl, rfl, List.prefix_refl _, .refl m.memory, .refl m⟩

theorem Ran.expression {m m' : Machine} (h : m.Ran .enclosed m') : m.Ran .expression m' :=
  { h with path := h.path.expression }

theorem Ran.lines {w : Stretch} {m m' : Machine} (h : m.Ran w m') : m.Ran .lines m' :=
  { h with path := h.path.toLines }

theorem Ran.passed_trans {w : Stretch} {m m' m'' : Machine} (h : m.Ran w m') (h' : m'.Passed m'') :
    m.Passed m'' := by
  obtain ⟨hkeep, hnow, hpast, hbears⟩ := h.passed
  obtain ⟨hkeep', hnow', hpast', hbears'⟩ := h'
  refine ⟨fun s hs => hkeep' s (hkeep s hs), fun hm => hnow' (hnow hm), fun s hs => ?_,
    hbears.trans (h.declared ▸ hbears')⟩
  rcases hpast' s hs with hs | hs
  · exact hpast s hs
  · rw [h.declared] at hs
    exact .inr (hs.after h.path.toLines)

theorem Ran.trans {w : Stretch} {m m' m'' : Machine} (h : m.Ran w m') (h' : m'.Ran w m'') :
    m.Ran w m'' where
  config := h'.config.trans h.config
  declared := h'.declared.trans h.declared
  host := h'.host.trans h.host
  stack := h'.stack.trans h.stack
  line := h'.line.trans h.line
  output := h.output.trans h'.output
  path := h.path.trans (h.declared ▸ h'.path)
  passed := h.passed_trans h'.passed

theorem Passed.setMemory {m m' : Machine} {s : Memory} (h : m.Passed m')
    (hs : Memory.Passes m.declared m.memory s) (hsize : s.heap.size = m'.memory.heap.size) :
    m.Passed (m'.setMemory s) := by
  obtain ⟨hkeep, _, hpast, hbears⟩ := h
  refine ⟨fun t ht => .inr (hkeep t ht), fun _ => .inl rfl, ?_, hbears.setMemory hsize⟩
  rintro t (rfl | ht)
  · exact .inr hs
  · exact hpast t ht

/-- A write, with the whole path from the start of the action to the new memory. -/
theorem Ran.setMemory {w : Stretch} {m m' : Machine} {s : Memory} (h : m.Ran w m')
    (hp : Memory.Path m.declared w m.memory s) (hsize : s.heap.size = m'.memory.heap.size) :
    m.Ran w (m'.setMemory s) :=
  { h with path := hp, passed := h.passed.setMemory (.here hp.toLines) hsize }

/-- A new instance, with the whole path from the start of the action to the memory that has it. -/
theorem Ran.allocate {w : Stretch} {m m' : Machine} {route : Route} {c : Class Token}
    {bs : List Binding} (h : m.Ran w m')
    (hp : Memory.Path m.declared w m.memory (m'.memory.allocate c bs).2)
    (hlaw : Birth.Lawful m.declared ⟨route, c, m'.memory.currentInstance?⟩) :
    m.Ran w (m'.allocate route c bs).2 := by
  obtain ⟨hkeep, _, hpast, hbears⟩ := h.passed
  refine { h with path := hp, passed := ⟨fun t ht => .inr (hkeep t ht), fun _ => .inl rfl, ?_,
    hbears.trans (.allocate hlaw bs)⟩ }
  rintro t (rfl | ht)
  · exact .inr (.here hp.toLines)
  · exact hpast t ht

theorem passed_of_scope {m m' : Machine} {kind : FrameKind}
    (h : (m.onMemory fun s => s.push kind).Passed m') : m.Passed m' := by
  obtain ⟨hkeep, hnow, hpast, hbears⟩ := h
  refine ⟨fun s hs => hkeep s (.inr hs), fun _ => hnow (.inl rfl), fun s hs => ?_, hbears⟩
  rcases hpast s hs with (rfl | hs) | hs
  · exact .inr (.inside kind (.refl _) (.here (.refl _)))
  · exact .inl hs
  · exact .inr (.inside kind (.refl _) hs)

/-- A frame of variables is pushed, and popped after some lines. -/
theorem Ran.scope {m m' : Machine} {kind : FrameKind}
    (h : (m.onMemory fun s => s.push kind).Ran .lines m') :
    m.Ran .enclosed (m'.onMemory Memory.pop) := by
  have hp : Memory.Path m.declared .enclosed m.memory m'.memory.pop := .scope kind h.path
  exact { h with path := hp, passed := (passed_of_scope h.passed).setMemory (.here hp.toLines) rfl }

theorem Ran.raise {w : Stretch} {m m' : Machine} (h : m.Ran w m') (e : RuntimeError) :
    m.Ran w (m'.raise e) := { h with }

theorem raised_capture (m : Machine) : m.capture.raised = m.raised := by
  unfold capture
  split
  · rfl
  · rfl

theorem stack_capture (m : Machine) : m.capture.stack = m.stack := by
  unfold capture
  split
  · rfl
  · rfl

theorem Ran.capture {w : Stretch} {m m' : Machine} (h : m.Ran w m') : m.Ran w m'.capture := by
  unfold Machine.capture
  split
  · exact h
  · exact { h with }

end Machine

variable {α β : Type}

/-- Every way out of an action is one of an action that follows a path from the machine `m`; a value
that it ends with satisfies `Q`. -/
def Outcome.Follows (w : Stretch) (m : Machine) (Q : α → Prop) : Outcome α → Prop
  | .ok a m' => m.Ran w m' ∧ Q a
  | .error _ m' => m.Ran w m'
  | .outOfFuel m' => m.Passed m'

/-- Any value will do. -/
abbrev Anything (_ : α) : Prop := True

open Outcome

theorem Outcome.Follows.expression {m : Machine} {Q : α → Prop} {o : Outcome α}
    (h : o.Follows .enclosed m Q) : o.Follows .expression m Q := by
  cases o with
  | ok a m' => exact ⟨h.1.expression, h.2⟩
  | error e m' => exact Machine.Ran.expression h
  | outOfFuel m' => exact h

theorem Outcome.Follows.lines {w : Stretch} {m : Machine} {Q : α → Prop} {o : Outcome α}
    (h : o.Follows w m Q) : o.Follows .lines m Q := by
  cases o with
  | ok a m' => exact ⟨h.1.lines, h.2⟩
  | error e m' => exact Machine.Ran.lines h
  | outOfFuel m' => exact h

theorem Outcome.Follows.mono {w : Stretch} {m : Machine} {Q Q' : α → Prop} {o : Outcome α}
    (h : o.Follows w m Q) (hQ : ∀ a, Q a → Q' a) : o.Follows w m Q' := by
  cases o with
  | ok a m' => exact ⟨h.1, hQ a h.2⟩
  | error e m' => exact h
  | outOfFuel m' => exact h

/-- What follows a path from where another one ended follows a path from the start of that one. -/
theorem Outcome.Follows.after {w : Stretch} {m m' : Machine} {Q : α → Prop} {o : Outcome α}
    (hm : m.Ran w m') (h : o.Follows w m' Q) : o.Follows w m Q := by
  cases o with
  | ok a m'' => exact ⟨hm.trans h.1, h.2⟩
  | error e m'' => exact hm.trans h
  | outOfFuel m'' => exact hm.passed_trans h

namespace Exec

variable {w : Stretch} {m m' : Machine} {Q : α → Prop} {Q' : β → Prop}

theorem bind_apply (x : Exec α) (f : α → Exec β) (m : Machine) :
    (x >>= f) m = Exec.bind x f m := rfl

theorem bind_eq_ok_iff {x : Exec α} {f : α → Exec β} {b : β} :
    (x >>= f) m = .ok b m' ↔ ∃ a n, x m = .ok a n ∧ f a n = .ok b m' := by
  rw [bind_apply,Exec.bind]
  cases x m with
  | ok a n =>
    refine ⟨fun h => ⟨a, n, rfl, h⟩, ?_⟩
    rintro ⟨_, _, ha, h⟩
    obtain ⟨rfl, rfl⟩ := Outcome.ok.inj ha
    exact h
  | error e n => simp
  | outOfFuel n => simp

/-- An action that ends without a value has done so in its first part, or in what comes behind it. -/
theorem bind_eq_stopped_iff {x : Exec α} {f : α → Exec α} {o : Outcome α} (ho : o.finished? = none) :
    (x >>= f) m = o ↔ x m = o ∨ ∃ a n, x m = .ok a n ∧ f a n = o := by
  have hok (a : α) (n : Machine) : .ok a n ≠ o := by
    rintro rfl
    cases ho
  rw [bind_apply,Exec.bind]
  cases x m with
  | ok a n =>
    refine ⟨fun h => .inr ⟨a, n, rfl, h⟩, ?_⟩
    rintro (h | ⟨_, _, ha, h⟩)
    · exact absurd h (hok a n)
    · obtain ⟨rfl, rfl⟩ := Outcome.ok.inj ha
      exact h
  | error e n => simp
  | outOfFuel n => simp

theorem follows_bind {x : Exec α} {f : α → Exec β} (hx : (x m').Follows w m Q)
    (hf : ∀ a m'', m.Ran w m'' → Q a → (f a m'').Follows w m Q') :
    ((x >>= f) m').Follows w m Q' := by
  rw [bind_apply,Exec.bind]
  cases hr : x m' with
  | ok a m'' =>
    rw [hr] at hx
    exact hf a m'' hx.1 hx.2
  | error e m'' => rwa [hr] at hx
  | outOfFuel m'' => rwa [hr] at hx

theorem follows_pure {a : α} (h : m.Ran w m') (ha : Q a) :
    ((Pure.pure a : Exec α) m').Follows w m Q := ⟨h, ha⟩

theorem follows_fail {e : RuntimeError} (h : m.Ran w m') :
    ((Exec.fail e : Exec α) m').Follows w m Q := h.raise e

theorem follows_ofExcept {r : Except RuntimeError α} (h : m.Ran w m') :
    (Exec.ofExcept r m').Follows w m Anything := by
  cases r with
  | ok a => exact ⟨h, trivial⟩
  | error e => exact h.raise e

theorem follows_ofExcept_bind {r : Except RuntimeError α} {f : α → Exec β} (h : m.Ran w m')
    (hf : ∀ a, r = .ok a → (f a m').Follows w m Q') :
    ((Exec.ofExcept r >>= f) m').Follows w m Q' := by
  cases r with
  | ok a => exact hf a rfl
  | error e => exact h.raise e

theorem follows_read_bind {g : Machine → α} {f : α → Exec β} (h : (f (g m') m').Follows w m Q') :
    ((Exec.read g >>= f) m').Follows w m Q' := h

theorem follows_machine_bind {f : Machine → Exec β} (h : (f m' m').Follows w m Q') :
    ((Exec.read id >>= f) m').Follows w m Q' := h

theorem follows_update_bind {g : Machine → Machine} {f : Unit → Exec β}
    (h : (f () (g m')).Follows w m Q') : ((Exec.update g >>= f) m').Follows w m Q' := h

theorem follows_ite {c : Prop} [Decidable c] {x y : Exec α} (hx : c → (x m').Follows w m Q)
    (hy : ¬c → (y m').Follows w m Q) : ((if c then x else y) m').Follows w m Q := by
  by_cases hc : c
  · rw [if_pos hc]
    exact hx hc
  · rw [if_neg hc]
    exact hy hc

theorem follows_onMemory {f : Memory → Except RuntimeError Memory} (h : m.Ran w m')
    (hp : ∀ s, f m'.memory = .ok s → Memory.Path m.declared w m.memory s)
    (hsize : ∀ s, f m'.memory = .ok s → s.heap.size = m'.memory.heap.size) :
    (Exec.onMemory f m').Follows w m Anything := by
  unfold Exec.onMemory
  split
  · next s hs => exact ⟨h.setMemory (hp s hs) (hsize s hs), trivial⟩
  · exact h.raise _

theorem follows_withScope {kind : FrameKind} {x : Exec α}
    (h : (x (m.onMemory fun s => s.push kind)).Follows .lines (m.onMemory fun s => s.push kind) Q) :
    (Exec.withScope kind x m).Follows .enclosed m Q := by
  unfold Exec.withScope Exec.finally_
  split
  · next hr => rw [hr] at h; exact ⟨h.1.scope, h.2⟩
  · next hr => rw [hr] at h; exact Machine.Ran.scope h
  · next hr => rw [hr] at h; exact Machine.passed_of_scope h

theorem follows_withFrame {f : CallFrame} {x : Exec α}
    (h : ∀ stack, (x { m with stack }).Follows w { m with stack } Q) :
    (Exec.withFrame f x m).Follows w m Q := by
  unfold Exec.withFrame
  split
  · exact ((Machine.Ran.refl w m).raise _).capture
  · next stack hs =>
    -- what the action did from the machine with the frame, it did from the machine without it
    have hpop {m' : Machine} (hr : Machine.Ran w { m with stack } m') :
        m.Ran w { m' with stack := m'.stack.pop } :=
      { hr with stack := hr.stack ▸ CallStack.pop_of_push hs }
    have hx := h stack
    split
    · next hr => rw [hr] at hx; exact ⟨hpop hx.1, hx.2⟩
    · next hr => rw [hr] at hx; exact hpop (Machine.Ran.capture hx)
    · next hr => rw [hr] at hx; exact hx

theorem follows_atLine {line : Nat} {x : Exec α}
    (h : (x { m with line }).Follows w { m with line } Q) : (Exec.atLine line x m).Follows w m Q := by
  have hback {m' : Machine} (hr : Machine.Ran w { m with line } m') :
      m.Ran w { m' with line := m.line } := { hr with line := rfl }
  unfold Exec.atLine Exec.finally_
  dsimp only
  split
  · next hr => rw [hr] at h; exact ⟨hback h.1, h.2⟩
  · next hr => rw [hr] at h; exact hback h
  · next hr => rw [hr] at h; exact h

theorem follows_withFreshChain {x : Exec α}
    (h : (x { m with chain := .fresh }).Follows w { m with chain := .fresh } Q) :
    (Exec.withFreshChain x m).Follows w m Q := by
  have hback {m' : Machine} (hr : Machine.Ran w { m with chain := .fresh } m') :
      m.Ran w { m' with chain := m.chain } := { hr with }
  unfold Exec.withFreshChain Exec.finally_
  dsimp only
  split
  · next hr => rw [hr] at h; exact ⟨hback h.1, h.2⟩
  · next hr => rw [hr] at h; exact hback h
  · next hr => rw [hr] at h; exact h

theorem follows_wrapping {construct : Option String} {x : Exec α} (h : (x m').Follows w m Q) :
    (Exec.wrapping construct x m').Follows w m Q := by
  unfold Exec.wrapping
  split
  · next hr => rwa [hr] at h
  · exact h

end Exec

end LineScript
