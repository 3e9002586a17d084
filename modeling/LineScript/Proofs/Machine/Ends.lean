import LineScript.Proofs.LoopFree
import LineScript.Proofs.Machine.Follows
set_option autoImplicit false

/-!
Actions that end. An action that takes fuel ends if from some fuel on it gives one outcome, a value or an
error, and what it leaves is again free of loops. The rules below put such actions together, so that later
proofs never speak of the fuel.
-/

namespace LineScript

namespace Machine

/-- What code without loops may leave of a machine. -/
structure Keeps (m m' : Machine) : Prop where
  declared : m'.declared = m.declared
  host : m'.host = m.host
  stack : m'.stack = m.stack
  memory : m'.memory.LoopFree

theorem Keeps.trans {m m' m'' : Machine} (h : m.Keeps m') (h' : m'.Keeps m'') : m.Keeps m'' where
  declared := h'.declared.trans h.declared
  host := h'.host.trans h.host
  stack := h'.stack.trans h.stack
  memory := h'.memory

theorem Keeps.setMemory {m m' : Machine} {s : Memory} (h : m.Keeps m') (hs : s.LoopFree) :
    m.Keeps (m'.setMemory s) := { h with memory := hs }

theorem Keeps.raise {m m' : Machine} (h : m.Keeps m') (e : RuntimeError) : m.Keeps (m'.raise e) :=
  { h with }

theorem Keeps.capture {m m' : Machine} (h : m.Keeps m') : m.Keeps m'.capture := by
  unfold Machine.capture
  split
  · exact h
  · exact { h with }

/-- The machine has these declarations, nothing on it has a loop, and at most `depth` more methods can be
called inside of each other. -/
structure Ready (d : Declarations) (depth : Nat) (m : Machine) : Prop where
  declared : m.declared = d
  host : m.host.LoopFree
  memory : m.memory.LoopFree
  room : m.stack.maxDepth - m.stack.methodDepth ≤ depth

variable {d : Declarations} {depth : Nat} {m m' : Machine}

theorem Ready.keeps (h : m.Ready d depth) : m.Keeps m := ⟨rfl, rfl, rfl, h.memory⟩

theorem Keeps.ready (h : m.Keeps m') (hm : m.Ready d depth) : m'.Ready d depth where
  declared := h.declared.trans hm.declared
  host := h.host.symm ▸ hm.host
  memory := h.memory
  room := h.stack.symm ▸ hm.room

theorem Ready.setMemory (h : m.Ready d depth) {s : Memory} (hs : s.LoopFree) :
    (m.setMemory s).Ready d depth := { h with memory := hs }

end Machine

variable {α β : Type}

/-- The action has ended with a value that satisfies `Q`, or with an error. -/
def Outcome.Settles (m : Machine) (Q : α → Prop) : Outcome α → Prop
  | .ok a m' => m.Keeps m' ∧ Q a
  | .error _ m' => m.Keeps m'
  | .outOfFuel _ => False

/-- With enough fuel the action ends, and more fuel changes nothing. -/
def Ends (m : Machine) (Q : α → Prop) (x : Nat → Outcome α) : Prop :=
  ∃ o, o.Settles m Q ∧ ∃ least, ∀ n, least ≤ n → x n = o

namespace Ends

variable {m m' : Machine} {Q : α → Prop} {Q' : β → Prop}

theorem of_settles {o : Outcome α} (h : o.Settles m Q) : Ends m Q fun _ => o := ⟨o, h, 0, fun _ _ => rfl⟩

theorem mono {R : α → Prop} {x : Nat → Outcome α} (h : Ends m Q x) (hR : ∀ a, Q a → R a) :
    Ends m R x := by
  obtain ⟨o, ho, hx⟩ := h
  refine ⟨o, ?_, hx⟩
  cases o with
  | ok a m' => exact ⟨ho.1, hR a ho.2⟩
  | error e m' => exact ho
  | outOfFuel m' => exact ho

theorem after {x : Nat → Outcome α} (hm : m.Keeps m') (h : Ends m' Q x) : Ends m Q x := by
  obtain ⟨o, ho, hx⟩ := h
  refine ⟨o, ?_, hx⟩
  cases o with
  | ok a m'' => exact ⟨hm.trans ho.1, ho.2⟩
  | error e m'' => exact hm.trans ho
  | outOfFuel m'' => exact ho

/-- What is done with the outcome of an action that ends may take it for settled. -/
theorem goesOn {x : Nat → Outcome α} {y : Nat → Outcome β} (hx : Ends m Q x)
    (hy : ∀ o, o.Settles m Q → ∃ z, Ends m' Q' z ∧ ∀ n, x n = o → y n = z n) : Ends m' Q' y := by
  obtain ⟨o, ho, least, hx⟩ := hx
  obtain ⟨z, ⟨o', ho', least', hz⟩, hyz⟩ := hy o ho
  refine ⟨o', ho', max least least', fun n hn => ?_⟩
  rw [hyz n (hx n (by omega))]
  exact hz n (by omega)

theorem andThen {x : Nat → Outcome α} {g : Nat → Outcome α → Outcome β} (hx : Ends m Q x)
    (hg : ∀ o, o.Settles m Q → Ends m' Q' fun n => g n o) : Ends m' Q' fun n => g n (x n) :=
  hx.goesOn fun o ho => ⟨fun n => g n o, hg o ho, fun n hn => by rw [hn]⟩

/-- One more unit of fuel leads into the action. -/
theorem of_succ {x y : Nat → Outcome α} (h : Ends m Q y) (hxy : ∀ n, x (n + 1) = y n) : Ends m Q x := by
  obtain ⟨o, ho, least, hy⟩ := h
  refine ⟨o, ho, least + 1, fun n hn => ?_⟩
  obtain ⟨k, rfl⟩ : ∃ k, n = k + 1 := ⟨n - 1, by omega⟩
  rw [hxy]
  exact hy k (by omega)

end Ends

namespace Exec

variable {m m' : Machine} {Q : α → Prop} {Q' : β → Prop}

theorem ends_bind {x : Nat → Exec α} {f : Nat → α → Exec β} (hx : Ends m Q fun n => x n m')
    (hf : ∀ a m'', m.Keeps m'' → Q a → Ends m Q' fun n => f n a m'') :
    Ends m Q' fun n => (x n >>= f n) m' := by
  simp only [bind_apply,Exec.bind]
  refine hx.andThen (g := fun n o => match o with
    | .ok a m'' => f n a m''
    | .error e m'' => .error e m''
    | .outOfFuel m'' => .outOfFuel m'') fun o ho => ?_
  cases o with
  | ok a m'' => exact hf a m'' ho.1 ho.2
  | error e m'' => exact .of_settles ho
  | outOfFuel m'' => exact ho.elim

theorem ends_pure {a : α} (h : m.Keeps m') (ha : Q a) : Ends m Q fun _ => (Pure.pure a : Exec α) m' :=
  .of_settles ⟨h, ha⟩

theorem ends_fail {e : RuntimeError} (h : m.Keeps m') :
    Ends m Q fun _ => (Exec.fail e : Exec α) m' := .of_settles (h.raise e)

theorem ends_ofExcept {r : Except RuntimeError α} (h : m.Keeps m') (hQ : ∀ a, r = .ok a → Q a) :
    Ends m Q fun _ => Exec.ofExcept r m' := by
  cases r with
  | ok a => exact .of_settles ⟨h, hQ a rfl⟩
  | error e => exact .of_settles (h.raise e)

theorem ends_ofExcept_bind {r : Except RuntimeError α} {f : Nat → α → Exec β} (h : m.Keeps m')
    (hf : ∀ a, r = .ok a → Ends m Q' fun n => f n a m') :
    Ends m Q' fun n => (Exec.ofExcept r >>= f n) m' := by
  cases r with
  | ok a => exact hf a rfl
  | error e => exact .of_settles (h.raise e)

theorem ends_read_bind {g : Machine → α} {f : Nat → α → Exec β}
    (h : Ends m Q' fun n => f n (g m') m') : Ends m Q' fun n => (Exec.read g >>= f n) m' := h

theorem ends_machine_bind {f : Nat → Machine → Exec β} (h : Ends m Q' fun n => f n m' m') :
    Ends m Q' fun n => (Exec.read id >>= f n) m' := h

theorem ends_update_bind {g : Machine → Machine} {f : Nat → Unit → Exec β}
    (h : Ends m Q' fun n => f n () (g m')) : Ends m Q' fun n => (Exec.update g >>= f n) m' := h

theorem ends_ite {c : Prop} [Decidable c] {x y : Nat → Exec α} (hx : c → Ends m Q fun n => x n m')
    (hy : ¬c → Ends m Q fun n => y n m') : Ends m Q fun n => (if c then x n else y n) m' := by
  by_cases hc : c
  · simp only [if_pos hc]
    exact hx hc
  · simp only [if_neg hc]
    exact hy hc

theorem ends_onMemory {f : Memory → Except RuntimeError Memory} (h : m.Keeps m')
    (hs : ∀ s, f m'.memory = .ok s → s.LoopFree) : Ends m Anything fun _ => Exec.onMemory f m' := by
  unfold Exec.onMemory
  cases hf : f m'.memory with
  | ok s => exact .of_settles ⟨h.setMemory (hs s hf), trivial⟩
  | error e => exact .of_settles (h.raise e)

/-- An action after which the machine is changed. -/
theorem ends_finally {x : Nat → Exec α} {f : Machine → Machine} (h : Ends m Q fun n => x n m)
    {m₀ : Machine} (hf : ∀ m', m.Keeps m' → m₀.Keeps (f m')) :
    Ends m₀ Q fun n => Exec.finally_ (x n) f m := by
  unfold Exec.finally_
  refine h.andThen (g := fun _ o => match o with
    | .ok a m' => .ok a (f m')
    | .error e m' => .error e (f m')
    | .outOfFuel m' => .outOfFuel m') fun o ho => ?_
  cases o with
  | ok a m' => exact .of_settles ⟨hf m' ho.1, ho.2⟩
  | error e m' => exact .of_settles (hf m' ho)
  | outOfFuel m' => exact ho.elim

theorem ends_withScope {kind : FrameKind} {x : Nat → Exec α}
    (h : Ends (m.onMemory fun s => s.push kind) Q fun n => x n (m.onMemory fun s => s.push kind)) :
    Ends m Q fun n => Exec.withScope kind (x n) m :=
  ends_finally h fun _ hk => { hk with memory := hk.memory.pop }

theorem ends_atLine {line : Nat} {x : Nat → Exec α}
    (h : Ends { m with line } Q fun n => x n { m with line }) :
    Ends m Q fun n => Exec.atLine line (x n) m :=
  ends_finally h fun _ hk => { hk with }

theorem ends_withFreshChain {x : Nat → Exec α}
    (h : Ends { m with chain := .fresh } Q fun n => x n { m with chain := .fresh }) :
    Ends m Q fun n => Exec.withFreshChain (x n) m :=
  ends_finally h fun _ hk => { hk with }

theorem ends_wrapping {construct : Option String} {x : Nat → Exec α} (h : Ends m Q fun n => x n m') :
    Ends m Q fun n => Exec.wrapping construct (x n) m' := by
  refine h.goesOn fun o ho => ?_
  cases o with
  | ok a m' => exact ⟨fun _ => .ok a m', .of_settles ho, fun n hn => by simp only [Exec.wrapping,hn]⟩
  | error e m' =>
    cases construct with
    | none => exact ⟨fun _ => .error e m', .of_settles ho, fun n hn => by simp only [Exec.wrapping,hn]⟩
    | some c =>
      exact ⟨fun _ => .error (e.wrap c) m', .of_settles ho, fun n hn => by simp only [Exec.wrapping,hn]⟩
  | outOfFuel m' => exact ho.elim

theorem ends_withFrame {f : CallFrame} {x : Nat → Exec α} (hm : m.memory.LoopFree)
    (h : ∀ stack, m.stack.push f = .ok stack → Ends { m with stack } Q fun n => x n { m with stack }) :
    Ends m Q fun n => Exec.withFrame f (x n) m := by
  have hkeeps : m.Keeps m := ⟨rfl, rfl, rfl, hm⟩
  unfold Exec.withFrame
  cases hs : m.stack.push f with
  | error e => exact .of_settles (hkeeps.raise e).capture
  | ok stack =>
    have hpop {m' : Machine} (hk : Machine.Keeps { m with stack } m') :
        m.Keeps { m' with stack := m'.stack.pop } :=
      { hk with stack := hk.stack ▸ CallStack.pop_of_push hs }
    refine (h stack hs).andThen (g := fun _ o => match o with
      | .ok a m => .ok a { m with stack := m.stack.pop }
      | .error e m =>
        let m := m.capture
        .error e { m with stack := m.stack.pop }
      | .outOfFuel m => .outOfFuel m) fun o ho => ?_
    cases o with
    | ok a m' => exact .of_settles ⟨hpop ho.1, ho.2⟩
    | error e m' => exact .of_settles (hpop (Machine.Keeps.capture ho))
    | outOfFuel m' => exact ho.elim

end Exec

end LineScript
