import LineScript.Machine.Typing
import LineScript.Proofs.Memory.Barrier
set_option autoImplicit false

/-!
Two runs side by side. `Machine.Alike` relates machines that differ only in what their memories have
below the frames they share, in their file, in the errors reported and in traces; `Outcome.Alike` says
that two actions end in the same way on such machines. The rules below take the actions of the machine
apart, for two runs at once.
-/

namespace LineScript

/-- What the call stack does next is read off the kinds of its frames. -/
def CallStack.Alike (s t : CallStack) : Prop :=
  t.frames.map CallFrame.kind = s.frames.map CallFrame.kind ∧ t.methodDepth = s.methodDepth ∧
    t.maxDepth = s.maxDepth

namespace CallStack.Alike

variable {s t : CallStack}

theorem refl (s : CallStack) : s.Alike s := ⟨rfl, rfl, rfl⟩

theorem pop (h : s.Alike t) : s.pop.Alike t.pop := by
  obtain ⟨hf, hd, hm⟩ := h
  unfold CallStack.pop
  cases hs : s.frames with
  | nil =>
    have ht : t.frames = [] := by simpa [hs] using hf
    simp [CallStack.Alike,hs,ht,hd,hm]
  | cons f fs =>
    cases ht : t.frames with
    | nil => simp [hs,ht] at hf
    | cons g gs =>
      obtain ⟨hk, hks⟩ : g.kind = f.kind ∧ gs.map CallFrame.kind = fs.map CallFrame.kind := by
        simpa [hs,ht] using hf
      simp [CallStack.Alike,hk,hks,hd,hm]

/-- Frames of one kind are taken by both stacks, or refused by both. -/
theorem push (h : s.Alike t) {f g : CallFrame} (hk : g.kind = f.kind) :
    (∃ s' t', s.push f = .ok s' ∧ t.push g = .ok t' ∧ s'.Alike t') ∨
      ∃ e, s.push f = .error e ∧ t.push g = .error e := by
  obtain ⟨hf, hd, hm⟩ := h
  unfold CallStack.push
  rw [hk,hd,hm]
  by_cases hmethod : f.kind = .method
  · by_cases hfull : s.maxDepth ≤ s.methodDepth
    · rw [if_pos hmethod,if_pos hfull,if_pos hmethod,if_pos hfull]
      exact .inr ⟨_, rfl, rfl⟩
    · rw [if_pos hmethod,if_neg hfull,if_pos hmethod,if_neg hfull]
      exact .inl ⟨_, _, rfl, rfl, by simp [CallStack.Alike,hk,hf]⟩
  · rw [if_neg hmethod,if_neg hmethod]
    exact .inl ⟨_, _, rfl, rfl, by simp [CallStack.Alike,hk,hf]⟩

end CallStack.Alike

/-- The machines differ in nothing that code above the shield can see. The chains of the bodies being
executed are related by `C`. -/
structure Machine.Alike (σ : Shield) (C : Chain → Chain → Prop) (m n : Machine) : Prop where
  declared : n.declared = m.declared
  host : n.host = m.host
  output : n.output = m.output
  line : n.line = m.line
  stack : m.stack.Alike n.stack
  chain : C m.chain n.chain
  memory : σ.Covers m.memory n.memory

namespace Machine.Alike

variable {σ : Shield} {C : Chain → Chain → Prop} {m n : Machine}

theorem setMemory (h : m.Alike σ C n) {τ : Shield} {s t : Memory} (hst : τ.Covers s t) :
    (m.setMemory s).Alike τ C (n.setMemory t) := { h with memory := hst }

theorem withStack (h : m.Alike σ C n) {s t : CallStack} (hst : s.Alike t) :
    Machine.Alike σ C { m with stack := s } { n with stack := t } := { h with stack := hst }

theorem withLine (h : m.Alike σ C n) (line : Nat) :
    Machine.Alike σ C { m with line } { n with line } := { h with line := rfl }

theorem withChain (h : m.Alike σ C n) {D : Chain → Chain → Prop} {c d : Chain} (hcd : D c d) :
    Machine.Alike σ D { m with chain := c } { n with chain := d } := { h with chain := hcd }

theorem withBranch (h : m.Alike σ Eq n) (taken : Bool) :
    Machine.Alike σ Eq { m with chain := { m.chain with branchTaken := taken } }
      { n with chain := { n.chain with branchTaken := taken } } := by
  rw [← h.chain]
  exact h.withChain rfl

theorem withPending (h : m.Alike σ Eq n) (message : Option String) :
    Machine.Alike σ Eq { m with chain := { m.chain with pending := message } }
      { n with chain := { n.chain with pending := message } } := by
  rw [← h.chain]
  exact h.withChain rfl

theorem raise (h : m.Alike σ C n) (e : RuntimeError) : (m.raise e).Alike σ C (n.raise e) := { h with }

theorem capture (h : m.Alike σ C n) : m.capture.Alike σ C n.capture := by
  unfold Machine.capture
  cases m.failure with
  | some trace =>
    cases n.failure with
    | some trace' => exact h
    | none => exact { h with }
  | none =>
    cases n.failure with
    | some trace' => exact { h with }
    | none => exact { h with }

theorem findMethod? (h : m.Alike σ C n) (hσ : σ.Barred) (name : String) :
    n.findMethod? name = m.findMethod? name := by
  rw [Machine.findMethod?,h.declared,h.memory.currentInstance? hσ,Machine.findMethod?]

theorem checkNameFree (h : m.Alike σ C n) (hσ : σ.Barred) (name : String) :
    n.checkNameFree name = m.checkNameFree name := by
  rw [Machine.checkNameFree,h.declared,h.findMethod? hσ,Machine.checkNameFree]

theorem checkInside (h : m.Alike σ C n) (hσ : σ.Barred) (c : Class Token) :
    n.checkInside c = m.checkInside c := by
  rw [Machine.checkInside,h.declared,h.memory.currentInstance? hσ,Machine.checkInside]

end Machine.Alike

variable {α β : Type}

/-- Both actions end with the same value or with the same error and leave alike machines, or neither
ends. -/
inductive Outcome.Alike (σ : Shield) (C : Chain → Chain → Prop) : Outcome α → Outcome α → Prop
  | ok (a : α) {m n : Machine} (h : m.Alike σ C n) : Outcome.Alike σ C (.ok a m) (.ok a n)
  | error (e : RuntimeError) {m n : Machine} (h : m.Alike σ C n) :
    Outcome.Alike σ C (.error e m) (.error e n)
  | outOfFuel (m n : Machine) : Outcome.Alike σ C (.outOfFuel m) (.outOfFuel n)

namespace Exec

variable {σ : Shield} {C : Chain → Chain → Prop} {m n : Machine}

theorem alike_bind {x y : Exec α} {f g : α → Exec β} (hx : (x m).Alike σ C (y n))
    (hf : ∀ a m' n', m'.Alike σ C n' → (f a m').Alike σ C (g a n')) :
    ((x >>= f) m).Alike σ C ((y >>= g) n) := by
  change (Exec.bind x f m).Alike σ C (Exec.bind y g n)
  unfold Exec.bind
  generalize x m = o at hx
  generalize y n = p at hx
  cases hx with
  | ok a h => exact hf a _ _ h
  | error e h => exact .error e h
  | outOfFuel m' n' => exact .outOfFuel m' n'

theorem alike_pure {a : α} (h : m.Alike σ C n) :
    ((Pure.pure a : Exec α) m).Alike σ C ((Pure.pure a : Exec α) n) := .ok a h

theorem alike_fail {e : RuntimeError} (h : m.Alike σ C n) :
    ((Exec.fail e : Exec α) m).Alike σ C ((Exec.fail e : Exec α) n) :=
  .error e (h.raise e)

theorem alike_ofExcept (r : Except RuntimeError α) (h : m.Alike σ C n) :
    (Exec.ofExcept r m).Alike σ C (Exec.ofExcept r n) := by
  cases r with
  | ok a => exact .ok a h
  | error e => exact .error e (h.raise e)

theorem alike_ofExcept_bind {r : Except RuntimeError α} {f g : α → Exec β} (h : m.Alike σ C n)
    (hf : ∀ a, (f a m).Alike σ C (g a n)) :
    ((Exec.ofExcept r >>= f) m).Alike σ C ((Exec.ofExcept r >>= g) n) := by
  cases r with
  | ok a => exact hf a
  | error e => exact .error e (h.raise e)

theorem alike_machine_bind {f : Machine → Exec β} (h : (f m m).Alike σ C (f n n)) :
    ((Exec.read id >>= f) m).Alike σ C ((Exec.read id >>= f) n) := h

theorem alike_read_bind {p : Machine → α} {f : α → Exec β} (hp : p n = p m)
    (h : (f (p m) m).Alike σ C (f (p m) n)) :
    ((Exec.read p >>= f) m).Alike σ C ((Exec.read p >>= f) n) := by
  change (f (p m) m).Alike σ C (f (p n) n)
  rwa [hp]

theorem alike_config_bind {f : Config → Exec β} (h : (f m.config m).Alike σ C (f n.config n)) :
    ((Exec.read Machine.config >>= f) m).Alike σ C ((Exec.read Machine.config >>= f) n) := h

theorem alike_update_bind {p : Machine → Machine} {f : Unit → Exec β}
    (h : (f () (p m)).Alike σ C (f () (p n))) :
    ((Exec.update p >>= f) m).Alike σ C ((Exec.update p >>= f) n) := h

theorem alike_ite {c : Prop} [Decidable c] {x y x' y' : Exec α}
    (hx : (x m).Alike σ C (x' n)) (hy : (y m).Alike σ C (y' n)) :
    ((if c then x else y) m).Alike σ C ((if c then x' else y') n) := by
  by_cases hc : c
  · rwa [if_pos hc,if_pos hc]
  · rwa [if_neg hc,if_neg hc]

theorem alike_onMemory {f : Memory → Except RuntimeError Memory} (h : m.Alike σ C n)
    (hf : σ.CoversEach (f m.memory) (f n.memory)) :
    (Exec.onMemory f m).Alike σ C (Exec.onMemory f n) := by
  unfold Exec.onMemory
  generalize f m.memory = r at hf
  generalize f n.memory = r' at hf
  cases hf with
  | ok hst => exact .ok () (h.setMemory hst)
  | error e => exact .error e (h.raise e)

theorem alike_finally {τ : Shield} {D : Chain → Chain → Prop} {x y : Exec α}
    {p q : Machine → Machine} (hx : (x m).Alike τ D (y n))
    (hp : ∀ m' n', m'.Alike τ D n' → (p m').Alike σ C (q n')) :
    (Exec.finally_ x p m).Alike σ C (Exec.finally_ y q n) := by
  unfold Exec.finally_
  generalize x m = o at hx
  generalize y n = o' at hx
  cases hx with
  | ok a h => exact .ok a (hp _ _ h)
  | error e h => exact .error e (hp _ _ h)
  | outOfFuel m' n' => exact .outOfFuel m' n'

theorem alike_withScope {kind : FrameKind} {x : Exec α} (h : m.Alike σ C n)
    (hx : ∀ m' n', m'.Alike (σ.push kind) C n' → (x m').Alike (σ.push kind) C (x n')) :
    (Exec.withScope kind x m).Alike σ C (Exec.withScope kind x n) :=
  alike_finally (hx _ _ (h.setMemory (h.memory.push kind))) fun _ _ h' =>
    h'.setMemory h'.memory.pop

theorem alike_withFreshChain {x : Exec α} (h : m.Alike σ C n)
    (hx : ∀ m' n', m'.Alike σ Eq n' → (x m').Alike σ Eq (x n')) :
    (Exec.withFreshChain x m).Alike σ C (Exec.withFreshChain x n) :=
  alike_finally (hx _ _ (h.withChain rfl)) fun _ _ h' => h'.withChain h.chain

theorem alike_atLine {line : Nat} {x : Exec α} (h : m.Alike σ C n)
    (hx : ∀ m' n', m'.Alike σ C n' → (x m').Alike σ C (x n')) :
    (Exec.atLine line x m).Alike σ C (Exec.atLine line x n) := by
  refine alike_finally (hx _ _ (h.withLine line)) fun m' n' h' => ?_
  rw [h.line]
  exact h'.withLine m.line

theorem alike_withFrame {f g : CallFrame} (hk : g.kind = f.kind) {x : Exec α} (h : m.Alike σ C n)
    (hx : ∀ m' n', m'.Alike σ C n' → (x m').Alike σ C (x n')) :
    (Exec.withFrame f x m).Alike σ C (Exec.withFrame g x n) := by
  unfold Exec.withFrame
  rcases h.stack.push hk with ⟨s, t, hs, ht, hst⟩ | ⟨e, hs, ht⟩
  · simp only [hs,ht]
    have hx := hx _ _ (h.withStack hst)
    generalize x { m with stack := s } = o at hx
    generalize x { n with stack := t } = o' at hx
    cases hx with
    | ok a h' => exact .ok a (h'.withStack h'.stack.pop)
    | error e h' => exact .error e (h'.capture.withStack h'.capture.stack.pop)
    | outOfFuel m' n' => exact .outOfFuel m' n'
  · simp only [hs,ht]
    exact .error e (h.raise e).capture

theorem alike_wrapping {construct : Option String} {x : Exec α} (hx : (x m).Alike σ C (x n)) :
    (Exec.wrapping construct x m).Alike σ C (Exec.wrapping construct x n) := by
  unfold Exec.wrapping
  generalize x m = o at hx
  generalize x n = o' at hx
  cases hx with
  | ok a h => exact .ok a h
  | error e h =>
    cases construct with
    | none => exact .error e h
    | some c => exact .error (e.wrap c) h
  | outOfFuel m' n' => exact .outOfFuel m' n'

end Exec

end LineScript
