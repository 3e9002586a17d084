import Mathlib.Logic.Relation
import LineScript.Machine.Basic
import LineScript.Parser.Header
import LineScript.Proofs.Memory.Writes
set_option autoImplicit false

/-!
The laws of the variables. An assignment changes the value of what the look-up finds, and nothing else that
a look-up sees; an operation that is refused changes nothing; what is bound is found; and a frame that is
dropped takes along whatever it gained. Frames may share instances, as an instance has its properties once.
-/

namespace LineScript

theorem Bindings.get?_put_self (bs : List Binding) (b : Binding) : get? (put bs b) b.name = some b := by
  induction bs with
  | nil => simp [put,get?]
  | cons c bs ih =>
    by_cases h : c.name = b.name
    · simp [put,get?,h]
    · simpa [put,get?,h] using ih

namespace Memory

variable {s t : Memory}

theorem get?_bind_self (s : Memory) (b : Binding) : (s.bind b).get? b.name = some b := by
  cases hf : s.frames with
  | nil => simp [bind,get?,setTop,top,hf,find,Bindings.get?_put_self]
  | cons f fs => simp [bind,get?,setTop,top,hf,find,Bindings.get?_put_self]

/-- A declaration is refused where the innermost frame has the name. -/
theorem declare_ok_iff (s : Memory) (b : Binding) :
    (∃ t, s.declare b = .ok t) ↔ Bindings.get? s.top b.name = none := by
  cases h : Bindings.get? s.top b.name with
  | none => simp [declare,h]
  | some c => simp [declare,h]

/-- One more binding in the innermost frame. -/
inductive Gains (s : Memory) : Memory → Prop where
  | declare {t : Memory} {b : Binding} (h : s.declare b = .ok t) : Gains s t
  | bind (b : Binding) : Gains s (s.bind b)

/-- Whatever a new frame gains, without the frame the memory is as it was. -/
theorem pop?_of_gains {kind : FrameKind} (h : Relation.ReflTransGen Gains (s.push kind) t) :
    t.pop? = .ok s := by
  suffices hbs : ∃ bs, t = s.under ⟨kind, bs⟩ by
    obtain ⟨bs, rfl⟩ := hbs
    rfl
  induction h with
  | refl => exact ⟨[], rfl⟩
  | tail _ hg ih =>
    obtain ⟨bs, rfl⟩ := ih
    cases hg with
    | declare hd => exact ⟨_, bind_of_declare hd⟩
    | bind b => exact ⟨_, rfl⟩

end Memory

/-- An operation on the variables that is refused leaves them as they are. -/
theorem Exec.memory_of_onMemory {op : Memory → Except RuntimeError Memory} {m m' : Machine}
    {e : RuntimeError} (h : onMemory op m = .error e m') :
    op m.memory = .error e ∧ m'.memory = m.memory := by
  unfold onMemory at h
  cases ho : op m.memory with
  | ok s => simp [ho] at h
  | error e' =>
    simp only [ho] at h
    cases h
    exact ⟨rfl, rfl⟩

namespace Memory

/-- What is found can be assigned, and an assignment is seen under that name alone, in no frame behind the
barrier of an instance and in no other instance; what is refused changes nothing; what is bound is found; and
a frame takes along what it gained. -/
theorem store_laws (s : Memory) (name : String) :
    (∀ v, (∃ t, s.assign name v = .ok t) ↔ ∃ b, s.get? name = some b) ∧
    (∀ v t, s.assign name v = .ok t →
      (∃ b, s.get? name = some b ∧ t.get? name = some (b.withValue v)) ∧
      (∀ other, other ≠ name → t.get? other = s.get? other) ∧
      (∀ i f r, s.frames[i]? = some f → f.kind = .ofInstance r →
        t.frames.drop (i + 1) = s.frames.drop (i + 1) ∧ t.globals = s.globals) ∧
      ∀ q, (∀ r, s.currentInstance? = some r → r.id ≠ q.id) → t.properties q = s.properties q) ∧
    (∀ b, (∃ t, s.declare b = .ok t) ↔ Bindings.get? s.top b.name = none) ∧
    (∀ (m m' : Machine) (e : RuntimeError), m.memory = s →
      (∃ v, Exec.onMemory (fun memory => memory.assign name v) m = .error e m') ∨
        (∃ b, Exec.onMemory (fun memory => memory.declare b) m = .error e m') → m'.memory = s) ∧
    (∀ b t, s.declare b = .ok t → t.get? b.name = some b) ∧
    (∀ b, (s.bind b).get? b.name = some b) ∧
    ∀ kind t, Relation.ReflTransGen Gains (s.push kind) t →
      ∃ u, t.pop? = .ok u ∧ u.get? name = s.get? name := by
  refine ⟨s.assign_ok_iff name, fun v t ht => ?_, s.declare_ok_iff, fun m m' e hm he => ?_,
    fun b t ht => ?_, s.get?_bind_self, fun kind t hg => ⟨s, pop?_of_gains hg, rfl⟩⟩
  · have hw := writes_of_assign ht
    exact ⟨hw.get?_self, fun _ hne => hw.get?_of_ne hne, fun _ _ _ hi hk => hw.behind hi hk,
      fun _ hq => hw.properties hq⟩
  · rcases he with ⟨v, he⟩ | ⟨b, he⟩
    · exact (Exec.memory_of_onMemory he).2.trans hm
    · exact (Exec.memory_of_onMemory he).2.trans hm
  · obtain rfl := bind_of_declare ht
    exact s.get?_bind_self b

/-- A box whose method has called another one of its methods, through a method that has its own `size`. -/
def shared : Memory :=
  ⟨[⟨.block, [⟨"y", .text "1", .untyped, true, 9⟩]⟩, ⟨.ofInstance ⟨0, ClassHead.emptyClass "Box" 1 [] 3⟩, []⟩,
      ⟨.call, [⟨"size", .text "7", .untyped, true, 6⟩]⟩,
      ⟨.ofInstance ⟨0, ClassHead.emptyClass "Box" 1 [] 3⟩, []⟩],
    [⟨"x", .text "2", .untyped, true, 4⟩],
    #[[⟨"size", .text "3", .untyped, false, 2⟩], [⟨"size", .text "5", .untyped, false, 2⟩]]⟩

theorem store_laws_shared :
    (∃ t, shared.assign "size" (.text "4") = .ok t ∧
      t.get? "size" = some ⟨"size", .text "4", .untyped, false, 2⟩ ∧ t.get? "y" = shared.get? "y" ∧
      t.frames.drop 2 = shared.frames.drop 2 ∧ t.globals = shared.globals ∧
      t.properties ⟨1, ClassHead.emptyClass "Box" 1 [] 3⟩ = [⟨"size", .text "5", .untyped, false, 2⟩]) ∧
    (∃ m', Exec.onMemory (fun memory => memory.assign "x" .empty)
        ((Machine.new .standard .standard).setMemory shared) = .error (.undefined "x") m' ∧
      m'.memory = shared) ∧
    (∃ e m', Exec.onMemory (fun memory => memory.declare ⟨"y", .empty, .untyped, true, 9⟩)
        ((Machine.new .standard .standard).setMemory shared) = .error e m' ∧ m'.memory = shared) ∧
    (∃ t, shared.declare ⟨"x", .empty, .untyped, true, 9⟩ = .ok t ∧
      t.get? "x" = some ⟨"x", .empty, .untyped, true, 9⟩) ∧
    ∃ u, ((shared.push .call).bind ⟨"size", .empty, .untyped, true, 9⟩).pop? = .ok u ∧
      u.get? "size" = shared.get? "size" := by
  obtain ⟨hassign, hwrite, -, -, -, -, hpop⟩ := store_laws shared "size"
  obtain ⟨-, -, hdeclare, hrefused, hdeclared, -, -⟩ := store_laws shared "x"
  have hunseen : Exec.onMemory (fun memory => memory.assign "x" .empty)
      ((Machine.new .standard .standard).setMemory shared) = .error (.undefined "x") _ := rfl
  have htaken : Exec.onMemory (fun memory => memory.declare ⟨"y", .empty, .untyped, true, 9⟩)
      ((Machine.new .standard .standard).setMemory shared) = .error _ _ := rfl
  refine ⟨?_, ⟨_, hunseen, hrefused _ _ _ rfl (.inl ⟨_, hunseen⟩)⟩,
    ⟨_, _, htaken, hrefused _ _ _ rfl (.inr ⟨_, htaken⟩)⟩, ?_, hpop .call _ (.single (.bind _))⟩
  · obtain ⟨t, ht⟩ := (hassign (.text "4")).2 ⟨_, rfl⟩
    obtain ⟨⟨b, hb, htb⟩, hother, hbehind, hinstances⟩ := hwrite (.text "4") t ht
    obtain rfl := Option.some.inj (hb.symm.trans (show shared.get? "size" = some _ from rfl))
    obtain ⟨hframes, hglobals⟩ := hbehind 1 _ _ rfl rfl
    refine ⟨t, ht, htb, hother "y" (by decide), hframes, hglobals, hinstances _ fun r hr => ?_⟩
    obtain rfl := Option.some.inj (hr.symm.trans (show shared.currentInstance? = some _ from rfl))
    decide
  · obtain ⟨t, ht⟩ := (hdeclare ⟨"x", .empty, .untyped, true, 9⟩).2 rfl
    exact ⟨t, ht, hdeclared _ t ht⟩

end Memory

end LineScript
