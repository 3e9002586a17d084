import LineScript.Proofs.Machine.Steps
set_option autoImplicit false

/-!
The depth of calls. A call stack keeps the number of its methods beside its frames; whatever was pushed,
popped and cleared before, the number is right, so the limit bounds the methods that are on the stack. The
frames themselves are those of a list without a counter, to which calls are added at the end.
-/

namespace LineScript

def CallFrame.isMethod (f : CallFrame) : Bool := f.kind = .method

namespace CallStack

inductive Move where
  | push (f : CallFrame)
  | pop
  | clear
  deriving DecidableEq, Repr

/-- What a move makes of the stack; a push that is refused leaves it. -/
def move (s : CallStack) : Move → CallStack
  | .push f =>
    match s.push f with
    | .ok t => t
    | .error _ => s
  | .pop => s.pop
  | .clear => s.clear

/-- What a move makes of the frames, outermost first. The methods are counted anew for every push. -/
def Move.frames (maxDepth : Nat) (fs : List CallFrame) : Move → List CallFrame
  | .push f => if f.isMethod ∧ maxDepth ≤ fs.countP CallFrame.isMethod then fs else fs ++ [f]
  | .pop => fs.dropLast
  | .clear => []

/-- The frames after these moves, outermost first. -/
def standing (maxDepth : Nat) (moves : List Move) : List CallFrame :=
  moves.foldl (Move.frames maxDepth) []

/-- The stack with these frames, innermost first, and the number of their methods. -/
def ofFrames (maxDepth : Nat) (fs : List CallFrame) : CallStack :=
  ⟨fs, fs.countP CallFrame.isMethod, maxDepth⟩

variable (maxDepth : Nat) (fs : List CallFrame)

theorem push_ofFrames (f : CallFrame) :
    (ofFrames maxDepth fs).push f =
      if f.isMethod ∧ maxDepth ≤ fs.countP CallFrame.isMethod then .error (.stackOverflow maxDepth)
      else .ok (ofFrames maxDepth (f :: fs)) := by
  by_cases hf : f.kind = .method
  · by_cases hn : maxDepth ≤ fs.countP CallFrame.isMethod
    · simp [push,ofFrames,CallFrame.isMethod,hf,hn]
    · simp [push,ofFrames,CallFrame.isMethod,hf,hn]
  · simp [push,ofFrames,CallFrame.isMethod,hf]

theorem pop_ofFrames : (ofFrames maxDepth fs).pop = ofFrames maxDepth fs.tail := by
  cases fs with
  | nil => rfl
  | cons f fs =>
    by_cases hf : f.kind = .method
    · simp [pop,ofFrames,CallFrame.isMethod,hf]
    · simp [pop,ofFrames,CallFrame.isMethod,hf]

theorem move_ofFrames (a : Move) :
    (ofFrames maxDepth fs.reverse).move a = ofFrames maxDepth (a.frames maxDepth fs).reverse := by
  cases a with
  | push f =>
    rw [move,push_ofFrames,List.countP_reverse,Move.frames]
    by_cases h : f.isMethod ∧ maxDepth ≤ fs.countP CallFrame.isMethod
    · rw [if_pos h,if_pos h]
    · rw [if_neg h,if_neg h,List.reverse_append]
      rfl
  | pop => rw [move,pop_ofFrames,List.tail_reverse,Move.frames]
  | clear => rfl

theorem foldl_move (moves : List Move) :
    moves.foldl move (ofFrames maxDepth fs.reverse) =
      ofFrames maxDepth (moves.foldl (Move.frames maxDepth) fs).reverse := by
  induction moves generalizing fs with
  | nil => rfl
  | cons a moves ih => rw [List.foldl_cons,move_ofFrames,ih,List.foldl_cons]

/-- No move goes over the limit. -/
theorem countP_frames_le {fs : List CallFrame} (h : fs.countP CallFrame.isMethod ≤ maxDepth) (a : Move) :
    (a.frames maxDepth fs).countP CallFrame.isMethod ≤ maxDepth := by
  cases a with
  | push f =>
    rw [Move.frames]
    split
    · exact h
    · next hf =>
      by_cases hm : f.isMethod
      · have hlt : fs.countP CallFrame.isMethod < maxDepth := by simpa [hm] using hf
        simpa [hm] using Nat.succ_le_of_lt hlt
      · simpa [hm] using h
  | pop => exact Nat.le_trans (List.dropLast_sublist fs).countP_le h
  | clear => exact Nat.zero_le maxDepth

theorem countP_standing_le (moves : List Move) :
    (standing maxDepth moves).countP CallFrame.isMethod ≤ maxDepth := by
  suffices h : ∀ fs : List CallFrame, fs.countP CallFrame.isMethod ≤ maxDepth →
      (moves.foldl (Move.frames maxDepth) fs).countP CallFrame.isMethod ≤ maxDepth from
    h [] (Nat.zero_le maxDepth)
  induction moves with
  | nil => exact fun _ h => h
  | cons a moves ih => exact fun fs h => ih _ (countP_frames_le maxDepth h a)

theorem after_moves (moves : List Move) :
    moves.foldl move (new maxDepth) = ofFrames maxDepth (standing maxDepth moves).reverse :=
  foldl_move maxDepth [] moves

theorem push_eq_error_iff {maxDepth : Nat} {fs : List CallFrame} {f : CallFrame} {e : RuntimeError} :
    (ofFrames maxDepth fs).push f = .error e ↔
      f.isMethod ∧ maxDepth ≤ fs.countP CallFrame.isMethod ∧ e = .stackOverflow maxDepth := by
  rw [push_ofFrames]
  split
  · next h => simp [h,eq_comm]
  · next h => simpa using fun hf hn => absurd ⟨hf, hn⟩ h

theorem methodDepth_pop {f : CallFrame} {s : CallStack} {fs : List CallFrame}
    (hs : s = ofFrames maxDepth fs) (hf : s.top? = some f) :
    s.pop.methodDepth + (if f.isMethod then 1 else 0) = s.methodDepth := by
  subst hs
  obtain ⟨rest, rfl⟩ : ∃ rest, fs = f :: rest := List.head?_eq_some_iff.1 hf
  rw [pop_ofFrames]
  exact (List.countP_cons).symm

end CallStack

/-- A call that is refused does not run, and the call stack stays. -/
theorem Exec.stack_of_refused {α : Type} (x : Exec α) {m : Machine} {f : CallFrame} {e : RuntimeError}
    (h : m.stack.push f = .error e) : ∃ m', withFrame f x m = .error e m' ∧ m'.stack = m.stack := by
  refine ⟨(m.raise e).capture, ?_, Machine.stack_capture _⟩
  rw [withFrame,h]

variable {d : Declarations} {Known : Class Token → Prop} {s t : Stage}

theorem Step.moves (h : Step d Known s t) :
    ∃ moves : List CallStack.Move, t.machine.stack = moves.foldl CallStack.move s.machine.stack := by
  cases h with
  | @call m f stack hp => exact ⟨[.push f], by simp [CallStack.move,hp]⟩
  | back m => exact ⟨[.pop], rfl⟩
  | unwind e _ => exact ⟨[.pop], rfl⟩
  | capture m e => exact ⟨[], m.stack_capture⟩
  | _ => exact ⟨[], rfl⟩

theorem Steps.moves (h : Steps d Known s t) :
    ∃ moves : List CallStack.Move, t.machine.stack = moves.foldl CallStack.move s.machine.stack := by
  induction h with
  | refl => exact ⟨[], rfl⟩
  | tail _ hstep ih =>
    obtain ⟨before, hbefore⟩ := ih
    obtain ⟨moves, hmoves⟩ := hstep.moves
    exact ⟨before ++ moves, by rw [hmoves,hbefore,List.foldl_append]⟩

/-- At every stage of a run the call stack has the number of its methods beside its frames, and no more of
them than the limit allows. -/
theorem Steps.within_limit {maxDepth : Nat} (hs : s.machine.stack = .new maxDepth) (h : Steps d Known s t) :
    ∃ fs, t.machine.stack = .ofFrames maxDepth fs ∧ fs.countP CallFrame.isMethod ≤ maxDepth := by
  obtain ⟨moves, hmoves⟩ := h.moves
  refine ⟨(CallStack.standing maxDepth moves).reverse, ?_, ?_⟩
  · rw [hmoves,hs,CallStack.after_moves]
  · rw [List.countP_reverse]
    exact CallStack.countP_standing_le maxDepth moves

namespace CallStack

/-- After any moves the counter is the number of methods on the stack, so it never goes below zero or over
the limit, a call is refused just where the limit is reached, and the trace begins with the innermost frame. -/
theorem depth_counts_methods (maxDepth : Nat) (moves : List Move) :
    let s := moves.foldl move (new maxDepth)
    s.methodDepth = s.frames.countP CallFrame.isMethod ∧ s.methodDepth ≤ maxDepth ∧
    (∀ f, s.top? = some f → s.pop.methodDepth + (if f.isMethod then 1 else 0) = s.methodDepth) ∧
    (∀ f e, s.push f = .error e ↔
      f.isMethod ∧ s.frames.countP CallFrame.isMethod = maxDepth ∧ e = .stackOverflow maxDepth) ∧
    (∀ (α : Type) (x : Exec α) (m : Machine) f e, m.stack = s → s.push f = .error e →
      ∃ m', Exec.withFrame f x m = .error e m' ∧ m'.stack = s) ∧
    s.trace = ((standing maxDepth moves).map CallFrame.render).reverse := by
  intro s
  have hs : s = ofFrames maxDepth (standing maxDepth moves).reverse := after_moves maxDepth moves
  have hcount : s.methodDepth = s.frames.countP CallFrame.isMethod := by rw [hs]; rfl
  have hle : s.methodDepth ≤ maxDepth := by
    have hstanding := countP_standing_le maxDepth moves
    rwa [hs,ofFrames,List.countP_reverse]
  refine ⟨hcount, hle, fun f hf => methodDepth_pop maxDepth hs hf, fun f e => ?_,
    fun α x m f e hm he => ?_, ?_⟩
  · have hfull : s.frames.countP CallFrame.isMethod = maxDepth ↔
        maxDepth ≤ s.frames.countP CallFrame.isMethod := by omega
    rw [hfull,hs,push_eq_error_iff]
    rfl
  · exact hm ▸ Exec.stack_of_refused x (hm ▸ he)
  · rw [hs,← List.map_reverse]
    rfl

theorem depth_counts_methods_at_limit :
    let line : CallFrame := ⟨.line, "f", "main", 5⟩
    let f : CallFrame := ⟨.method, "f", "main", 1⟩
    let host : CallFrame := ⟨.host, "EZCode.print", "main", 2⟩
    let s := [.push line, .push f, .push f, .push host, .pop].foldl move (new 1)
    let m := { Machine.new .standard .standard with stack := s }
    s.methodDepth = 1 ∧ s.pop.methodDepth + 1 = s.methodDepth ∧ s.push f = .error (.stackOverflow 1) ∧
      (∃ m', Exec.withFrame f (pure ()) m = .error (.stackOverflow 1) m' ∧ m'.stack = s) ∧
      s.trace = ["method: f, file: main, line: 1", "codeline: \"f\", file: \"main\", line: 5"] := by
  intro line f host s m
  obtain ⟨-, -, hpop, hpush, hrefused, -⟩ :=
    depth_counts_methods 1 [.push line, .push f, .push f, .push host, .pop]
  have hfull : s.push f = .error (.stackOverflow 1) :=
    (hpush f (.stackOverflow 1)).2 ⟨by decide, by decide, rfl⟩
  exact ⟨rfl, hpop f rfl, hfull, hrefused Unit (pure ()) m f _ rfl hfull, by decide⟩

end CallStack

end LineScript
