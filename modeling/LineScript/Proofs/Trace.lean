import LineScript.Proofs.Conditional
import LineScript.Proofs.FirstError
import LineScript.Proofs.Machine.LinesGo
set_option autoImplicit false

/-!
Traces. While code runs no trace is kept, since every attempt forgets that of the error it catches; while an
error is on its way out, what is kept is the trace of the frames that were on the call stack where it arose,
or nothing is kept yet and these frames are all there still. Hence a top-level line that fails is reported
with the trace of the error that left it, and of no other that arose in it.
-/

namespace LineScript

/-- The error after it has left constructs, from the inside out. -/
def RuntimeError.wrapAll (constructs : List String) (e : RuntimeError) : RuntimeError :=
  constructs.foldl (fun e c => e.wrap c) e

theorem RuntimeError.wrap_wrapAll (constructs : List String) (c : String) (e : RuntimeError) :
    (e.wrapAll constructs).wrap c = e.wrapAll (constructs ++ [c]) := by
  simp [wrapAll]

theorem CallStack.frames_pop (s : CallStack) : s.pop.frames = s.frames.tail := by
  unfold pop
  split
  · next h => simp [h]
  · next h => simp [h]

namespace Machine

/-- The machine has the trace of that error: it is kept, or the error has left no frame yet. -/
structure Traces (r : Raise) (m : Machine) : Prop where
  within : m.stack.frames <:+ r.stack.frames
  trace : m.failure = none ∧ m.stack = r.stack ∨ m.failure = some r.stack.trace

namespace Traces

variable {r : Raise} {m : Machine}

theorem raised {e : RuntimeError} (h : m.failure = none) : (m.raise e).Traces ⟨e, m.stack⟩ :=
  ⟨List.suffix_refl _, .inl ⟨h, rfl⟩⟩

theorem failure_capture (h : m.Traces r) : m.capture.failure = some r.stack.trace := by
  rcases h.trace with ⟨hnone, hstack⟩ | hsome
  · simp [capture,hnone,hstack]
  · simp [capture,hsome]

theorem capture (h : m.Traces r) : m.capture.Traces r :=
  ⟨m.stack_capture ▸ h.within, .inr h.failure_capture⟩

/-- An error leaves a frame only after its trace was kept. -/
theorem unwind (h : m.Traces r) {trace : List String} (hf : m.failure = some trace) :
    Traces r { m with stack := m.stack.pop } := by
  refine ⟨?_, .inr ?_⟩
  · rw [CallStack.frames_pop]
    exact (List.tail_suffix _).trans h.within
  · simpa [hf] using h.trace

end Traces

end Machine

/-- Errors that arose before are `past`. While code runs no trace is kept; an error on its way out is the
latest one that arose, and the machine has its trace. -/
def Stage.Traced (past : List Raise) (s : Stage) : Prop :=
  match s.mode with
  | .running => s.machine.failure = none ∧ past <:+ s.machine.raised
  | .failing e => ∃ r older constructs, s.machine.raised = r :: older ∧ past <:+ older ∧
      e = r.error.wrapAll constructs ∧ s.machine.Traces r

variable {d : Declarations} {Known : Class Token → Prop} {past : List Raise}

/-- Only the call stack, the trace and the errors that arose matter. -/
theorem Stage.Traced.of_eq {mode : Mode} {m n : Machine} (h : Traced past ⟨mode, m⟩)
    (hstack : n.stack = m.stack) (hfailure : n.failure = m.failure) (hraised : n.raised = m.raised) :
    Traced past ⟨mode, n⟩ := by
  cases mode with
  | running => simpa [Traced,hfailure,hraised] using h
  | failing e =>
    obtain ⟨r, older, constructs, hr, hpast, he, htraces⟩ := h
    refine ⟨r, older, constructs, hraised.trans hr, hpast, he, ?_, ?_⟩
    · simpa [hstack] using htraces.within
    · simpa [hstack,hfailure] using htraces.trace

theorem Step.traced {s t : Stage} (h : Step d Known s t) (hs : s.Traced past) : t.Traced past := by
  cases h with
  | raise m e =>
    obtain ⟨hnone, hpast⟩ := hs
    exact ⟨⟨e, m.stack⟩, m.raised, [], rfl, hpast, rfl, .raised hnone⟩
  | capture m e =>
    obtain ⟨r, older, constructs, hraised, hpast, he, htraces⟩ := hs
    exact ⟨r, older, constructs, m.raised_capture.trans hraised, hpast, he, htraces.capture⟩
  | unwind e hf =>
    obtain ⟨r, older, constructs, hraised, hpast, he, htraces⟩ := hs
    exact ⟨r, older, constructs, hraised, hpast, he, htraces.unwind hf⟩
  | wrap m e construct =>
    obtain ⟨r, older, constructs, hraised, hpast, rfl, htraces⟩ := hs
    exact ⟨r, older, _, hraised, hpast, r.error.wrap_wrapAll constructs construct, htraces⟩
  | caught m e =>
    obtain ⟨r, older, -, hraised, hpast, -, -⟩ := hs
    refine ⟨rfl, ?_⟩
    change past <:+ m.raised
    rw [hraised]
    exact hpast.trans (List.suffix_cons r older)
  | leave mode m => exact hs.of_eq rfl rfl rfl
  | note mode m chain line => exact hs.of_eq rfl rfl rfl
  | _ => exact hs

theorem Steps.traced {s t : Stage} (h : Steps d Known s t) (hs : s.Traced past) : t.Traced past := by
  induction h with
  | refl => exact hs
  | tail _ hstep ih => exact hstep.traced ih

/-- Every class will do. -/
theorem Machine.has_any (m : Machine) : m.Has m.declared fun _ => True := by
  have hall (v : Value) : v.Of fun _ => True := fun _ _ => trivial
  exact ⟨rfl, fun _ _ v _ _ => hall v, ⟨⟨fun _ _ b _ => hall b.value, fun b _ => hall b.value,
    fun _ _ b _ => hall b.value⟩, fun r _ => hall (.instance r)⟩⟩

namespace Machine

/-- The frame of a top-level line. -/
def lineFrame (m : Machine) (row : Row Token) : CallFrame :=
  ⟨.line, row.line.text, m.config.file, row.line.number⟩

theorem stack_openLine (m : Machine) (row : Row Token) :
    (m.openLine row).stack.frames = m.lineFrame row :: m.stack.frames := rfl

/-- The error that leaves a line is the latest one that arose in it. The frames where it arose stand on that
of the line, and their trace is kept. -/
theorem runLine_traced {fuel : Nat} {row : Row Token} {m m' : Machine} {e : RuntimeError}
    (hm : m.failure = none) (h : (Calls.upTo fuel).runLine row m = .error e m') :
    ∃ r earlier constructs inner, m'.raised = r :: (earlier ++ m.raised) ∧
      e = r.error.wrapAll constructs ∧ r.stack.frames = inner ++ m.lineFrame row :: m.stack.frames ∧
      m'.failure = some r.stack.trace := by
  rw [Calls.runLine_eq] at h
  have hgoes := (Calls.stepwise_upTo (fun _ _ => trivial) fuel).dispatch (m.openLine row).has_any
    (fun _ _ => trivial) row
  have hran := (Calls.sound_upTo fuel).dispatch (m.openLine row) row
  cases ho : (Calls.upTo fuel).dispatch row (m.openLine row) with
  | ok flow n => simp [ho,Outcome.closeLine] at h
  | outOfFuel n => simp [ho,Outcome.closeLine] at h
  | error cause n =>
    rw [ho] at h hgoes hran
    obtain ⟨he, rfl⟩ := Outcome.error.inj h
    have hstart : Stage.Traced m.raised ⟨.running, m.openLine row⟩ := ⟨hm, List.suffix_refl _⟩
    obtain ⟨r, older, constructs, hraised, ⟨earlier, rfl⟩, rfl, htraces⟩ := Steps.traced hgoes hstart
    obtain ⟨inner, hinner⟩ := htraces.within
    have hstack : n.stack = (m.openLine row).stack := hran.stack
    rw [hstack,stack_openLine] at hinner
    refine ⟨r, earlier, constructs ++ (Calls.constructName row).toList, inner,
      n.raised_capture.trans hraised, ?_, hinner.symm, htraces.failure_capture⟩
    rw [← he]
    cases Calls.constructName row with
    | none => simp
    | some c => exact r.error.wrap_wrapAll constructs c

theorem runIsolated_append {k : Calls} {last v : Value} {m m' : Machine} {before : List (Row Token)}
    (h : runIsolated k last before m = .ok v m') (rest : List (Row Token)) :
    runIsolated k last (before ++ rest) m = runIsolated k v rest m' := by
  induction before generalizing last m with
  | nil =>
    obtain ⟨rfl, rfl⟩ := Outcome.ok.inj h
    rfl
  | cons row rows ih =>
    rw [Calls.runIsolated_cons] at h
    rw [List.cons_append,Calls.runIsolated_cons]
    cases hs : (k.runLine row { m with failure := none }).settled last with
    | ok u n =>
      simp only [hs] at h
      exact ih h
    | error e n => simp [hs] at h
    | outOfFuel n => simp [hs] at h

/-- A top-level line that fails is reported with the frames that were on the call stack where its error
arose, innermost first and with that of the line itself behind those of the calls in it. The error is the
latest of all that arose while the line ran, so none that an attempt caught before it gave the trace. Between
runs nothing is on the call stack, and then the line is what the trace ends with. -/
theorem traces_exact (fuel : Nat) (m : Machine) (before : List (Row Token)) (row : Row Token)
    (after : List (Row Token)) (last : Value) (m₁ m₂ : Machine) (e : RuntimeError)
    (hbefore : m.executeIsolated fuel before = .ok last m₁)
    (hline : (Calls.upTo fuel).runLine row { m₁ with failure := none } = .error e m₂) :
    ∃ (r : Raise) (earlier : List Raise) (constructs : List String) (inner : List CallFrame),
      m₂.raised = r :: (earlier ++ m₁.raised) ∧ e = r.error.wrapAll constructs ∧
      r.stack.frames = inner ++ m.lineFrame row :: m.stack.frames ∧
      (m.stack.frames = [] → r.stack.trace.getLast? = some (m.lineFrame row).render) ∧
      m.executeIsolated fuel (before ++ row :: after) =
        runIsolated (.upTo fuel) last after (m₂.report e) ∧
      (m₂.report e).errors = m₁.errors.push ⟨e, r.stack.trace⟩ ∧
      ∀ v m', m.executeIsolated fuel (before ++ row :: after) = .ok v m' →
        ∃ more, m'.errors.toList = m₁.errors.toList ++ ⟨e, r.stack.trace⟩ :: more := by
  have hran : m.Ran .lines m₁ := (executeIsolated_follows fuel m before).ran (.inl ⟨last, hbefore⟩)
  have herrors : m₂.errors = m₁.errors := errors_of_topLine (.inr ⟨e, hline⟩)
  obtain ⟨r, earlier, constructs, inner, hraised, he, hframes, htrace⟩ := runLine_traced rfl hline
  have hrun : m.executeIsolated fuel (before ++ row :: after) =
      runIsolated (.upTo fuel) last after (m₂.report e) := by
    unfold executeIsolated
    rw [runIsolated_append hbefore,runIsolated,hline]
  have hlineFrame : lineFrame { m₁ with failure := none } row = m.lineFrame row := by
    simp [lineFrame,hran.config]
  have hstack : m₁.stack.frames = m.stack.frames := by rw [hran.stack]
  rw [hlineFrame,hstack] at hframes
  refine ⟨r, earlier, constructs, inner, hraised, he, hframes, ?_, hrun, ?_, ?_⟩
  · intro hidle
    simp [CallStack.trace,hframes,hidle]
  · simp [errors_report,htrace,herrors]
  · intro v m' h
    rw [hrun] at h
    simpa [htrace] using errors_after_report herrors h

/-- A method catches the error of another one and then fails itself. -/
def catchingSource : String :=
  "method inner\nnowhere\nmethod outer \x7b\ntry : inner\nwrong\n\x7d\nouter\nundefined x"

theorem traces_exact_after_attempt :
    ∃ q program, Parser.empty.parseWith 20 catchingSource = some (q, .ok program) ∧
      let m := (Machine.new .standard .standard).load program.declared
      ∃ before row after last m₁ e m₂ r earlier v m' more,
        program.lines = before ++ row :: after ∧ m.executeIsolated 9 before = .ok last m₁ ∧
        (Calls.upTo 9).runLine row { m₁ with failure := none } = .error e m₂ ∧
        m₂.raised = r :: (earlier ++ m₁.raised) ∧
        r.error = .undefined "wrong" ∧ earlier.map Raise.error = [.undefined "nowhere"] ∧
        r.stack.trace = ["codeline: \"wrong\", file: \"main\", line: 5",
          "method: outer, file: main, line: 3", "codeline: \"outer\", file: \"main\", line: 7"] ∧
        m.executeIsolated 9 program.lines = .ok v m' ∧
        m'.errors.toList = ⟨e, r.stack.trace⟩ :: more := by
  have hrun : ((Parser.empty.parseWith 20 catchingSource).bind fun p => p.2.toOption.bind fun program =>
      let m := (Machine.new .standard .standard).load program.declared
      program.lines[2]?.bind fun row =>
        (m.executeIsolated 9 (program.lines.take 2)).finished?.bind fun earlier =>
          ((Calls.upTo 9).runLine row { earlier.2 with failure := none }).failed?.bind fun failed =>
            (m.executeIsolated 9 program.lines).finished?.map fun _ =>
              (earlier.2.errors.toList, earlier.2.raised, failed.2.raised.map Raise.error,
                failed.2.raised.head?.map fun r => r.stack.trace)) =
      some ([], [], [.undefined "wrong", .undefined "nowhere"],
        some ["codeline: \"wrong\", file: \"main\", line: 5",
          "method: outer, file: main, line: 3", "codeline: \"outer\", file: \"main\", line: 7"]) := by
    decide +kernel
  obtain ⟨⟨q, p⟩, hread, hrun⟩ := Option.bind_eq_some_iff.1 hrun
  obtain ⟨program, hp, hrun⟩ := Option.bind_eq_some_iff.1 hrun
  cases p with
  | error e => cases hp
  | ok found =>
    obtain rfl : found = program := Option.some.inj hp
    refine ⟨q, found, hread, ?_⟩
    generalize (Machine.new .standard .standard).load found.declared = m at hrun ⊢
    obtain ⟨row, hrow, hrun⟩ := Option.bind_eq_some_iff.1 hrun
    obtain ⟨⟨last, m₁⟩, hbefore, hrun⟩ := Option.bind_eq_some_iff.1 hrun
    obtain ⟨⟨e, m₂⟩, hline, hrun⟩ := Option.bind_eq_some_iff.1 hrun
    obtain ⟨⟨v, m'⟩, hall, hrun⟩ := Option.map_eq_some_iff.1 hrun
    have hbefore := Outcome.finished?_eq_some_iff.1 hbefore
    have hline := Outcome.failed?_eq_some_iff.1 hline
    have hall := Outcome.finished?_eq_some_iff.1 hall
    obtain ⟨hnone, hnew, herrors, hlast⟩ : m₁.errors.toList = [] ∧ m₁.raised = [] ∧
        m₂.raised.map Raise.error = [.undefined "wrong", .undefined "nowhere"] ∧ _ := by
      simpa using hrun
    obtain ⟨hbound, hget⟩ := List.getElem?_eq_some_iff.1 hrow
    have hlines : found.lines = found.lines.take 2 ++ row :: found.lines.drop 3 := by
      rw [← hget,← List.drop_eq_getElem_cons hbound,List.take_append_drop]
    obtain ⟨r, earlier, -, -, hraised, -, -, -, -, -, hreported⟩ :=
      traces_exact 9 m (found.lines.take 2) row (found.lines.drop 3) last m₁ m₂ e hbefore hline
    rw [← hlines] at hreported
    obtain ⟨more, hmore⟩ := hreported v m' hall
    rw [hraised,hnew,List.append_nil,List.map_cons] at herrors
    obtain ⟨hwrong, hnowhere⟩ := List.cons.inj herrors
    refine ⟨found.lines.take 2, row, found.lines.drop 3, last, m₁, e, m₂, r, earlier, v, m', more, hlines,
      hbefore, hline, hraised, hwrong, hnowhere, ?_, hall, ?_⟩
    · simpa [hraised] using hlast
    · simpa [hnone] using hmore

end Machine

end LineScript
