import LineScript.Machine.Run
import LineScript.Proofs.Machine.Unaware
import LineScript.Proofs.Scope
set_option autoImplicit false

/-!
Strict and isolated running agree up to the first error. Both run the same lines from the same machine, as
long as every line ends and none is left by a break; the isolated run has reported nothing then. The line
that fails ends the strict run with the error that the isolated run reports first. A break outside of a
loop, however, is reported by the isolated run only.
-/

namespace LineScript

def Flow.isBreak : Flow → Bool
  | .break_ | .yieldBreak => true
  | .normal _ | .return_ _ => false

/-- The line is left by a break, fails or does not end. -/
def Outcome.Disturbed : Outcome Flow → Prop
  | .ok flow _ => flow.isBreak = true
  | .error _ _ => True
  | .outOfFuel _ => True

namespace Machine

/-- The lines run one after the other and all of them end: none fails, and none is left by a break. The
values are those of the line before them and of the last of them. -/
inductive Calm (k : Calls) : Value → Machine → List (Row Token) → Value → Machine → Prop where
  | nil (v : Value) (m : Machine) : Calm k v m [] v m
  | cons {last v : Value} {m m₁ m' : Machine} {row : Row Token} {rows : List (Row Token)} {flow : Flow} :
    k.runLine row { m with failure := none } = .ok flow m₁ → flow.isBreak = false →
    Calm k flow.value m₁ rows v m' → Calm k last m (row :: rows) v m'

/-- Is a line left by a break, before any line fails? -/
def strays (k : Calls) : List (Row Token) → Machine → Bool
  | [], _ => false
  | row :: rows, m =>
    match k.runLine row { m with failure := none } with
    | .ok flow m => flow.isBreak || strays k rows m
    | _ => false

variable {k : Calls} {last v : Value} {m m' : Machine} {rows : List (Row Token)}

namespace Calm

theorem runStrict (h : Calm k last m rows v m') (rest : List (Row Token)) :
    Machine.runStrict k last (rows ++ rest) m = Machine.runStrict k v rest m' := by
  induction h with
  | nil v m => rfl
  | cons hline _ _ ih => simp [Machine.runStrict,hline,ih]

theorem runIsolated (h : Calm k last m rows v m') (rest : List (Row Token)) :
    Machine.runIsolated k last (rows ++ rest) m = Machine.runIsolated k v rest m' := by
  induction h with
  | nil v m => rfl
  | @cons last v m m₁ m' row rows flow hline hflow _ ih =>
    cases flow with
    | normal u => simpa [Machine.runIsolated,hline,Flow.value] using ih
    | return_ u => simpa [Machine.runIsolated,hline,Flow.value] using ih
    | break_ => simp [Flow.isBreak] at hflow
    | yieldBreak => simp [Flow.isBreak] at hflow

theorem strays_append (h : Calm k last m rows v m') (rest : List (Row Token)) :
    strays k (rows ++ rest) m = strays k rest m' := by
  induction h with
  | nil v m => rfl
  | cons hline hflow _ ih => simp [strays,hline,hflow,ih]

end Calm

/-- Lines that do not all run calmly have a first one that does not. -/
theorem calm_or_disturbed (k : Calls) (last : Value) (m : Machine) (rows : List (Row Token)) :
    (∃ v m', Calm k last m rows v m') ∨
    ∃ before row after v m₁, rows = before ++ row :: after ∧ Calm k last m before v m₁ ∧
      (k.runLine row { m₁ with failure := none }).Disturbed := by
  induction rows generalizing last m with
  | nil => exact .inl ⟨last, m, .nil last m⟩
  | cons row rows ih =>
    by_cases hd : (k.runLine row { m with failure := none }).Disturbed
    · exact .inr ⟨[], row, rows, last, m, rfl, .nil last m, hd⟩
    · cases hline : k.runLine row { m with failure := none } with
      | ok flow m₁ =>
        have hflow : flow.isBreak = false := by simpa [hline,Outcome.Disturbed] using hd
        rcases ih flow.value m₁ with ⟨v, m', hc⟩ | ⟨before, row', after, v, m₂, rfl, hc, hd'⟩
        · exact .inl ⟨v, m', .cons hline hflow hc⟩
        · exact .inr ⟨row :: before, row', after, v, m₂, rfl, .cons hline hflow hc, hd'⟩
      | error e m₁ => simp [hline,Outcome.Disturbed] at hd
      | outOfFuel m₁ => simp [hline,Outcome.Disturbed] at hd

section errors

variable {fuel : Nat}

/-- A line leaves the errors that were reported before it alone. -/
theorem errors_of_topLine {row : Row Token}
    (h : ((Calls.upTo fuel).runLine row { m with failure := none }).Leaves m') :
    m'.errors = m.errors := by
  -- putting these errors in the place of any others changes nothing before the line, hence nothing after
  have hm := (Calls.unaware_upTo fuel id fun _ => m.errors).runLine row { m with failure := none }
  change Outcome.Elsewhere id _ _ ((Calls.upTo fuel).runLine row { m with failure := none }) at hm
  rcases h with ⟨flow, h⟩ | ⟨e, h⟩
  · rw [h] at hm
    have hm' : m' = m'.elsewhere id fun _ => m.errors := (Outcome.ok.inj hm.of_ok).2
    rw [hm']
    rfl
  · rw [h] at hm
    have hm' : m' = m'.elsewhere id fun _ => m.errors := (Outcome.error.inj hm.of_error).2
    rw [hm']
    rfl

theorem Calm.errors_eq (h : Calm (.upTo fuel) last m rows v m') : m'.errors = m.errors := by
  induction h with
  | nil v m => rfl
  | cons hline _ _ ih => exact ih.trans (errors_of_topLine (.inl ⟨_, hline⟩))

theorem errors_report (m : Machine) (e : RuntimeError) :
    (m.report e).errors = m.errors.push ⟨e, m.failure.getD m.stack.trace⟩ := rfl

/-- An isolated run adds to the errors reported before it. -/
theorem errors_of_runIsolated (h : runIsolated (.upTo fuel) last rows m = .ok v m') :
    m.errors.toList <+: m'.errors.toList := by
  induction rows generalizing last m with
  | nil =>
    obtain ⟨rfl, rfl⟩ := Outcome.ok.inj h
    exact List.prefix_refl _
  | cons row rows ih =>
    have hpush {m₁ : Machine} (e : RuntimeError) (he : m₁.errors = m.errors) :
        m.errors.toList <+: (m₁.report e).errors.toList := by
      rw [errors_report,he,Array.toList_push]
      exact List.prefix_append _ _
    rw [runIsolated] at h
    cases hline : (Calls.upTo fuel).runLine row { m with failure := none } with
    | ok flow m₁ =>
      have he : m₁.errors = m.errors := errors_of_topLine (.inl ⟨flow, hline⟩)
      cases flow with
      | normal u => exact he ▸ ih (by simpa [hline] using h)
      | return_ u => exact he ▸ ih (by simpa [hline] using h)
      | break_ => exact (hpush strayBreak he).trans (ih (by simpa [hline] using h))
      | yieldBreak => exact (hpush strayBreak he).trans (ih (by simpa [hline] using h))
    | error e m₁ =>
      have he : m₁.errors = m.errors := errors_of_topLine (.inr ⟨e, hline⟩)
      exact (hpush e he).trans (ih (by simpa [hline] using h))
    | outOfFuel m₁ => simp [hline] at h

/-- The error that is reported first stays in front of all that are reported after it. -/
theorem errors_after_report {e : RuntimeError} {m₁ : Machine} (he : m₁.errors = m.errors)
    (h : runIsolated (.upTo fuel) last rows (m₁.report e) = .ok v m') :
    ∃ more, m'.errors.toList =
      m.errors.toList ++ ⟨e, m₁.failure.getD m₁.stack.trace⟩ :: more := by
  obtain ⟨more, hmore⟩ := errors_of_runIsolated h
  rw [errors_report,he,Array.toList_push] at hmore
  exact ⟨more, by simpa using hmore.symm⟩

end errors

/-- Before the first error both runs are in the same state, unless a line was left by a break; then the
isolated run has reported the break first. -/
theorem strict_agrees_with_isolated (m : Machine) (fuel : Nat) (rows : List (Row Token)) :
    (∀ v m', strays (.upTo fuel) rows m = false → m.execute fuel rows = .ok v m' →
      m.executeIsolated fuel rows = .ok v m' ∧ m'.errors = m.errors) ∧
    (∀ e m', strays (.upTo fuel) rows m = false → m.execute fuel rows = .error e m' →
      ∃ before row after v m₁ trace, rows = before ++ row :: after ∧
        m.execute fuel before = .ok v m₁ ∧ m.executeIsolated fuel before = .ok v m₁ ∧
        m₁.errors = m.errors ∧
        (Calls.upTo fuel).runLine row { m₁ with failure := none } = .error e m' ∧
        (m'.report e).errors = m.errors.push ⟨e, trace⟩ ∧
        m.executeIsolated fuel rows = runIsolated (.upTo fuel) v after (m'.report e) ∧
        ∀ u n, m.executeIsolated fuel rows = .ok u n →
          ∃ more, n.errors.toList = m.errors.toList ++ ⟨e, trace⟩ :: more) ∧
    (strays (.upTo fuel) rows m = true → ∀ u n, m.executeIsolated fuel rows = .ok u n →
      ∃ trace more, n.errors.toList = m.errors.toList ++ ⟨strayBreak, trace⟩ :: more) := by
  unfold execute executeIsolated
  rcases calm_or_disturbed (.upTo fuel) .empty m rows with
    ⟨u, n, hc⟩ | ⟨before, row, after, u, m₁, rfl, hc, hd⟩
  · -- every line ends
    have hs := hc.runStrict []
    have hi := hc.runIsolated []
    have hcalm := hc.strays_append []
    rw [List.append_nil] at hs hi hcalm
    rw [hs,hi,hcalm]
    refine ⟨?_, by simp [runStrict], by simp [strays]⟩
    rintro v m' - ⟨⟩
    exact ⟨rfl, hc.errors_eq⟩
  · have hs := hc.runStrict (row :: after)
    have hi := hc.runIsolated (row :: after)
    rw [hc.strays_append,strays,hs,hi,runStrict,runIsolated]
    cases hline : (Calls.upTo fuel).runLine row { m₁ with failure := none } with
    | ok flow m₂ =>
      -- the line is left by a break
      have he : m₂.errors = m.errors := (errors_of_topLine (.inl ⟨flow, hline⟩)).trans hc.errors_eq
      have hflow : flow.isBreak = true := by simpa [hline,Outcome.Disturbed] using hd
      refine ⟨by simp [hflow], by simp [hflow], fun _ v n h => ?_⟩
      cases flow with
      | normal v => simp [Flow.isBreak] at hflow
      | return_ v => simp [Flow.isBreak] at hflow
      | break_ => exact ⟨_, errors_after_report he h⟩
      | yieldBreak => exact ⟨_, errors_after_report he h⟩
    | outOfFuel m₂ => exact ⟨by simp, by simp, by simp⟩
    | error e m₂ =>
      have he : m₂.errors = m.errors := (errors_of_topLine (.inr ⟨e, hline⟩)).trans hc.errors_eq
      refine ⟨by simp, ?_, by simp⟩
      rintro _ _ - ⟨⟩
      refine ⟨before, row, after, u, m₁, m₂.failure.getD m₂.stack.trace, rfl, ?_, ?_, hc.errors_eq,
        hline, ?_, rfl, ?_⟩
      · simpa [runStrict] using hc.runStrict []
      · simpa [runIsolated] using hc.runIsolated []
      · rw [errors_report,he]
      · exact fun _ _ h => errors_after_report he h

/-- Two lines fail, between others that do not. -/
def failingSource : String := "undefined x => 1\nnowhere\nif x : x => 2\nmaybe"

theorem strict_agrees_with_isolated_failing :
    ∃ q program, Parser.empty.parseWith 12 failingSource = some (q, .ok program) ∧
      let m := (Machine.new .standard .standard).load program.declared
      strays (.upTo 9) (program.lines.take 1) m = false ∧ strays (.upTo 9) program.lines m = false ∧
      (∃ v m', m.execute 9 (program.lines.take 1) = .ok v m' ∧
        m.executeIsolated 9 (program.lines.take 1) = .ok v m' ∧ m'.errors = m.errors) ∧
      ∃ e m' u n trace more, e.rootMessage = "Could not find 'nowhere'" ∧
        m.execute 9 program.lines = .error e m' ∧ m.executeIsolated 9 program.lines = .ok u n ∧
        n.errors.size = 2 ∧ n.errors.toList = ⟨e, trace⟩ :: more := by
  have hrun : ((Parser.empty.parseWith 12 failingSource).bind fun r => r.2.toOption.bind fun program =>
      let m := (Machine.new .standard .standard).load program.declared
      (m.execute 9 (program.lines.take 1)).finished?.bind fun _ =>
        (m.execute 9 program.lines).failed?.bind fun failed =>
          (m.executeIsolated 9 program.lines).finished?.map fun isolated =>
            (strays (.upTo 9) (program.lines.take 1) m, strays (.upTo 9) program.lines m,
              failed.1.rootMessage, isolated.2.errors.size)) =
      some (false, false, "Could not find 'nowhere'", 2) := by
    decide +kernel
  obtain ⟨⟨q, r⟩, hread, hrun⟩ := Option.bind_eq_some_iff.1 hrun
  obtain ⟨program, hr, hrun⟩ := Option.bind_eq_some_iff.1 hrun
  cases r with
  | error e => cases hr
  | ok found =>
    obtain rfl : found = program := Option.some.inj hr
    refine ⟨q, found, hread, ?_⟩
    have hnone : ((Machine.new .standard .standard).load found.declared).errors = #[] := rfl
    generalize (Machine.new .standard .standard).load found.declared = m at hrun hnone ⊢
    obtain ⟨⟨v, m₁⟩, hfirst, hrun⟩ := Option.bind_eq_some_iff.1 hrun
    obtain ⟨⟨e, m'⟩, hall, hrun⟩ := Option.bind_eq_some_iff.1 hrun
    obtain ⟨⟨u, n⟩, hiso, hrun⟩ := Option.map_eq_some_iff.1 hrun
    have hfirst := Outcome.finished?_eq_some_iff.1 hfirst
    have hall := Outcome.failed?_eq_some_iff.1 hall
    have hiso := Outcome.finished?_eq_some_iff.1 hiso
    obtain ⟨hcalm, hcalm', hroot, hsize⟩ :
        strays (.upTo 9) (found.lines.take 1) m = false ∧ strays (.upTo 9) found.lines m = false ∧
        e.rootMessage = "Could not find 'nowhere'" ∧ n.errors.size = 2 := by simpa using hrun
    have hsame := (strict_agrees_with_isolated m 9 (found.lines.take 1)).1 v m₁ hcalm hfirst
    obtain ⟨-, -, -, -, -, trace, -, -, -, -, -, -, -, hreported⟩ :=
      (strict_agrees_with_isolated m 9 found.lines).2.1 e m' hcalm' hall
    obtain ⟨more, hmore⟩ := hreported u n hiso
    refine ⟨hcalm, hcalm', ⟨v, m₁, hfirst, hsame⟩, e, m', u, n, trace, more, hroot, hall, hiso,
      hsize, ?_⟩
    simpa [hnone] using hmore

/-- A program that is a lone break ends strictly without an error, while the isolated run reports it. -/
theorem strict_overlooks_break :
    ∃ q program, Parser.empty.parseWith 12 "break" = some (q, .ok program) ∧
      let m := (Machine.new .standard .standard).load program.declared
      ∃ v m' u n, m.execute 9 program.lines = .ok v m' ∧ m.executeIsolated 9 program.lines = .ok u n ∧
        m'.errors.toList = [] ∧ n.errors.toList = [⟨strayBreak, []⟩] := by
  have hrun : ((Parser.empty.parseWith 12 "break").bind fun r => r.2.toOption.bind fun program =>
      let m := (Machine.new .standard .standard).load program.declared
      (m.execute 9 program.lines).finished?.bind fun strict =>
        (m.executeIsolated 9 program.lines).finished?.map fun isolated =>
          (strict.2.errors.toList, isolated.2.errors.toList)) = some ([], [⟨strayBreak, []⟩]) := by
    decide +kernel
  obtain ⟨⟨q, r⟩, hread, hrun⟩ := Option.bind_eq_some_iff.1 hrun
  obtain ⟨program, hr, hrun⟩ := Option.bind_eq_some_iff.1 hrun
  cases r with
  | error e => cases hr
  | ok found =>
    obtain rfl : found = program := Option.some.inj hr
    obtain ⟨⟨v, m'⟩, hstrict, hrun⟩ := Option.bind_eq_some_iff.1 hrun
    obtain ⟨⟨u, n⟩, hiso, herrors⟩ := Option.map_eq_some_iff.1 hrun
    obtain ⟨hnone, hbreak⟩ := Prod.mk.inj herrors
    exact ⟨q, found, hread, v, m', u, n, Outcome.finished?_eq_some_iff.1 hstrict,
      Outcome.finished?_eq_some_iff.1 hiso, hnone, hbreak⟩

end Machine

end LineScript
