import Mathlib.Logic.Function.Iterate
import LineScript.Proofs.Conditional
import LineScript.Proofs.Scope
set_option autoImplicit false

/-!
One branch of a conditional. Its lines know of each other only through the note of the last branch. Asking
the conditions in turn, up to the first that holds, tells which body is to run and on which machine; the
lines, run in a body or at the top level, do just that, and whatever the body does, the lines behind it are
passed over.
-/

namespace LineScript

/-- The lines go on a conditional: further conditions, and possibly at the end what is done otherwise. -/
def goesOn : List (Row Token) → Bool
  | [] => true
  | row :: rows => (row.isKind .elseCond && goesOn rows) || (row.isKind .otherwise && rows.isEmpty)

def isConditional : List (Row Token) → Bool
  | [] => false
  | row :: rows => row.isKind .cond && goesOn rows

theorem Row.exists_of_isKind {row : Row Token} {kind : StatementKind} (h : row.isKind kind = true) :
    ∃ s, row.statement? = some s ∧ s.kind = kind := by
  cases hs : row.statement? with
  | none => simp [Row.isKind,hs] at h
  | some s => exact ⟨s, rfl, by simpa [Row.isKind,hs] using h⟩

/-- The last value behind a number of lines that give none. -/
def Value.behind (n : Nat) (v : Value) : Value := if n = 0 then v else .empty

/-- Notes of earlier lines in front of those of a run. -/
def noting {α : Type} (visits : List Visit) (r : List Visit × Outcome α) : List Visit × Outcome α :=
  (visits ++ r.1, r.2)

theorem noting_append {α : Type} (visits more : List Visit) (r : List Visit × Outcome α) :
    noting (visits ++ more) r = noting visits (noting more r) := by
  simp [noting]

namespace Machine

/-- The machine before a top-level line. -/
def untraced (m : Machine) : Machine := { m with failure := none }

/-- The machine behind a line whose condition did not hold. -/
def declined (outer : Nat) (m : Machine) : Machine :=
  { m.withBranch false with stack := m.stack.pop, line := outer }

end Machine

namespace Calls

/-- Asks the conditions of the lines in turn, each inside of its line, up to the first that holds or the
line that has none. The result is the number of the line whose body is to run, with the machine inside of
that line. The machine enters each line as `enter` says. -/
def choose (k : Calls) (enter : Machine → Machine) : List (Row Token) → Machine → Outcome (Option Nat)
  | [], m => .ok none m
  | row :: rows, m =>
    match row.statement? with
    | none => .ok none m
    | some s =>
      if s.kind = .otherwise then .ok (some 0) ((enter m).openLine row)
      else
        match k.decision s ((enter m).openLine row) with
        | .ok true n => .ok (some 0) n
        | .ok false n =>
          match k.choose enter rows (n.declined (enter m).line) with
          | .ok found n => .ok (found.map (· + 1)) n
          | .error e n => .error e n
          | .outOfFuel n => .outOfFuel n
        | .error e n => .error e n
        | .outOfFuel n => .outOfFuel n

/-- Runs the lines of a body and notes what each of them came to. -/
def visitRows (k : Calls) : Value → Bool → List (Row Token) → Machine → List Visit × Outcome Flow
  | last, yielded, [], m => ([], .ok (if yielded then .yieldBreak else .normal last) m)
  | last, yielded, row :: rows, m =>
    let r := k.visitLine row m
    match r.2 with
    | .ok (.normal v) m => noting [r.1] (k.visitRows v yielded rows m)
    | .ok .yieldBreak m => noting [r.1] (k.visitRows last true rows m)
    | o => ([r.1], o)

/-- The rest of a body once a branch has ended: lines of its conditional that are passed over, and those
behind them. -/
def afterBranch (k : Calls) (passed : Nat) (last : Value) (yielded : Bool) (later : List (Row Token)) :
    Outcome Flow → List Visit × Outcome Flow
  | .ok (.normal v) m =>
    noting (List.replicate passed .passedOver) (k.visitRows (v.behind passed) yielded later m)
  | .ok .yieldBreak m =>
    noting (List.replicate passed .passedOver) (k.visitRows (last.behind passed) true later m)
  | o => ([], o)

/-- The rest of the top-level lines, likewise; an error of the branch is reported first. -/
def afterIsolated (k : Calls) (passed : Nat) (last : Value) (later : List (Row Token))
    (o : Outcome Flow) : List Visit × Outcome Value :=
  match o.settled last with
  | .ok v m =>
    noting (List.replicate passed .passedOver)
      (k.visitIsolated (v.behind passed) later (Machine.untraced^[passed] m))
  | .error e m => ([], .error e m)
  | .outOfFuel m => ([], .outOfFuel m)

section erasure

variable (k : Calls)

/-- The run that notes what the lines come to is the run of the body. -/
theorem visitRows_snd (last : Value) (yielded : Bool) (rows : List (Row Token)) (m : Machine) :
    (k.visitRows last yielded rows m).2 = k.runRows last yielded rows m := by
  induction rows generalizing last yielded m with
  | nil => rfl
  | cons row rows ih =>
    rw [runRows,← visitLine_snd,visitRows]
    cases (k.visitLine row m).2 with
    | ok flow n =>
      cases flow with
      | normal v => exact ih v yielded n
      | return_ v => rfl
      | break_ => rfl
      | yieldBreak => exact ih last true n
    | error e n => rfl
    | outOfFuel n => rfl

end erasure

/-- Each of the lines comes to the same, gives no value, and leads to the machine of the next. -/
inductive Uniform (k : Calls) (enter : Machine → Machine) (visit : Visit) :
    Machine → List (Row Token) → Machine → Prop where
  | nil (m : Machine) : Uniform k enter visit m [] m
  | cons {m m₁ m₂ : Machine} {row : Row Token} {rows : List (Row Token)} :
    k.visitLine row (enter m) = (visit, .ok (.normal .empty) m₁) →
    Uniform k enter visit m₁ rows m₂ → Uniform k enter visit m (row :: rows) m₂

namespace Uniform

variable {k : Calls} {visit : Visit} {m m' : Machine} {rows : List (Row Token)}

theorem visitRows (h : Uniform k id visit m rows m') (last : Value) (yielded : Bool)
    (rest : List (Row Token)) :
    k.visitRows last yielded (rows ++ rest) m = noting (List.replicate rows.length visit)
      (k.visitRows (last.behind rows.length) yielded rest m') := by
  induction h generalizing last with
  | nil m => simp [noting,Value.behind]
  | @cons m m₁ m₂ row rows hline _ ih =>
    have hline : k.visitLine row m = (visit, .ok (.normal .empty) m₁) := hline
    simp [Calls.visitRows,hline,ih,noting,Value.behind,List.replicate_succ]

theorem visitIsolated (h : Uniform k Machine.untraced visit m rows m') (last : Value)
    (rest : List (Row Token)) :
    k.visitIsolated last (rows ++ rest) m = noting (List.replicate rows.length visit)
      (k.visitIsolated (last.behind rows.length) rest m') := by
  induction h generalizing last with
  | nil m => simp [noting,Value.behind]
  | @cons m m₁ m₂ row rows hline _ ih =>
    have hline : k.visitLine row { m with failure := none } = (visit, .ok (.normal .empty) m₁) := hline
    simp [Calls.visitIsolated,hline,Outcome.settled,ih,noting,Value.behind,List.replicate_succ]

end Uniform

section step

variable {k : Calls} {row : Row Token} {s : Statement Token} {m n : Machine}

/-- Neither of the ways to enter a line changes the note of the last branch or the line outside. -/
structure Enters (enter : Machine → Machine) : Prop where
  chain (m : Machine) : (enter m).chain = m.chain
  line (m : Machine) : (enter m).line = m.line

theorem enters_id : Enters id := ⟨fun _ => rfl, fun _ => rfl⟩

theorem enters_untraced : Enters Machine.untraced := ⟨fun _ => rfl, fun _ => rfl⟩

/-- A line that asks its condition: the first one, or one behind a branch that was not taken. -/
theorem visitLine_of_asked (hs : row.statement? = some s)
    (hasked : s.kind = .cond ∨ s.kind = .elseCond ∧ m.chain.branchTaken = false) :
    k.visitLine row m = ((k.visitBranch s (m.openLine row)).1,
      (k.visitBranch s (m.openLine row)).2.closeLine row m.line) := by
  rcases hasked with hkind | ⟨hkind, htaken⟩
  · simp [k.visitLine_of_statement hs,visitStatement,hkind]
  · have htaken : (m.openLine row).chain.branchTaken = false := htaken
    simp [k.visitLine_of_statement hs,visitStatement,hkind,htaken]

theorem visitLine_of_otherwise (hs : row.statement? = some s) (hkind : s.kind = .otherwise)
    (htaken : m.chain.branchTaken = false) : k.visitLine row m =
      (⟨false, true⟩, (k.runBlock s.body ((m.openLine row).withBranch true)).closeLine row m.line) := by
  have htaken : (m.openLine row).chain.branchTaken = false := htaken
  simp [k.visitLine_of_statement hs,visitStatement,hkind,htaken]

theorem withBranch_of_taken (htaken : m.chain.branchTaken = true) : m.withBranch true = m := by
  simp [Machine.withBranch,Chain.withBranch,← htaken]

theorem closeLine_openLine (row : Row Token) (m : Machine) :
    (Outcome.ok (.normal .empty) (m.openLine row)).closeLine row m.line = .ok (.normal .empty) m := rfl

/-- Behind a branch that was taken, a line that goes on the conditional does nothing. -/
theorem visitLine_of_taken (hrow : row.isKind .elseCond ∨ row.isKind .otherwise)
    (htaken : m.chain.branchTaken = true) :
    k.visitLine row m = (.passedOver, .ok (.normal .empty) m) := by
  have hopen : (m.openLine row).chain.branchTaken = true := htaken
  rcases hrow with hrow | hrow
  · obtain ⟨s, hs, hkind⟩ := Row.exists_of_isKind hrow
    simp [k.visitLine_of_statement hs,visitStatement,hkind,hopen,closeLine_openLine]
  · obtain ⟨s, hs, hkind⟩ := Row.exists_of_isKind hrow
    simp [k.visitLine_of_statement hs,visitStatement,hkind,hopen,withBranch_of_taken,closeLine_openLine]

theorem uniform_of_taken {enter : Machine → Machine} (hin : Enters enter) {rows : List (Row Token)}
    (hrows : goesOn rows = true) (htaken : m.chain.branchTaken = true) :
    Uniform k enter .passedOver m rows (enter^[rows.length] m) := by
  induction rows generalizing m with
  | nil => exact .nil m
  | cons row rows ih =>
    have hentered : (enter m).chain.branchTaken = true := by simpa [hin.chain] using htaken
    have hcases : (row.isKind .elseCond ∧ goesOn rows = true) ∨ (row.isKind .otherwise ∧ rows = []) := by
      simpa [goesOn] using hrows
    rcases hcases with ⟨hrow, hrows⟩ | ⟨hrow, rfl⟩
    · exact .cons (visitLine_of_taken (.inl hrow) hentered) (ih hrows hentered)
    · exact .cons (visitLine_of_taken (.inr hrow) hentered) (.nil _)

end step

section body

variable {fuel : Nat} {m m' : Machine} {row : Row Token} {body : List (Row Token)}

/-- A block leaves the chain of the body that it stands in alone, whatever its lines do. -/
theorem chain_of_runBlock (h : ((Calls.upTo fuel).runBlock body m).Leaves m') : m'.chain = m.chain := by
  -- putting this chain in the place of any other changes nothing before the block, hence nothing after
  have hm := (Calls.unaware_upTo fuel (fun _ => m.chain) id).runBlock body m
  change Outcome.Elsewhere _ id _ ((Calls.upTo fuel).runBlock body m) at hm
  rcases h with ⟨flow, h⟩ | ⟨e, h⟩
  · rw [h] at hm
    have hm' : m' = m'.elsewhere (fun _ => m.chain) id := (Outcome.ok.inj hm.of_ok).2
    rw [hm']
    rfl
  · rw [h] at hm
    have hm' : m' = m'.elsewhere (fun _ => m.chain) id := (Outcome.error.inj hm.of_error).2
    rw [hm']
    rfl

theorem chain_of_closeLine {o : Outcome Flow} {outer : Nat} {c : Chain}
    (ho : ∀ m', o.Leaves m' → m'.chain = c) (h : (o.closeLine row outer).Leaves m') : m'.chain = c := by
  have hcapture (m : Machine) : m.capture.chain = m.chain := by
    cases hf : m.failure with
    | some trace => simp [Machine.capture,hf]
    | none => simp [Machine.capture,hf]
  cases o with
  | ok flow n =>
    have hn : m' = { n with stack := n.stack.pop, line := outer } := by
      simpa [Outcome.Leaves,Outcome.closeLine,eq_comm] using h
    simpa [hn] using ho n (.inl ⟨flow, rfl⟩)
  | error e n =>
    have hn : m' = { n.capture with stack := n.capture.stack.pop, line := outer } := by
      simpa [Outcome.Leaves,Outcome.closeLine,eq_comm] using h
    simpa [hn,hcapture] using ho n (.inr ⟨e, rfl⟩)
  | outOfFuel n => simp [Outcome.Leaves,Outcome.closeLine] at h

end body

section choice

variable {k : Calls} {enter : Machine → Machine} {rows : List (Row Token)} {m n : Machine}

/-- The lines are a conditional, or go on one no branch of which was taken so far. -/
def Open (rows : List (Row Token)) (m : Machine) : Prop :=
  isConditional rows = true ∨ goesOn rows = true ∧ m.chain.branchTaken = false

/-- The first line asks its condition, or has none and is the last. -/
theorem Open.first {row : Row Token} (h : Open (row :: rows) m) : ∃ s, row.statement? = some s ∧
    ((s.kind ≠ .otherwise ∧ goesOn rows = true ∧
        (s.kind = .cond ∨ s.kind = .elseCond ∧ m.chain.branchTaken = false)) ∨
      (s.kind = .otherwise ∧ rows = [] ∧ m.chain.branchTaken = false)) := by
  rcases h with h | ⟨h, htaken⟩
  · obtain ⟨hrow, hrows⟩ : row.isKind .cond = true ∧ goesOn rows = true := by
      simpa [isConditional] using h
    obtain ⟨s, hs, hkind⟩ := Row.exists_of_isKind hrow
    exact ⟨s, hs, .inl ⟨by simp [hkind], hrows, .inl hkind⟩⟩
  · have hcases : (row.isKind .elseCond ∧ goesOn rows = true) ∨ (row.isKind .otherwise ∧ rows = []) := by
      simpa [goesOn] using h
    rcases hcases with ⟨hrow, hrows⟩ | ⟨hrow, hrows⟩
    · obtain ⟨s, hs, hkind⟩ := Row.exists_of_isKind hrow
      exact ⟨s, hs, .inl ⟨by simp [hkind], hrows, .inr ⟨hkind, htaken⟩⟩⟩
    · obtain ⟨s, hs, hkind⟩ := Row.exists_of_isKind hrow
      exact ⟨s, hs, .inr ⟨hkind, hrows, htaken⟩⟩

/-- A line of the conditional is chosen: the lines before it declined, its body runs on the machine that
the conditions left, and the lines behind it go on the conditional. -/
structure Chosen (k : Calls) (enter : Machine → Machine) (rows : List (Row Token)) (m : Machine) (i : Nat)
    (n : Machine) (row : Row Token) (s : Statement Token) : Prop where
  statement : row.statement? = some s
  runs : ∃ before after m₁, rows = before ++ row :: after ∧ before.length = i ∧ goesOn after = true ∧
    Uniform k enter ⟨true, false⟩ m before m₁ ∧ k.visitLine row (enter m₁) =
      (⟨s.kind != .otherwise, true⟩, (k.runBlock s.body (n.withBranch true)).closeLine row m.line)

/-- What asking the conditions of the lines tells about running them. -/
theorem choose_spec (hin : Enters enter) (hopen : Open rows m) {found : Option Nat}
    (h : k.choose enter rows m = .ok found n) :
    (found = none ∧ Uniform k enter ⟨true, false⟩ m rows n) ∨
    ∃ i row s, found = some i ∧ Chosen k enter rows m i n row s := by
  induction rows generalizing m found with
  | nil =>
    obtain ⟨rfl, rfl⟩ := Outcome.ok.inj h
    exact .inl ⟨rfl, .nil _⟩
  | cons row rows ih =>
    obtain ⟨s, hs, ⟨hkind, hrows, hasked⟩ | ⟨hkind, rfl, htaken⟩⟩ := hopen.first
    · have hasked : s.kind = .cond ∨ s.kind = .elseCond ∧ (enter m).chain.branchTaken = false := by
        simpa [hin.chain] using hasked
      have hline := k.visitLine_of_asked hs hasked
      simp only [choose,hs,hkind,if_false] at h
      cases hd : k.decision s ((enter m).openLine row) with
      | ok truth n₁ =>
        rw [hd] at h
        cases truth with
        | true =>
          obtain ⟨rfl, rfl⟩ := Outcome.ok.inj h
          refine .inr ⟨0, row, s, rfl, hs, [], rows, m, rfl, rfl, hrows, .nil m, ?_⟩
          simp [hline,visitBranch,hd,hkind,hin.line]
        | false =>
          have hdeclined : k.visitLine row (enter m) =
              (⟨true, false⟩, .ok (.normal .empty) (n₁.declined m.line)) := by
            simp [hline,visitBranch,hd,hin.line,Outcome.closeLine,Machine.declined,Machine.withBranch]
          rw [hin.line] at h
          cases hrest : k.choose enter rows (n₁.declined m.line) with
          | ok found' n₂ =>
            simp only [hrest] at h
            obtain ⟨rfl, rfl⟩ := Outcome.ok.inj h
            rcases ih (.inr ⟨hrows, rfl⟩) hrest with
              ⟨rfl, hall⟩ | ⟨i, row', s', rfl, hs', before, after, m₁, rfl, rfl, hafter, hbefore, hrow'⟩
            · exact .inl ⟨rfl, .cons hdeclined hall⟩
            · exact .inr ⟨before.length + 1, row', s', rfl, hs', row :: before, after, m₁, rfl, rfl, hafter,
                .cons hdeclined hbefore, hrow'⟩
          | error e n₂ => simp [hrest] at h
          | outOfFuel n₂ => simp [hrest] at h
      | error e n₁ => simp [hd] at h
      | outOfFuel n₁ => simp [hd] at h
    · simp only [choose,hs,hkind,if_true] at h
      obtain ⟨rfl, rfl⟩ := Outcome.ok.inj h
      refine .inr ⟨0, row, s, rfl, hs, [], [], m, rfl, rfl, rfl, .nil m, ?_⟩
      have htaken : (enter m).chain.branchTaken = false := by simpa [hin.chain] using htaken
      simp [k.visitLine_of_otherwise hs hkind htaken,hkind,hin.line]

theorem uniform_of_choose (hin : Enters enter) (hopen : Open rows m)
    (h : k.choose enter rows m = .ok none n) : Uniform k enter ⟨true, false⟩ m rows n := by
  rcases choose_spec hin hopen h with ⟨-, hall⟩ | ⟨i, row, s, hi, -⟩
  · exact hall
  · simp at hi

theorem chosen_of_choose (hin : Enters enter) (hopen : Open rows m) {i : Nat}
    (h : k.choose enter rows m = .ok (some i) n) : ∃ row s, Chosen k enter rows m i n row s := by
  rcases choose_spec hin hopen h with ⟨hi, -⟩ | ⟨j, row, s, hi, hchosen⟩
  · simp at hi
  · obtain rfl : i = j := Option.some.inj hi
    exact ⟨row, s, hchosen⟩

end choice

section run

variable {k : Calls} {after : List (Row Token)} {row : Row Token} {visit : Visit} {m : Machine}
  {o : Outcome Flow}

/-- A line of a body that left the note of a taken branch, and the lines behind it. -/
theorem visitRows_of_taken (hline : k.visitLine row m = (visit, o)) (hafter : goesOn after = true)
    (htaken : ∀ m', o.Leaves m' → m'.chain.branchTaken = true) (last : Value) (yielded : Bool)
    (later : List (Row Token)) :
    k.visitRows last yielded (row :: (after ++ later)) m =
      noting [visit] (k.afterBranch after.length last yielded later o) := by
  rw [visitRows,hline]
  cases o with
  | ok flow n =>
    have hpassed : Uniform k id .passedOver n after n := by
      simpa using uniform_of_taken enters_id hafter (htaken n (.inl ⟨flow, rfl⟩))
    cases flow with
    | normal v => simp [afterBranch,hpassed.visitRows]
    | return_ v => simp [afterBranch,noting]
    | break_ => simp [afterBranch,noting]
    | yieldBreak => simp [afterBranch,hpassed.visitRows]
  | error e n => simp [afterBranch,noting]
  | outOfFuel n => simp [afterBranch,noting]

theorem chain_report (m : Machine) (e : RuntimeError) : (m.report e).chain = m.chain := rfl

theorem taken_of_settled {last v : Value} {n : Machine}
    (htaken : ∀ m', o.Leaves m' → m'.chain.branchTaken = true) (h : o.settled last = .ok v n) :
    n.chain.branchTaken = true := by
  cases o with
  | ok flow n' =>
    have hflow : n'.chain.branchTaken = true := htaken n' (.inl ⟨flow, rfl⟩)
    cases flow with
    | normal u => simpa [(Outcome.ok.inj h).2] using hflow
    | return_ u => simpa [(Outcome.ok.inj h).2] using hflow
    | break_ => simpa [← (Outcome.ok.inj h).2,chain_report] using hflow
    | yieldBreak => simpa [← (Outcome.ok.inj h).2,chain_report] using hflow
  | error e n' => simpa [← (Outcome.ok.inj h).2,chain_report] using htaken n' (.inr ⟨e, rfl⟩)
  | outOfFuel n' => cases h

/-- A top-level line, likewise. -/
theorem visitIsolated_of_taken (hline : k.visitLine row m.untraced = (visit, o))
    (hafter : goesOn after = true) (htaken : ∀ m', o.Leaves m' → m'.chain.branchTaken = true)
    (last : Value) (later : List (Row Token)) :
    k.visitIsolated last (row :: (after ++ later)) m =
      noting [visit] (k.afterIsolated after.length last later o) := by
  have hline : k.visitLine row { m with failure := none } = (visit, o) := hline
  rw [visitIsolated,hline,afterIsolated]
  cases hsettled : o.settled last with
  | ok v n =>
    have hpassed := uniform_of_taken (k := k) enters_untraced hafter (taken_of_settled htaken hsettled)
    simp [hpassed.visitIsolated,noting]
  | error e n => simp [noting]
  | outOfFuel n => simp [noting]

end run

section chosen

variable {fuel : Nat} {rows : List (Row Token)} {m n : Machine} {i : Nat} {row : Row Token}
  {s : Statement Token}

/-- Whatever the body does, its line leaves the note that a branch was taken. -/
theorem taken_of_chosen {outer : Nat} {m' : Machine}
    (h : (((Calls.upTo fuel).runBlock s.body (n.withBranch true)).closeLine row outer).Leaves m') :
    m'.chain.branchTaken = true := by
  have hchain : m'.chain = (n.withBranch true).chain :=
    chain_of_closeLine (fun _ hleaves => chain_of_runBlock hleaves) h
  simp [hchain,Machine.withBranch,Chain.withBranch]

theorem Chosen.row_eq {k : Calls} {enter : Machine → Machine} (h : Chosen k enter rows m i n row s) :
    rows[i]? = some row := by
  obtain ⟨-, before, after, m₁, rfl, rfl, -⟩ := h
  simp

theorem Chosen.visitRows (h : Chosen (.upTo fuel) id rows m i n row s) (last : Value) (yielded : Bool)
    (later : List (Row Token)) :
    (Calls.upTo fuel).visitRows last yielded (rows ++ later) m =
      noting (List.replicate i ⟨true, false⟩ ++ [⟨s.kind != .otherwise, true⟩])
        ((Calls.upTo fuel).afterBranch (rows.length - (i + 1)) (last.behind i) yielded later
          (((Calls.upTo fuel).runBlock s.body (n.withBranch true)).closeLine row m.line)) := by
  obtain ⟨-, before, after, m₁, rfl, rfl, hafter, hbefore, hrow⟩ := h
  have hlength : (before ++ row :: after).length - (before.length + 1) = after.length := by
    simp
    omega
  rw [hlength,noting_append,List.append_assoc,hbefore.visitRows,List.cons_append]
  exact congrArg _ (visitRows_of_taken hrow hafter (fun _ => taken_of_chosen) _ yielded later)

theorem Chosen.visitIsolated (h : Chosen (.upTo fuel) Machine.untraced rows m i n row s) (last : Value)
    (later : List (Row Token)) :
    (Calls.upTo fuel).visitIsolated last (rows ++ later) m =
      noting (List.replicate i ⟨true, false⟩ ++ [⟨s.kind != .otherwise, true⟩])
        ((Calls.upTo fuel).afterIsolated (rows.length - (i + 1)) (last.behind i) later
          (((Calls.upTo fuel).runBlock s.body (n.withBranch true)).closeLine row m.line)) := by
  obtain ⟨-, before, after, m₁, rfl, rfl, hafter, hbefore, hrow⟩ := h
  have hlength : (before ++ row :: after).length - (before.length + 1) = after.length := by
    simp
    omega
  rw [hlength,noting_append,List.append_assoc,hbefore.visitIsolated,List.cons_append]
  exact congrArg _ (visitIsolated_of_taken hrow hafter (fun _ => taken_of_chosen) _ later)

end chosen

/-- Exactly one branch runs, in a body and among top-level lines alike: that of the first condition that
holds, or the one without a condition, or none if the conditional has no such line. It runs on the machine
that the conditions before it and its own have left; no condition behind it is asked, whatever it does. -/
theorem one_branch_runs (fuel : Nat) (m : Machine) {rows : List (Row Token)}
    (hrows : isConditional rows = true) (last : Value) (yielded : Bool) (later : List (Row Token)) :
    let k := Calls.upTo fuel
    ((k.visitRows last yielded (rows ++ later) m).2 = k.runRows last yielded (rows ++ later) m ∧
      (k.visitIsolated last (rows ++ later) m).2 = Machine.runIsolated k last (rows ++ later) m) ∧
    (∀ n, k.choose id rows m = .ok none n →
      k.visitRows last yielded (rows ++ later) m =
        noting (List.replicate rows.length ⟨true, false⟩) (k.visitRows .empty yielded later n)) ∧
    (∀ i n, k.choose id rows m = .ok (some i) n →
      ∃ row s, rows[i]? = some row ∧ row.statement? = some s ∧
        k.visitRows last yielded (rows ++ later) m =
          noting (List.replicate i ⟨true, false⟩ ++ [⟨s.kind != .otherwise, true⟩])
            (k.afterBranch (rows.length - (i + 1)) (last.behind i) yielded later
              ((k.runBlock s.body (n.withBranch true)).closeLine row m.line))) ∧
    (∀ n, k.choose Machine.untraced rows m = .ok none n →
      k.visitIsolated last (rows ++ later) m =
        noting (List.replicate rows.length ⟨true, false⟩) (k.visitIsolated .empty later n)) ∧
    (∀ i n, k.choose Machine.untraced rows m = .ok (some i) n →
      ∃ row s, rows[i]? = some row ∧ row.statement? = some s ∧
        k.visitIsolated last (rows ++ later) m =
          noting (List.replicate i ⟨true, false⟩ ++ [⟨s.kind != .otherwise, true⟩])
            (k.afterIsolated (rows.length - (i + 1)) (last.behind i) later
              ((k.runBlock s.body (n.withBranch true)).closeLine row m.line))) := by
  have hne : rows.length ≠ 0 := by
    cases rows with
    | nil => simp [isConditional] at hrows
    | cons row rows => simp
  refine ⟨⟨visitRows_snd _ _ _ _ _, visitIsolated_snd _ _ _ _⟩, fun n h => ?_, fun i n h => ?_,
    fun n h => ?_, fun i n h => ?_⟩
  · have hall := uniform_of_choose enters_id (.inl hrows) h
    simpa [Value.behind,hne] using hall.visitRows last yielded later
  · obtain ⟨row, s, hchosen⟩ := chosen_of_choose enters_id (.inl hrows) h
    exact ⟨row, s, hchosen.row_eq, hchosen.statement, hchosen.visitRows last yielded later⟩
  · have hall := uniform_of_choose enters_untraced (.inl hrows) h
    simpa [Value.behind,hne] using hall.visitIsolated last later
  · obtain ⟨row, s, hchosen⟩ := chosen_of_choose enters_untraced (.inl hrows) h
    exact ⟨row, s, hchosen.row_eq, hchosen.statement, hchosen.visitIsolated last later⟩

/-- The second branch runs; it changes the variable that its own condition asked, and fails. -/
def oneBranchSource : String :=
  "undefined x => true\nif false : nowhere\nelif x \x7b\nx => false\nnowhere\n\x7d\n" ++
    "elif true : x => 3\nelse : x => 4"

theorem one_branch_runs_failing :
    ∃ q program v m n, Parser.empty.parseWith 14 oneBranchSource = some (q, .ok program) ∧
      ((Machine.new .standard .standard).load program.declared).executeIsolated 9
        (program.lines.take 1) = .ok v m ∧
      let k := Calls.upTo 9
      let rows := program.lines.drop 1
      isConditional rows = true ∧ k.choose Machine.untraced rows m = .ok (some 1) n ∧
      ∃ row s, rows[1]? = some row ∧ row.statement? = some s ∧
        k.visitIsolated v rows m = noting [⟨true, false⟩, ⟨s.kind != .otherwise, true⟩]
          (k.afterIsolated (rows.length - 2) .empty []
            ((k.runBlock s.body (n.withBranch true)).closeLine row m.line)) ∧
        (k.visitIsolated v rows m).1 = [⟨true, false⟩, ⟨true, true⟩, ⟨false, false⟩, ⟨false, false⟩] := by
  have hrun : ((Parser.empty.parseWith 14 oneBranchSource).bind fun r => r.2.toOption.bind fun program =>
      (((Machine.new .standard .standard).load program.declared).executeIsolated 9
        (program.lines.take 1)).finished?.bind fun first =>
      ((Calls.upTo 9).choose Machine.untraced (program.lines.drop 1) first.2).finished?.map fun chosen =>
        (isConditional (program.lines.drop 1), chosen.1,
          ((Calls.upTo 9).visitIsolated first.1 (program.lines.drop 1) first.2).1)) =
      some (true, some 1, [⟨true, false⟩, ⟨true, true⟩, ⟨false, false⟩, ⟨false, false⟩]) := by
    decide +kernel
  obtain ⟨⟨q, r⟩, hread, hrun⟩ := Option.bind_eq_some_iff.1 hrun
  obtain ⟨program, hr, hrun⟩ := Option.bind_eq_some_iff.1 hrun
  cases r with
  | error e => cases hr
  | ok found =>
    obtain rfl : found = program := Option.some.inj hr
    obtain ⟨⟨v, m⟩, hfirst, hrun⟩ := Option.bind_eq_some_iff.1 hrun
    obtain ⟨⟨i, n⟩, hchosen, hrun⟩ := Option.map_eq_some_iff.1 hrun
    simp only [Prod.mk.injEq] at hrun
    obtain ⟨hrows, rfl, hvisits⟩ := hrun
    rw [Outcome.finished?_eq_some_iff] at hfirst hchosen
    obtain ⟨row, s, hrow, hs, heq⟩ := (one_branch_runs 9 m hrows v false []).2.2.2.2 1 n hchosen
    rw [List.append_nil] at heq
    exact ⟨q, found, v, m, n, hread, hfirst, hrows, hchosen, row, s, hrow, hs, heq, hvisits⟩

end Calls

end LineScript
