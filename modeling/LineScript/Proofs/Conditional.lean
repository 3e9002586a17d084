import LineScript.Machine.Run
import LineScript.Proofs.Machine.Unaware
set_option autoImplicit false

/-!
Conditionals among top-level lines. The isolated run is followed line by line with a note of what each line
came to: its condition, its body, both or neither. Once the first condition of a conditional has a truth,
nothing of the conditional depends on the branches before it. If asking it fails, the line leaves the note
of the earlier branches as it is, and the lines behind it go by that.
-/

namespace LineScript

/-- What a line came to: was its condition asked, and did its body run? A branch without a condition fails
where others ask theirs. -/
structure Visit where
  asked : Bool
  entered : Bool
  deriving DecidableEq, Repr

def Visit.passedOver : Visit := ⟨false, false⟩

def Row.statement? (row : Row Token) : Option (Statement Token) :=
  match row.tokens with
  | .statement s :: _ => some s
  | _ => none

def Row.isKind (kind : StatementKind) (row : Row Token) : Bool :=
  (row.statement?.map Statement.kind) == some kind

/-- The lines go on a conditional and end it: further conditions, and at last what is done otherwise. -/
def completes : List (Row Token) → Bool
  | [] => false
  | [final] => final.isKind .otherwise
  | row :: rows => row.isKind .elseCond && completes rows

theorem completes_cases {rows : List (Row Token)} (h : completes rows = true) :
    ∃ row more, rows = row :: more ∧ (row.isKind .elseCond ∨ row.isKind .otherwise) := by
  match rows, h with
  | [final], h => exact ⟨final, [], rfl, .inr h⟩
  | row :: next :: more, h =>
    have hrow : row.isKind .elseCond = true := (Bool.and_eq_true_iff.1 h).1
    exact ⟨row, next :: more, rfl, .inl hrow⟩

def Chain.withBranch (taken : Bool) (c : Chain) : Chain := { c with branchTaken := taken }

namespace Machine

/-- The machine with another note of the last branch. -/
def withBranch (taken : Bool) (m : Machine) : Machine := { m with chain := m.chain.withBranch taken }

/-- The machine inside of a line. -/
def openLine (row : Row Token) (m : Machine) : Machine :=
  let frame : CallFrame := ⟨.line, row.line.text, m.config.file, row.line.number⟩
  { m with
    line := row.line.number
    stack := { m.stack with frames := frame :: m.stack.frames } }

end Machine

/-- The way out of a line. -/
def Outcome.closeLine (row : Row Token) (outer : Nat) : Outcome Flow → Outcome Flow
  | .ok flow m => .ok flow { m with stack := m.stack.pop, line := outer }
  | .error e m =>
    let m := m.capture
    .error ((Calls.constructName row).elim e e.wrap) { m with stack := m.stack.pop, line := outer }
  | .outOfFuel m => .outOfFuel m

/-- What the isolated run makes of a line: the value that is the last one now. -/
def Outcome.settled (last : Value) : Outcome Flow → Outcome Value
  | .ok (.normal v) m => .ok v m
  | .ok (.return_ v) m => .ok v m
  | .ok .break_ m => .ok last (m.report Machine.strayBreak)
  | .ok .yieldBreak m => .ok last (m.report Machine.strayBreak)
  | .error e m => .ok last (m.report e)
  | .outOfFuel m => .outOfFuel m

namespace Calls

/-- The truth of a branch's condition; a branch without one is malformed. -/
def decision (k : Calls) (s : Statement Token) : Exec Bool :=
  match s.condition with
  | none => Exec.fail (.malformed ("'" ++ s.kind.keyword ++ "' needs a condition"))
  | some tokens => k.condition tokens

/-- Runs a branch and notes what it came to. -/
def visitBranch (k : Calls) (s : Statement Token) (m : Machine) : Visit × Outcome Flow :=
  match k.decision s m with
  | .ok true m => (⟨true, true⟩, k.runBlock s.body (m.withBranch true))
  | .ok false m => (⟨true, false⟩, .ok (.normal .empty) (m.withBranch false))
  | .error e m => (⟨true, false⟩, .error e m)
  | .outOfFuel m => (⟨true, false⟩, .outOfFuel m)

/-- Runs a statement and notes what it came to, if it belongs to a conditional. -/
def visitStatement (k : Calls) (s : Statement Token) (m : Machine) : Visit × Outcome Flow :=
  match s.kind with
  | .cond => k.visitBranch s m
  | .elseCond =>
    if m.chain.branchTaken then (.passedOver, .ok (.normal .empty) m) else k.visitBranch s m
  | .otherwise =>
    if m.chain.branchTaken then (.passedOver, .ok (.normal .empty) (m.withBranch true))
    else (⟨false, true⟩, k.runBlock s.body (m.withBranch true))
  | _ => (.passedOver, k.runStatement s m)

def visitLine (k : Calls) (row : Row Token) (m : Machine) : Visit × Outcome Flow :=
  match row.statement? with
  | some s =>
    let r := k.visitStatement s (m.openLine row)
    (r.1, r.2.closeLine row m.line)
  | none => (.passedOver, k.runLine row m)

/-- Runs top-level lines isolated from each other and notes what each of them came to. -/
def visitIsolated (k : Calls) : Value → List (Row Token) → Machine → List Visit × Outcome Value
  | last, [], m => ([], .ok last m)
  | last, row :: rows, m =>
    let r := k.visitLine row { m with failure := none }
    match r.2.settled last with
    | .ok v m =>
      let t := k.visitIsolated v rows m
      (r.1 :: t.1, t.2)
    | .error e m => ([r.1], .error e m)
    | .outOfFuel m => ([r.1], .outOfFuel m)

/-- Asking the condition of the line fails, where the line asks it. -/
def Undecided (k : Calls) (row : Row Token) (s : Statement Token) (m : Machine) : Prop :=
  ∃ e n, k.decision s (Machine.openLine row { m with failure := none }) = .error e n

section erasure

variable (k : Calls)

theorem branch_eq (s : Statement Token) :
    k.branch s = k.decision s >>= fun taken => setBranch taken >>= fun _ =>
      if taken then k.runBlock s.body else pure (.normal .empty) := by
  unfold branch decision
  cases s.condition with
  | none => rfl
  | some tokens => rfl

theorem visitBranch_snd (s : Statement Token) (m : Machine) :
    (k.visitBranch s m).2 = k.branch s m := by
  rw [branch_eq]
  change _ = Exec.bind (k.decision s) _ m
  unfold visitBranch Exec.bind
  cases k.decision s m with
  | ok taken n =>
    cases taken with
    | false => rfl
    | true => rfl
  | error e n => rfl
  | outOfFuel n => rfl

theorem visitStatement_snd (s : Statement Token) (m : Machine) :
    (k.visitStatement s m).2 = k.runStatement s m := by
  unfold visitStatement
  cases hkind : s.kind with
  | cond => simpa [runStatement,hkind] using k.visitBranch_snd s m
  | elseCond =>
    have hrun : k.runStatement s m =
        (if m.chain.branchTaken then pure (.normal .empty) else k.branch s : Exec Flow) m := by
      simp only [runStatement,hkind]
      rfl
    rw [hrun]
    cases m.chain.branchTaken with
    | true => rfl
    | false => exact k.visitBranch_snd s m
  | otherwise =>
    have hrun : k.runStatement s m =
        (if m.chain.branchTaken then pure (.normal .empty) else k.runBlock s.body : Exec Flow)
          (m.withBranch true) := by
      simp only [runStatement,hkind]
      rfl
    rw [hrun]
    cases m.chain.branchTaken with
    | true => rfl
    | false => rfl
  | loop => rfl
  | attempt => rfl
  | rescue => rfl

/-- A line has a frame of its own on the stack, which is never refused. -/
theorem runLine_eq (row : Row Token) (m : Machine) :
    k.runLine row m = (k.dispatch row (m.openLine row)).closeLine row m.line := by
  have hpush (f : CallFrame) (hf : f.kind = .line) :
      m.stack.push f = .ok { m.stack with frames := f :: m.stack.frames } := by
    simp [CallStack.push,hf]
  simp only [runLine,Exec.wrapping,Exec.atLine,Exec.finally_,bind,Exec.bind,Exec.read,Exec.withFrame,hpush]
  change _ = (k.dispatch row { m with stack := _, line := _ }).closeLine row m.line
  cases k.dispatch row _ with
  | ok flow n => rfl
  | error e n => cases hc : constructName row <;> simp [Outcome.closeLine,hc]
  | outOfFuel n => rfl

theorem dispatch_of_statement {row : Row Token} {s : Statement Token} (hs : row.statement? = some s) :
    k.dispatch row = k.runStatement s := by
  unfold Row.statement? at hs
  split at hs
  · next s' rest htokens =>
    obtain rfl := Option.some.inj hs
    simp only [dispatch,htokens]
  · cases hs

theorem visitLine_of_statement {row : Row Token} {s : Statement Token} (hs : row.statement? = some s)
    (m : Machine) : k.visitLine row m = ((k.visitStatement s (m.openLine row)).1,
      (k.visitStatement s (m.openLine row)).2.closeLine row m.line) := by
  simp only [visitLine,hs]

theorem visitLine_snd (row : Row Token) (m : Machine) : (k.visitLine row m).2 = k.runLine row m := by
  cases hs : row.statement? with
  | none => simp only [visitLine,hs]
  | some s => rw [k.visitLine_of_statement hs,runLine_eq,k.dispatch_of_statement hs,visitStatement_snd]

theorem runIsolated_cons (last : Value) (row : Row Token) (rows : List (Row Token)) (m : Machine) :
    Machine.runIsolated k last (row :: rows) m =
      match (k.runLine row { m with failure := none }).settled last with
      | .ok v m => Machine.runIsolated k v rows m
      | .error e m => .error e m
      | .outOfFuel m => .outOfFuel m := by
  rw [Machine.runIsolated]
  cases k.runLine row { m with failure := none } with
  | ok flow n =>
    cases flow with
    | normal v => rfl
    | return_ v => rfl
    | break_ => rfl
    | yieldBreak => rfl
  | error e n => rfl
  | outOfFuel n => rfl

/-- The run that notes what the lines come to is the isolated run. -/
theorem visitIsolated_snd (last : Value) (rows : List (Row Token)) (m : Machine) :
    (k.visitIsolated last rows m).2 = Machine.runIsolated k last rows m := by
  induction rows generalizing last m with
  | nil => rfl
  | cons row rows ih =>
    rw [runIsolated_cons,← visitLine_snd,visitIsolated]
    dsimp only
    cases (k.visitLine row { m with failure := none }).2.settled last with
    | ok v n => exact ih v n
    | error e n => rfl
    | outOfFuel n => rfl

end erasure

section independence

variable {k : Calls} {b : Bool} {m : Machine} {first : Row Token} {s : Statement Token}

theorem Unaware.decision (hk : k.Unaware (Chain.withBranch b) id) (s : Statement Token) (m : Machine) :
    (k.decision s m).Elsewhere (Chain.withBranch b) id (k.decision s (m.withBranch b)) := by
  unfold Calls.decision
  cases s.condition with
  | none => exact Exec.unaware_fail _ m
  | some tokens => exact hk.condition tokens m

/-- The machine inside of a top-level line, with the note of the last branch that was there before. -/
theorem openLine_withBranch (row : Row Token) (m : Machine) (b : Bool) :
    Machine.openLine row { m.withBranch b with failure := none } =
      (Machine.openLine row { m with failure := none }).withBranch b := rfl

theorem capture_withBranch (m : Machine) (b : Bool) :
    (m.withBranch b).capture = m.capture.withBranch b :=
  Exec.capture_elsewhere (c := Chain.withBranch b) (e := id) m

theorem visitLine_of_cond (hs : first.statement? = some s) (hkind : s.kind = .cond) (m : Machine) :
    k.visitLine first m = ((k.visitBranch s (m.openLine first)).1,
      (k.visitBranch s (m.openLine first)).2.closeLine first m.line) := by
  simp only [k.visitLine_of_statement hs,visitStatement,hkind]

/-- A branch whose condition has a truth, or is asked for ever, does the same whatever was noted before. -/
theorem visitBranch_of_decided (hk : k.Unaware (Chain.withBranch b) id)
    (hd : ∀ e n, k.decision s m ≠ .error e n) :
    k.visitBranch s (m.withBranch b) = k.visitBranch s m ∨
    ∃ v n n', k.visitBranch s m = (v, .outOfFuel n) ∧
      k.visitBranch s (m.withBranch b) = (v, .outOfFuel n') := by
  have hm := hk.decision s m
  unfold visitBranch
  cases hr : k.decision s m with
  | ok taken n =>
    rw [hr] at hm
    rw [hm.of_ok]
    -- the note that the branch makes takes the place of either
    cases taken with
    | false => exact .inl rfl
    | true => exact .inl rfl
  | error e n => exact absurd hr (hd e n)
  | outOfFuel n =>
    rw [hr] at hm
    obtain ⟨n', hn'⟩ := hm.of_outOfFuel
    rw [hn']
    exact .inr ⟨_, n, n', rfl, rfl⟩

theorem visitIsolated_of_decided (hk : k.Unaware (Chain.withBranch b) id) (hs : first.statement? = some s)
    (hkind : s.kind = .cond) (hd : ¬ k.Undecided first s m) (last : Value) (rest : List (Row Token)) :
    (k.visitIsolated last (first :: rest) (m.withBranch b)).1 =
      (k.visitIsolated last (first :: rest) m).1 ∧
    (k.visitIsolated last (first :: rest) (m.withBranch b)).2.finished? =
      (k.visitIsolated last (first :: rest) m).2.finished? := by
  have hbranch := visitBranch_of_decided hk fun e n h => hd ⟨e, n, h⟩
  simp only [visitIsolated,visitLine_of_cond hs hkind,openLine_withBranch]
  rcases hbranch with h | ⟨v, n, n', h, h'⟩
  · rw [h]
    exact ⟨rfl, rfl⟩
  · rw [h,h']
    exact ⟨rfl, rfl⟩

/-- A line that fails on its condition leaves the note of the last branch as it is. -/
theorem visitLine_of_undecided (hk : ∀ b, k.Unaware (Chain.withBranch b) id)
    (hs : first.statement? = some s) (hkind : s.kind = .cond) (hd : k.Undecided first s m) :
    ∃ e, ∃ n : Machine, ∀ b, k.visitLine first { m.withBranch b with failure := none } =
      (⟨true, false⟩, .error e (n.withBranch b)) := by
  obtain ⟨e, n, he⟩ := hd
  refine ⟨(constructName first).elim e e.wrap,
    { n.capture with stack := n.capture.stack.pop, line := m.line }, fun b => ?_⟩
  have hm := (hk b).decision s (Machine.openLine first { m with failure := none })
  rw [he] at hm
  have hfails : k.decision s ((Machine.openLine first { m with failure := none }).withBranch b) =
      .error e (n.withBranch b) := hm.of_error
  simp only [visitLine_of_cond hs hkind,openLine_withBranch,visitBranch,hfails,Outcome.closeLine,
    capture_withBranch]
  rfl

theorem visitIsolated_of_undecided (hk : ∀ b, k.Unaware (Chain.withBranch b) id)
    (hs : first.statement? = some s) (hkind : s.kind = .cond) (hd : k.Undecided first s m) (last : Value)
    (rest : List (Row Token)) :
    ∃ n : Machine, ∀ b, (k.visitIsolated last (first :: rest) (m.withBranch b)).1 =
      ⟨true, false⟩ :: (k.visitIsolated last rest (n.withBranch b)).1 := by
  obtain ⟨e, n, hline⟩ := visitLine_of_undecided hk hs hkind hd
  refine ⟨n.report e, fun b => ?_⟩
  simp only [visitIsolated,hline,Outcome.settled]
  rfl

theorem head_visitIsolated (last : Value) (row : Row Token) (rows : List (Row Token)) (n : Machine) :
    (k.visitIsolated last (row :: rows) n).1.head? =
      some (k.visitLine row { n with failure := none }).1 := by
  rw [visitIsolated]
  dsimp only
  cases (k.visitLine row { n with failure := none }).2.settled last with
  | ok v n => rfl
  | error e n => rfl
  | outOfFuel n => rfl

theorem visitBranch_ne (s : Statement Token) (m : Machine) : (k.visitBranch s m).1 ≠ .passedOver := by
  unfold visitBranch
  cases k.decision s m with
  | ok taken n =>
    cases taken with
    | false => nofun
    | true => nofun
  | error e n => nofun
  | outOfFuel n => nofun

/-- A line that goes on a conditional is passed over exactly if a branch was taken. -/
theorem visitLine_goesOn {row : Row Token} (hrow : row.isKind .elseCond ∨ row.isKind .otherwise)
    (n : Machine) : (k.visitLine row n).1 = .passedOver ↔ n.chain.branchTaken = true := by
  cases hs : row.statement? with
  | none => simp [Row.isKind,hs] at hrow
  | some s =>
    have hkind : s.kind = .elseCond ∨ s.kind = .otherwise := by simpa [Row.isKind,hs] using hrow
    rw [k.visitLine_of_statement hs]
    change (k.visitStatement s (n.openLine row)).1 = _ ↔ (n.openLine row).chain.branchTaken = true
    by_cases htaken : (n.openLine row).chain.branchTaken
    · rcases hkind with hkind | hkind
      · simp [visitStatement,hkind,htaken]
      · simp [visitStatement,hkind,htaken]
    · rcases hkind with hkind | hkind
      · simpa [visitStatement,hkind,htaken] using visitBranch_ne s _
      · simp [visitStatement,hkind,htaken,Visit.passedOver]

end independence

end Calls

namespace Machine

/-- What each line comes to when the lines are run isolated from each other. -/
def visits (fuel : Nat) (m : Machine) (rows : List (Row Token)) : List Visit :=
  ((Calls.upTo fuel).visitIsolated .empty rows m).1

/-- Which conditions of a conditional are asked and which bodies run does not depend on the branches before
it, exactly if asking the first condition raises no error; then neither does anything else. -/
theorem conditional_independent_iff (m : Machine) (fuel : Nat) {first : Row Token} {s : Statement Token}
    {rest : List (Row Token)} (hs : first.statement? = some s) (hkind : s.kind = .cond)
    (hrest : completes rest = true) :
    ((∀ b b', (m.withBranch b).visits fuel (first :: rest) =
        (m.withBranch b').visits fuel (first :: rest)) ↔ ¬ (Calls.upTo fuel).Undecided first s m) ∧
    (¬ (Calls.upTo fuel).Undecided first s m → ∀ b b',
      ((m.withBranch b).executeIsolated fuel (first :: rest)).finished? =
        ((m.withBranch b').executeIsolated fuel (first :: rest)).finished?) := by
  have hk (b : Bool) := Calls.unaware_upTo fuel (Chain.withBranch b) id
  have hdecided (hd : ¬ (Calls.upTo fuel).Undecided first s m) (b : Bool) :=
    Calls.visitIsolated_of_decided (hk b) hs hkind hd .empty rest
  refine ⟨⟨fun hsame hd => ?_, fun hd b b' => ?_⟩, fun hd b b' => ?_⟩
  · -- the line behind the one that fails is passed over after the one note only
    obtain ⟨n, hn⟩ := Calls.visitIsolated_of_undecided hk hs hkind hd .empty rest
    obtain ⟨row, more, rfl, hrow⟩ := completes_cases hrest
    have hvisits := hsame true false
    unfold visits at hvisits
    rw [hn,hn,List.cons.injEq] at hvisits
    have hhead := congrArg List.head? hvisits.2
    rw [Calls.head_visitIsolated,Calls.head_visitIsolated] at hhead
    have hgoes (b : Bool) := Calls.visitLine_goesOn (k := .upTo fuel) hrow
      { n.withBranch b with failure := none }
    have htaken : false = true := (hgoes false).1 (Option.some.inj hhead ▸ (hgoes true).2 rfl)
    exact Bool.noConfusion htaken
  · exact (hdecided hd b).1.trans (hdecided hd b').1.symm
  · have hrun := (hdecided hd b).2.trans (hdecided hd b').2.symm
    rwa [Calls.visitIsolated_snd,Calls.visitIsolated_snd] at hrun

/-- Asking the second condition fails. -/
def shakySource : String :=
  "if false : runexec => EZCode.print ~> a\nelif maybe : runexec => EZCode.print ~> b\n" ++
    "else : runexec => EZCode.print ~> c"

theorem conditional_independent_iff_shaky :
    ∃ q program first rest s, Parser.empty.parseWith 12 shakySource = some (q, .ok program) ∧
      program.lines = first :: rest ∧ first.statement? = some s ∧ s.kind = .cond ∧ completes rest = true ∧
      let m := (Machine.new .standard .standard).load program.declared
      ¬ (Calls.upTo 9).Undecided first s m ∧
      (m.withBranch true).visits 9 (first :: rest) = [⟨true, false⟩, ⟨true, false⟩, ⟨false, true⟩] ∧
      (m.withBranch false).visits 9 (first :: rest) = [⟨true, false⟩, ⟨true, false⟩, ⟨false, true⟩] := by
  have hrun : ((Parser.empty.parseWith 12 shakySource).bind fun r => r.2.toOption.bind fun program =>
      program.lines.head?.bind fun first => first.statement?.bind fun s =>
        let m := (Machine.new .standard .standard).load program.declared
        let decided := (Calls.upTo 9).decision s (Machine.openLine first { m with failure := none })
        decided.finished?.map fun truth => (s.kind, completes program.lines.tail, truth.1,
          (m.withBranch true).visits 9 program.lines)) =
      some (.cond, true, false, [⟨true, false⟩, ⟨true, false⟩, ⟨false, true⟩]) := by
    decide +kernel
  obtain ⟨⟨q, r⟩, hread, hrun⟩ := Option.bind_eq_some_iff.1 hrun
  obtain ⟨program, hr, hrun⟩ := Option.bind_eq_some_iff.1 hrun
  cases r with
  | error e => cases hr
  | ok found =>
    obtain rfl : found = program := Option.some.inj hr
    obtain ⟨first, hfirst, hrun⟩ := Option.bind_eq_some_iff.1 hrun
    obtain ⟨s, hs, hrun⟩ := Option.bind_eq_some_iff.1 hrun
    obtain ⟨⟨truth, n⟩, hdecided, hrun⟩ := Option.map_eq_some_iff.1 hrun
    obtain ⟨rest, hlines⟩ := List.head?_eq_some_iff.1 hfirst
    rw [hlines] at hrun
    simp only [Prod.mk.injEq,List.tail_cons] at hrun
    obtain ⟨hkind, hrest, -, hvisits⟩ := hrun
    let m := (Machine.new .standard .standard).load found.declared
    have hd : ¬ (Calls.upTo 9).Undecided first s m := by
      rintro ⟨e, n', he⟩
      simp [m,he,Outcome.finished?] at hdecided
    have hsame := (conditional_independent_iff m 9 hs hkind hrest).1.2 hd
    exact ⟨q, found, first, rest, s, hread, hlines, hs, hkind, hrest, hd, hvisits,
      (hsame false true).trans hvisits⟩

/-- Asking the first condition fails. -/
def brokenSource : String :=
  "if maybe : runexec => EZCode.print ~> b\nelse : runexec => EZCode.print ~> c"

/-- Whether the body of the last line runs is up to the branches before the conditional. -/
theorem conditional_depends_on_earlier :
    ∃ q program first rest, Parser.empty.parseWith 12 brokenSource = some (q, .ok program) ∧
      program.lines = first :: rest ∧ first.isKind .cond = true ∧ completes rest = true ∧
      let m := (Machine.new .standard .standard).load program.declared
      (m.withBranch true).visits 9 (first :: rest) = [⟨true, false⟩, ⟨false, false⟩] ∧
      (m.withBranch false).visits 9 (first :: rest) = [⟨true, false⟩, ⟨false, true⟩] := by
  have hrun : ((Parser.empty.parseWith 12 brokenSource).bind fun r => r.2.toOption.bind fun program =>
      program.lines.head?.map fun first =>
        let m := (Machine.new .standard .standard).load program.declared
        (first.isKind .cond, completes program.lines.tail, (m.withBranch true).visits 9 program.lines,
          (m.withBranch false).visits 9 program.lines)) =
      some (true, true, [⟨true, false⟩, ⟨false, false⟩], [⟨true, false⟩, ⟨false, true⟩]) := by
    decide +kernel
  obtain ⟨⟨q, r⟩, hread, hrun⟩ := Option.bind_eq_some_iff.1 hrun
  obtain ⟨program, hr, hrun⟩ := Option.bind_eq_some_iff.1 hrun
  cases r with
  | error e => cases hr
  | ok found =>
    obtain rfl : found = program := Option.some.inj hr
    obtain ⟨first, hfirst, hrun⟩ := Option.map_eq_some_iff.1 hrun
    obtain ⟨rest, hlines⟩ := List.head?_eq_some_iff.1 hfirst
    rw [hlines] at hrun
    simp only [Prod.mk.injEq,List.tail_cons] at hrun
    obtain ⟨hkind, hrest, htaken, huntaken⟩ := hrun
    exact ⟨q, found, first, rest, hread, hlines, hkind, hrest, htaken, huntaken⟩

end Machine

end LineScript
