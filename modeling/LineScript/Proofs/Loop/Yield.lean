import LineScript.Proofs.Attempt
import LineScript.Proofs.Loop.Passes
set_option autoImplicit false

/-!
Loops, and what becomes of a `yield break` inside of them. The run of a body is followed with a note of every
line executed in it and, inside of conditionals, attempts and handlers, of every line executed in the bodies
of those. A `yield break` stops none of the bodies around it: each goes on to its end, or to a line that
breaks, returns or fails. Where they all come to their end, the pass ends with the `yield break` and the loop
with the pass.
-/

namespace LineScript

/-- A line that was executed: how it ended, and what was executed of a body in it. The bodies of loops and
methods have passes and calls of their own and are left out. -/
inductive Executed where
  | line (row : Row Token) (outcome : Outcome Flow) (inner : List Executed)

namespace Executed

def row : Executed → Row Token
  | line row _ _ => row

def outcome : Executed → Outcome Flow
  | line _ outcome _ => outcome

def inner : Executed → List Executed
  | line _ _ inner => inner

end Executed

def Row.isYieldBreak (row : Row Token) : Bool := row.tokens.map Token.kind == [.yield, .breakWord]

namespace Outcome

/-- The line lets the body go on. -/
def goesOn : Outcome Flow → Bool
  | .ok (.normal _) _ => true
  | .ok .yieldBreak _ => true
  | _ => false

/-- The line breaks, returns or fails. -/
def stops : Outcome Flow → Bool
  | .ok .break_ _ => true
  | .ok (.return_ _) _ => true
  | .error _ _ => true
  | _ => false

def yields : Outcome Flow → Bool
  | .ok .yieldBreak _ => true
  | _ => false

theorem yields_iff {o : Outcome Flow} : o.yields = true ↔ ∃ m, o = .ok .yieldBreak m := by
  unfold yields
  split <;> simp_all

variable {α : Type}

def isOutOfFuel : Outcome α → Bool
  | .outOfFuel _ => true
  | _ => false

/-- The machine is changed behind an action, however it ended. -/
def behind (f : Machine → Machine) : Outcome α → Outcome α
  | .ok a m => .ok a (f m)
  | .error e m => .error e (f m)
  | .outOfFuel m => .outOfFuel m

@[simp]
theorem yields_behind (f : Machine → Machine) (o : Outcome Flow) : (o.behind f).yields = o.yields := by
  cases o with
  | ok flow m => cases flow <;> rfl
  | error e m => rfl
  | outOfFuel m => rfl

@[simp]
theorem isOutOfFuel_behind (f : Machine → Machine) (o : Outcome α) :
    (o.behind f).isOutOfFuel = o.isOutOfFuel := by
  cases o <;> rfl

@[simp]
theorem yields_closeLine (row : Row Token) (outer : Nat) (o : Outcome Flow) :
    (o.closeLine row outer).yields = o.yields := by
  cases o with
  | ok flow m => cases flow <;> rfl
  | error e m => rfl
  | outOfFuel m => rfl

@[simp]
theorem isOutOfFuel_closeLine (row : Row Token) (outer : Nat) (o : Outcome Flow) :
    (o.closeLine row outer).isOutOfFuel = o.isOutOfFuel := by
  cases o <;> rfl

@[simp]
theorem yields_caught (o : Outcome Flow) : o.caught.yields = o.yields := by
  cases o <;> rfl

@[simp]
theorem isOutOfFuel_caught (o : Outcome Flow) : o.caught.isOutOfFuel = o.isOutOfFuel := by
  cases o <;> rfl

theorem isOutOfFuel_of_goesOn {o : Outcome Flow} (h : o.goesOn = true) : o.isOutOfFuel = false := by
  cases o with
  | outOfFuel m => cases h
  | _ => rfl

theorem goesOn_of_yields {o : Outcome Flow} (h : o.yields = true) : o.goesOn = true := by
  obtain ⟨m, rfl⟩ := yields_iff.1 h
  rfl

theorem stops_of_not_goesOn {o : Outcome Flow} (h : o.goesOn = false) (hended : o.isOutOfFuel = false) :
    o.stops = true := by
  cases o with
  | ok flow n =>
    cases flow with
    | normal v => cases h
    | return_ v => rfl
    | break_ => rfl
    | yieldBreak => cases h
  | error e n => rfl
  | outOfFuel n => cases hended

end Outcome

theorem Exec.finally_eq {α : Type} (x : Exec α) (f : Machine → Machine) (m : Machine) :
    Exec.finally_ x f m = (x m).behind f := by
  unfold Exec.finally_
  cases x m <;> rfl

/-- A body and the lines executed of it. -/
structure BodyRun where
  rows : List (Row Token)
  executed : List Executed

namespace BodyRun

/-- Every line of the body was executed. -/
def Through (b : BodyRun) : Prop :=
  b.executed.map Executed.row = b.rows ∧ ∀ t ∈ b.executed, t.outcome.goesOn = true

/-- The lines were executed up to one that does not let the body go on. -/
def EndsAt (b : BodyRun) (final : Executed) : Prop :=
  ∃ before after, b.rows = before.map Executed.row ++ final.row :: after ∧ b.executed = before ++ [final] ∧
    (∀ t ∈ before, t.outcome.goesOn = true) ∧ final.outcome.goesOn = false

/-- The last line that was executed breaks, returns or fails. -/
def Stopped (b : BodyRun) : Prop := ∃ final, b.EndsAt final ∧ final.outcome.stops = true

variable {b : BodyRun} {final : Executed}

theorem EndsAt.not_through (h : b.EndsAt final) : ¬ b.Through := by
  obtain ⟨before, after, -, hlines, -, hfinal⟩ := h
  rintro ⟨-, hall⟩
  have hgoes := hall final (by simp [hlines])
  simp [hfinal] at hgoes

theorem EndsAt.yields (h : b.EndsAt final) : final.outcome.yields = false := by
  obtain ⟨before, after, -, -, -, hfinal⟩ := h
  rw [Bool.eq_false_iff]
  intro hyields
  simp [Outcome.goesOn_of_yields hyields] at hfinal

/-- Where the last line has ended, so have all. -/
theorem EndsAt.ended (h : b.EndsAt final) (hfinal : final.outcome.isOutOfFuel = false) :
    b.Stopped ∧ ∀ t ∈ b.executed, t.outcome.isOutOfFuel = false := by
  have hends := h
  obtain ⟨before, after, -, hlines, hall, hgoes⟩ := h
  refine ⟨⟨final, hends, Outcome.stops_of_not_goesOn hgoes hfinal⟩, fun t ht => ?_⟩
  rw [hlines] at ht
  rcases List.mem_append.1 ht with ht | ht
  · exact Outcome.isOutOfFuel_of_goesOn (hall t ht)
  · rwa [List.mem_singleton.1 ht]

end BodyRun

/-- A `yield break` was executed in the body or deeper in one of its lines. The list holds the bodies around
it, outermost first. -/
inductive YieldsIn : BodyRun → List BodyRun → Prop where
  | here {b : BodyRun} {t : Executed} : t ∈ b.executed → t.row.isYieldBreak = true → YieldsIn b [b]
  | inside {b : BodyRun} {t : Executed} {s : Statement Token} {around : List BodyRun} :
    t ∈ b.executed → t.row.statement? = some s → YieldsIn ⟨s.body, t.inner⟩ around →
    YieldsIn b (b :: around)

def Machine.inBlock (m : Machine) : Machine := m.onMemory fun s => s.push .block

namespace Calls

/-- The machine on which a branch enters its body, if its condition holds. -/
def enteredBranch (k : Calls) (s : Statement Token) (m : Machine) : Option Machine :=
  match k.decision s m with
  | .ok true n => some (n.withBranch true).inBlock
  | _ => none

/-- The machine on which a statement enters its body, if it does so. A loop enters its own once for every
pass. -/
def entered (k : Calls) (s : Statement Token) (m : Machine) : Option Machine :=
  match s.kind with
  | .cond => k.enteredBranch s m
  | .elseCond => if m.chain.branchTaken then none else k.enteredBranch s m
  | .otherwise => if m.chain.branchTaken then none else some (m.withBranch true).inBlock
  | .attempt => some (m.withPending none).inBlock
  | .rescue => m.chain.pending.map fun message => m.handling message s.line
  | .loop => none

/-- The way out of the body of a statement. -/
def leaving (s : Statement Token) (o : Outcome Flow) : Outcome Flow :=
  let o := o.behind fun m => m.onMemory Memory.pop
  if s.kind = .attempt then o.caught else o

section notes

variable (k : Calls) (inside : List (Row Token) → Machine → List Executed × Outcome Flow)

/-- Runs a statement and notes what is executed of its body, which is run as `inside` says. -/
def traceStatement (s : Statement Token) (m : Machine) : List Executed × Outcome Flow :=
  match k.entered s m with
  | some n => ((inside s.body n).1, leaving s (inside s.body n).2)
  | none => ([], k.runStatement s m)

def traceLine (row : Row Token) (m : Machine) : Executed :=
  match row.statement? with
  | some s =>
    let r := k.traceStatement inside s (m.openLine row)
    .line row (r.2.closeLine row m.line) r.1
  | none => .line row (k.runLine row m) []

def traceRows : Value → Bool → List (Row Token) → Machine → List Executed × Outcome Flow
  | last, yielded, [], m => ([], .ok (if yielded then .yieldBreak else .normal last) m)
  | last, yielded, row :: rows, m =>
    let t := k.traceLine inside row m
    match t.outcome with
    | .ok (.normal v) m =>
      let r := traceRows v yielded rows m
      (t :: r.1, r.2)
    | .ok .yieldBreak m =>
      let r := traceRows last true rows m
      (t :: r.1, r.2)
    | o => ([t], o)

end notes

/-- Runs a body and notes what is executed. -/
def traceBody : Nat → List (Row Token) → Machine → List Executed × Outcome Flow
  | 0, _, m => ([], .outOfFuel m)
  | n + 1, rows, m =>
    let r := (upTo n).traceRows (traceBody n) .empty false rows { m with chain := .fresh }
    (r.1, r.2.behind fun p => { p with chain := m.chain })

section erasure

variable {k : Calls} {s : Statement Token} {m n : Machine}

theorem runStatement_of_entered (h : k.entered s m = some n) :
    k.runStatement s m = leaving s (k.body s.body n) := by
  have hblock (m : Machine) :
      k.runBlock s.body m = (k.body s.body m.inBlock).behind fun m => m.onMemory Memory.pop :=
    Exec.finally_eq _ _ _
  have hbranch (h : k.enteredBranch s m = some n) : (k.visitBranch s m).2 =
      (k.body s.body n).behind fun m => m.onMemory Memory.pop := by
    unfold enteredBranch at h
    unfold visitBranch
    split at h
    · next p hp =>
      obtain rfl := Option.some.inj h
      rw [hp]
      exact hblock _
    · cases h
  unfold entered at h
  rw [← visitStatement_snd]
  unfold leaving visitStatement
  cases hkind : s.kind with
  | cond =>
    simp only [hkind] at h
    simpa using hbranch h
  | elseCond =>
    cases htaken : m.chain.branchTaken with
    | true => simp [hkind,htaken] at h
    | false => simpa using hbranch (by simpa [hkind,htaken] using h)
  | otherwise =>
    cases htaken : m.chain.branchTaken with
    | true => simp [hkind,htaken] at h
    | false =>
      obtain rfl : (m.withBranch true).inBlock = n := by simpa [hkind,htaken] using h
      simpa using hblock _
  | attempt =>
    obtain rfl : (m.withPending none).inBlock = n := by simpa [hkind] using h
    simpa [hblock] using k.runStatement_attempt hkind m
  | rescue =>
    obtain ⟨message, hpending, rfl⟩ : ∃ message, m.chain.pending = some message ∧
        m.handling message s.line = n := by simpa [hkind] using h
    simpa [Exec.finally_eq] using k.runStatement_rescue_of_some hkind hpending
  | loop => simp [hkind] at h

/-- A statement that does not enter its body is no `yield break`. -/
theorem runStatement_of_not_entered (h : k.entered s m = none) (m' : Machine) :
    k.runStatement s m ≠ .ok .yieldBreak m' := by
  have hbranch (h : k.enteredBranch s m = none) : (k.visitBranch s m).2 ≠ .ok .yieldBreak m' := by
    unfold enteredBranch at h
    unfold visitBranch
    cases hd : k.decision s m with
    | ok taken n =>
      cases taken with
      | true => simp [hd] at h
      | false => simp
    | error e n => simp
    | outOfFuel n => simp
  unfold entered at h
  rw [← visitStatement_snd]
  unfold visitStatement
  cases hkind : s.kind with
  | cond => exact hbranch (by simpa [hkind] using h)
  | elseCond =>
    cases htaken : m.chain.branchTaken with
    | true => simp
    | false => simpa using hbranch (by simpa [hkind,htaken] using h)
  | otherwise =>
    cases htaken : m.chain.branchTaken with
    | true => simp
    | false => simp [hkind,htaken] at h
  | attempt => simp [hkind] at h
  | rescue =>
    have hpending : m.chain.pending = none := by simpa [hkind] using h
    simp [k.runStatement_rescue_of_none hkind hpending]
  | loop =>
    have hloop : k.runStatement s m = k.runLoop s m := by simp only [runStatement,hkind]
    dsimp only
    rw [hloop]
    exact (k.runLoop_ne s m m').2

theorem traceLine_row (k : Calls) (inside : List (Row Token) → Machine → List Executed × Outcome Flow)
    (row : Row Token) (m : Machine) : (k.traceLine inside row m).row = row := by
  unfold traceLine
  split <;> rfl

variable {inside : List (Row Token) → Machine → List Executed × Outcome Flow}

section inside

variable (hinside : ∀ rows m, (inside rows m).2 = k.body rows m)
include hinside

theorem traceStatement_snd (s : Statement Token) (m : Machine) :
    (k.traceStatement inside s m).2 = k.runStatement s m := by
  unfold traceStatement
  cases hentered : k.entered s m with
  | some n => simp only [hinside,runStatement_of_entered hentered]
  | none => rfl

theorem traceLine_outcome (row : Row Token) (m : Machine) :
    (k.traceLine inside row m).outcome = k.runLine row m := by
  unfold traceLine
  cases hs : row.statement? with
  | some s => simp only [Executed.outcome,traceStatement_snd hinside,k.runLine_of_statement hs]
  | none => rfl

theorem traceRows_snd (last : Value) (yielded : Bool) (rows : List (Row Token)) (m : Machine) :
    (k.traceRows inside last yielded rows m).2 = k.runRows last yielded rows m := by
  induction rows generalizing last yielded m with
  | nil => rfl
  | cons row rows ih =>
    rw [runRows,← traceLine_outcome hinside,traceRows]
    cases (k.traceLine inside row m).outcome with
    | ok flow n =>
      cases flow with
      | normal v => exact ih v yielded n
      | return_ v => rfl
      | break_ => rfl
      | yieldBreak => exact ih last true n
    | error e n => rfl
    | outOfFuel n => rfl

end inside

/-- The run that notes what is executed is the run of the body. -/
theorem traceBody_snd (fuel : Nat) (rows : List (Row Token)) (m : Machine) :
    (traceBody fuel rows m).2 = (upTo fuel).body rows m := by
  induction fuel generalizing rows m with
  | zero => rfl
  | succ fuel ih =>
    have hbody : (upTo (fuel + 1)).body rows m =
        ((upTo fuel).runRows .empty false rows { m with chain := .fresh }).behind
          fun p => { p with chain := m.chain } := Exec.finally_eq _ _ _
    rw [hbody,traceBody,traceRows_snd ih]

end erasure

section rows

variable (k : Calls) (inside : List (Row Token) → Machine → List Executed × Outcome Flow)

/-- The body goes on behind its first line, which may have been a `yield break`, or the line is its last. -/
theorem traceRows_cons (last : Value) (yielded : Bool) (row : Row Token) (rows : List (Row Token))
    (m : Machine) :
    let t := k.traceLine inside row m
    (∃ v n, t.outcome.goesOn = true ∧ k.traceRows inside last yielded (row :: rows) m =
      (t :: (k.traceRows inside v (yielded || t.outcome.yields) rows n).1,
        (k.traceRows inside v (yielded || t.outcome.yields) rows n).2)) ∨
    (t.outcome.goesOn = false ∧ k.traceRows inside last yielded (row :: rows) m = ([t], t.outcome)) := by
  intro t
  rw [traceRows]
  cases ho : t.outcome with
  | ok flow n =>
    cases flow with
    | normal v => exact .inl ⟨v, n, rfl, by simp [t,Outcome.yields]⟩
    | return_ v => exact .inr ⟨rfl, by simp [t]⟩
    | break_ => exact .inr ⟨rfl, by simp [t]⟩
    | yieldBreak => exact .inl ⟨last, n, rfl, by simp [t,Outcome.yields]⟩
  | error e n => exact .inr ⟨rfl, by simp [t]⟩
  | outOfFuel n => exact .inr ⟨rfl, by simp [t]⟩

/-- Every line was executed, and the body ends with a `yield break` if one of them did; or the last one that
was executed is how the body ends. -/
theorem traceRows_cases (last : Value) (yielded : Bool) (rows : List (Row Token)) (m : Machine) :
    let r := k.traceRows inside last yielded rows m
    (BodyRun.Through ⟨rows, r.1⟩ ∧ ∃ v n, r.2 =
      .ok (if yielded || r.1.any (fun t => t.outcome.yields) then .yieldBreak else .normal v) n) ∨
    ∃ final, BodyRun.EndsAt ⟨rows, r.1⟩ final ∧ r.2 = final.outcome := by
  induction rows generalizing last yielded m with
  | nil => exact .inl ⟨⟨rfl, by simp [traceRows]⟩, last, m, by simp [traceRows]⟩
  | cons row rows ih =>
    have hrow : (k.traceLine inside row m).row = row := k.traceLine_row inside row m
    rcases k.traceRows_cons inside last yielded row rows m with
      ⟨v, n, hgoes, hcons⟩ | ⟨hstops, hcons⟩
    · rw [hcons]
      rcases ih v (yielded || (k.traceLine inside row m).outcome.yields) n with
        ⟨⟨hrows, hall⟩, u, p, ho⟩ | ⟨final, ⟨before, after, hrows, hlines, hall, hfinal⟩, ho⟩
      · refine .inl ⟨⟨by simp [hrow,hrows], by simpa [hgoes] using hall⟩, u, p, ?_⟩
        simpa [Bool.or_assoc] using ho
      · refine .inr ⟨final, ⟨k.traceLine inside row m :: before, after, ?_, ?_, ?_, hfinal⟩, ho⟩
        · simpa [hrow] using hrows
        · simpa using hlines
        · simpa [hgoes] using hall
    · rw [hcons]
      exact .inr ⟨k.traceLine inside row m, ⟨[], rows, by simp [hrow], rfl, by simp, hstops⟩, rfl⟩

variable {k inside}

/-- A line that was executed was executed on some machine. -/
theorem mem_traceRows {last : Value} {yielded : Bool} {rows : List (Row Token)} {m : Machine} {t : Executed}
    (h : t ∈ (k.traceRows inside last yielded rows m).1) : ∃ row n, t = k.traceLine inside row n := by
  induction rows generalizing last yielded m with
  | nil => simp [traceRows] at h
  | cons row rows ih =>
    rcases k.traceRows_cons inside last yielded row rows m with ⟨v, n, -, hcons⟩ | ⟨-, hcons⟩
    · rw [hcons] at h
      rcases List.mem_cons.1 h with rfl | h
      · exact ⟨row, m, rfl⟩
      · exact ih h
    · rw [hcons] at h
      exact ⟨row, m, List.mem_singleton.1 h⟩

end rows

section lines

variable {k : Calls} {row : Row Token} {m : Machine}

theorem runLine_of_isYieldBreak (h : row.isYieldBreak = true) : k.runLine row m = .ok .yieldBreak m := by
  have hkinds : row.tokens.map Token.kind = [.yield, .breakWord] := by simpa [Row.isYieldBreak] using h
  obtain ⟨first, rest, htokens, hfirst, hrest⟩ := List.map_eq_cons_iff.1 hkinds
  have hdispatch (n : Machine) : k.dispatch row n = .ok .yieldBreak n := by
    cases first with
    | word kind text =>
      obtain rfl : kind = .yield := hfirst
      simp only [dispatch,htokens,Token.kind,hrest,if_true]
      rfl
    | _ => cases hfirst
  rw [runLine_eq,hdispatch]
  rfl

/-- A line that gives a value is no `yield break`. -/
theorem yields_bind {α : Type} (x : Exec α) (f : α → Flow) (hf : ∀ a, f a ≠ .yieldBreak) :
    ((x >>= fun a => pure (f a) : Exec Flow) m).yields = false := by
  rw [Exec.bind_apply,Exec.bind]
  cases x m with
  | ok a n =>
    change Outcome.yields (.ok (f a) n) = false
    cases ha : f a <;> simp_all [Outcome.yields]
  | error e n => rfl
  | outOfFuel n => rfl

theorem isYieldBreak_of_dispatch (hs : row.statement? = none) :
    (k.dispatch row m).yields = true → row.isYieldBreak = true := by
  unfold Row.statement? at hs
  unfold dispatch Row.isYieldBreak
  generalize row.tokens = tokens at hs
  split
  · nofun
  · cases hs
  · nofun
  · nofun
  · nofun
  · next first rest _ _ _ _ =>
    rw [List.map_cons]
    generalize first.kind = kind
    split
    · nofun
    · nofun
    · nofun
    · simp [yields_bind]
    · simp [yields_bind]
    · split <;> nofun
    · split
      · next hrest => simp [hrest]
      · nofun
    · simp [yields_bind]
    · simp [yields_bind]
    · simp [yields_bind]
    · nofun

end lines

theorem yields_leaving (s : Statement Token) (o : Outcome Flow) : (leaving s o).yields = o.yields := by
  unfold leaving
  split <;> simp

theorem isOutOfFuel_leaving (s : Statement Token) (o : Outcome Flow) :
    (leaving s o).isOutOfFuel = o.isOutOfFuel := by
  unfold leaving
  split <;> simp

section bodies

variable {k : Calls} {inside : List (Row Token) → Machine → List Executed × Outcome Flow}
  {row : Row Token} {s : Statement Token}

/-- A statement with a body that was entered ends with a `yield break` exactly if the body does. -/
theorem traceLine_of_statement (hs : row.statement? = some s) (m : Machine) :
    let t := k.traceLine inside row m
    (∃ n, t.inner = (inside s.body n).1 ∧ t.outcome.yields = (inside s.body n).2.yields ∧
      t.outcome.isOutOfFuel = (inside s.body n).2.isOutOfFuel) ∨
    t.inner = [] ∧ t.outcome.yields = false := by
  intro t
  have ht : t = .line row ((k.traceStatement inside s (m.openLine row)).2.closeLine row m.line)
      (k.traceStatement inside s (m.openLine row)).1 := by simp [t,traceLine,hs]
  rw [ht]
  unfold traceStatement
  cases hentered : k.entered s (m.openLine row) with
  | some n =>
    exact .inl ⟨n, rfl, by simp [Executed.outcome,yields_leaving],
      by simp [Executed.outcome,isOutOfFuel_leaving]⟩
  | none =>
    refine .inr ⟨rfl, ?_⟩
    rw [Bool.eq_false_iff]
    intro hyields
    obtain ⟨n, hn⟩ := Outcome.yields_iff.1 (by simpa [Executed.outcome] using hyields)
    exact runStatement_of_not_entered hentered n hn

theorem not_yieldsIn_nil {rows : List (Row Token)} {around : List BodyRun} :
    ¬ YieldsIn ⟨rows, []⟩ around := by
  rintro (⟨h, -⟩ | ⟨h, -, -⟩)
  · cases h
  · cases h

end bodies

section pass

variable {fuel : Nat} {rows : List (Row Token)} {m : Machine}

theorem mem_traceBody {t : Executed} (h : t ∈ (traceBody (fuel + 1) rows m).1) :
    ∃ row n, t = (upTo fuel).traceLine (traceBody fuel) row n := mem_traceRows h

/-- Every line of the body was executed, and it ends with a `yield break` if one of them does; or it ends as
the last one that was executed, and no `yield break` gets out. -/
theorem traceBody_cases (fuel : Nat) (rows : List (Row Token)) (m : Machine) :
    let r := traceBody (fuel + 1) rows m
    (BodyRun.Through ⟨rows, r.1⟩ ∧ r.2.yields = r.1.any (fun t => t.outcome.yields)) ∨
    ∃ final, BodyRun.EndsAt ⟨rows, r.1⟩ final ∧ r.2.yields = false ∧
      r.2.isOutOfFuel = final.outcome.isOutOfFuel := by
  simp only [traceBody,Outcome.isOutOfFuel_behind,Outcome.yields_behind]
  rcases (upTo fuel).traceRows_cases (traceBody fuel) .empty false rows { m with chain := .fresh } with
    ⟨hthrough, v, n, ho⟩ | ⟨final, hfinal, ho⟩
  · refine .inl ⟨hthrough, ?_⟩
    rw [ho,Bool.false_or]
    cases List.any _ _ <;> rfl
  · exact .inr ⟨final, hfinal, ho ▸ hfinal.yields, by rw [ho]⟩

/-- Once a body has ended, its lines have, and it came to its end or was stopped. -/
theorem traceBody_ended (h : (traceBody (fuel + 1) rows m).2.isOutOfFuel = false) :
    let b : BodyRun := ⟨rows, (traceBody (fuel + 1) rows m).1⟩
    (b.Through ∨ b.Stopped) ∧ ∀ t ∈ b.executed, t.outcome.isOutOfFuel = false := by
  rcases traceBody_cases fuel rows m with ⟨hthrough, -⟩ | ⟨final, hfinal, -, hfuel⟩
  · exact ⟨.inl hthrough, fun t ht => Outcome.isOutOfFuel_of_goesOn (hthrough.2 t ht)⟩
  · obtain ⟨hstopped, hended⟩ := hfinal.ended (hfuel ▸ h)
    exact ⟨.inr hstopped, hended⟩

/-- None of the bodies around a `yield break` is stopped by it. -/
theorem ran_of_yieldsIn (h : (traceBody fuel rows m).2.isOutOfFuel = false) {around : List BodyRun}
    (hyields : YieldsIn ⟨rows, (traceBody fuel rows m).1⟩ around) :
    ∀ b ∈ around, b.Through ∨ b.Stopped := by
  induction fuel generalizing rows m around with
  | zero => cases h
  | succ fuel ih =>
    obtain ⟨hbody, hended⟩ := traceBody_ended h
    cases hyields with
    | here ht hrow => simpa using hbody
    | inside ht hs hinner =>
      have hline := hended _ ht
      obtain ⟨row, n, rfl⟩ := mem_traceBody ht
      rw [traceLine_row] at hs
      rcases traceLine_of_statement hs n with ⟨p, hp, -, hfuel⟩ | ⟨hnone, -⟩
      · rw [hp] at hinner
        rw [hfuel] at hline
        intro b hb
        rcases List.mem_cons.1 hb with rfl | hb
        · exact hbody
        · exact ih hline hinner b hb
      · rw [hnone] at hinner
        exact absurd hinner not_yieldsIn_nil

/-- A `yield break` gets out of all bodies around it if they come to their end. -/
theorem yields_of_yieldsIn {around : List BodyRun}
    (hyields : YieldsIn ⟨rows, (traceBody fuel rows m).1⟩ around) (hall : ∀ b ∈ around, b.Through) :
    (traceBody fuel rows m).2.yields = true := by
  induction fuel generalizing rows m around with
  | zero => exact absurd hyields not_yieldsIn_nil
  | succ fuel ih =>
    -- a line of the body ends with a `yield break`, and the body came to its end
    have hbody (hthrough : BodyRun.Through ⟨rows, (traceBody (fuel + 1) rows m).1⟩) {t : Executed}
        (ht : t ∈ (traceBody (fuel + 1) rows m).1) (hline : t.outcome.yields = true) :
        (traceBody (fuel + 1) rows m).2.yields = true := by
      rcases traceBody_cases fuel rows m with ⟨-, hany⟩ | ⟨final, hfinal, -, -⟩
      · rw [hany]
        exact List.any_eq_true.2 ⟨t, ht, hline⟩
      · exact absurd hthrough hfinal.not_through
    cases hyields with
    | here ht hrow =>
      obtain ⟨row, n, rfl⟩ := mem_traceBody ht
      rw [traceLine_row] at hrow
      refine hbody (hall _ (by simp)) ht ?_
      rw [traceLine_outcome (traceBody_snd fuel),runLine_of_isYieldBreak hrow]
      rfl
    | inside ht hs hinner =>
      refine hbody (hall _ (by simp)) ht ?_
      obtain ⟨row, n, rfl⟩ := mem_traceBody ht
      rw [traceLine_row] at hs
      rcases traceLine_of_statement hs n with ⟨p, hp, hline, -⟩ | ⟨hnone, -⟩
      · rw [hp] at hinner
        rw [hline]
        exact ih hinner fun b hb => hall b (List.mem_cons_of_mem _ hb)
      · rw [hnone] at hinner
        exact absurd hinner not_yieldsIn_nil

/-- A body ends with a `yield break` only if one was executed and the bodies around it came to their end. -/
theorem yieldsIn_of_yields (h : (traceBody fuel rows m).2.yields = true) :
    ∃ around, YieldsIn ⟨rows, (traceBody fuel rows m).1⟩ around ∧ ∀ b ∈ around, b.Through := by
  induction fuel generalizing rows m with
  | zero => cases h
  | succ fuel ih =>
    rcases traceBody_cases fuel rows m with ⟨hthrough, hany⟩ | ⟨final, -, hnone, -⟩
    · rw [hany] at h
      obtain ⟨t, ht, hline⟩ := List.any_eq_true.1 h
      obtain ⟨row, n, rfl⟩ := mem_traceBody ht
      have hrow := (upTo fuel).traceLine_row (traceBody fuel) row n
      cases hs : row.statement? with
      | none =>
        rw [traceLine_outcome (traceBody_snd fuel),runLine_eq,Outcome.yields_closeLine] at hline
        have hyield := isYieldBreak_of_dispatch hs hline
        exact ⟨_, .here ht (hrow.symm ▸ hyield), by simpa using hthrough⟩
      | some s =>
        rcases traceLine_of_statement hs n with ⟨p, hp, hyields, -⟩ | ⟨-, hnone⟩
        · rw [hyields] at hline
          obtain ⟨around, haround, hall⟩ := ih hline
          refine ⟨_, .inside ht (hrow.symm ▸ hs) (hp ▸ haround), ?_⟩
          simpa [hthrough] using hall
        · rw [hnone] at hline
          cases hline
    · rw [hnone] at h
      cases h

end pass

/-- A pass ends as the body in its frame does. -/
theorem yields_pass (fuel : Nat) (rows : List (Row Token)) (m : Machine) :
    let o := Exec.withScope .block ((upTo fuel).body rows) m
    o.yields = (traceBody fuel rows m.inBlock).2.yields ∧
      o.isOutOfFuel = (traceBody fuel rows m.inBlock).2.isOutOfFuel := by
  have ho : Exec.withScope .block ((upTo fuel).body rows) m =
      ((traceBody fuel rows m.inBlock).2).behind fun m => m.onMemory Memory.pop := by
    rw [traceBody_snd]
    exact Exec.finally_eq _ _ _
  simp [ho]

open Loop in
/-- A loop whose bound is a word for a whole number takes so many turns, the number being that on entry; any
other bound that is no number is asked before every pass, and an instance is none, whatever its class. Either
way the first pass that ends in a break, a return or an error ends the loop, and no break gets out of it. A
`yield break` in a pass stops none of the bodies around it; if they all come to their end, it ends the
pass. -/
theorem loops_take_turns (fuel : Nat) (s : Statement Token) (m : Machine) (hkind : s.kind = .loop) :
    let k := Calls.upTo fuel
    let pass := Exec.withScope .block (k.body s.body)
    (∀ tokens name v n, s.condition = some tokens → CountWord m tokens name →
      k.resolveToken (.word .identifier name) none m = .ok v n → v.reference? = none → v.tag = .int →
      ∃ i, v.whole? = some i ∧ ∀ o, k.runStatement s m = o ↔
        (∃ p, Turns (pure true) pass (max i 0).toNat n p ∧ o = .ok (.normal .empty) p) ∨
        ∃ j p, j < (max i 0).toNat ∧ Turns (pure true) pass j n p ∧ Exit (pure true) pass p o) ∧
    (∀ tokens n, s.condition = some tokens → ((∀ name, ¬ CountWord m tokens name) ∧ n = m ∨
        ∃ name v, CountWord m tokens name ∧ k.resolveToken (.word .identifier name) none m = .ok v n ∧
          (v.reference?.isSome = true ∨ v.tag.isNumeric = false)) →
      ∀ o, k.runStatement s m = o ↔
        (∃ p, Turns (k.condition tokens) pass k.fuel n p ∧ o = .outOfFuel p) ∨
        ∃ j p, j < k.fuel ∧ Turns (k.condition tokens) pass j n p ∧ Exit (k.condition tokens) pass p o) ∧
    (∀ m', k.runStatement s m ≠ .ok .break_ m' ∧ k.runStatement s m ≠ .ok .yieldBreak m') ∧
    ∀ p, let body := traceBody fuel s.body p.inBlock
      body.2 = k.body s.body p.inBlock ∧
      (∀ around, YieldsIn ⟨s.body, body.1⟩ around → (pass p).isOutOfFuel = false →
        ∀ b ∈ around, b.Through ∨ b.Stopped) ∧
      ((∃ around, YieldsIn ⟨s.body, body.1⟩ around ∧ ∀ b ∈ around, b.Through) ↔
        ∃ m', pass p = .ok .yieldBreak m') := by
  intro k pass
  have hloop : k.runStatement s m = k.runLoop s m := by simp only [runStatement,hkind]
  rw [hloop]
  refine ⟨fun tokens name v n hs hword hv => k.runLoop_counted hs hword hv,
    fun tokens n hs => k.runLoop_asked hs, k.runLoop_ne s m, fun p => ?_⟩
  obtain ⟨hyields, hfuel⟩ := yields_pass fuel s.body p
  refine ⟨traceBody_snd fuel s.body p.inBlock, fun around haround hended => ?_, ?_⟩
  · exact ran_of_yieldsIn (hfuel ▸ hended) haround
  · rw [← Outcome.yields_iff]
    constructor
    · rintro ⟨around, haround, hall⟩
      exact hyields.trans (yields_of_yieldsIn haround hall)
    · intro h
      exact yieldsIn_of_yields (hyields.symm.trans h)

/-- The loop changes its own bound, and an inner `yield break` does not keep the lines behind it from
running. -/
def yieldingSource : String :=
  "undefined n => 3\nundefined x => 0\nloop n \x7b\nn => 9\nif true \x7b\ntry : yield break\nx => 1\n\x7d\n" ++
    "x => 2\n\x7d"

open Loop in
theorem loops_take_turns_yielding :
    ∃ q program u m row s v n m₁ around,
      Parser.empty.parseWith 20 yieldingSource = some (q, .ok program) ∧
      ((Machine.new .standard .standard).load program.declared).executeIsolated 12
        (program.lines.take 2) = .ok u m ∧
      program.lines[2]? = some row ∧ row.statement? = some s ∧ s.kind = .loop ∧
      s.condition = some [.word .identifier "n"] ∧ CountWord m [.word .identifier "n"] "n" ∧
      let k := Calls.upTo 12
      k.resolveToken (.word .identifier "n") none m = .ok v n ∧ v.whole? = some 3 ∧
      Exec.withScope .block (k.body s.body) n = .ok .yieldBreak m₁ ∧
      YieldsIn ⟨s.body, (traceBody 12 s.body n.inBlock).1⟩ around ∧ (∀ b ∈ around, b.Through) ∧
      k.runStatement s m = .ok (.normal .empty) m₁ ∧
      (m₁.memory.get? "x").map (fun b => b.value.toText) = some "2" := by
  have hrun : ((Parser.empty.parseWith 20 yieldingSource).bind fun r => r.2.toOption.bind fun program =>
      (((Machine.new .standard .standard).load program.declared).executeIsolated 12
        (program.lines.take 2)).finished?.bind fun first =>
      program.lines[2]?.bind fun row => row.statement?.bind fun s => s.condition.bind fun tokens =>
      ((Calls.upTo 12).resolveToken (.word .identifier "n") none first.2).finished?.bind fun value =>
      (Exec.withScope .block ((Calls.upTo 12).body s.body) value.2).finished?.map fun passed =>
        (decide (s.kind = .loop) && (first.2.findMethod? "n").isNone &&
          (first.2.declared.classes.get? "n").isNone && value.1.reference?.isNone &&
          decide (value.1.tag = .int) && (Outcome.ok passed.1 passed.2).yields,
          countWord? tokens, value.1.whole?, (passed.2.memory.get? "x").map fun b => b.value.toText)) =
      some (true, some "n", some 3, some "2") := by
    decide +kernel
  obtain ⟨⟨q, r⟩, hread, hrun⟩ := Option.bind_eq_some_iff.1 hrun
  obtain ⟨program, hr, hrun⟩ := Option.bind_eq_some_iff.1 hrun
  cases r with
  | error e => cases hr
  | ok found =>
    obtain rfl : found = program := Option.some.inj hr
    obtain ⟨⟨u, m⟩, hfirst, hrun⟩ := Option.bind_eq_some_iff.1 hrun
    obtain ⟨row, hrow, hrun⟩ := Option.bind_eq_some_iff.1 hrun
    obtain ⟨s, hs, hrun⟩ := Option.bind_eq_some_iff.1 hrun
    obtain ⟨tokens, htokens, hrun⟩ := Option.bind_eq_some_iff.1 hrun
    obtain ⟨⟨v, n⟩, hvalue, hrun⟩ := Option.bind_eq_some_iff.1 hrun
    obtain ⟨⟨flow, m₁⟩, hpass, hrun⟩ := Option.map_eq_some_iff.1 hrun
    simp only [Prod.mk.injEq,Bool.and_eq_true,decide_eq_true_eq,Option.isNone_iff_eq_none] at hrun
    obtain ⟨⟨⟨⟨⟨⟨hkind, hmethod⟩, hclass⟩, hplain⟩, htag⟩, hyields⟩, hword, hwhole, hx⟩ := hrun
    rw [Outcome.finished?_eq_some_iff] at hfirst hvalue hpass
    obtain rfl := countWord?_eq_some_iff.1 hword
    obtain ⟨p, hp⟩ := Outcome.yields_iff.1 hyields
    obtain ⟨rfl, rfl⟩ := Outcome.ok.inj hp
    have hcount : CountWord m [.word .identifier "n"] "n" := ⟨rfl, hmethod, hclass⟩
    obtain ⟨hcounted, -, -, hbodies⟩ := loops_take_turns 12 s m hkind
    obtain ⟨i, hi, hruns⟩ := hcounted _ "n" v n htokens hcount hvalue hplain htag
    obtain rfl : i = 3 := Option.some.inj (hi.symm.trans hwhole)
    obtain ⟨around, haround, hall⟩ := (hbodies n).2.2.2 ⟨m₁, hpass⟩
    have hloop := (hruns _).2 (.inr ⟨0, n, by decide, .zero n, .yielded rfl hpass⟩)
    exact ⟨q, found, u, m, row, s, v, n, m₁, around, hread, hfirst, hrow, hs, hkind, htokens, hcount, hvalue,
      hwhole, hpass, haround, hall, hloop, hx⟩

end Calls

end LineScript
