import LineScript.Proofs.Machine.LinesEnd
import LineScript.Proofs.Scope
import LineScript.Proofs.Typing
set_option autoImplicit false

/-!
Programs without loops end: every top-level line does, with a value or an error, whatever the limit on
nested calls, as long as no class needs itself to fill in its defaults and the host hands out no loops.
-/

namespace LineScript

namespace Declarations

variable {d e : Declarations}

theorem loopFree_merge (hd : d.loopFree = true) (he : e.loopFree = true) :
    (d.merge e).loopFree = true := by
  simp only [loopFree,Bool.and_eq_true,List.all_eq_true] at hd he ⊢
  constructor
  · exact fun x hx => (Table.mem_of_mem_merge hx).elim (hd.1 x) (he.1 x)
  · exact fun x hx => (Table.mem_of_mem_merge hx).elim (hd.2 x) (he.2 x)

theorem acyclic_empty_merge (hd : d.Acyclic) : (empty.merge d).Acyclic := by
  intro name hcycle
  refine hd name (Relation.TransGen.mono ?_ _ _ hcycle)
  rintro a b ⟨c, hc, hneed⟩
  exact ⟨c, (Table.mem_of_mem_merge hc).resolve_left (by simp [empty]), hneed⟩

/-- No circle goes through names that go down along every dependency. -/
theorem acyclic_of_rank (rank : String → Nat)
    (h : ∀ x ∈ d.classes, ∀ y ∈ d.classes, x.2.needs y.1 = true → rank y.1 < rank x.1) :
    d.Acyclic := by
  have hdown {a b : String} (hab : Relation.TransGen d.DependsOn a b) :
      ∀ c, (b, c) ∈ d.classes → rank b < rank a := by
    induction hab with
    | single hab =>
      obtain ⟨e, he, hneed⟩ := hab
      exact fun c hc => h _ he _ hc hneed
    | tail _ hbc ih =>
      obtain ⟨e, he, hneed⟩ := hbc
      exact fun c hc => (h _ he _ hc hneed).trans (ih e he)
  intro name hcycle
  obtain ⟨b, ⟨c, hc, -⟩, -⟩ := Relation.TransGen.head'_iff.1 hcycle
  exact Nat.lt_irrefl _ (hdown hcycle c hc)

end Declarations

namespace Machine

variable {d : Declarations} {depth : Nat} {m : Machine}

theorem ready_load (config : Config) (d : Declarations) {host : Host} (hhost : host.LoopFree) :
    ((new config host).load d).Ready (Declarations.empty.merge d) config.maxDepth where
  declared := rfl
  host := hhost
  memory := .empty
  room := Nat.sub_le _ _

/-- A line that failed is reported, and that keeps what the next line needs. -/
theorem keeps_report {m' : Machine} (h : m.Keeps m') (e : RuntimeError) : m.Keeps (m'.report e) :=
  { h with }

theorem topLine_ends {row : Row Token} (hrow : LineEnds d depth row) (hm : m.Ready d depth) :
    Ends m Flow.LoopFree fun n => (Calls.upTo n).runLine row { m with failure := none } := by
  have hkeep : m.Keeps { m with failure := none } := { hm.keeps with }
  exact .after hkeep (hrow _ (hkeep.ready hm))

theorem runIsolated_ends {rows : List (Row Token)} (hrows : ∀ row ∈ rows, LineEnds d depth row)
    (last : Value) (hm : m.Ready d depth) :
    Ends m Anything fun n => runIsolated (.upTo n) last rows m := by
  induction rows generalizing last m with
  | nil => exact .of_settles ⟨hm.keeps, trivial⟩
  | cons row rows ih =>
    obtain ⟨hrow, hrows⟩ := List.forall_mem_cons.1 hrows
    have hnext {m' : Machine} (hkeep : m.Keeps m') (v : Value) :
        Ends m Anything fun n => runIsolated (.upTo n) v rows m' :=
      .after hkeep (ih hrows v (hkeep.ready hm))
    refine (topLine_ends hrow hm).goesOn fun o ho => ?_
    cases o with
    | ok flow m' =>
      cases flow with
      | normal v => exact ⟨_, hnext ho.1 v, fun n hn => by rw [runIsolated,hn]⟩
      | return_ v => exact ⟨_, hnext ho.1 v, fun n hn => by rw [runIsolated,hn]⟩
      | break_ => exact ⟨_, hnext (keeps_report ho.1 _) last, fun n hn => by rw [runIsolated,hn]⟩
      | yieldBreak => exact ⟨_, hnext (keeps_report ho.1 _) last, fun n hn => by rw [runIsolated,hn]⟩
    | error e m' => exact ⟨_, hnext (keeps_report ho e) last, fun n hn => by rw [runIsolated,hn]⟩
    | outOfFuel m' => exact ho.elim

/-- Errors of top-level lines are reported and go no further. -/
theorem runIsolated_ne_error (k : Calls) (last : Value) (rows : List (Row Token)) (m m' : Machine)
    (e : RuntimeError) : runIsolated k last rows m ≠ .error e m' := by
  induction rows generalizing last m with
  | nil => exact nofun
  | cons row rows ih =>
    unfold runIsolated
    split
    · exact ih _ _
    · exact ih _ _
    · exact ih _ _
    · exact ih _ _
    · exact ih _ _
    · exact nofun

theorem runStrict_ends {rows : List (Row Token)} (hrows : ∀ row ∈ rows, LineEnds d depth row)
    (last : Value) (hm : m.Ready d depth) :
    Ends m Anything fun n => runStrict (.upTo n) last rows m := by
  induction rows generalizing last m with
  | nil => exact .of_settles ⟨hm.keeps, trivial⟩
  | cons row rows ih =>
    obtain ⟨hrow, hrows⟩ := List.forall_mem_cons.1 hrows
    refine (topLine_ends hrow hm).goesOn fun o ho => ?_
    cases o with
    | ok flow m' =>
      exact ⟨_, .after ho.1 (ih hrows flow.value (ho.1.ready hm)), fun n hn => by rw [runStrict,hn]⟩
    | error e m' =>
      exact ⟨fun _ => .error e m', .of_settles ho, fun n hn => by rw [runStrict,hn]⟩
    | outOfFuel m' => exact ho.elim

/-- The lines run through, whatever errors they end with. -/
theorem executeIsolated_ends {rows : List (Row Token)} (hrows : ∀ row ∈ rows, LineEnds d depth row)
    (hm : m.Ready d depth) : ∃ v m' least, m.Keeps m' ∧
      ∀ fuel, least ≤ fuel → m.executeIsolated fuel rows = .ok v m' := by
  obtain ⟨o, ho, least, hrun⟩ := runIsolated_ends hrows .empty hm
  cases o with
  | ok v m' => exact ⟨v, m', least, ho.1, hrun⟩
  | error e m' => exact absurd (hrun least (Nat.le_refl _)) (runIsolated_ne_error _ _ _ _ _ _)
  | outOfFuel m' => exact ho.elim

end Machine

theorem Outcome.Settles.leaves {α : Type} {o : Outcome α} {m : Machine} {Q : α → Prop}
    (h : o.Settles m Q) : o.Leaves o.machine := by
  cases o with
  | ok a m' => exact .inl ⟨a, rfl⟩
  | error e m' => exact .inr ⟨e, rfl⟩
  | outOfFuel m' => exact h.elim

theorem Program.lines_end {program : Program} (hloop : program.loopFree = true)
    (hacyclic : program.declared.Acyclic) (depth : Nat) :
    ∀ row ∈ program.lines, LineEnds (Declarations.empty.merge program.declared) depth row := by
  obtain ⟨hlines, hdeclared⟩ := Bool.and_eq_true_iff.1 hloop
  have hd := Declarations.loopFree_merge (d := .empty) rfl hdeclared
  have hacyclic := Declarations.acyclic_empty_merge hacyclic
  intro row hrow
  exact ((bodiesEnd hd hacyclic depth).everyLine hacyclic).2.1 row (loopFreeBody_iff.1 hlines row hrow)

/-- A class that needs another one twice, by its type and by its name, and a method that makes an instance
of it and calls itself. -/
def casesSource : String :=
  "class Pen \x7b\n@int size new : 3\n\x7d\n" ++
  "class Case \x7b\n@Pen pen new : size:5\n@object spare new : Pen p new : size:7\n\x7d\n" ++
  "method again \x7b\nCase inner new\nagain\n\x7d\nCase c new\nagain"

/-- What the hypotheses ask of a program and what its run reports. -/
def casesChecks (program : Program) : Bool × Bool × List RuntimeError :=
  (program.loopFree,
    program.declared.classes.all fun x => program.declared.classes.all fun y =>
      !x.2.needs y.1 || y.1.length < x.1.length,
    let m := (Machine.new ⟨"main", 3⟩ .standard).load program.declared
    (m.executeIsolated 9 program.lines).machine.errors.toList.map Reported.error)

end LineScript
