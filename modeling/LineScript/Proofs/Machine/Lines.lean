import LineScript.Machine.Run
import LineScript.Proofs.Machine.Calls
set_option autoImplicit false

/-!
Lines, statements and bodies follow paths, hence so do whole runs, at every fuel. A loop follows a path
because each of its passes does.
-/

namespace LineScript

open Exec

namespace Calls.Sound

variable {k : Calls} (hk : k.Sound) {w : Stretch} (m : Machine)
include hk

theorem conditionFrom (before : Option Bool) (join : Option Join) (terms : List Term) :
    (k.conditionFrom before join terms m).Follows .expression m Anything := by
  induction terms generalizing before join m with
  | nil =>
    unfold Calls.conditionFrom
    cases before with
    | some b => exact follows_pure (.refl _ _) trivial
    | none => exact follows_fail (.refl _ _)
  | cons t ts ih =>
    refine follows_bind (hk.expression t.tokens none m) fun v m' hr _ => ?_
    exact follows_ofExcept_bind hr fun b _ => .after hr (ih m' _ _)

theorem condition (tokens : List Token) : (k.condition tokens m).Follows .expression m Anything :=
  hk.conditionFrom m none none (Term.split tokens)

theorem loopCount (tokens : List Token) : (k.loopCount tokens m).Follows .expression m Anything := by
  unfold Calls.loopCount
  cases countWord? tokens with
  | none => exact follows_pure (.refl _ _) trivial
  | some name =>
    refine follows_machine_bind (follows_ite (fun _ => follows_pure (.refl _ _) trivial) fun _ => ?_)
    exact follows_bind (hk.resolveToken m _ none) fun v _ hr _ => follows_ofExcept hr

theorem runBlock (body : List (Row Token)) :
    (k.runBlock body m).Follows .enclosed m Anything :=
  follows_withScope (hk.body body _)

theorem countLoop (body : List (Row Token)) (n : Nat) :
    (k.countLoop body n m).Follows .enclosed m Anything := by
  induction n generalizing m with
  | zero => exact ⟨.refl _ _, trivial⟩
  | succ n ih =>
    have hb := hk.runBlock m body
    unfold Calls.countLoop
    split
    · next hr => rw [hr] at hb; exact .after hb.1 (ih _)
    · next hr => rw [hr] at hb; exact ⟨hb.1, trivial⟩
    · next hr => rw [hr] at hb; exact ⟨hb.1, trivial⟩
    · next hr => rw [hr] at hb; exact ⟨hb.1, trivial⟩
    · next hr => rwa [hr] at hb
    · next hr => rwa [hr] at hb

theorem whileLoop (tokens : List Token) (body : List (Row Token)) (n : Nat) :
    (k.whileLoop tokens body n m).Follows .expression m Anything := by
  induction n generalizing m with
  | zero => exact (Machine.Ran.refl .expression m).passed
  | succ n ih =>
    have hc := hk.condition m tokens
    unfold Calls.whileLoop
    split
    · next hr => rw [hr] at hc; exact ⟨hc.1, trivial⟩
    · next m' hr =>
      rw [hr] at hc
      have hb := (hk.runBlock m' body).expression
      split
      · next hr => rw [hr] at hb; exact .after (hc.1.trans hb.1) (ih _)
      · next hr => rw [hr] at hb; exact ⟨hc.1.trans hb.1, trivial⟩
      · next hr => rw [hr] at hb; exact ⟨hc.1.trans hb.1, trivial⟩
      · next hr => rw [hr] at hb; exact ⟨hc.1.trans hb.1, trivial⟩
      · next hr => rw [hr] at hb; exact hc.1.trans hb
      · next hr => rw [hr] at hb; exact hc.1.passed_trans hb
    · next hr => rwa [hr] at hc
    · next hr => rwa [hr] at hc

theorem runLoop (s : Statement Token) : (k.runLoop s m).Follows .expression m Anything := by
  unfold Calls.runLoop
  cases s.condition with
  | none => exact follows_fail (.refl _ _)
  | some tokens =>
    refine follows_bind (hk.loopCount m tokens) fun count m' hr _ => ?_
    cases count with
    | some n => exact .after hr (hk.countLoop m' s.body n).expression
    | none => exact .after hr (hk.whileLoop m' tokens s.body k.fuel)

theorem branch (s : Statement Token) : (k.branch s m).Follows .expression m Anything := by
  unfold Calls.branch
  cases s.condition with
  | none => exact follows_fail (.refl _ _)
  | some tokens =>
    refine follows_bind (hk.condition m tokens) fun taken m' hr _ => follows_update_bind ?_
    have hr' : m.Ran .expression
        { m' with chain := { m'.chain with branchTaken := taken } } := { hr with }
    exact follows_ite (fun _ => .after hr' (hk.runBlock _ s.body).expression)
      fun _ => follows_pure hr' trivial

theorem attempt (body : List (Row Token)) : (k.attempt body m).Follows .enclosed m Anything := by
  unfold Calls.attempt
  refine follows_update_bind ?_
  have hr : m.Ran .enclosed { m with chain := { m.chain with pending := none } } :=
    { Machine.Ran.refl _ m with }
  have hb := hk.runBlock { m with chain := { m.chain with pending := none } } body
  split
  · next he =>
    rw [he] at hb
    exact ⟨{ hr.trans hb with }, trivial⟩
  · exact .after hr hb

theorem rescue (s : Statement Token) : (k.rescue s m).Follows .enclosed m Anything := by
  unfold Calls.rescue
  refine follows_read_bind ?_
  cases m.chain.pending with
  | none => exact follows_pure (.refl _ _) trivial
  | some message =>
    refine follows_update_bind ?_
    have hr : m.Ran .enclosed { m with chain := { m.chain with pending := none } } :=
      { Machine.Ran.refl _ m with }
    refine .after hr (follows_withScope (follows_update_bind ?_))
    exact .after (Machine.Ran.setMemory (.refl _ _) (.handler message s.line) rfl) (hk.body s.body _)

theorem runStatement (s : Statement Token) :
    (k.runStatement s m).Follows .expression m Anything := by
  unfold Calls.runStatement
  cases s.kind with
  | cond => exact hk.branch m s
  | elseCond =>
    exact follows_read_bind
      (follows_ite (fun _ => follows_pure (.refl _ _) trivial) fun _ => hk.branch m s)
  | otherwise =>
    refine follows_read_bind (follows_update_bind ?_)
    have hr : m.Ran .expression { m with chain := { m.chain with branchTaken := true } } :=
      { Machine.Ran.refl _ m with }
    exact follows_ite (fun _ => follows_pure hr trivial)
      fun _ => .after hr (hk.runBlock _ s.body).expression
  | loop => exact hk.runLoop m s
  | attempt => exact (hk.attempt m s.body).expression
  | rescue => exact (hk.rescue m s).expression

theorem declaredValue (name : String) (rest : List Token) :
    (k.declaredValue name rest m).Follows .expression m Anything := by
  unfold Calls.declaredValue
  cases rest with
  | nil => exact follows_pure (.refl _ _) trivial
  | cons arrow expression =>
    refine follows_ite (fun _ => ?_) fun _ => follows_fail (.refl _ _)
    refine follows_bind (hk.expression expression none m) fun v m' hr _ => ?_
    exact follows_ite (fun _ => follows_fail hr) fun _ => follows_pure hr trivial

theorem declareVariable (row : Row Token) :
    (k.declareVariable row m).Follows .lines m Anything := by
  unfold Calls.declareVariable
  cases row.tokens.drop 1 with
  | nil => exact follows_fail (.refl _ _)
  | cons t rest =>
    refine follows_ite (fun _ => follows_fail (.refl _ _)) fun _ => follows_machine_bind ?_
    refine follows_ofExcept_bind (.refl _ _) fun _ hfree => ?_
    have hfree := Machine.free_of_checkNameFree hfree
    -- the value is evaluated on the way of an expression, and only the declaration is a line's
    have hv := hk.declaredValue m t.text rest
    rw [bind_apply,Exec.bind]
    cases hr : k.declaredValue t.text rest m with
    | ok v m' =>
      rw [hr] at hv
      refine follows_bind (follows_onMemory hv.1.lines (fun s hs => ?_) fun s => Memory.size_of_declare)
        fun _ _ hr' _ => follows_pure hr' trivial
      exact .declare hfree hv.1.path hs
    | error e m' =>
      rw [hr] at hv
      exact Machine.Ran.lines hv
    | outOfFuel m' =>
      rw [hr] at hv
      exact hv

theorem variableLine {b : Binding} (hb : m.memory.get? b.name = some b) (rest : List Token) :
    (k.variableLine b rest m).Follows .expression m Anything := by
  unfold Calls.variableLine
  cases rest with
  | nil => exact hk.getValue m b none
  | cons t args =>
    refine follows_ite (fun _ => ?_) fun _ => ?_
    · refine follows_bind (hk.expression args _ m) fun v m' hr _ => follows_read_bind ?_
      refine follows_ofExcept_bind hr fun u hu => ?_
      rw [hr.declared] at hu
      refine follows_bind (follows_onMemory hr (fun s hs => ?_) fun s => Memory.size_of_assign)
        fun _ _ hr' _ => follows_pure hr' trivial
      exact .assign hb hr.path hu hs
    · cases b.value.reference? with
      | none => exact follows_fail (.refl _ _)
      | some r =>
        dsimp only
        cases Table.get? r.ofClass.methods t.text with
        | none => exact follows_fail (.refl _ _)
        | some method => exact hk.callMethod m method (some r) args

theorem identifierLine (name : String) (rest : List Token) (line : Line) :
    (k.identifierLine name rest line m).Follows .expression m Anything := by
  unfold Calls.identifierLine
  refine follows_machine_bind ?_
  cases hb : m.memory.get? name with
  | some b =>
    have hn : m.memory.get? b.name = some b := Memory.name_of_get? hb ▸ hb
    exact hk.variableLine m hn rest
  | none =>
    cases m.findMethod? name with
    | some found => exact hk.callMethod m found.1 found.2 rest
    | none =>
      cases hc : m.declared.classes.get? name with
      | some c => exact hk.classLine m ⟨name, hc⟩ rest _ line.number
      | none => exact follows_fail (.refl _ _)

theorem dispatch (row : Row Token) : (k.dispatch row m).Follows .lines m Anything := by
  unfold Calls.dispatch
  generalize row.tokens = tokens
  split
  · exact follows_pure (.refl _ _) trivial
  · exact (hk.runStatement m _).lines
  · exact follows_pure (.refl _ _) trivial
  · exact follows_pure (.refl _ _) trivial
  · exact follows_pure (.refl _ _) trivial
  · next first rest _ _ _ _ =>
    generalize first.kind = kind
    split
    · exact follows_pure (.refl _ _) trivial
    · exact follows_pure (.refl _ _) trivial
    · exact follows_pure (.refl _ _) trivial
    · exact follows_bind (hk.declareVariable m row) fun _ _ hr _ => follows_pure hr trivial
    · exact follows_bind (hk.expression rest none m).lines fun _ _ hr _ => follows_pure hr trivial
    · exact follows_ite (fun _ => follows_pure (.refl _ _) trivial) fun _ => follows_fail (.refl _ _)
    · exact follows_ite (fun _ => follows_pure (.refl _ _) trivial) fun _ => follows_fail (.refl _ _)
    · exact follows_bind (hk.identifierLine m _ rest row.line).lines
        fun _ _ hr _ => follows_pure hr trivial
    · exact follows_bind (hk.expression _ none m).lines fun _ _ hr _ => follows_pure hr trivial
    · exact follows_bind (hk.expression _ none m).lines fun _ _ hr _ => follows_pure hr trivial
    · exact follows_fail (.refl _ _)

theorem runLine (row : Row Token) : (k.runLine row m).Follows .lines m Anything := by
  unfold Calls.runLine
  refine follows_wrapping (follows_atLine (follows_read_bind ?_))
  exact follows_withFrame fun _ => hk.dispatch _ row

theorem runRows (last : Value) (yielded : Bool) (rows : List (Row Token)) :
    (k.runRows last yielded rows m).Follows .lines m Anything := by
  induction rows generalizing last yielded m with
  | nil => exact ⟨.refl _ _, trivial⟩
  | cons row rows ih =>
    have hl := hk.runLine m row
    unfold Calls.runRows
    split
    · next hr => rw [hr] at hl; exact .after hl.1 (ih _ _ _)
    · next hr => rw [hr] at hl; exact .after hl.1 (ih _ _ _)
    · next hr => rw [hr] at hl; exact ⟨hl.1, trivial⟩
    · next hr => rwa [hr] at hl
    · next hr => rwa [hr] at hl

theorem runBody (rows : List (Row Token)) : (k.runBody rows m).Follows .lines m Anything :=
  follows_withFreshChain (hk.runRows _ .empty false rows)

end Calls.Sound

/-- The actions follow paths however deep they may be nested. -/
theorem Calls.sound_upTo (n : Nat) : (Calls.upTo n).Sound := by
  induction n with
  | zero =>
    have hend {α : Type} {w : Stretch} {Q : α → Prop} (m : Machine) :
        (Exec.endless m : Outcome α).Follows w m Q := (Machine.Ran.refl w m).passed
    exact ⟨fun _ _ m => hend m, fun _ m => hend m, fun _ _ m _ => hend m⟩
  | succ n ih =>
    exact ⟨fun tokens requested m => ih.evaluate m tokens requested, fun rows m => ih.runBody m rows,
      fun c init m hc => ih.build m hc.declares init hc⟩

namespace Machine

theorem ran_report (m : Machine) (e : RuntimeError) : m.Ran .lines (m.report e) :=
  { Ran.refl .lines m with output := by simp [report] }

theorem topLine_follows {k : Calls} (hk : k.Sound) (m : Machine) (row : Row Token) :
    (k.runLine row { m with failure := none }).Follows .lines m Anything := by
  have hs : m.Ran .lines { m with failure := none } := { Ran.refl .lines m with }
  exact .after hs (hk.runLine _ row)

theorem runIsolated_follows {k : Calls} (hk : k.Sound) (last : Value) (rows : List (Row Token))
    (m : Machine) : (runIsolated k last rows m).Follows .lines m Anything := by
  induction rows generalizing last m with
  | nil => exact ⟨.refl _ _, trivial⟩
  | cons row rows ih =>
    have hl := topLine_follows hk m row
    unfold runIsolated
    split
    · next hr => rw [hr] at hl; exact .after hl.1 (ih _ _)
    · next hr => rw [hr] at hl; exact .after hl.1 (ih _ _)
    · next hr => rw [hr] at hl; exact .after (hl.1.trans (ran_report _ _)) (ih _ _)
    · next hr => rw [hr] at hl; exact .after (hl.1.trans (ran_report _ _)) (ih _ _)
    · next hr => rw [hr] at hl; exact .after (Ran.trans hl (ran_report _ _)) (ih _ _)
    · next hr => rwa [hr] at hl

theorem runStrict_follows {k : Calls} (hk : k.Sound) (last : Value) (rows : List (Row Token))
    (m : Machine) : (runStrict k last rows m).Follows .lines m Anything := by
  induction rows generalizing last m with
  | nil => exact ⟨.refl _ _, trivial⟩
  | cons row rows ih =>
    have hl := topLine_follows hk m row
    unfold runStrict
    split
    · next hr => rw [hr] at hl; exact .after hl.1 (ih _ _)
    · next hr => rwa [hr] at hl
    · next hr => rwa [hr] at hl

theorem executeIsolated_follows (fuel : Nat) (m : Machine) (rows : List (Row Token)) :
    (executeIsolated fuel m rows).Follows .lines m Anything :=
  runIsolated_follows (Calls.sound_upTo fuel) .empty rows m

theorem execute_follows (fuel : Nat) (m : Machine) (rows : List (Row Token)) :
    (execute fuel m rows).Follows .lines m Anything :=
  runStrict_follows (Calls.sound_upTo fuel) .empty rows m

end Machine

end LineScript
