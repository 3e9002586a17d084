import LineScript.Machine.Run
import LineScript.Proofs.Machine.CallsGo
set_option autoImplicit false

/-! Lines, statements and bodies go step by step, hence so do all actions, at every fuel. -/

namespace LineScript

open Exec

variable {d : Declarations} {Known : Class Token → Prop}

namespace Calls.Stepwise

variable {k : Calls} {m : Machine} (hk : k.Stepwise d Known) (hm : m.Has d Known)
include hk hm

theorem conditionFrom (before : Option Bool) (join : Option Join) (terms : List Term) :
    (k.conditionFrom before join terms m).Goes d Known m Anything := by
  induction terms generalizing before join m with
  | nil =>
    unfold Calls.conditionFrom
    cases before with
    | some b => exact goes_pure trivial
    | none => exact goes_fail _
  | cons t ts ih =>
    refine goes_bind hm (hk.expression t.tokens none m hm) fun v m' hm' _ => ?_
    exact goes_ofExcept_bind fun b _ => ih hm' _ _

theorem condition (tokens : List Token) : (k.condition tokens m).Goes d Known m Anything :=
  hk.conditionFrom hm none none (Term.split tokens)

theorem runBlock (body : List (Row Token)) : (k.runBlock body m).Goes d Known m (Flow.Of Known) :=
  goes_withScope hm (by simp) fun hm => hk.body body _ hm

theorem countLoop (body : List (Row Token)) (n : Nat) :
    (k.countLoop body n m).Goes d Known m (Flow.Of Known) := by
  induction n generalizing m with
  | zero => exact ⟨.refl, Value.of_plain rfl⟩
  | succ n ih =>
    have hb := hk.runBlock hm body
    unfold Calls.countLoop
    split
    · next hr => rw [hr] at hb; exact .after hb.1 (ih (hb.1.has hm))
    · next hr => rw [hr] at hb; exact hb
    · next hr => rw [hr] at hb; exact hb
    · next hr => rw [hr] at hb; exact hb
    · next hr => rwa [hr] at hb
    · next hr => rwa [hr] at hb

theorem whileLoop (tokens : List Token) (body : List (Row Token)) (n : Nat) :
    (k.whileLoop tokens body n m).Goes d Known m (Flow.Of Known) := by
  induction n generalizing m with
  | zero => exact .refl
  | succ n ih =>
    have hc := hk.condition hm tokens
    unfold Calls.whileLoop
    split
    · next hr => rw [hr] at hc; exact ⟨hc.1, Value.of_plain rfl⟩
    · next m' hr =>
      rw [hr] at hc
      have hm' := hc.1.has hm
      have hb := hk.runBlock hm' body
      refine .after hc.1 ?_
      split
      · next hr => rw [hr] at hb; exact .after hb.1 (ih (hb.1.has hm'))
      · next hr => rw [hr] at hb; exact hb
      · next hr => rw [hr] at hb; exact hb
      · next hr => rw [hr] at hb; exact hb
      · next hr => rwa [hr] at hb
      · next hr => rwa [hr] at hb
    · next hr => rwa [hr] at hc
    · next hr => rwa [hr] at hc

theorem branch (s : Statement Token) : (k.branch s m).Goes d Known m (Flow.Of Known) := by
  unfold Calls.branch
  cases s.condition with
  | none => exact goes_fail _
  | some tokens =>
    refine goes_bind hm (hk.condition hm tokens) fun taken m' hm' _ => ?_
    refine goes_update_bind (.note _ m' _ m'.line) ?_
    exact goes_ite (fun _ => hk.runBlock (hm'.note _ _) s.body) fun _ => goes_pure (Value.of_plain rfl)

/-- Where an attempt catches an error, its trace is forgotten and its message kept. -/
theorem attempt (body : List (Row Token)) : (k.attempt body m).Goes d Known m (Flow.Of Known) := by
  unfold Calls.attempt
  refine goes_update_bind (.note _ m _ m.line) ?_
  have hb := hk.runBlock (hm.note { m.chain with pending := none } m.line) body
  split
  · next e m' hr =>
    rw [hr] at hb
    have hcaught := Relation.ReflTransGen.tail hb (.caught m' e)
    exact ⟨hcaught.tail (.note _ _ _ m'.line), Value.of_plain rfl⟩
  · exact hb

theorem rescue (s : Statement Token) : (k.rescue s m).Goes d Known m (Flow.Of Known) := by
  unfold Calls.rescue
  refine goes_read_bind ?_
  cases m.chain.pending with
  | none => exact goes_pure (Value.of_plain rfl)
  | some message =>
    refine goes_update_bind (.note _ m _ m.line) ?_
    refine goes_withScope (hm.note _ _) (by simp) fun hm => ?_
    refine goes_update_bind (.handler message s.line rfl) (hk.body s.body _ ?_)
    exact hm.setMemory (hm.memory.bind (Value.of_plain rfl))

theorem declaredValue (name : String) (rest : List Token) :
    (k.declaredValue name rest m).Goes d Known m (Value.Of Known) := by
  unfold Calls.declaredValue
  cases rest with
  | nil => exact goes_pure (Value.of_plain rfl)
  | cons arrow expression =>
    refine goes_ite (fun _ => ?_) fun _ => goes_fail _
    refine goes_bind hm (hk.expression expression none m hm) fun v m' hm' hv => ?_
    exact goes_ite (fun _ => goes_fail _) fun _ => goes_pure hv

theorem declareVariable (row : Row Token) :
    (k.declareVariable row m).Goes d Known m (Value.Of Known) := by
  unfold Calls.declareVariable
  cases row.tokens.drop 1 with
  | nil => exact goes_fail _
  | cons t rest =>
    refine goes_ite (fun _ => goes_fail _) fun _ => goes_machine_bind ?_
    refine goes_ofExcept_bind fun _ hfree => ?_
    have hfree : d.Free t.text := hm.declared ▸ Machine.free_of_checkNameFree hfree
    refine goes_bind hm (hk.declaredValue hm t.text rest) fun v m' hm' hv => ?_
    refine goes_bind hm' (goes_onMemory fun s hs => ?_) fun _ _ _ _ => goes_pure hv
    exact .declare hfree hv hs

theorem variableLine {b : Binding} (hb : b.value.Of Known) (rest : List Token) :
    (k.variableLine b rest m).Goes d Known m (Value.Of Known) := by
  unfold Calls.variableLine
  cases rest with
  | nil => exact hk.getValue hm hb none
  | cons t args =>
    refine goes_ite (fun _ => ?_) fun _ => ?_
    · refine goes_bind hm (hk.expression args _ m hm) fun v m' hm' hv => goes_read_bind ?_
      refine goes_ofExcept_bind fun w h => ?_
      have hw : w.Of Known := hv.stems (Declarations.stems_of_conform h)
      exact goes_bind hm' (goes_onMemory fun s hs => .assign hw hs) fun _ _ _ _ => goes_pure hw
    · cases hr : b.value.reference? with
      | none => exact goes_fail _
      | some r =>
        have hknown : Known r.ofClass := hb.reference hr
        dsimp only
        cases hf : Table.get? r.ofClass.methods t.text with
        | none => exact goes_fail _
        | some method =>
          exact hk.callMethod hm (.ofClass hknown hf) (fun q hq => Option.some.inj hq ▸ hknown) args

section Declared

variable (hd : ∀ c, d.Declares c → Known c)
include hd

theorem loopCount (tokens : List Token) : (k.loopCount tokens m).Goes d Known m Anything := by
  unfold Calls.loopCount
  cases countWord? tokens with
  | none => exact goes_pure trivial
  | some name =>
    refine goes_machine_bind (goes_ite (fun _ => goes_pure trivial) fun _ => ?_)
    exact goes_bind hm (hk.resolveToken hm hd _ none) fun v _ _ _ => goes_ofExcept fun _ _ => trivial

theorem runLoop (s : Statement Token) : (k.runLoop s m).Goes d Known m (Flow.Of Known) := by
  unfold Calls.runLoop
  cases s.condition with
  | none => exact goes_fail _
  | some tokens =>
    refine goes_bind hm (hk.loopCount hm hd tokens) fun count m' hm' _ => ?_
    cases count with
    | some n => exact hk.countLoop hm' s.body n
    | none => exact hk.whileLoop hm' tokens s.body k.fuel

theorem runStatement (s : Statement Token) : (k.runStatement s m).Goes d Known m (Flow.Of Known) := by
  unfold Calls.runStatement
  cases s.kind with
  | cond => exact hk.branch hm s
  | elseCond =>
    refine goes_read_bind (goes_ite (fun _ => goes_pure (Value.of_plain rfl)) fun _ => ?_)
    exact hk.branch hm s
  | otherwise =>
    refine goes_read_bind (goes_update_bind (.note _ m _ m.line) ?_)
    exact goes_ite (fun _ => goes_pure (Value.of_plain rfl)) fun _ => hk.runBlock (hm.note _ _) s.body
  | loop => exact hk.runLoop hm hd s
  | attempt => exact hk.attempt hm s.body
  | rescue => exact hk.rescue hm s

theorem identifierLine (name : String) (rest : List Token) (line : Line) :
    (k.identifierLine name rest line m).Goes d Known m (Value.Of Known) := by
  unfold Calls.identifierLine
  refine goes_machine_bind ?_
  cases hb : m.memory.get? name with
  | some b => exact hk.variableLine hm (hm.memory.get? hb) rest
  | none =>
    cases hf : m.findMethod? name with
    | some found =>
      obtain ⟨hcallable, hself⟩ := hm.findMethod? hf
      exact hk.callMethod hm hcallable hself rest
    | none =>
      cases hc : m.declared.classes.get? name with
      | some c => exact hk.classLine hm hd (hd c ⟨name, hm.declared ▸ hc⟩) rest _ line.number
      | none => exact goes_fail _

theorem dispatch (row : Row Token) : (k.dispatch row m).Goes d Known m (Flow.Of Known) := by
  unfold Calls.dispatch
  have hempty : Value.empty.Of Known := Value.of_plain rfl
  generalize row.tokens = tokens
  split
  · exact goes_pure hempty
  · exact hk.runStatement hm hd _
  · exact goes_pure hempty
  · exact goes_pure hempty
  · exact goes_pure hempty
  · next first rest _ _ _ _ =>
    generalize first.kind = kind
    split
    · exact goes_pure hempty
    · exact goes_pure hempty
    · exact goes_pure hempty
    · exact goes_bind hm (hk.declareVariable hm row) fun _ _ _ hv => goes_pure hv
    · exact goes_bind hm (hk.expression rest none m hm) fun _ _ _ hv => goes_pure hv
    · exact goes_ite (fun _ => goes_pure hempty) fun _ => goes_fail _
    · exact goes_ite (fun _ => goes_pure hempty) fun _ => goes_fail _
    · exact goes_bind hm (hk.identifierLine hm hd _ rest row.line) fun _ _ _ hv => goes_pure hv
    · exact goes_bind hm (hk.expression _ none m hm) fun _ _ _ hv => goes_pure hv
    · exact goes_bind hm (hk.expression _ none m hm) fun _ _ _ hv => goes_pure hv
    · exact goes_fail _

theorem runLine (row : Row Token) : (k.runLine row m).Goes d Known m (Flow.Of Known) := by
  unfold Calls.runLine
  refine goes_wrapping (goes_atLine hm fun hm => goes_read_bind ?_)
  exact goes_withFrame hm fun _ hm => hk.dispatch hm hd row

theorem runRows {last : Value} (hlast : last.Of Known) (yielded : Bool) (rows : List (Row Token)) :
    (k.runRows last yielded rows m).Goes d Known m (Flow.Of Known) := by
  induction rows generalizing last yielded m with
  | nil =>
    refine ⟨.refl, ?_⟩
    cases yielded with
    | true => exact Value.of_plain rfl
    | false => exact hlast
  | cons row rows ih =>
    have hl := hk.runLine hm hd row
    unfold Calls.runRows
    split
    · next hr => rw [hr] at hl; exact .after hl.1 (ih (hl.1.has hm) hl.2 _)
    · next hr => rw [hr] at hl; exact .after hl.1 (ih (hl.1.has hm) hlast _)
    · next hr => rw [hr] at hl; exact hl
    · next hr => rwa [hr] at hl
    · next hr => rwa [hr] at hl

theorem runBody (rows : List (Row Token)) : (k.runBody rows m).Goes d Known m (Flow.Of Known) :=
  goes_withFreshChain hm fun hm => hk.runRows hm hd (Value.of_plain rfl) false rows

end Declared

end Calls.Stepwise

/-- The actions go step by step however deep they may be nested. -/
theorem Calls.stepwise_upTo (hd : ∀ c, d.Declares c → Known c) (n : Nat) :
    (Calls.upTo n).Stepwise d Known := by
  induction n with
  | zero => exact ⟨fun _ _ _ _ => .refl, fun _ _ _ => .refl, fun _ _ _ _ _ => .refl⟩
  | succ n ih =>
    exact ⟨fun tokens requested m hm => ih.evaluate hm hd tokens requested,
      fun rows m hm => ih.runBody hm hd rows, fun c init m hm hc => ih.build hm hd .byDefault hc init⟩

end LineScript
