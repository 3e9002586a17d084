import LineScript.Machine.Run
import LineScript.Proofs.Machine.ExpressionsEnd
set_option autoImplicit false

/-!
Lines, statements and bodies without loops end: those inside a method by induction on how many methods
can still be called, and those inside each other by induction over the body.
-/

namespace LineScript

open Exec

/-- The body ends wherever at most `depth` methods can still be called. -/
def BodyEnds (d : Declarations) (depth : Nat) (rows : List (Row Token)) : Prop :=
  ∀ m, Machine.Ready d depth m → Ends m Flow.LoopFree fun n => (Calls.upTo n).body rows m

def StatementEnds (d : Declarations) (depth : Nat) (s : Statement Token) : Prop :=
  ∀ m, Machine.Ready d depth m → Ends m Flow.LoopFree fun n => (Calls.upTo n).runStatement s m

def LineEnds (d : Declarations) (depth : Nat) (row : Row Token) : Prop :=
  ∀ m, Machine.Ready d depth m → Ends m Flow.LoopFree fun n => (Calls.upTo n).runLine row m

def RowsEnd (d : Declarations) (depth : Nat) (rows : List (Row Token)) : Prop :=
  ∀ last yielded m, last.loopFree = true → Machine.Ready d depth m →
    Ends m Flow.LoopFree fun n => (Calls.upTo n).runRows last yielded rows m

namespace BodiesEnd

variable {d : Declarations} {depth : Nat} (hk : BodiesEnd d depth) (hacyclic : d.Acyclic)
  {m : Machine}

section Statements

variable (hm : m.Ready d depth)
include hk hacyclic hm

omit hm in
theorem conditionFrom (before : Option Bool) (join : Option Join) (terms : List Term)
    (hm : m.Ready d depth) :
    Ends m Anything fun n => (Calls.upTo n).conditionFrom before join terms m := by
  induction terms generalizing before join m with
  | nil =>
    unfold Calls.conditionFrom
    cases before with
    | some b => exact ends_pure hm.keeps trivial
    | none => exact ends_fail hm.keeps
  | cons t ts ih =>
    refine ends_bind (hk.everyExpression hacyclic t.tokens none m hm) fun v m' hkeep _ => ?_
    exact ends_ofExcept_bind hkeep fun b _ => .after hkeep (ih _ _ (hkeep.ready hm))

theorem condition (tokens : List Token) :
    Ends m Anything fun n => (Calls.upTo n).condition tokens m :=
  hk.conditionFrom hacyclic none none (Term.split tokens) hm

omit hk hacyclic in
theorem runBlock {body : List (Row Token)} (hbody : BodyEnds d depth body) :
    Ends m Flow.LoopFree fun n => (Calls.upTo n).runBlock body m :=
  ends_withScope (hbody _ (hm.setMemory (hm.memory.push nofun)))

theorem branch {s : Statement Token} (hbody : BodyEnds d depth s.body) :
    Ends m Flow.LoopFree fun n => (Calls.upTo n).branch s m := by
  unfold Calls.branch
  cases s.condition with
  | none => exact ends_fail hm.keeps
  | some tokens =>
    refine ends_bind (hk.condition hacyclic hm tokens) fun taken m' hkeep _ => ends_update_bind ?_
    have hkeep' : m.Keeps { m' with chain := { m'.chain with branchTaken := taken } } := { hkeep with }
    exact ends_ite (fun _ => .after hkeep' (runBlock (hkeep'.ready hm) hbody))
      fun _ => ends_pure hkeep' rfl

omit hk hacyclic in
/-- An error of the body is a value of the attempt. -/
theorem attempt {body : List (Row Token)} (hbody : BodyEnds d depth body) :
    Ends m Flow.LoopFree fun n => (Calls.upTo n).attempt body m := by
  unfold Calls.attempt
  refine ends_update_bind ?_
  have hkeep : m.Keeps { m with chain := { m.chain with pending := none } } := { hm.keeps with }
  refine .after hkeep ((runBlock (hkeep.ready hm) hbody).goesOn fun o ho => ?_)
  cases o with
  | ok flow m' => exact ⟨fun _ => .ok flow m', .of_settles ho, fun n hn => by simp only [hn]⟩
  | error e m' =>
    have ho : Machine.Keeps _ m' := ho
    refine ⟨fun _ => .ok (.normal .empty)
      { m' with failure := none, chain := { m'.chain with pending := some e.message } }, ?_, ?_⟩
    · exact .of_settles ⟨{ ho with }, rfl⟩
    · intro n hn
      simp only [hn]
  | outOfFuel m' => exact ho.elim

omit hk hacyclic in
theorem rescue {s : Statement Token} (hbody : BodyEnds d depth s.body) :
    Ends m Flow.LoopFree fun n => (Calls.upTo n).rescue s m := by
  unfold Calls.rescue
  refine ends_read_bind ?_
  cases m.chain.pending with
  | none => exact ends_pure hm.keeps rfl
  | some message =>
    refine ends_update_bind ?_
    have hkeep : m.Keeps { m with chain := { m.chain with pending := none } } := { hm.keeps with }
    refine .after hkeep (ends_withScope (ends_update_bind ?_))
    have hblock : (m.memory.push .block).LoopFree := hm.memory.push nofun
    have hpush := (hkeep.ready hm).setMemory hblock
    have hbind := hblock.bind (b := ⟨"exception", .text message, .plain .string, true, s.line⟩) rfl
    exact .after (hpush.keeps.setMemory hbind) (hbody _ (hpush.setMemory hbind))

theorem runStatement {s : Statement Token} (hloop : s.kind ≠ .loop) (hbody : BodyEnds d depth s.body) :
    Ends m Flow.LoopFree fun n => (Calls.upTo n).runStatement s m := by
  unfold Calls.runStatement
  cases hkind : s.kind with
  | cond => exact hk.branch hacyclic hm hbody
  | elseCond =>
    exact ends_read_bind
      (ends_ite (fun _ => ends_pure hm.keeps rfl) fun _ => hk.branch hacyclic hm hbody)
  | otherwise =>
    refine ends_read_bind (ends_update_bind ?_)
    have hkeep : m.Keeps { m with chain := { m.chain with branchTaken := true } } := { hm.keeps with }
    exact ends_ite (fun _ => ends_pure hkeep rfl)
      fun _ => .after hkeep (runBlock (hkeep.ready hm) hbody)
  | loop => exact absurd hkind hloop
  | attempt => exact attempt hm hbody
  | rescue => exact rescue hm hbody

theorem declaredValue (name : String) (rest : List Token) :
    Ends m LoopFreeValue fun n => (Calls.upTo n).declaredValue name rest m := by
  unfold Calls.declaredValue
  cases rest with
  | nil => exact ends_pure hm.keeps rfl
  | cons arrow expression =>
    refine ends_ite (fun _ => ?_) fun _ => ends_fail hm.keeps
    refine ends_bind (hk.everyExpression hacyclic expression none m hm) fun v m' hkeep hv => ?_
    exact ends_ite (fun _ => ends_fail hkeep) fun _ => ends_pure hkeep hv

theorem declareVariable (row : Row Token) :
    Ends m LoopFreeValue fun n => (Calls.upTo n).declareVariable row m := by
  unfold Calls.declareVariable
  cases row.tokens.drop 1 with
  | nil => exact ends_fail hm.keeps
  | cons t rest =>
    refine ends_ite (fun _ => ends_fail hm.keeps) fun _ => ends_machine_bind ?_
    refine ends_ofExcept_bind hm.keeps fun _ _ => ?_
    refine ends_bind (hk.declaredValue hacyclic hm t.text rest) fun v m' hkeep hv => ?_
    refine ends_bind (ends_onMemory hkeep fun s hs => hkeep.memory.declare hs hv) ?_
    exact fun _ _ hkeep' _ => ends_pure hkeep' hv

theorem variableLine {b : Binding} (hb : b.value.loopFree = true) (rest : List Token) :
    Ends m LoopFreeValue fun n => (Calls.upTo n).variableLine b rest m := by
  unfold Calls.variableLine
  cases rest with
  | nil => exact hk.getValue hm hb none
  | cons t args =>
    refine ends_ite (fun _ => ?_) fun _ => ?_
    · refine ends_bind (hk.everyExpression hacyclic args _ m hm) fun v m' hkeep hv => ?_
      refine ends_read_bind (ends_ofExcept_bind hkeep fun w hw => ?_)
      have hw := Value.loopFree_of_stems hv (Declarations.stems_of_conform hw)
      refine ends_bind (ends_onMemory hkeep fun s hs => hkeep.memory.assign hs hw) ?_
      exact fun _ _ hkeep' _ => ends_pure hkeep' hw
    · cases hr : b.value.reference? with
      | none => exact ends_fail hm.keeps
      | some r =>
        have hloop : r.ofClass.loopFree = true := by simpa [Value.loopFree,hr] using hb
        dsimp only
        cases hf : Table.get? r.ofClass.methods t.text with
        | none => exact ends_fail hm.keeps
        | some method =>
          refine hk.callMethod hm (Class.loopFree_method hloop hf) (by rintro _ ⟨⟩; exact hloop) ?_
          exact fun g _ => hk.everyExpression hacyclic g

theorem identifierLine (name : String) (rest : List Token) (line : Line) :
    Ends m LoopFreeValue fun n => (Calls.upTo n).identifierLine name rest line m := by
  unfold Calls.identifierLine
  refine ends_machine_bind ?_
  cases hb : m.memory.get? name with
  | some b => exact hk.variableLine hacyclic hm (hm.memory.get? hb) rest
  | none =>
    cases hf : m.findMethod? name with
    | some found =>
      obtain ⟨hbody, hself⟩ := hk.findMethod? hm hf
      exact hk.callMethod hm hbody hself fun g _ => hk.everyExpression hacyclic g
    | none =>
      rw [hm.declared]
      cases hc : d.classes.get? name with
      | none => exact ends_fail hm.keeps
      | some c =>
        exact hk.classLine hm (Declarations.loopFree_class hk.loopFree hc)
          (hk.everyInstance hacyclic hc) (fun text _ => hk.everyText hacyclic text.toList)
          (fun g _ => hk.everyExpression hacyclic g) line.number

theorem dispatch {row : Row Token}
    (hstatement : ∀ s rest, row.tokens = .statement s :: rest → StatementEnds d depth s) :
    Ends m Flow.LoopFree fun n => (Calls.upTo n).dispatch row m := by
  unfold Calls.dispatch
  generalize htokens : row.tokens = tokens
  split
  · exact ends_pure hm.keeps rfl
  · exact hstatement _ _ htokens m hm
  · exact ends_pure hm.keeps rfl
  · exact ends_pure hm.keeps rfl
  · exact ends_pure hm.keeps rfl
  · next first rest _ _ _ _ =>
    have hexpr := hk.everyExpression hacyclic
    generalize first.kind = kind
    split
    · exact ends_pure hm.keeps rfl
    · exact ends_pure hm.keeps rfl
    · exact ends_pure hm.keeps rfl
    · exact ends_bind (hk.declareVariable hacyclic hm row) fun _ _ hkeep hv => ends_pure hkeep hv
    · exact ends_bind (hexpr rest none m hm) fun _ _ hkeep hv => ends_pure hkeep hv
    · exact ends_ite (fun _ => ends_pure hm.keeps rfl) fun _ => ends_fail hm.keeps
    · exact ends_ite (fun _ => ends_pure hm.keeps rfl) fun _ => ends_fail hm.keeps
    · exact ends_bind (hk.identifierLine hacyclic hm _ rest row.line)
        fun _ _ hkeep hv => ends_pure hkeep hv
    · exact ends_bind (hexpr _ none m hm) fun _ _ hkeep hv => ends_pure hkeep hv
    · exact ends_bind (hexpr _ none m hm) fun _ _ hkeep hv => ends_pure hkeep hv
    · exact ends_fail hm.keeps

theorem runLine {row : Row Token}
    (hstatement : ∀ s rest, row.tokens = .statement s :: rest → StatementEnds d depth s) :
    Ends m Flow.LoopFree fun n => (Calls.upTo n).runLine row m := by
  unfold Calls.runLine
  refine ends_wrapping (ends_atLine (ends_read_bind ?_))
  have hline : Machine.Ready d depth { m with line := row.line.number } := { hm with }
  refine ends_withFrame hline.memory fun stack hs => ?_
  exact hk.dispatch hacyclic (hline.pushOther (by simp) hs) hstatement

end Statements

theorem runRows {row : Row Token} {rows : List (Row Token)} (hrow : LineEnds d depth row)
    (hrows : RowsEnd d depth rows) : RowsEnd d depth (row :: rows) := by
  intro last yielded m hlast hm
  refine (hrow m hm).goesOn fun o ho => ?_
  cases o with
  | ok flow m' =>
    cases flow with
    | normal v =>
      refine ⟨_, .after ho.1 (hrows v yielded m' ho.2 (ho.1.ready hm)), fun n hn => ?_⟩
      rw [Calls.runRows,hn]
    | yieldBreak =>
      refine ⟨_, .after ho.1 (hrows last true m' hlast (ho.1.ready hm)), fun n hn => ?_⟩
      rw [Calls.runRows,hn]
    | return_ v => exact ⟨_, .of_settles ho, fun n hn => by rw [Calls.runRows,hn]⟩
    | break_ => exact ⟨_, .of_settles ho, fun n hn => by rw [Calls.runRows,hn]⟩
  | error e m' => exact ⟨_, .of_settles ho, fun n hn => by rw [Calls.runRows,hn]⟩
  | outOfFuel m' => exact ho.elim

theorem runBody {rows : List (Row Token)} (hrows : RowsEnd d depth rows) : BodyEnds d depth rows := by
  intro m hm
  refine .of_succ ?_ fun _ => rfl
  exact ends_withFreshChain (hrows .empty false _ rfl { hm with })

include hk hacyclic

theorem everyLine : (∀ rows, loopFreeBody rows = true → RowsEnd d depth rows) ∧
    (∀ row, loopFreeRow row = true → LineEnds d depth row) ∧
    ∀ s, loopFreeStatement s = true → StatementEnds d depth s := by
  refine loopFreeBody.mutual_induct _ _ _ ?nil ?cons ?statement ?other ?inside
  case nil =>
    intro _ last yielded m hlast hm
    refine .of_settles ⟨hm.keeps, ?_⟩
    cases yielded with
    | false => exact hlast
    | true => rfl
  case cons =>
    intro row rows hrow hrows h
    obtain ⟨h, h'⟩ : loopFreeRow row = true ∧ loopFreeBody rows = true := by
      simpa [loopFreeBody] using h
    exact runRows (hrow h) (hrows h')
  case statement =>
    intro line s rest hs h m hm
    refine hk.runLine hacyclic hm ?_
    rintro _ _ ⟨⟩
    exact hs (by simpa [loopFreeRow] using h)
  case other =>
    intro row hplain _ m hm
    refine hk.runLine hacyclic hm fun s rest htokens => ?_
    exact (hplain row.line s rest (by rw [← htokens])).elim
  case inside =>
    intro kind line text condition body hbody h m hm
    obtain ⟨hkind, h⟩ : kind ≠ .loop ∧ loopFreeBody body = true := by
      simpa [loopFreeStatement] using h
    exact hk.runStatement hacyclic hm hkind (runBody (hbody h))

end BodiesEnd

/-- Bodies end, however many methods can be called inside of each other. -/
theorem bodiesEnd {d : Declarations} (hd : d.loopFree = true) (hacyclic : d.Acyclic) (depth : Nat) :
    BodiesEnd d depth := by
  induction depth using Nat.strongRecOn with
  | _ depth ih =>
    refine ⟨hd, fun k hlt rows m hrows hm => ?_⟩
    exact BodiesEnd.runBody (((ih k hlt).everyLine hacyclic).1 rows hrows) m hm

end LineScript
