import LineScript.Proofs.Machine.CallsEnd
set_option autoImplicit false

/-!
Every expression ends where method bodies do. First the tokens of a text that is lexed while the program
runs: their arguments are shorter, and their initialisers have a colon less. Then new instances, since no
class needs itself to fill in its defaults; then tokens as they come.
-/

namespace LineScript

open Exec Lexer

theorem Class.needs_of_stands {c : Class Token} {p : Variable} {text name : String}
    (hp : p ∈ c.properties) (ht : p.default = some text) (hw : IsWord name.toList)
    (hs : Stands name.toList text.toList) : c.needs name = true := by
  have hword := Text.wordAt_of_stands hw hs
  exact List.any_eq_true.2 ⟨p, hp, by simp [ht,hword]⟩

theorem Class.needs_of_type {c : Class Token} {p : Variable} {text name : String}
    (hp : p ∈ c.properties) (ht : p.default = some text) (hn : p.type.className? = some name) :
    c.needs name = true := List.any_eq_true.2 ⟨p, hp, by simp [ht,hn]⟩

namespace BodiesEnd

variable {d : Declarations} {depth : Nat} (hk : BodiesEnd d depth) {m : Machine}
include hk

theorem spelled {tokens : List Token} (hts : ∀ t ∈ tokens, t.Spelled)
    (hknown : ∀ t ∈ tokens, ∀ name c, IsWord name.toList → Stands name.toList t.text.toList →
      d.classes.get? name = some c → InstanceEnds d depth c) : ExpressionEnds d depth tokens := by
  intro requested m hm
  refine .of_succ (hk.evaluate hm ?_ ?_ ?_ requested) fun _ => rfl
  · intro t ht
    rw [(hts t ht).kind_eq]
    exact hk.resolveWord _ _
  · intro g hg hlen
    have hcolons := Token.colons_le_of_sublist hg
    exact spelled (fun t ht => hts t (hg.subset ht)) fun t ht => hknown t (hg.subset ht)
  · intro first rest htokens hident c hc
    have hfirst : first ∈ tokens := by simp [htokens]
    refine ⟨hknown first hfirst first.text c ((hts first hfirst).isWord hident) (.refl _) hc, ?_⟩
    intro text htext value hv
    obtain ⟨hcolons, hwords⟩ := Calls.of_initOfTokens hts htext
    have hless : Token.colons (Token.codeOfText (String.ofList value)) < Token.colons tokens := by
      have hcode := Token.colons_codeOfText_le (String.ofList value)
      have hvalue := hv.isInfix.sublist.count_le ':'
      rw [String.toList_ofList] at hcode
      omega
    refine spelled (fun t ht => ⟨_, ht⟩) fun t ht name c hw hs hc => ?_
    have hs := Token.stands_of_mem_codeOfText ht hw hs
    rw [String.toList_ofList] at hs
    obtain ⟨u, hu, hs⟩ := hwords _ hw (hs.trans hv)
    exact hknown u hu name c hw hs hc
termination_by (Token.colons tokens, tokens.length)
decreasing_by
  · exact Prod.Lex.right' _ hcolons hlen
  · exact Prod.Lex.left _ _ hless

/-- What is evaluated out of a text ends if making instances of the classes named in it does. -/
theorem text {text : List Char} (hknown : ∀ name c, IsWord name.toList → Stands name.toList text →
    d.classes.get? name = some c → InstanceEnds d depth c) : TextEnds d depth text := by
  intro value hv
  refine hk.spelled (fun t ht => ⟨_, ht⟩) fun t ht name c hw hs hc => hknown name c hw ?_ hc
  have hs := Token.stands_of_mem_codeOfText ht hw hs
  rw [String.toList_ofList] at hs
  exact hs.trans hv

omit hk in
theorem evaluated (hm : m.Ready d depth) (type : DataType) {text : String}
    (htext : TextEnds d depth text.toList) :
    Ends m LoopFreeValue fun n => Calls.propertyDefault.evaluated (Calls.upTo n) type text m := by
  unfold Calls.propertyDefault.evaluated
  have hexpr : ExpressionEnds d depth (Token.codeOfText text) := by
    simpa using htext text.toList (.refl _)
  refine ends_bind (hexpr _ m hm) fun v m' hkeep hv => ends_read_bind ?_
  exact ends_ofExcept hkeep fun w hw => Value.loopFree_of_stems hv (Declarations.stems_of_conform hw)

theorem propertyDefault (hm : m.Ready d depth) {type : DataType} {text : String}
    (hclass : ∀ name c, type.className? = some name → d.classes.get? name = some c →
      InstanceEnds d depth c) (htext : TextEnds d depth text.toList) :
    Ends m LoopFreeValue fun n => (Calls.upTo n).propertyDefault type text m := by
  unfold Calls.propertyDefault
  refine ends_machine_bind ?_
  rw [hm.declared]
  cases hc : type.className?.bind d.classes.get? with
  | none => exact evaluated hm type htext
  | some c =>
    obtain ⟨name, hn, hc⟩ := Option.bind_eq_some_iff.1 hc
    have hloop := Declarations.loopFree_class hk.loopFree hc
    refine ends_ite (fun _ => ?_) fun _ => evaluated hm type htext
    have hinit : ∀ init, some text = some init → TextEnds d depth init.toList := by
      rintro _ ⟨⟩
      exact htext
    refine (Ends.of_succ (hk.build hm .byDefault hloop (hclass name c hn hc) hinit) fun _ => rfl).mono ?_
    rintro v ⟨r, rfl, rfl⟩
    exact hloop

theorem initialProperties {vars : List Variable} (hm : m.Ready d depth)
    (hclass : ∀ p ∈ vars, ∀ text, p.default = some text → ∀ name c, p.type.className? = some name →
      d.classes.get? name = some c → InstanceEnds d depth c)
    (htext : ∀ p ∈ vars, ∀ text, p.default = some text → TextEnds d depth text.toList) :
    Ends m (fun bs => ∀ b ∈ bs, b.value.loopFree = true)
      fun n => (Calls.upTo n).initialProperties vars m := by
  induction vars generalizing m with
  | nil => exact ends_pure hm.keeps (by simp)
  | cons p ps ih =>
    obtain ⟨hp, hps⟩ := List.forall_mem_cons.1 hclass
    obtain ⟨ht, hts⟩ := List.forall_mem_cons.1 htext
    have hvalue : Ends m LoopFreeValue fun n => (Calls.upTo n).initialValue p m := by
      unfold Calls.initialValue
      cases hd : p.default with
      | none => exact ends_pure hm.keeps rfl
      | some text => exact hk.propertyDefault hm (hp text hd) (ht text hd)
    refine ends_bind hvalue fun v m' hkeep hv => ?_
    refine ends_bind (.after hkeep (ih (hkeep.ready hm) hps hts)) fun rest m'' hkeep' hrest => ?_
    exact ends_pure hkeep' (List.forall_mem_cons.2 ⟨hv, hrest⟩)

/-- Making an instance ends if making those does that its defaults need. -/
theorem newInstance {c : Class Token} (hneeds : ∀ name e, c.needs name = true →
    d.classes.get? name = some e → InstanceEnds d depth e) : InstanceEnds d depth c := by
  intro route m hm
  unfold Calls.newInstance
  refine ends_bind (hk.initialProperties hm ?_ ?_) fun bs m' hkeep hbs => ?_
  · exact fun p hp text ht name e hn => hneeds name e (Class.needs_of_type hp ht hn)
  · intro p hp text ht
    exact hk.text fun name e hw hs => hneeds name e (Class.needs_of_stands hp ht hw hs)
  · exact .of_settles ⟨{ hkeep with memory := hkeep.memory.allocate c hbs }, rfl⟩

variable (hacyclic : d.Acyclic)
include hacyclic

theorem everyInstance {name : String} {c : Class Token} (hc : d.classes.get? name = some c) :
    InstanceEnds d depth c := by
  induction name using hacyclic.wellFounded.induction generalizing c with
  | _ name ih =>
    exact hk.newInstance fun other e hneed he => ih other ⟨c, Table.mem_of_get? hc, hneed⟩ he

theorem everyText (text : List Char) : TextEnds d depth text :=
  hk.text fun _ _ _ _ hc => hk.everyInstance hacyclic hc

theorem everyToken (t : Token) : TokenEnds d depth t := by
  intro requested m hm
  have htext (text : String) : ExpressionEnds d depth (Token.codeOfText text) := by
    simpa using hk.everyText hacyclic text.toList text.toList (.refl _)
  cases t with
  | word kind text => exact hk.resolveWord kind text requested m hm
  | bound call => exact hk.callBound hm fun c hc => hk.everyInstance hacyclic hc
  | host call => exact callHost hm htext call
  | _ => exact ends_pure hm.keeps rfl

theorem everyExpression (tokens : List Token) : ExpressionEnds d depth tokens := by
  intro requested m hm
  refine .of_succ (hk.evaluate hm ?_ ?_ ?_ requested) fun _ => rfl
  · exact fun t _ => hk.everyToken hacyclic t
  · exact fun g _ hlen => everyExpression g
  · intro first rest _ _ c hc
    exact ⟨hk.everyInstance hacyclic hc, fun text _ => hk.everyText hacyclic text.toList⟩
termination_by tokens.length

end BodiesEnd

end LineScript
