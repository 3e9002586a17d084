import LineScript.Proofs.Parser.Numbered
set_option autoImplicit false

/-!
The line numbers in a program: those of its lines at any depth and of all that is declared in it, and for
each construct with a body the numbers of the lines in it. A row, a method and a class with what is inside of
them are known if the lines are that they were read from.
-/

namespace LineScript

/-- A line number in a program, or a construct with the numbers of the lines in its body. -/
inductive Mention where
  | line (n : Nat)
  | body (owner : Nat) (lines : List Nat)
  deriving DecidableEq, Repr

namespace Mention

/-- The number is known; the lines of the body are in order and not before their owner. -/
def Holds (Known : Nat → Prop) : Mention → Prop
  | line n => Known n
  | body owner lines => (owner :: lines).Pairwise (· ≤ ·)

/-- A part of a construct that has a line number of its own. -/
def inside (owner n : Nat) : List Mention := [line n, body owner [n]]

def ofRule (owner : Nat) (r : Rule) : List Mention :=
  inside owner r.line ++ r.vars.flatMap fun v => inside owner v.line

end Mention

def Row.number (row : Row Token) : Nat := row.line.number

mutual

def rowMentions : Row Token → List Mention
  | ⟨line, tokens⟩ => .line line.number :: tokensMentions tokens

def rowsMentions : List (Row Token) → List Mention
  | [] => []
  | row :: rows => rowMentions row ++ rowsMentions rows

def tokensMentions : List Token → List Mention
  | [] => []
  | t :: ts => tokenMentions t ++ tokensMentions ts

def tokenMentions : Token → List Mention
  | .statement s => statementMentions s
  | .ofClass c => classMentions c
  | .ofMethod m => methodMentions m
  | .ofContainer c => [.line c.line]
  | _ => []

def conditionMentions : Option (List Token) → List Mention
  | none => []
  | some tokens => tokensMentions tokens

def statementMentions : Statement Token → List Mention
  | ⟨_, line, _, condition, body⟩ =>
    .line line :: .body line (body.map Row.number) :: (conditionMentions condition ++ rowsMentions body)

def methodMentions : Method Token → List Mention
  | ⟨_, line, _, _, params, _, body⟩ =>
    .line line :: .body line (body.map Row.number) ::
      ((params.flatMap fun v => Mention.inside line v.line) ++ rowsMentions body)

/-- The parts of a class that stand on a line of their own. -/
def classMentions : Class Token → List Mention
  | ⟨_, line, _, _, _, properties, methods, classes, watch, params, _, converters, _, _⟩ =>
    .line line :: ((properties.flatMap fun v => Mention.inside line v.line) ++
      (watch ++ params.toList).flatMap (Mention.ofRule line) ++ methodsMentions line methods ++
      convertersMentions line converters ++ classesMentions line classes)

def methodsMentions (owner : Nat) : List (String × Method Token) → List Mention
  | [] => []
  | (_, m) :: ms => .body owner [m.line] :: (methodMentions m ++ methodsMentions owner ms)

def convertersMentions (owner : Nat) : List (Converter Token) → List Mention
  | [] => []
  | ⟨_, m⟩ :: cs => .body owner [m.line] :: (methodMentions m ++ convertersMentions owner cs)

def classesMentions (owner : Nat) : List (Class Token) → List Mention
  | [] => []
  | c :: cs => .body owner [c.line] :: (classMentions c ++ classesMentions owner cs)

end

def Declarations.mentions (d : Declarations) : List Mention :=
  (d.classes.flatMap fun e => classMentions e.2) ++ (d.methods.flatMap fun e => methodMentions e.2) ++
    d.containers.map fun e => .line e.2.line

namespace Program

def mentions (p : Program) : List Mention := rowsMentions p.lines ++ p.declared.mentions

/-- Every line number that occurs in the program. -/
def numbers (p : Program) : List Nat :=
  p.mentions.filterMap fun
    | .line n => some n
    | .body _ _ => none

/-- Every construct of the program that owns lines, with their numbers. -/
def bodies (p : Program) : List (Nat × List Nat) :=
  p.mentions.filterMap fun
    | .line _ => none
    | .body owner lines => some (owner, lines)

end Program

/-- All of them hold. -/
def Faithful (Known : Nat → Prop) (ms : List Mention) : Prop := ∀ x ∈ ms, x.Holds Known

variable {Known : Nat → Prop}

namespace Faithful

@[simp]
theorem nil : Faithful Known [] := by simp [Faithful]

@[simp]
theorem cons_iff {x : Mention} {ms : List Mention} :
    Faithful Known (x :: ms) ↔ x.Holds Known ∧ Faithful Known ms := by simp [Faithful]

@[simp]
theorem append_iff {ms ns : List Mention} :
    Faithful Known (ms ++ ns) ↔ Faithful Known ms ∧ Faithful Known ns := by
  simp [Faithful,or_imp,forall_and]

@[simp]
theorem flatMap_iff {α : Type} {f : α → List Mention} {as : List α} :
    Faithful Known (as.flatMap f) ↔ ∀ a ∈ as, Faithful Known (f a) := by
  simp only [Faithful,List.mem_flatMap]
  exact ⟨fun h a ha x hx => h x ⟨a, ha, hx⟩, fun h x ⟨a, ha, hx⟩ => h a ha x hx⟩

@[simp]
theorem map_line_iff {α : Type} {f : α → Nat} {as : List α} :
    Faithful Known (as.map fun a => .line (f a)) ↔ ∀ a ∈ as, Known (f a) := by
  simp only [Faithful,List.forall_mem_map,Mention.Holds]

theorem inside {owner n : Nat} (hn : Known n) (h : owner ≤ n) : Faithful Known (Mention.inside owner n) := by
  simp [Mention.inside,Mention.Holds,hn,h]

end Faithful

theorem Program.holds_of_mem_numbers {p : Program} {n : Nat} (h : Faithful Known p.mentions)
    (hn : n ∈ p.numbers) : Known n := by
  obtain ⟨x, hx, hxn⟩ := List.mem_filterMap.1 hn
  cases x with
  | line k =>
    obtain rfl : k = n := Option.some.inj hxn
    exact h _ hx
  | body owner lines => cases hxn

theorem Program.holds_of_mem_bodies {p : Program} {b : Nat × List Nat} (h : Faithful Known p.mentions)
    (hb : b ∈ p.bodies) : (b.1 :: b.2).Pairwise (· ≤ ·) := by
  obtain ⟨x, hx, hxb⟩ := List.mem_filterMap.1 hb
  cases x with
  | line k => cases hxb
  | body owner lines =>
    obtain rfl : (owner, lines) = b := Option.some.inj hxb
    exact h _ hx

section Equations

variable (owner : Nat)

theorem rowsMentions_eq (rows : List (Row Token)) : rowsMentions rows = rows.flatMap rowMentions := by
  induction rows with
  | nil => rw [rowsMentions,List.flatMap_nil]
  | cons row rows ih => rw [rowsMentions,ih,List.flatMap_cons]

theorem tokensMentions_eq (ts : List Token) : tokensMentions ts = ts.flatMap tokenMentions := by
  induction ts with
  | nil => rw [tokensMentions,List.flatMap_nil]
  | cons t ts ih => rw [tokensMentions,ih,List.flatMap_cons]

theorem methodsMentions_eq (ms : List (String × Method Token)) :
    methodsMentions owner ms = ms.flatMap fun e => .body owner [e.2.line] :: methodMentions e.2 := by
  induction ms with
  | nil => rw [methodsMentions,List.flatMap_nil]
  | cons e ms ih => rw [methodsMentions,ih,List.flatMap_cons,List.cons_append]

theorem convertersMentions_eq (cs : List (Converter Token)) :
    convertersMentions owner cs =
      cs.flatMap fun c => .body owner [c.method.line] :: methodMentions c.method := by
  induction cs with
  | nil => rw [convertersMentions,List.flatMap_nil]
  | cons c cs ih => rw [convertersMentions,ih,List.flatMap_cons,List.cons_append]

theorem classesMentions_eq (cs : List (Class Token)) :
    classesMentions owner cs = cs.flatMap fun c => .body owner [c.line] :: classMentions c := by
  induction cs with
  | nil => rw [classesMentions,List.flatMap_nil]
  | cons c cs ih => rw [classesMentions,ih,List.flatMap_cons,List.cons_append]

end Equations

/-- The lines of a body are known, in order and not before `owner`, and so is all inside of them. -/
structure RowsFaithful (Known : Nat → Prop) (owner : Nat) (rows : List (Row Token)) : Prop where
  ascends : Ascends Known owner (rows.map Row.number)
  faithful : Faithful Known (rowsMentions rows)

/-- A class whose parts are known and not before it. -/
structure ClassFaithful (Known : Nat → Prop) (c : Class Token) : Prop where
  line : Known c.line
  properties : ∀ v ∈ c.properties, Faithful Known (Mention.inside c.line v.line)
  rules : ∀ r ∈ c.watch ++ c.params.toList, Faithful Known (Mention.ofRule c.line r)
  methods : ∀ e ∈ c.methods, c.line ≤ e.2.line ∧ Faithful Known (methodMentions e.2)
  converters : ∀ v ∈ c.converters, c.line ≤ v.method.line ∧ Faithful Known (methodMentions v.method)
  classes : ∀ n ∈ c.classes, c.line ≤ n.line ∧ Faithful Known (classMentions n)

theorem faithful_method {m : Method Token} (hline : Known m.line) (hparams : ∀ v ∈ m.params, v.line = m.line)
    (hbody : RowsFaithful Known m.line m.body) : Faithful Known (methodMentions m) := by
  cases m
  simp only [methodMentions,Faithful.cons_iff,Faithful.append_iff,Faithful.flatMap_iff]
  refine ⟨hline, hbody.ascends.sorted, fun v hv => ?_, hbody.faithful⟩
  exact .inside (by simpa [hparams v hv] using hline) (by simp [hparams v hv])

theorem line_of_method {m : Method Token} (h : Faithful Known (methodMentions m)) : Known m.line := by
  cases m
  simp only [methodMentions,Faithful.cons_iff] at h
  exact h.1

theorem faithful_class_iff {c : Class Token} :
    Faithful Known (classMentions c) ↔ ClassFaithful Known c := by
  have hparts : Faithful Known (classMentions c) ↔ Known c.line ∧
      (∀ v ∈ c.properties, Faithful Known (Mention.inside c.line v.line)) ∧
      (∀ r ∈ c.watch ++ c.params.toList, Faithful Known (Mention.ofRule c.line r)) ∧
      (∀ e ∈ c.methods, c.line ≤ e.2.line ∧ Faithful Known (methodMentions e.2)) ∧
      (∀ v ∈ c.converters, c.line ≤ v.method.line ∧ Faithful Known (methodMentions v.method)) ∧
      ∀ n ∈ c.classes, c.line ≤ n.line ∧ Faithful Known (classMentions n) := by
    cases c
    simp only [classMentions,methodsMentions_eq,convertersMentions_eq,classesMentions_eq,
      Faithful.cons_iff,Faithful.append_iff,Faithful.flatMap_iff,Mention.Holds,List.pairwise_cons,
      List.mem_singleton,forall_eq,List.not_mem_nil,false_implies,implies_true,List.Pairwise.nil,
      and_true,and_assoc]
  rw [hparts]
  constructor
  · rintro ⟨hline, hproperties, hrules, hmethods, hconverters, hclasses⟩
    exact ⟨hline, hproperties, hrules, hmethods, hconverters, hclasses⟩
  · intro h
    exact ⟨h.line, h.properties, h.rules, h.methods, h.converters, h.classes⟩

namespace Member

variable {d : Declarations} {c : Class Token} {line : Line}

/-- A class with one part more on a line of its own. -/
def Extends (Known : Nat → Prop) (c c' : Class Token) : Prop := c'.line = c.line ∧ ClassFaithful Known c'

theorem addProperty_located {v : Variable} (hc : ClassFaithful Known c) (hline : Known line.number)
    (hfits : c.line ≤ line.number) (hv : v.line = line.number) :
    Located Known (Extends Known c) (addProperty c v line) := by
  unfold addProperty
  split
  · exact hline
  · refine ⟨rfl, { hc with properties := fun u hu => ?_ }⟩
    rcases List.mem_append.1 hu with hu | hu
    · exact hc.properties u hu
    · rw [List.mem_singleton.1 hu,hv]
      exact .inside hline hfits

theorem property_located (hline : Known line.number) (tokens : List Token) :
    Located Known (fun v => v.line = line.number) (property d line tokens) := by
  unfold property
  dsimp only
  split
  · split
    · exact hline
    · split
      · split
        · exact rfl
        · split
          · split
            · exact rfl
            · exact hline
          · exact hline
      · exact hline
  · exact hline

theorem rule_located (hline : Known line.number) (keyword : String) (overrides : Bool) :
    Located Known (fun r => r.line = line.number ∧ ∀ v ∈ r.vars, v.line = line.number)
      (rule d c line keyword overrides) := by
  unfold rule
  split
  · exact hline
  · dsimp only
    split
    · exact hline
    · split
      · exact hline
      · split
        · exact hline
        · -- the rule ends in the same way with and without variables
          have hends (vs : List Variable) (hvs : ∀ v ∈ vs, v.line = line.number) (pattern method : String) :
              Located Known (fun r => r.line = line.number ∧ ∀ v ∈ r.vars, v.line = line.number)
                (Pattern.compile pattern .word line.number >>= fun pattern =>
                  Pure.pure (⟨pattern, c.name, method, vs, overrides, line.number⟩ : Rule)) :=
            .bind (Pattern.compile_located hline _ _) fun _ _ => ⟨rfl, hvs⟩
          split
          · exact .bind (readParams_located hline _) fun vs hvs => hends vs hvs _ _
          · exact hends [] (by simp) _ _

theorem addExplicit_located (hc : ClassFaithful Known c) (hline : Known line.number)
    (hfits : c.line ≤ line.number) (tokens : List Token) :
    Located Known (Extends Known c) (addExplicit d c line tokens) := by
  have hrule {r : Rule} (hr : r.line = line.number ∧ ∀ v ∈ r.vars, v.line = line.number) :
      Faithful Known (Mention.ofRule c.line r) := by
    simp only [Mention.ofRule,Faithful.append_iff,Faithful.flatMap_iff,hr.1]
    refine ⟨.inside hline hfits, fun v hv => ?_⟩
    rw [hr.2 v hv]
    exact .inside hline hfits
  unfold addExplicit
  dsimp only
  split
  · exact hline
  · split
    · refine .bind (rule_located hline _ _) fun r hr => ⟨rfl, { hc with rules := fun u hu => ?_ }⟩
      have hcases : u = r ∨ u ∈ c.watch ++ c.params.toList := by simp at hu ⊢; tauto
      rcases hcases with rfl | hu
      · exact hrule hr
      · exact hc.rules u hu
    · refine .bind (rule_located hline _ _) fun r hr => ⟨rfl, { hc with rules := fun u hu => ?_ }⟩
      have hcases : u ∈ c.watch ∨ u = r := by simpa [eq_comm] using hu
      rcases hcases with hu | rfl
      · exact hc.rules u (by simp [hu])
      · exact hrule hr
    · split
      · exact ⟨rfl, { hc with }⟩
      · exact hline
    · split
      · exact ⟨rfl, { hc with }⟩
      · exact hline
    · exact hline

theorem addSimple_located (hc : ClassFaithful Known c) (hline : Known line.number)
    (hfits : c.line ≤ line.number) (tokens : List Token) :
    Located Known (Extends Known c) (addSimple d c line tokens) := by
  unfold addSimple
  split
  · exact ⟨rfl, hc⟩
  · split
    · exact addExplicit_located hc hline hfits _
    · split
      · split
        · exact addProperty_located hc hline hfits rfl
        · exact hline
      · exact hline
    · split
      · exact .bind (property_located hline _) fun v hv => addProperty_located hc hline hfits hv
      · exact hline

end Member

/-- The row has the number of its header, and all inside of it is known. -/
def Row.Numbered (Known : Nat → Prop) (n : Nat) (row : Row Token) : Prop :=
  row.number = n ∧ Faithful Known (rowMentions row)

section Rows

variable {lo n : Nat}

theorem RowsFaithful.nil : RowsFaithful Known lo [] := ⟨.nil, by simp [rowsMentions]⟩

theorem RowsFaithful.cons {row : Row Token} {rows : List (Row Token)} (hrow : row.Numbered Known n)
    (hlo : lo ≤ n) (hn : Known n) (h : RowsFaithful Known n rows) : RowsFaithful Known lo (row :: rows) := by
  obtain ⟨rfl, hrow⟩ := hrow
  refine ⟨Ascends.cons_iff.2 ⟨hn, hlo, h.ascends⟩, ?_⟩
  rw [rowsMentions,Faithful.append_iff]
  exact ⟨hrow, h.faithful⟩

theorem RowsFaithful.weaken {rows : List (Row Token)} (h : RowsFaithful Known n rows) (hlo : lo ≤ n) :
    RowsFaithful Known lo rows := ⟨h.ascends.weaken hlo, h.faithful⟩

/-- The tokens of a line stand for words and calls, none of which has a line number. -/
theorem mentions_of_tokens {d : Declarations} {text : String} {ts : List Token}
    (h : d.tokens text n = .ok ts) : tokensMentions ts = [] := by
  have hword (text : String) : ∀ t ∈ (Token.codeOfText text).map d.bindWord, tokenMentions t = [] := by
    intro t ht
    obtain ⟨w, hw, rfl⟩ := List.mem_map.1 ht
    obtain ⟨part, -, rfl⟩ := List.mem_map.1 (List.mem_filter.1 hw).1
    unfold Declarations.bindWord Token.ofPart
    split
    · cases d.watchCall? _ with
      | none => rfl
      | some call => rfl
    · rfl
  rw [tokensMentions_eq,List.flatMap_eq_nil_iff]
  unfold Declarations.tokens at h
  split at h
  · obtain rfl := Except.ok.inj h
    exact hword text
  · split at h
    · cases h
    · next call _ =>
      obtain rfl := Except.ok.inj h
      intro t ht
      rcases List.mem_append.1 ht with ht | ht
      · exact hword _ t ht
      · rw [List.mem_singleton.1 ht]
        rfl

theorem mentions_of_condition {d : Declarations} {condition : Option (List Token)}
    (h : ∀ ts, condition = some ts → ∃ text tokens, d.tokens text n = .ok tokens ∧ ts = tokens.drop 1) :
    conditionMentions condition = [] := by
  cases condition with
  | none => rw [conditionMentions]
  | some ts =>
    obtain ⟨text, tokens, htokens, rfl⟩ := h ts rfl
    have hall := mentions_of_tokens htokens
    rw [tokensMentions_eq,List.flatMap_eq_nil_iff] at hall
    rw [conditionMentions,tokensMentions_eq,List.flatMap_eq_nil_iff]
    exact fun t ht => hall t (List.mem_of_mem_drop ht)

theorem faithful_statement (kind : StatementKind) (text : String) {condition : Option (List Token)}
    {body : List (Row Token)} (hn : Known n) (hcondition : conditionMentions condition = [])
    (hbody : RowsFaithful Known n body) :
    Faithful Known (statementMentions ⟨kind, n, text, condition, body⟩) := by
  rw [statementMentions,hcondition,List.nil_append,Faithful.cons_iff,Faithful.cons_iff]
  exact ⟨hn, hbody.ascends.sorted, hbody.faithful⟩

theorem numbered_of_token {header : Line} {t : Token} (hn : Known header.number)
    (ht : Faithful Known (tokenMentions t)) : Row.Numbered Known header.number ⟨header, [t]⟩ := by
  refine ⟨rfl, ?_⟩
  rw [rowMentions,Faithful.cons_iff,tokensMentions,tokensMentions,List.append_nil]
  exact ⟨hn, ht⟩

theorem ClassFaithful.empty {name : String} {n : Nat} {modifiers : List Kind} {length : Nat} (h : Known n) :
    ClassFaithful Known (ClassHead.emptyClass name n modifiers length) :=
  ⟨h, by simp [ClassHead.emptyClass], by simp [ClassHead.emptyClass], by simp [ClassHead.emptyClass],
    by simp [ClassHead.emptyClass], by simp [ClassHead.emptyClass]⟩

end Rows

end LineScript
