import LineScript.Proofs.Numbering
import LineScript.Proofs.Parser.Learns
set_option autoImplicit false

/-!
Where the methods of a program come from. A method stands at any depth: in the body of a statement or of
another method, in a class or in a class inside of it. Each was built from a header that was read, or is a
converter's; this holds of one construct and so of all that are read.
-/

namespace LineScript

/-- The method was built from a header, or it is that of a converter. -/
inductive Method.Written : Method Token → Prop where
  | method {d : Declarations} {header : Line} {tail rest : List Line} {head : MethodHead}
    (body : List (Row Token)) : MethodHead.read d header tail = (.ok head, rest) →
    Written (head.build header.number body)
  | converter (head : ConverterHead) (line : Nat) (body : List (Row Token)) :
    Written (head.build line body).method

/-- The method stands in the token, at some depth. -/
inductive Token.Holds : Token → Method Token → Prop where
  | method (f : Method Token) : Holds (.ofMethod f) f
  | inBody {f g : Method Token} {row : Row Token} {t : Token} : row ∈ f.body → t ∈ row.tokens →
    Holds t g → Holds (.ofMethod f) g
  | inStatement {s : Statement Token} {g : Method Token} {row : Row Token} {t : Token} : row ∈ s.body →
    t ∈ row.tokens → Holds t g → Holds (.statement s) g
  | inCondition {s : Statement Token} {g : Method Token} {ts : List Token} {t : Token} :
    s.condition = some ts → t ∈ ts → Holds t g → Holds (.statement s) g
  | ofClass {c : Class Token} {g : Method Token} {e : String × Method Token} : e ∈ c.methods →
    Holds (.ofMethod e.2) g → Holds (.ofClass c) g
  | converter {c : Class Token} {g : Method Token} {v : Converter Token} : v ∈ c.converters →
    Holds (.ofMethod v.method) g → Holds (.ofClass c) g
  | nested {c n : Class Token} {g : Method Token} : n ∈ c.classes → Holds (.ofClass n) g →
    Holds (.ofClass c) g

/-- The method stands on a line of the program or in what it declares. -/
def Program.Holds (p : Program) (f : Method Token) : Prop :=
  (∃ row ∈ p.lines, ∃ t ∈ row.tokens, t.Holds f) ∨
  (∃ e ∈ p.declared.classes, (Token.ofClass e.2).Holds f) ∨
  ∃ e ∈ p.declared.methods, (Token.ofMethod e.2).Holds f

/-- Every method that stands in the token was written. -/
def Token.Written (t : Token) : Prop := ∀ f, t.Holds f → f.Written

def Class.Written (c : Class Token) : Prop := (Token.ofClass c).Written

def Row.Written (row : Row Token) : Prop := ∀ t ∈ row.tokens, t.Written

namespace Token

/-- A token without a line number is a word or a call, and nothing stands in it. -/
theorem written_of_mentions {t : Token} (h : tokenMentions t = []) : t.Written := by
  intro f hf
  cases t with
  | statement s =>
    cases s
    simp [tokenMentions,statementMentions] at h
  | ofClass c =>
    cases c
    simp [tokenMentions,classMentions] at h
  | ofMethod m =>
    cases m
    simp [tokenMentions,methodMentions] at h
  | word kind text => cases hf
  | ofContainer c => cases hf
  | bound call => cases hf
  | host call => cases hf

theorem written_of_tokensMentions {ts : List Token} (h : tokensMentions ts = []) : ∀ t ∈ ts, t.Written := by
  rw [tokensMentions_eq,List.flatMap_eq_nil_iff] at h
  exact fun t ht => written_of_mentions (h t ht)

theorem written_method {f : Method Token} (hf : f.Written) (hbody : ∀ row ∈ f.body, row.Written) :
    (ofMethod f).Written := by
  intro g hg
  cases hg with
  | method => exact hf
  | inBody hrow ht hg => exact hbody _ hrow _ ht g hg

theorem written_statement {s : Statement Token} (hcondition : conditionMentions s.condition = [])
    (hbody : ∀ row ∈ s.body, row.Written) : (statement s).Written := by
  intro g hg
  cases hg with
  | inStatement hrow ht hg => exact hbody _ hrow _ ht g hg
  | inCondition hs ht hg =>
    rw [hs,conditionMentions] at hcondition
    exact written_of_tokensMentions hcondition _ ht g hg

end Token

theorem Row.written_singleton {header : Line} {t : Token} (h : t.Written) :
    Row.Written ⟨header, [t]⟩ := by simpa [Row.Written] using h

theorem Class.written_iff {c : Class Token} : c.Written ↔
    (∀ e ∈ c.methods, (Token.ofMethod e.2).Written) ∧
    (∀ v ∈ c.converters, (Token.ofMethod v.method).Written) ∧ ∀ n ∈ c.classes, n.Written := by
  constructor
  · intro h
    exact ⟨fun e he f hf => h f (.ofClass he hf), fun v hv f hf => h f (.converter hv hf),
      fun n hn f hf => h f (.nested hn hf)⟩
  · rintro ⟨hmethods, hconverters, hclasses⟩ f hf
    cases hf with
    | ofClass he hf => exact hmethods _ he f hf
    | converter hv hf => exact hconverters _ hv f hf
    | nested hn hf => exact hclasses _ hn f hf

theorem Class.Written.of_parts {c c' : Class Token} (h : c.Written) (hmethods : c'.methods = c.methods)
    (hconverters : c'.converters = c.converters) (hclasses : c'.classes = c.classes) : c'.Written := by
  rw [Class.written_iff] at h ⊢
  rwa [hmethods,hconverters,hclasses]

/-- Everything declared was written. -/
structure Declarations.Written (d : Declarations) : Prop where
  classes : ∀ e ∈ d.classes, e.2.Written
  methods : ∀ e ∈ d.methods, (Token.ofMethod e.2).Written

namespace Declarations

theorem written_empty : empty.Written := ⟨by simp [empty], by simp [empty]⟩

theorem Written.merge {d e : Declarations} (hd : d.Written) (he : e.Written) : (d.merge e).Written where
  classes x hx := (Table.mem_of_mem_merge hx).elim (hd.classes x) (he.classes x)
  methods x hx := (Table.mem_of_mem_merge hx).elim (hd.methods x) (he.methods x)

end Declarations

/-- An error may name any line. -/
abbrev Anywhere (_ : Nat) : Prop := True

namespace Member

variable {d : Declarations} {c : Class Token} {line : Line}

theorem addProperty_written (hc : c.Written) (v : Variable) :
    Located Anywhere Class.Written (addProperty c v line) := by
  unfold addProperty
  split
  · trivial
  · exact hc.of_parts rfl rfl rfl

theorem addExplicit_written (hc : c.Written) (tokens : List Token) :
    Located Anywhere Class.Written (addExplicit d c line tokens) := by
  unfold addExplicit
  dsimp only
  split
  · trivial
  · split
    · exact .bind (rule_located trivial _ _) fun r _ => hc.of_parts rfl rfl rfl
    · exact .bind (rule_located trivial _ _) fun r _ => hc.of_parts rfl rfl rfl
    · split
      · exact hc.of_parts rfl rfl rfl
      · trivial
    · split
      · exact hc.of_parts rfl rfl rfl
      · trivial
    · trivial

/-- A member on one line brings no method. -/
theorem addSimple_written (hc : c.Written) (tokens : List Token) :
    Located Anywhere Class.Written (addSimple d c line tokens) := by
  unfold addSimple
  split
  · exact hc
  · split
    · exact addExplicit_written hc _
    · split
      · split
        · exact addProperty_written hc _
        · trivial
      · trivial
    · split
      · exact .bind (property_located trivial _) fun v _ => addProperty_written hc v
      · trivial

end Member

namespace Parser

theorem written_registerClass {p : Parser} (hp : p.declared.Written) {c : Class Token} (hc : c.Written) :
    (p.registerClass c).declared.Written := by
  rw [registerClass,declared_warnIf]
  exact { hp with classes := Numbered.all_insert c.name Class.Written hp.classes hc }

theorem written_registerMethod {p : Parser} (hp : p.declared.Written) {f : Method Token}
    (hf : (Token.ofMethod f).Written) : (p.registerMethod f).declared.Written := by
  rw [registerMethod,declared_warnIf]
  exact { hp with
    methods := Numbered.all_insert f.name (fun f => (Token.ofMethod f).Written) hp.methods hf }

theorem written_registerContainer {p : Parser} (hp : p.declared.Written) (c : Container) :
    (p.registerContainer c).declared.Written := by
  rw [registerContainer,declared_warnIf]
  exact { hp with }

theorem written_addMethod {p : Parser} (hp : p.declared.Written) {c : Class Token} (hc : c.Written)
    {f : Method Token} (hf : (Token.ofMethod f).Written) :
    (p.addMethod c f).1.declared.Written ∧ (p.addMethod c f).2.Written := by
  obtain ⟨hmethods, hothers⟩ := Class.written_iff.1 hc
  refine ⟨?_, Class.written_iff.2 ⟨?_, hothers⟩⟩
  · rwa [addMethod,declared_warnIf]
  · exact Numbered.all_insert f.name (fun f => (Token.ofMethod f).Written) hmethods hf

/-- One step of reading: what it declares and the row that it gives were written. -/
structure Step.Written (s : Step) : Prop where
  declared : s.parser.declared.Written
  row : ∀ row, s.result = .ok (some row) → row.Written

theorem Step.Written.rows {s : Step} {row? : Option (Row Token)} {rows : List (Row Token)} (hs : s.Written)
    (hrow : s.result = .ok row?) (hrows : ∀ row ∈ rows, row.Written) :
    ∀ row ∈ row?.toList ++ rows, row.Written := by
  cases row? with
  | none => exact hrows
  | some row => exact List.forall_mem_cons.2 ⟨hs.row row hrow, hrows⟩

/-- What a construct makes of a body was written, provided that the body was. -/
def Construct.Written : Construct → Prop
  | .settled s => s.Written
  | .ofLines _ _ finish => ∀ q rows, q.declared.Written → (∀ row ∈ rows, row.Written) →
    (finish q rows).1.declared.Written ∧ (finish q rows).2.Written
  | .ofMembers start _ _ finish => start.Written ∧ ∀ q c, q.declared.Written → c.Written →
    (finish q c).1.declared.Written ∧ (finish q c).2.Written

def Membership.Written : Membership → Prop
  | .refused _ => True
  | .settled c _ => c.Written
  | .ofLines _ _ finish => ∀ q rows, q.declared.Written → (∀ row ∈ rows, row.Written) →
    (finish q rows).1.declared.Written ∧ (finish q rows).2.Written
  | .ofMembers start _ _ finish => start.Written ∧ ∀ q c, q.declared.Written → c.Written →
    (finish q c).1.declared.Written ∧ (finish q c).2.Written

section Front

variable {p : Parser} {header : Line} {tail rest : List Line}

/-- A class starts without parts. -/
theorem written_start {head : ClassHead} (h : ClassHead.read header tail = (.ok head, rest)) :
    head.start.Written := by
  have hlocated : Located Anywhere _ (ClassHead.read header tail).1 := ClassHead.read_located trivial
  obtain ⟨name, modifiers, length, hstart⟩ := hlocated.of_ok (by rw [h])
  rw [hstart]
  exact Class.written_iff.2 (by simp [ClassHead.emptyClass])

theorem written_condition {d : Declarations} {kind : StatementKind} {head : StatementHead}
    (h : StatementHead.read d kind header tail = (.ok head, rest)) :
    conditionMentions head.condition = [] := by
  have hlocated : Located Anywhere _ (StatementHead.read d kind header tail).1 :=
    StatementHead.read_located trivial kind
  exact mentions_of_condition (hlocated.of_ok (by rw [h]))

theorem front_written (hp : p.declared.Written) (header : Line) (tail : List Line) :
    (front p header tail).Written := by
  unfold front
  cases Lexer.split header.text with
  | nil => exact ⟨hp, nofun⟩
  | cons first more =>
    dsimp only
    split
    · -- a `make` declaration
      rcases Make.expand header tail with ⟨e | _, rest⟩
      · exact ⟨hp, nofun⟩
      · exact ⟨hp, nofun⟩
    · cases StatementKind.ofKeyword? first with
      | some kind =>
        dsimp only
        rcases hread : StatementHead.read p.declared kind header tail with ⟨e | head, rest⟩
        · exact ⟨hp, nofun⟩
        · intro q rows hq hrows
          exact ⟨hq, Row.written_singleton (Token.written_statement (written_condition hread) hrows)⟩
      | none =>
        dsimp only
        split
        · -- a class
          rcases hread : ClassHead.read header tail with ⟨e | head, rest⟩
          · exact ⟨hp, nofun⟩
          · refine ⟨written_start hread, fun q c hq hc => ?_⟩
            exact ⟨written_registerClass hq hc, Row.written_singleton hc⟩
        · split
          · -- a method
            rcases hread : MethodHead.read p.declared header tail with ⟨e | head, rest⟩
            · exact ⟨hp, nofun⟩
            · intro q rows hq hrows
              have hf := Token.written_method (.method rows hread) hrows
              exact ⟨written_registerMethod hq hf, Row.written_singleton hf⟩
          · split
            · -- a container
              rcases Container.read p.declared header tail with ⟨e | c, rest⟩
              · exact ⟨hp, nofun⟩
              · refine ⟨written_registerContainer hp c, ?_⟩
                rintro row ⟨⟩
                exact Row.written_singleton fun f hf => by cases hf
            · -- any other line
              rcases ht : p.declared.tokens header.text header.number with e | _ | ⟨t, ts⟩
              · exact ⟨hp, nofun⟩
              · exact ⟨hp, nofun⟩
              · refine ⟨hp, ?_⟩
                rintro row ⟨⟩
                exact Token.written_of_tokensMentions (mentions_of_tokens ht)

theorem memberFront_written {c : Class Token} (hc : c.Written) (header : Line) (tail : List Line) :
    (memberFront p c header tail).Written := by
  obtain ⟨hmethods, hconverters, hclasses⟩ := Class.written_iff.1 hc
  unfold memberFront
  dsimp only
  split
  · exact hc
  · split
    · -- a class
      rcases hread : ClassHead.read header tail with ⟨e | head, rest⟩
      · trivial
      · refine ⟨written_start hread, fun q n hq hn => ⟨written_registerClass hq hn, ?_⟩⟩
        refine Class.written_iff.2 ⟨hmethods, hconverters, fun k hk => ?_⟩
        rcases List.mem_append.1 hk with hk | hk
        · exact hclasses k hk
        · rwa [List.mem_singleton.1 hk]
    · split
      · -- a method
        rcases hread : MethodHead.read p.declared header tail with ⟨e | head, rest⟩
        · trivial
        · exact fun q rows hq hrows =>
            written_addMethod hq hc (Token.written_method (.method rows hread) hrows)
      · split
        · -- a converter
          rcases ConverterHead.read p.declared header tail with ⟨e | head, rest⟩
          · trivial
          · refine fun q rows hq hrows => ⟨hq, Class.written_iff.2 ⟨hmethods, fun v hv => ?_, hclasses⟩⟩
            rcases List.mem_append.1 hv with hv | hv
            · exact hconverters v hv
            · rw [List.mem_singleton.1 hv]
              exact Token.written_method (.converter head header.number rows) hrows
        · -- a member on one line
          cases hs : Member.addSimple p.declared c header (Token.codeOfText header.text) with
          | error e => trivial
          | ok c' => exact (Member.addSimple_written hc _).of_ok hs

end Front

/-- With this fuel, whatever is read was written. -/
structure WrittenWith (fuel : Nat) : Prop where
  nextLine : ∀ {p : Parser} {ls : List Line} {s : Step}, p.declared.Written →
    nextLine fuel p ls = some s → s.Written
  parseLines : ∀ {p q : Parser} {ls : List Line} {r : Except ParseError (List (Row Token))},
    p.declared.Written → parseLines fuel p ls = some (q, r) →
    q.declared.Written ∧ ∀ rows, r = .ok rows → ∀ row ∈ rows, row.Written
  parseMembers : ∀ {p q : Parser} {c : Class Token} {ls : List Line} {r : Except ParseError (Class Token)},
    p.declared.Written → c.Written → parseMembers fuel p c ls = some (q, r) →
    q.declared.Written ∧ ∀ c', r = .ok c' → c'.Written

namespace WrittenWith

variable {fuel : Nat} (ih : WrittenWith fuel) {p q : Parser} {ls : List Line} (hp : p.declared.Written)
include ih hp

theorem nextLine_succ {s : Step} (h : Parser.nextLine (fuel + 1) p ls = some s) : s.Written := by
  cases ls with
  | nil =>
    obtain rfl := Option.some.inj h
    exact ⟨hp, nofun⟩
  | cons header tail =>
    have hfront := front_written hp header tail
    rw [nextLine_cons] at h
    cases hf : front p header tail with
    | settled t =>
      rw [hf] at h hfront
      obtain rfl := Option.some.inj h
      exact hfront
    | ofLines body rest finish =>
      rw [hf] at h hfront
      obtain ⟨⟨q, r⟩, hr, rfl⟩ := Option.map_eq_some_iff.1 h
      obtain ⟨hq, hrows⟩ := ih.parseLines hp hr
      cases r with
      | error e => exact ⟨hq, nofun⟩
      | ok rows =>
        obtain ⟨hdeclared, hrow⟩ := hfront q rows hq (hrows rows rfl)
        refine ⟨hdeclared, ?_⟩
        rintro row ⟨⟩
        exact hrow
    | ofMembers start body rest finish =>
      rw [hf] at h hfront
      obtain ⟨hstart, hfinish⟩ := hfront
      obtain ⟨⟨q, r⟩, hr, rfl⟩ := Option.map_eq_some_iff.1 h
      obtain ⟨hq, hclass⟩ := ih.parseMembers hp hstart hr
      cases r with
      | error e => exact ⟨hq, nofun⟩
      | ok c =>
        obtain ⟨hdeclared, hrow⟩ := hfinish q c hq (hclass c rfl)
        refine ⟨hdeclared, ?_⟩
        rintro row ⟨⟩
        exact hrow

theorem parseLines_succ {r : Except ParseError (List (Row Token))}
    (h : Parser.parseLines (fuel + 1) p ls = some (q, r)) :
    q.declared.Written ∧ ∀ rows, r = .ok rows → ∀ row ∈ rows, row.Written := by
  cases ls with
  | nil =>
    obtain ⟨rfl, rfl⟩ := Prod.mk.inj (Option.some.inj h)
    exact ⟨hp, by rintro rows ⟨⟩; simp⟩
  | cons l ls =>
    rw [Parser.parseLines] at h
    cases hn : Parser.nextLine fuel p (l :: ls) with
    | none => simp [hn] at h
    | some s =>
      have hs := ih.nextLine hp hn
      rw [hn] at h
      obtain ⟨q', rest, e | row?⟩ := s
      · obtain ⟨rfl, rfl⟩ := Prod.mk.inj (Option.some.inj h)
        exact ⟨hs.declared, by rintro rows ⟨⟩⟩
      · rcases hm : Parser.parseLines fuel q' rest with _ | ⟨q'', e | rows⟩
        · simp [hm] at h
        · have hmore := ih.parseLines hs.declared hm
          simp only [hm] at h
          obtain ⟨rfl, rfl⟩ := Prod.mk.inj (Option.some.inj h)
          exact ⟨hmore.1, by rintro rows ⟨⟩⟩
        · have hmore := ih.parseLines hs.declared hm
          simp only [hm] at h
          obtain ⟨rfl, rfl⟩ := Prod.mk.inj (Option.some.inj h)
          refine ⟨hmore.1, ?_⟩
          rintro _ ⟨⟩
          exact hs.rows rfl (hmore.2 rows rfl)

theorem parseMembers_succ {c : Class Token} {r : Except ParseError (Class Token)} (hc : c.Written)
    (h : Parser.parseMembers (fuel + 1) p c ls = some (q, r)) :
    q.declared.Written ∧ ∀ c', r = .ok c' → c'.Written := by
  cases ls with
  | nil =>
    obtain ⟨rfl, rfl⟩ := Prod.mk.inj (Option.some.inj h)
    exact ⟨hp, by rintro c' ⟨⟩; exact hc⟩
  | cons line tail =>
    have hfront := memberFront_written (p := p) hc line tail
    rw [parseMembers_cons] at h
    cases hf : memberFront p c line tail with
    | refused e =>
      rw [hf] at h
      obtain ⟨rfl, rfl⟩ := Prod.mk.inj (Option.some.inj h)
      exact ⟨hp, nofun⟩
    | settled c' rest =>
      rw [hf] at h hfront
      exact ih.parseMembers hp hfront h
    | ofLines body rest finish =>
      rw [hf] at hfront
      simp only [hf,Membership.run] at h
      rcases hl : Parser.parseLines fuel p body with _ | ⟨q', e | rows⟩
      · simp [hl] at h
      · have hread := ih.parseLines hp hl
        simp only [hl] at h
        obtain ⟨rfl, rfl⟩ := Prod.mk.inj (Option.some.inj h)
        exact ⟨hread.1, nofun⟩
      · have hread := ih.parseLines hp hl
        obtain ⟨hdeclared, hclass⟩ := hfront q' rows hread.1 (hread.2 rows rfl)
        simp only [hl] at h
        exact ih.parseMembers hdeclared hclass h
    | ofMembers start body rest finish =>
      rw [hf] at hfront
      obtain ⟨hstart, hfinish⟩ := hfront
      simp only [hf,Membership.run] at h
      rcases hm : Parser.parseMembers fuel p start body with _ | ⟨q', e | nested⟩
      · simp [hm] at h
      · have hread := ih.parseMembers hp hstart hm
        simp only [hm] at h
        obtain ⟨rfl, rfl⟩ := Prod.mk.inj (Option.some.inj h)
        exact ⟨hread.1, nofun⟩
      · have hread := ih.parseMembers hp hstart hm
        obtain ⟨hdeclared, hclass⟩ := hfinish q' nested hread.1 (hread.2 nested rfl)
        simp only [hm] at h
        exact ih.parseMembers hdeclared hclass h

end WrittenWith

theorem writtenWith (fuel : Nat) : WrittenWith fuel := by
  induction fuel with
  | zero => exact ⟨nofun, nofun, nofun⟩
  | succ fuel ih =>
    exact ⟨fun hp => ih.nextLine_succ hp, fun hp => ih.parseLines_succ hp,
      fun hp hc => ih.parseMembers_succ hp hc⟩

/-- The tolerant reading, likewise. -/
theorem collectLines_written {fuel : Nat} {p q : Parser} {ls : List Line} {rows : List (Row Token)}
    {errors : List ParseError} (hp : p.declared.Written)
    (h : collectLines fuel p ls = some (q, rows, errors)) :
    q.declared.Written ∧ ∀ row ∈ rows, row.Written := by
  induction fuel generalizing p ls rows errors with
  | zero => cases h
  | succ fuel ih =>
    cases ls with
    | nil =>
      obtain ⟨rfl, rfl, -⟩ : p = q ∧ [] = rows ∧ [] = errors := by simpa [collectLines] using h
      exact ⟨hp, by simp⟩
    | cons l ls =>
      rw [collectLines] at h
      cases hn : nextLine fuel p (l :: ls) with
      | none => simp [hn] at h
      | some s =>
        have hs := (writtenWith fuel).nextLine hp hn
        rw [hn] at h
        obtain ⟨p', rest, e | row?⟩ := s
        · obtain ⟨⟨q', rows', errors'⟩, hr, he⟩ := Option.map_eq_some_iff.1 h
          obtain ⟨rfl, rfl, -⟩ : q' = q ∧ rows' = rows ∧ e :: errors' = errors := by simpa using he
          exact ih hs.declared hr
        · obtain ⟨⟨q', rows', errors'⟩, hr, he⟩ := Option.map_eq_some_iff.1 h
          obtain ⟨rfl, rfl, -⟩ : q' = q ∧ row?.toList ++ rows' = rows ∧ errors' = errors := by
            simpa using he
          obtain ⟨hq, hrows⟩ := ih hs.declared hr
          exact ⟨hq, hs.rows rfl hrows⟩

theorem parseWith_written {fuel : Nat} {p q : Parser} {source : String} {r : Except ParseError Program}
    (hp : p.declared.Written) (h : p.parseWith fuel source = some (q, r)) :
    q.declared.Written ∧ ∀ program, r = .ok program → ∀ row ∈ program.lines, row.Written := by
  unfold parseWith at h
  split at h
  · cases h
  · next hl =>
    obtain ⟨rfl, rfl⟩ := Prod.mk.inj (Option.some.inj h)
    exact ⟨((writtenWith fuel).parseLines hp hl).1, nofun⟩
  · next hl =>
    obtain ⟨rfl, rfl⟩ := Prod.mk.inj (Option.some.inj h)
    obtain ⟨hq, hrows⟩ := (writtenWith fuel).parseLines hp hl
    refine ⟨hq, ?_⟩
    rintro program ⟨⟩
    exact hrows _ rfl

theorem parseTolerantWith_written {fuel : Nat} {p q : Parser} {source : String} {program : Program}
    {diagnostics : Diagnostics} (hp : p.declared.Written)
    (h : p.parseTolerantWith fuel source = some (q, program, diagnostics)) :
    q.declared.Written ∧ ∀ row ∈ program.lines, row.Written := by
  unfold parseTolerantWith at h
  split at h
  · cases h
  · next hc =>
    obtain ⟨rfl, he⟩ := Prod.mk.inj (Option.some.inj h)
    obtain ⟨rfl, -⟩ := Prod.mk.inj he
    obtain ⟨hq, hrows⟩ := collectLines_written hp hc
    exact ⟨hq, hrows⟩

theorem Seasoned.written {p : Parser} (h : p.Seasoned) : p.declared.Written := by
  induction h with
  | new => exact Declarations.written_empty
  | strict _ hp ih => exact (parseWith_written ih hp).1
  | tolerant _ hp ih => exact (parseTolerantWith_written ih hp).1

end Parser

namespace Program.Parsed

variable {program : Program}

theorem written (h : program.Parsed) : program.declared.Written ∧ ∀ row ∈ program.lines, row.Written := by
  cases h with
  | strict hp hr =>
    obtain ⟨hq, hrows⟩ := Parser.parseWith_written hp.written hr
    rw [(Parser.parseWith_learns hr).2 program rfl]
    exact ⟨hq, hrows program rfl⟩
  | tolerant hp hr =>
    rw [(Parser.parseTolerantWith_learns hr).2]
    exact Parser.parseTolerantWith_written hp.written hr

/-- Every method in a parsed program, wherever it stands, was written. -/
theorem written_of_holds (h : program.Parsed) {f : Method Token} (hf : program.Holds f) : f.Written := by
  obtain ⟨hdeclared, hlines⟩ := h.written
  rcases hf with ⟨row, hrow, t, ht, hf⟩ | ⟨e, he, hf⟩ | ⟨e, he, hf⟩
  · exact hlines row hrow t ht f hf
  · exact hdeclared.classes e he f hf
  · exact hdeclared.methods e he f hf

end Program.Parsed

end LineScript
