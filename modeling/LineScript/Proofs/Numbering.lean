import LineScript.Proofs.Parser.Mentions
import LineScript.Proofs.Text.Trim
set_option autoImplicit false

/-!
Line numbers are true to the source. Whatever reading adds to a program, an error or a warning has the number
of a line that was given, and lines that ascend give rows that ascend; this holds of one construct and so of
all that are read, and the lines of a source ascend and are numbered by their places in it.
-/

namespace LineScript

variable {Known : Nat → Prop} {lo : Nat}

namespace Parser

/-- All that is declared is known, and warnings name known lines. -/
structure Numbered (Known : Nat → Prop) (p : Parser) : Prop where
  declared : Faithful Known p.declared.mentions
  warnings : ∀ w ∈ p.warnings, Known w.line

theorem numbered_empty : empty.Numbered Known :=
  ⟨by simp [empty,Declarations.empty,Declarations.mentions], by simp [empty]⟩

namespace Numbered

variable {p : Parser}

theorem declared_iff {d : Declarations} : Faithful Known d.mentions ↔
    (∀ e ∈ d.classes, Faithful Known (classMentions e.2)) ∧
    (∀ e ∈ d.methods, Faithful Known (methodMentions e.2)) ∧ ∀ e ∈ d.containers, Known e.2.line := by
  simp only [Declarations.mentions,Faithful.append_iff,Faithful.flatMap_iff,Faithful.map_line_iff,
    and_assoc]

theorem warnIf (h : p.Numbered Known) (replaced : Bool) {w : Warning} (hw : Known w.line) :
    (p.warnIf replaced w).Numbered Known := by
  unfold Parser.warnIf
  split
  · refine { h with warnings := fun u hu => ?_ }
    rcases List.mem_append.1 hu with hu | hu
    · exact h.warnings u hu
    · rwa [List.mem_singleton.1 hu]
  · exact h

/-- What holds of every entry and of a new one holds of every entry of the table with it. -/
theorem all_insert {α : Type} (name : String) (P : α → Prop) {t : Table α} {v : α}
    (ht : ∀ e ∈ t, P e.2) (hv : P v) : ∀ e ∈ t.insert name v, P e.2 := by
  intro e he
  rcases Table.mem_of_mem_insert he with he | rfl
  · exact ht e he
  · exact hv

theorem registerClass (h : p.Numbered Known) {c : Class Token} (hc : Faithful Known (classMentions c)) :
    (p.registerClass c).Numbered Known := by
  obtain ⟨hclasses, hmethods, hcontainers⟩ := declared_iff.1 h.declared
  have hall := all_insert c.name (fun c => Faithful Known (classMentions c)) hclasses hc
  have hregistered : Parser.Numbered Known { p with
      declared := { p.declared with classes := p.declared.classes.insert c.name c } } :=
    ⟨declared_iff.2 ⟨hall, hmethods, hcontainers⟩, h.warnings⟩
  refine hregistered.warnIf _ ?_
  exact (faithful_class_iff.1 hc).line

theorem registerMethod (h : p.Numbered Known) {m : Method Token} (hm : Faithful Known (methodMentions m)) :
    (p.registerMethod m).Numbered Known := by
  obtain ⟨hclasses, hmethods, hcontainers⟩ := declared_iff.1 h.declared
  have hall := all_insert m.name (fun m => Faithful Known (methodMentions m)) hmethods hm
  have hregistered : Parser.Numbered Known { p with
      declared := { p.declared with methods := p.declared.methods.insert m.name m } } :=
    ⟨declared_iff.2 ⟨hclasses, hall, hcontainers⟩, h.warnings⟩
  refine hregistered.warnIf _ ?_
  exact line_of_method hm

theorem registerContainer (h : p.Numbered Known) {c : Container} (hc : Known c.line) :
    (p.registerContainer c).Numbered Known := by
  obtain ⟨hclasses, hmethods, hcontainers⟩ := declared_iff.1 h.declared
  have hall := all_insert c.name (fun c : Container => Known c.line) hcontainers hc
  have hregistered : Parser.Numbered Known { p with
      declared := { p.declared with containers := p.declared.containers.insert c.name c } } :=
    ⟨declared_iff.2 ⟨hclasses, hmethods, hall⟩, h.warnings⟩
  refine hregistered.warnIf _ ?_
  exact hc

theorem addMethod (h : p.Numbered Known) {c : Class Token} {m : Method Token} (hc : ClassFaithful Known c)
    (hfits : c.line ≤ m.line) (hm : Faithful Known (methodMentions m)) :
    (p.addMethod c m).1.Numbered Known ∧ Member.Extends Known c (p.addMethod c m).2 :=
  ⟨warnIf h _ (line_of_method hm), rfl, { hc with
    methods := all_insert m.name (fun m : Method Token => c.line ≤ m.line ∧ Faithful Known (methodMentions m))
      hc.methods ⟨hfits, hm⟩ }⟩

end Numbered

/-- One step of reading, behind a header with this number. -/
structure Step.Numbered (Known : Nat → Prop) (n : Nat) (s : Step) : Prop where
  parser : s.parser.Numbered Known
  rest : Line.Ascend Known n s.rest
  result : Located Known (fun row? => ∀ row, row? = some row → row.Numbered Known n) s.result

/-- The row that a step gives stands before the rows behind it. -/
theorem Step.Numbered.rows {n : Nat} {s : Step} {row? : Option (Row Token)} {rows : List (Row Token)}
    (hs : s.Numbered Known n) (hrow : s.result = .ok row?) (hn : Known n) (hlo : lo ≤ n)
    (hrows : RowsFaithful Known n rows) : RowsFaithful Known lo (row?.toList ++ rows) := by
  cases row? with
  | none => exact hrows.weaken hlo
  | some row => exact .cons (hs.result.of_ok hrow row rfl) hlo hn hrows

/-- A construct behind a header with this number: a body that is still to be read ascends from there, and
what it makes of a body is known, provided that the body is. -/
def Construct.Numbered (Known : Nat → Prop) (n : Nat) : Construct → Prop
  | .settled s => s.Numbered Known n
  | .ofLines body rest finish => Line.Ascend Known n body ∧ Line.Ascend Known n rest ∧
    ∀ q rows, q.Numbered Known → RowsFaithful Known n rows →
      (finish q rows).1.Numbered Known ∧ (finish q rows).2.Numbered Known n
  | .ofMembers start body rest finish => ClassFaithful Known start ∧ start.line = n ∧
    Line.Ascend Known n body ∧ Line.Ascend Known n rest ∧
    ∀ q c, q.Numbered Known → ClassFaithful Known c →
      (finish q c).1.Numbered Known ∧ (finish q c).2.Numbered Known n

/-- A member of the class `c`, likewise. -/
def Membership.Numbered (Known : Nat → Prop) (c : Class Token) (n : Nat) : Membership → Prop
  | .refused e => Known e.line
  | .settled c' rest => Member.Extends Known c c' ∧ Line.Ascend Known c.line rest
  | .ofLines body rest finish => Line.Ascend Known n body ∧ Line.Ascend Known c.line rest ∧
    ∀ q rows, q.Numbered Known → RowsFaithful Known n rows →
      (finish q rows).1.Numbered Known ∧ Member.Extends Known c (finish q rows).2
  | .ofMembers start body rest finish => ClassFaithful Known start ∧ start.line = n ∧
    Line.Ascend Known n body ∧ Line.Ascend Known c.line rest ∧
    ∀ q nested, q.Numbered Known → ClassFaithful Known nested → nested.line = n →
      (finish q nested).1.Numbered Known ∧ Member.Extends Known c (finish q nested).2

section Front

variable {p : Parser} {header : Line} {tail : List Line}

theorem front_numbered (hp : p.Numbered Known) (h : Line.Ascend Known lo (header :: tail)) :
    (front p header tail).Numbered Known header.number := by
  obtain ⟨hheader, -, htail⟩ := Line.Ascend.cons_iff.1 h
  have hlines := h.from_first
  unfold front
  cases hs : Lexer.split header.text with
  | nil => exact ⟨hp, htail, nofun⟩
  | cons first more =>
    dsimp only
    split
    · -- a `make` declaration
      have hexpand := Make.ascend_expand h
      generalize Make.expand header tail = r at hexpand
      obtain ⟨e | _, rest⟩ := r
      · exact ⟨hp, hexpand.2, hexpand.1⟩
      · exact ⟨hp, hexpand.2, nofun⟩
    · cases StatementKind.ofKeyword? first with
      | some kind =>
        have hread := hlines.reads (StatementHead.read_reads p.declared header tail kind)
          (StatementHead.read_located hheader kind)
        dsimp only
        generalize StatementHead.read p.declared kind header tail = r at hread
        obtain ⟨e | head, rest⟩ := r
        · exact ⟨hp, hread.1, hread.2⟩
        · obtain ⟨hrest, hbody, hcondition⟩ := hread
          refine ⟨hbody, hrest, fun q rows hq hrows => ⟨hq, numbered_of_token hheader ?_⟩⟩
          exact faithful_statement kind header.text hheader (mentions_of_condition hcondition) hrows
      | none =>
        dsimp only
        split
        · -- a class
          have hread := hlines.reads (ClassHead.read_reads header tail) (ClassHead.read_located hheader)
          generalize ClassHead.read header tail = r at hread
          obtain ⟨e | head, rest⟩ := r
          · exact ⟨hp, hread.1, hread.2⟩
          · obtain ⟨hrest, hbody, name, modifiers, length, hstart⟩ := hread
            refine ⟨hstart ▸ .empty hheader, hstart ▸ rfl, hbody, hrest, fun q c hq hc => ?_⟩
            have hc := faithful_class_iff.2 hc
            exact ⟨hq.registerClass hc, numbered_of_token hheader hc⟩
        · split
          · -- a method
            have hread := hlines.reads (MethodHead.read_reads p.declared header tail)
              (MethodHead.read_located hheader)
            generalize MethodHead.read p.declared header tail = r at hread
            obtain ⟨e | head, rest⟩ := r
            · exact ⟨hp, hread.1, hread.2⟩
            · obtain ⟨hrest, hbody, hparams⟩ := hread
              refine ⟨hbody, hrest, fun q rows hq hrows => ?_⟩
              have hm := faithful_method (m := head.build header.number rows) hheader hparams hrows
              exact ⟨hq.registerMethod hm, numbered_of_token hheader hm⟩
          · split
            · -- a container
              have hread := hlines.reads (Container.read_reads p.declared header tail)
                (Container.read_located h.known)
              generalize Container.read p.declared header tail = r at hread
              obtain ⟨e | c, rest⟩ := r
              · exact ⟨hp, hread.1, hread.2⟩
              · obtain ⟨hrest, -, hline⟩ := hread
                have hc : Known c.line := by
                  rw [hline]
                  exact hheader
                refine ⟨hp.registerContainer hc, hrest, ?_⟩
                rintro row ⟨⟩
                exact numbered_of_token hheader (by simpa [tokenMentions,Mention.Holds] using hc)
            · -- any other line
              cases ht : p.declared.tokens header.text header.number with
              | error e => exact ⟨hp, htail, (Declarations.tokens_located hheader _).of_error ht⟩
              | ok tokens =>
                cases tokens with
                | nil => exact ⟨hp, htail, nofun⟩
                | cons t ts =>
                  refine ⟨hp, htail, ?_⟩
                  rintro row ⟨⟩
                  refine ⟨rfl, ?_⟩
                  rw [rowMentions,mentions_of_tokens ht]
                  simpa [Mention.Holds] using hheader

theorem memberFront_numbered {c : Class Token} (hc : ClassFaithful Known c)
    (h : Line.Ascend Known c.line (header :: tail)) :
    (memberFront p c header tail).Numbered Known c header.number := by
  obtain ⟨hheader, hfits, htail⟩ := Line.Ascend.cons_iff.1 h
  have hlines := h.from_first
  unfold memberFront
  dsimp only
  split
  · exact ⟨⟨rfl, hc⟩, htail.weaken hfits⟩
  · split
    · -- a class
      have hread := hlines.reads (ClassHead.read_reads header tail) (ClassHead.read_located hheader)
      generalize ClassHead.read header tail = r at hread
      obtain ⟨e | head, rest⟩ := r
      · exact hread.2
      · obtain ⟨hrest, hbody, name, modifiers, length, hstart⟩ := hread
        refine ⟨hstart ▸ .empty hheader, hstart ▸ rfl, hbody, hrest.weaken hfits, ?_⟩
        intro q nested hq hn hline
        have hn := faithful_class_iff.2 hn
        refine ⟨hq.registerClass hn, rfl, { hc with classes := fun k hk => ?_ }⟩
        rcases List.mem_append.1 hk with hk | hk
        · exact hc.classes k hk
        · rw [List.mem_singleton.1 hk]
          exact ⟨hline ▸ hfits, hn⟩
    · split
      · -- a method
        have hread := hlines.reads (MethodHead.read_reads p.declared header tail)
          (MethodHead.read_located hheader)
        generalize MethodHead.read p.declared header tail = r at hread
        obtain ⟨e | head, rest⟩ := r
        · exact hread.2
        · obtain ⟨hrest, hbody, hparams⟩ := hread
          refine ⟨hbody, hrest.weaken hfits, fun q rows hq hrows => ?_⟩
          have hm := faithful_method (m := head.build header.number rows) hheader hparams hrows
          exact hq.addMethod hc hfits hm
      · split
        · -- a converter
          have hread := hlines.reads (ConverterHead.read_reads p.declared header tail)
            (ConverterHead.read_located hheader)
          generalize ConverterHead.read p.declared header tail = r at hread
          obtain ⟨e | head, rest⟩ := r
          · exact hread.2
          · obtain ⟨hrest, hbody, -⟩ := hread
            refine ⟨hbody, hrest.weaken hfits, fun q rows hq hrows => ?_⟩
            refine ⟨hq, rfl, { hc with converters := fun v hv => ?_ }⟩
            rcases List.mem_append.1 hv with hv | hv
            · exact hc.converters v hv
            · rw [List.mem_singleton.1 hv]
              exact ⟨hfits, faithful_method hheader (by simp [ConverterHead.build]) hrows⟩
        · -- a member on one line
          have hlocated := Member.addSimple_located (d := p.declared) hc hheader hfits
            (Token.codeOfText header.text)
          generalize Member.addSimple p.declared c header (Token.codeOfText header.text) = r at hlocated
          cases r with
          | error e => exact hlocated
          | ok c' => exact ⟨hlocated, htail.weaken hfits⟩

end Front

/-- With this fuel, whatever is read from lines that ascend is known and ascends. -/
structure NumberedWith (Known : Nat → Prop) (fuel : Nat) : Prop where
  nextLine : ∀ {p : Parser} {lo : Nat} {header : Line} {tail : List Line} {s : Step}, p.Numbered Known →
    Line.Ascend Known lo (header :: tail) → nextLine fuel p (header :: tail) = some s →
    s.Numbered Known header.number
  parseLines : ∀ {p q : Parser} {lo : Nat} {ls : List Line} {r : Except ParseError (List (Row Token))},
    p.Numbered Known → Line.Ascend Known lo ls → parseLines fuel p ls = some (q, r) →
    q.Numbered Known ∧ Located Known (RowsFaithful Known lo) r
  parseMembers : ∀ {p q : Parser} {c : Class Token} {ls : List Line} {r : Except ParseError (Class Token)},
    p.Numbered Known → ClassFaithful Known c → Line.Ascend Known c.line ls →
    parseMembers fuel p c ls = some (q, r) → q.Numbered Known ∧ Located Known (Member.Extends Known c) r

namespace NumberedWith

variable {fuel : Nat} (ih : NumberedWith Known fuel) {p q : Parser} {ls : List Line}
include ih

theorem nextLine_succ {header : Line} {tail : List Line} {s : Step} (hp : p.Numbered Known)
    (hlines : Line.Ascend Known lo (header :: tail))
    (h : Parser.nextLine (fuel + 1) p (header :: tail) = some s) : s.Numbered Known header.number := by
  have hfront := front_numbered hp hlines
  rw [nextLine_cons] at h
  cases hf : front p header tail with
  | settled t =>
    rw [hf] at h hfront
    obtain rfl := Option.some.inj h
    exact hfront
  | ofLines body rest finish =>
    rw [hf] at h hfront
    obtain ⟨hbody, hrest, hfinish⟩ := hfront
    obtain ⟨⟨q, r⟩, hr, rfl⟩ := Option.map_eq_some_iff.1 h
    obtain ⟨hq, hrows⟩ := ih.parseLines hp hbody hr
    cases r with
    | error e => exact ⟨hq, hrest, hrows⟩
    | ok rows =>
      obtain ⟨hparser, hrow⟩ := hfinish q rows hq hrows
      refine ⟨hparser, hrest, ?_⟩
      rintro row ⟨⟩
      exact hrow
  | ofMembers start body rest finish =>
    rw [hf] at h hfront
    obtain ⟨hstart, hline, hbody, hrest, hfinish⟩ := hfront
    obtain ⟨⟨q, r⟩, hr, rfl⟩ := Option.map_eq_some_iff.1 h
    obtain ⟨hq, hclass⟩ := ih.parseMembers hp hstart (hline ▸ hbody) hr
    cases r with
    | error e => exact ⟨hq, hrest, hclass⟩
    | ok c =>
      obtain ⟨hparser, hrow⟩ := hfinish q c hq hclass.2
      refine ⟨hparser, hrest, ?_⟩
      rintro row ⟨⟩
      exact hrow

theorem parseLines_succ {r : Except ParseError (List (Row Token))} (hp : p.Numbered Known)
    (hlines : Line.Ascend Known lo ls) (h : Parser.parseLines (fuel + 1) p ls = some (q, r)) :
    q.Numbered Known ∧ Located Known (RowsFaithful Known lo) r := by
  cases ls with
  | nil =>
    obtain ⟨rfl, rfl⟩ := Prod.mk.inj (Option.some.inj h)
    exact ⟨hp, .nil⟩
  | cons l ls =>
    obtain ⟨hl, hlo, -⟩ := Line.Ascend.cons_iff.1 hlines
    rw [Parser.parseLines] at h
    cases hn : Parser.nextLine fuel p (l :: ls) with
    | none => simp [hn] at h
    | some s =>
      have hs := ih.nextLine hp hlines hn
      rw [hn] at h
      obtain ⟨q', rest, e | row?⟩ := s
      · obtain ⟨rfl, rfl⟩ := Prod.mk.inj (Option.some.inj h)
        exact ⟨hs.parser, hs.result⟩
      · rcases hm : Parser.parseLines fuel q' rest with _ | ⟨q'', e | rows⟩
        · simp [hm] at h
        · have hmore := ih.parseLines hs.parser hs.rest hm
          simp only [hm] at h
          obtain ⟨rfl, rfl⟩ := Prod.mk.inj (Option.some.inj h)
          exact hmore
        · have hmore := ih.parseLines hs.parser hs.rest hm
          simp only [hm] at h
          obtain ⟨rfl, rfl⟩ := Prod.mk.inj (Option.some.inj h)
          exact ⟨hmore.1, hs.rows rfl hl hlo hmore.2⟩

/-- What the members behind one part are read into still extends the class from before that part. -/
theorem parseMembers_behind {c c' : Class Token} {r : Except ParseError (Class Token)} {q' : Parser}
    (hc : Member.Extends Known c c') (hq : q'.Numbered Known) (hlines : Line.Ascend Known c.line ls)
    (h : Parser.parseMembers fuel q' c' ls = some (q, r)) :
    q.Numbered Known ∧ Located Known (Member.Extends Known c) r := by
  obtain ⟨hline, hc⟩ := hc
  obtain ⟨hparser, hclass⟩ := ih.parseMembers hq hc (hline ▸ hlines) h
  exact ⟨hparser, hclass.imp fun k hk => ⟨hk.1.trans hline, hk.2⟩⟩

theorem parseMembers_succ {c : Class Token} {r : Except ParseError (Class Token)} (hp : p.Numbered Known)
    (hc : ClassFaithful Known c) (hlines : Line.Ascend Known c.line ls)
    (h : Parser.parseMembers (fuel + 1) p c ls = some (q, r)) :
    q.Numbered Known ∧ Located Known (Member.Extends Known c) r := by
  cases ls with
  | nil =>
    obtain ⟨rfl, rfl⟩ := Prod.mk.inj (Option.some.inj h)
    exact ⟨hp, rfl, hc⟩
  | cons line tail =>
    have hfront := memberFront_numbered (p := p) hc hlines
    rw [parseMembers_cons] at h
    cases hf : memberFront p c line tail with
    | refused e =>
      rw [hf] at h hfront
      obtain ⟨rfl, rfl⟩ := Prod.mk.inj (Option.some.inj h)
      exact ⟨hp, hfront⟩
    | settled c' rest =>
      rw [hf] at h hfront
      exact ih.parseMembers_behind hfront.1 hp hfront.2 h
    | ofLines body rest finish =>
      rw [hf] at hfront
      obtain ⟨hbody, hrest, hfinish⟩ := hfront
      simp only [hf,Membership.run] at h
      rcases hl : Parser.parseLines fuel p body with _ | ⟨q', e | rows⟩
      · simp [hl] at h
      · have hread := ih.parseLines hp hbody hl
        simp only [hl] at h
        obtain ⟨rfl, rfl⟩ := Prod.mk.inj (Option.some.inj h)
        exact hread
      · have hread := ih.parseLines hp hbody hl
        obtain ⟨hparser, hextends⟩ := hfinish q' rows hread.1 hread.2
        simp only [hl] at h
        exact ih.parseMembers_behind hextends hparser hrest h
    | ofMembers start body rest finish =>
      rw [hf] at hfront
      obtain ⟨hstart, hline, hbody, hrest, hfinish⟩ := hfront
      simp only [hf,Membership.run] at h
      rcases hm : Parser.parseMembers fuel p start body with _ | ⟨q', e | nested⟩
      · simp [hm] at h
      · have hread := ih.parseMembers hp hstart (hline ▸ hbody) hm
        simp only [hm] at h
        obtain ⟨rfl, rfl⟩ := Prod.mk.inj (Option.some.inj h)
        exact hread
      · have hread := ih.parseMembers hp hstart (hline ▸ hbody) hm
        obtain ⟨hparser, hextends⟩ := hfinish q' nested hread.1 hread.2.2 (hread.2.1.trans hline)
        simp only [hm] at h
        exact ih.parseMembers_behind hextends hparser hrest h

end NumberedWith

theorem numberedWith (Known : Nat → Prop) (fuel : Nat) : NumberedWith Known fuel := by
  induction fuel with
  | zero => exact ⟨nofun, nofun, nofun⟩
  | succ fuel ih => exact ⟨ih.nextLine_succ, ih.parseLines_succ, ih.parseMembers_succ⟩

/-- The tolerant reading, likewise: what is dropped keeps the lines behind it in order. -/
theorem collectLines_numbered {fuel : Nat} {p q : Parser} {ls : List Line} {rows : List (Row Token)}
    {errors : List ParseError} (hp : p.Numbered Known) (hlines : Line.Ascend Known lo ls)
    (h : collectLines fuel p ls = some (q, rows, errors)) :
    q.Numbered Known ∧ RowsFaithful Known lo rows ∧ ∀ e ∈ errors, Known e.line := by
  induction fuel generalizing p ls rows errors lo with
  | zero => cases h
  | succ fuel ih =>
    cases ls with
    | nil =>
      obtain ⟨rfl, rfl, rfl⟩ : p = q ∧ [] = rows ∧ [] = errors := by simpa [collectLines] using h
      exact ⟨hp, .nil, by simp⟩
    | cons l ls =>
      obtain ⟨hl, hlo, -⟩ := Line.Ascend.cons_iff.1 hlines
      rw [collectLines] at h
      cases hn : nextLine fuel p (l :: ls) with
      | none => simp [hn] at h
      | some s =>
        have hs := (numberedWith Known fuel).nextLine hp hlines hn
        rw [hn] at h
        obtain ⟨p', rest, e | row?⟩ := s
        · obtain ⟨⟨q', rows', errors'⟩, hr, he⟩ := Option.map_eq_some_iff.1 h
          obtain ⟨rfl, rfl, rfl⟩ : q' = q ∧ rows' = rows ∧ e :: errors' = errors := by simpa using he
          have hrest : Line.Ascend Known l.number
              (if rest.length = (l :: ls).length then rest.drop 1 else rest) := by
            split
            · exact hs.rest.suffix (List.drop_suffix 1 rest)
            · exact hs.rest
          obtain ⟨hq, hrows, herrors⟩ := ih hs.parser hrest hr
          exact ⟨hq, hrows.weaken hlo, List.forall_mem_cons.2 ⟨hs.result, herrors⟩⟩
        · obtain ⟨⟨q', rows', errors'⟩, hr, he⟩ := Option.map_eq_some_iff.1 h
          obtain ⟨rfl, rfl, rfl⟩ : q' = q ∧ row?.toList ++ rows' = rows ∧ errors' = errors := by
            simpa using he
          obtain ⟨hq, hrows, herrors⟩ := ih hs.parser hs.rest hr
          exact ⟨hq, hs.rows rfl hl hlo hrows, herrors⟩

end Parser

/-- The number of a line of the source that holds more than blanks, counted from one. -/
def Line.IsNumberIn (source : String) (n : Nat) : Prop :=
  ∃ i text, n = i + 1 ∧ (Text.pieces '\n' source.toList)[i]? = some text ∧
    ∃ c ∈ text, Text.isBlank c = false

theorem Text.exists_of_trim {cs : List Char} (h : Text.trim cs ≠ []) :
    ∃ c ∈ cs, Text.isBlank c = false := by
  obtain ⟨c, hc⟩ := Option.ne_none_iff_exists'.1 (mt List.head?_eq_none_iff.1 h)
  exact ⟨c, (Text.trim_infix cs).subset (List.mem_of_mem_head? hc), Text.head?_trim hc⟩

theorem Line.ascend_ofTexts {n : Nat} {texts : List (List Char)}
    (hknown : ∀ i text, texts[i]? = some text → (∃ c ∈ text, Text.isBlank c = false) → Known (n + i))
    (hlo : lo ≤ n) : Line.Ascend Known lo (Line.ofTexts n texts) := by
  induction texts generalizing n lo with
  | nil => exact .nil
  | cons cs r ih =>
    have hr (lo : Nat) (hlo : lo ≤ n + 1) : Line.Ascend Known lo (Line.ofTexts (n + 1) r) := by
      refine ih (fun i text htext hblank => ?_) hlo
      have hk := hknown (i + 1) text (by simpa using htext) hblank
      rwa [Nat.add_comm i 1,← Nat.add_assoc] at hk
    rw [Line.ofTexts]
    split
    · exact hr lo (by omega)
    · next ht =>
      have hn : Known n := hknown 0 cs rfl (Text.exists_of_trim (by simpa using ht))
      exact Line.Ascend.cons_iff.2 ⟨hn, hlo, hr n (by omega)⟩

theorem Line.ascend_ofSource (source : String) :
    Line.Ascend (Line.IsNumberIn source) 0 (Line.ofSource source) :=
  Line.ascend_ofTexts (fun i text htext hblank => ⟨i, text, Nat.add_comm 1 i, htext, hblank⟩) (by omega)

/-- Line numbers are true to the source: a tolerant reading that ends names none but lines of the source that
hold more than blanks, in the program as well as in errors and warnings; the lines at the top level are in
order, and so are those of every body, none of which stands before its owner. -/
theorem Parser.numbers_true_to_source {fuel : Nat} {source : String} {q : Parser} {program : Program}
    {found : Diagnostics} (h : Parser.empty.parseTolerantWith fuel source = some (q, program, found)) :
    (∀ n ∈ program.numbers ++ found.errors.map ParseError.line ++ found.warnings.map Warning.line,
      Line.IsNumberIn source n) ∧
    (program.lines.map Row.number).Pairwise (· ≤ ·) ∧
    ∀ b ∈ program.bodies, (b.1 :: b.2).Pairwise (· ≤ ·) := by
  unfold Parser.parseTolerantWith at h
  cases hc : Parser.collectLines fuel .empty (Line.ofSource source) with
  | none => simp [hc] at h
  | some result =>
    obtain ⟨q', rows, errors⟩ := result
    obtain ⟨hq, hrows, herrors⟩ :=
      Parser.collectLines_numbered Parser.numbered_empty (Line.ascend_ofSource source) hc
    simp only [hc,Option.some.injEq,Prod.mk.injEq] at h
    obtain ⟨-, rfl, rfl⟩ := h
    have hmentions : Faithful (Line.IsNumberIn source) (Program.mentions ⟨rows, q'.declared⟩) :=
      Faithful.append_iff.2 ⟨hrows.faithful, hq.declared⟩
    refine ⟨fun n hn => ?_, (List.pairwise_cons.1 hrows.ascends.sorted).2, fun b hb => ?_⟩
    · rcases List.mem_append.1 hn with hn | hn
      · rcases List.mem_append.1 hn with hn | hn
        · exact Program.holds_of_mem_numbers hmentions hn
        · obtain ⟨e, he, rfl⟩ := List.mem_map.1 hn
          exact herrors e he
      · obtain ⟨w, hw, rfl⟩ := List.mem_map.1 hn
        exact hq.warnings w hw
    · exact Program.holds_of_mem_bodies hmentions hb

/-- A rewritten body, the text behind its brace, a class that takes the place of another, and an error. -/
def numberedSource : String :=
  "\nmake hi \x7bv\x7d => undefined \x7bv\x7d\nclass P \x7b\nundefined l\nmethod f : a\nreturn a\n\x7d\n" ++
    "if x \x7b hi y\nhi u \x7d hi z\nclass P \x7b\n\x7d\nmethod"

theorem Parser.numbers_true_to_source_rewritten :
    ∃ q program found, Parser.empty.parseTolerantWith 12 numberedSource = some (q, program, found) ∧
      program.lines.map Row.number = [3, 8, 9, 10] ∧
      program.bodies = [(3, [4]), (3, [5]), (5, [6]), (5, [5]), (8, [8, 9])] ∧
      found.errors.map ParseError.line = [12] ∧ found.warnings.map Warning.line = [10] ∧
      (∀ n ∈ program.numbers, Line.IsNumberIn numberedSource n) ∧
      Line.IsNumberIn numberedSource 12 ∧ Line.IsNumberIn numberedSource 10 ∧
      ∀ b ∈ program.bodies, (b.1 :: b.2).Pairwise (· ≤ ·) := by
  have hrun : ((Parser.empty.parseTolerantWith 12 numberedSource).map fun r =>
      (r.2.1.lines.map Row.number, r.2.1.bodies, r.2.2.errors.map ParseError.line,
        r.2.2.warnings.map Warning.line)) =
      some ([3, 8, 9, 10], [(3, [4]), (3, [5]), (5, [6]), (5, [5]), (8, [8, 9])], [12], [10]) := by
    decide +kernel
  obtain ⟨⟨q, program, found⟩, hread, hrun⟩ := Option.map_eq_some_iff.1 hrun
  simp only [Prod.mk.injEq] at hrun
  obtain ⟨hlines, hbodies, herrors, hwarnings⟩ := hrun
  obtain ⟨hnumbers, -, hordered⟩ := numbers_true_to_source hread
  refine ⟨q, program, found, hread, hlines, hbodies, herrors, hwarnings, fun n hn => hnumbers n ?_,
    hnumbers 12 ?_, hnumbers 10 ?_, hordered⟩
  · simp [hn]
  · simp [herrors]
  · simp [hwarnings]

end LineScript
