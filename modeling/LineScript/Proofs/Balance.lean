import LineScript.Proofs.Block.Orderly
import LineScript.Proofs.Progress
import LineScript.Proofs.Text.Cut
set_option autoImplicit false

/-!
Balanced sources are never found unclosed, as long as no header that waits for its body on the next line
comes before a line that opens a block of its own: such a header takes that line alone. Everything else
that reading can refuse has another cause.
-/

namespace LineScript

/-- The result is no report of a block without an end. -/
def Matched {α : Type} (r : Except ParseError α) : Prop :=
  ∀ n, r ≠ .error ⟨n, .unclosedBlock⟩

namespace Matched

variable {α β : Type}

theorem ok (a : α) : Matched (.ok a : Except ParseError α) := nofun

theorem error {e : ParseError} (h : e.cause ≠ .unclosedBlock) :
    Matched (.error e : Except ParseError α) := by
  rintro n ⟨⟩
  exact h rfl

theorem of_error {e : ParseError} (h : Matched (.error e : Except ParseError α)) :
    Matched (.error e : Except ParseError β) := by
  rintro n ⟨⟩
  exact h n rfl

theorem bind {r : Except ParseError α} {f : α → Except ParseError β} (hr : Matched r)
    (hf : ∀ a, Matched (f a)) : Matched (r >>= f) := by
  cases r with
  | error e => exact of_error hr
  | ok a => exact hf a

end Matched

section Headers

variable (d : Declarations) (n : Nat)

theorem tokens_matched (text : String) : Matched (d.tokens text n) := by
  unfold Declarations.tokens
  split
  · exact .ok _
  · split
    · exact .error nofun
    · exact .ok _

theorem readParams_matched (tokens : List Token) : Matched (readParams d tokens n) := by
  unfold readParams
  generalize false = optional
  induction Token.commaGroups tokens generalizing optional with
  | nil => exact .ok _
  | cons group groups ih =>
    rw [paramsFrom]
    split
    · exact .error nofun
    · dsimp only
      split
      · exact .error nofun
      · split
        · exact .ok _
        · next e he =>
          exact (he ▸ ih _).of_error

theorem MethodHead.ofText_matched (text : String) (body : List Line) :
    Matched (MethodHead.ofText d n text body) := by
  unfold MethodHead.ofText
  split
  · split
    · refine .bind ?_ fun params => .bind ?_ fun returns => .ok _
      · unfold MethodHead.readSignature
        split
        · exact .ok _
        · split
          · exact readParams_matched d n _
          · exact .error nofun
      · unfold MethodHead.readReturns
        split
        · exact .ok _
        · dsimp only
          split
          · split
            · exact .ok _
            · exact .error nofun
          · exact .error nofun
    · exact .error nofun
  · exact .error nofun

theorem Container.members_matched (name : String) (tokens : List (Nat × Token)) :
    Matched (Container.members d name tokens) := by
  induction tokens with
  | nil => exact .ok _
  | cons t tokens ih =>
    rw [Container.members]
    split
    · split
      · exact .ok _
      · next e he =>
        rw [he] at ih
        exact ih.of_error
    · exact .error nofun

theorem compile_matched (source : String) (accept : CaptureClass) :
    Matched (Pattern.compile source accept n) := by
  unfold Pattern.compile
  dsimp only
  split
  · exact .error nofun
  · split
    · exact .ok _
    · exact .error nofun

theorem Member.rule_matched (c : Class Token) (line : Line) (keyword : String) (overrides : Bool) :
    Matched (Member.rule d c line keyword overrides) := by
  unfold Member.rule
  split
  · exact .error nofun
  · dsimp only
    split
    · exact .error nofun
    · split
      · exact .error nofun
      · split
        · exact .error nofun
        · have hpattern := compile_matched line.number
          split
          · exact .bind (readParams_matched d _ _) fun vars => .bind (hpattern _ _) fun pattern => .ok _
          · exact .bind (.ok _) fun vars => .bind (hpattern _ _) fun pattern => .ok _

theorem Member.addProperty_matched (c : Class Token) (v : Variable) (line : Line) :
    Matched (Member.addProperty c v line) := by
  unfold Member.addProperty
  split
  · exact .error nofun
  · exact .ok _

theorem Member.property_matched (line : Line) (tokens : List Token) :
    Matched (Member.property d line tokens) := by
  unfold Member.property
  dsimp only
  repeat' split
  all_goals first | exact .ok _ | exact .error nofun

theorem Member.addSimple_matched (c : Class Token) (line : Line) (tokens : List Token) :
    Matched (Member.addSimple d c line tokens) := by
  unfold Member.addSimple
  split
  · exact .ok _
  · split
    · unfold Member.addExplicit
      dsimp only
      split
      · exact .error nofun
      · split
        · exact .bind (Member.rule_matched d c line _ _) fun r => .ok _
        · exact .bind (Member.rule_matched d c line _ _) fun r => .ok _
        · split
          · exact .ok _
          · exact .error nofun
        · split
          · exact .ok _
          · exact .error nofun
        · exact .error nofun
    · split
      · split
        · exact Member.addProperty_matched c _ line
        · exact .error nofun
      · exact .error nofun
    · split
      · exact .bind (Member.property_matched d line _) fun v => Member.addProperty_matched c v line
      · exact .error nofun

end Headers

/-- Lines that can be read as a body: orderly ones, or a single line that is no header. -/
def Fit (ls : List Line) : Prop := Orderly ls ∨ ∃ l, ls = [l] ∧ opensConstruct l.text = false

/-- A reader of headers finds the blocks it looks for, and leaves lines of which the same is true. -/
def Settles {α : Type} (P : List Line → Prop) (body : α → List Line)
    (r : Except ParseError α × List Line) : Prop :=
  Matched r.1 ∧ ∀ a, r.1 = .ok a → P (body a) ∧ Orderly r.2

namespace Settles

variable {α : Type} {P : List Line → Prop} {body : α → List Line} {rest : List Line}

theorem error {e : ParseError} (h : e.cause ≠ .unclosedBlock) :
    Settles P body (.error e, rest) := ⟨.error h, nofun⟩

theorem ok {a : α} (hbody : P (body a)) (hrest : Orderly rest) : Settles P body (.ok a, rest) := by
  refine ⟨.ok a, ?_⟩
  rintro a' ⟨⟩
  exact ⟨hbody, hrest⟩

end Settles

namespace Orderly

/-- The text behind a colon of a header without a brace opens nothing. -/
theorem sameLine {header line : Line} {head body : List Char}
    (hopen : Brace.splitOpen (Brace.mark header.text.toList) = none)
    (hcut : Text.cut [':'] (Text.code header.text.toList) = some (head, body))
    (hline : Line.trimmed? header.number body = some line) : Orderly [line] := by
  have happend := Text.cut_append hcut
  obtain ⟨comment, htext⟩ := Text.code_prefix header.text.toList
  have hcomment : ¬['/', '/'] <:+: head := by
    intro hi
    refine Text.not_comment_code header.text.toList (hi.trans ?_)
    exact ⟨[], ':' :: body, by simp [← happend]⟩
  have hturns : Brace.turns header.text.toList =
      Brace.turns (head ++ [':']) ++ Brace.turns (body ++ comment) := by
    rw [← Brace.turns_append_cons (body ++ comment) (by decide) (by decide) hcomment,← htext,← happend]
    simp
  have hbody : ∀ w ∈ Brace.turns body, w ≤ 0 := by
    intro w hw
    have hmem : w ∈ Brace.turns header.text.toList := by
      rw [hturns]
      exact List.mem_append_right _ ((Brace.turns_prefix body comment).subset hw)
    exact Brace.turnsOf_of_splitOpen_none hopen w hmem
  refine ⟨?_, ?_, List.isChain_singleton _⟩
  · intro l hl
    obtain rfl := List.mem_singleton.1 hl
    exact Line.tidy_of_trimmed? hline
  · obtain rfl := Line.trimmed?_some hline
    simpa [Line.turns,Brace.turns_trim] using Brace.Closing.of_forall_le hbody

variable {header : Line} {tail : List Line} (h : Orderly (header :: tail))
include h

/-- The line behind a header that waits for its body. -/
theorem nextLine {next : Line} {later : List Line} (htail : tail = next :: later)
    (hnext : ∀ next later, tail = next :: later → next.text.toList.head? ≠ some '\x7b')
    (hawaits : awaitsBody header.text.toList = true) : Fit [next] ∧ Orderly later := by
  subst htail
  have hlater : Orderly (next :: later) := h.suffix (List.suffix_cons header _)
  refine ⟨?_, hlater.suffix (List.suffix_cons next later)⟩
  have hlead := (List.isChain_cons_cons.1 h.leads).1
  have hheader : header.awaits = true := List.any_eq_true.2 ⟨_, List.mem_cons_self, hawaits⟩
  rcases hlead hheader with hbrace | hclosing | hplain
  · exact absurd hbrace (hnext next later rfl)
  · refine .inl ⟨fun l hl => hlater.tidy l (by simp_all), ?_, List.isChain_singleton _⟩
    simpa [Line.turns] using hclosing
  · exact .inr ⟨next, rfl, hplain⟩

theorem takeBody (construct : String)
    (hawaits : Brace.splitOpen (Brace.mark header.text.toList) = none →
      awaitsBody header.text.toList = true) :
    Settles Fit Prod.snd (takeBody construct header tail) := by
  unfold LineScript.takeBody
  rcases h.find with ⟨b, hb, hbody, hrest⟩ | ⟨hnone, hopen, hnext⟩
  · rw [hb]
    exact .ok (.inl hbody) hrest
  · rw [hnone]
    cases tail with
    | nil => exact .error nofun
    | cons next later =>
      obtain ⟨hfit, hlater⟩ := h.nextLine rfl hnext (hawaits hopen)
      exact .ok hfit hlater

theorem splitStatement (kind : StatementKind)
    (hawaits : Brace.splitOpen (Brace.mark header.text.toList) = none →
      Text.cut [':'] (Text.code header.text.toList) = none → awaitsBody header.text.toList = true) :
    Settles Fit Prod.snd (StatementHead.split kind header tail) := by
  unfold StatementHead.split
  dsimp only
  rcases h.find with ⟨b, hb, hbody, hrest⟩ | ⟨hnone, hopen, hnext⟩
  · rw [hb]
    exact .ok (.inl hbody) hrest
  · rw [hnone]
    have htail : Orderly tail := h.suffix (List.suffix_cons header tail)
    rcases hcut : Text.cut [':'] (Text.code header.text.toList) with _ | ⟨head, body⟩
    · cases tail with
      | nil => exact .error nofun
      | cons next later =>
        obtain ⟨hfit, hlater⟩ := h.nextLine rfl hnext (hawaits hopen hcut)
        exact .ok hfit hlater
    · dsimp only
      split
      · exact .error nofun
      · next line hline =>
        exact .ok (.inl (sameLine hopen hcut hline)) htail

theorem readStatement (d : Declarations) (kind : StatementKind)
    (hawaits : Brace.splitOpen (Brace.mark header.text.toList) = none →
      Text.cut [':'] (Text.code header.text.toList) = none → awaitsBody header.text.toList = true) :
    Settles Fit StatementHead.body (StatementHead.read d kind header tail) := by
  have hsplit := h.splitStatement kind hawaits
  unfold StatementHead.read
  generalize StatementHead.split kind header tail = r at hsplit
  obtain ⟨e | ⟨head, body⟩, rest⟩ := r
  · exact ⟨hsplit.1.of_error, nofun⟩
  · obtain ⟨hbody, hrest⟩ := hsplit.2 _ rfl
    have htokens := tokens_matched d header.number head
    dsimp only
    split
    · next e he => exact ⟨(he ▸ htokens).of_error, nofun⟩
    · split
      · exact .ok hbody hrest
      · split
        · exact .error nofun
        · exact .ok hbody hrest

theorem readMethod (d : Declarations)
    (hawaits : Brace.splitOpen (Brace.mark header.text.toList) = none →
      awaitsBody header.text.toList = true) :
    Settles Fit MethodHead.body (MethodHead.read d header tail) := by
  have htake := h.takeBody "method" hawaits
  unfold MethodHead.read
  generalize LineScript.takeBody "method" header tail = r at htake
  obtain ⟨e | ⟨text, body⟩, rest⟩ := r
  · exact ⟨htake.1.of_error, nofun⟩
  · refine ⟨MethodHead.ofText_matched d header.number text body, fun head hhead => ?_⟩
    rw [MethodHead.body_of_ofText d hhead]
    exact htake.2 _ rfl

theorem readConverter (d : Declarations)
    (hawaits : Brace.splitOpen (Brace.mark header.text.toList) = none →
      awaitsBody header.text.toList = true) :
    Settles Fit ConverterHead.body (ConverterHead.read d header tail) := by
  have htake := h.takeBody "get" hawaits
  unfold ConverterHead.read
  generalize LineScript.takeBody "get" header tail = r at htake
  obtain ⟨e | ⟨text, body⟩, rest⟩ := r
  · exact ⟨htake.1.of_error, nofun⟩
  · obtain ⟨hbody, hrest⟩ := htake.2 _ rfl
    dsimp only
    split
    · split
      · split
        · exact .ok hbody hrest
        · exact .error nofun
      · exact .error nofun
    · exact .error nofun

theorem readClass : Settles Orderly ClassHead.body (ClassHead.read header tail) := by
  unfold ClassHead.read
  rcases h.find with ⟨b, hb, hbody, hrest⟩ | ⟨hnone, -, -⟩
  · rw [hb]
    dsimp only
    split
    · split
      · exact .ok hbody hrest
      · exact .error nofun
    · exact .error nofun
  · rw [hnone]
    exact .error nofun

theorem readContainer (d : Declarations) :
    Settles (fun _ => True) (fun _ => []) (Container.read d header tail) := by
  unfold Container.read
  rcases h.find with ⟨b, hb, -, hrest⟩ | ⟨hnone, -, -⟩
  · rw [hb]
    dsimp only
    split
    · next keyword name _ =>
      split
      · have hmembers := Container.members_matched d name.text (Container.memberTokens b.body)
        generalize Container.members d name.text (Container.memberTokens b.body) = r at hmembers
        cases r with
        | error e => exact ⟨hmembers.of_error, nofun⟩
        | ok names => exact .ok trivial hrest
      · exact .error nofun
    · exact .error nofun
  · rw [hnone]
    exact .error nofun

end Orderly

namespace Parser

/-- What stands at the front finds its blocks, and leaves fit lines. -/
def Construct.Settles : Construct → Prop
  | .settled s => Matched s.result ∧ ∀ row, s.result = .ok row → Orderly s.rest
  | .ofLines body rest _ => Fit body ∧ Orderly rest
  | .ofMembers _ body rest _ => Orderly body ∧ Orderly rest

def Membership.Settles : Membership → Prop
  | .refused e => Matched (.error e : Except ParseError (Class Token))
  | .settled _ rest => Orderly rest
  | .ofLines body rest _ => Fit body ∧ Orderly rest
  | .ofMembers _ body rest _ => Orderly body ∧ Orderly rest

theorem orderly_nil : Orderly [] := ⟨by simp, .nil, List.isChain_nil⟩

theorem Construct.Settles.dropped {p : Parser} {tail : List Line} (h : Orderly tail)
    {r : Except ParseError (Option (Row Token))} (hr : Matched r) :
    Construct.Settles (.settled ⟨p, tail, r⟩) := ⟨hr, fun _ _ => h⟩

/-- A plain line is read as such, whatever stands behind it. -/
theorem settles_tokens {header : Line} {tail : List Line} (p : Parser) (h : Orderly tail) :
    Construct.Settles (match p.declared.tokens header.text header.number with
      | .error e => .settled ⟨p, tail, .error e⟩
      | .ok [] => .settled ⟨p, tail, .ok none⟩
      | .ok tokens => .settled ⟨p, tail, .ok (some ⟨header, tokens⟩)⟩) := by
  have htokens := tokens_matched p.declared header.number header.text
  generalize p.declared.tokens header.text header.number = r at htokens
  rcases r with e | _ | ⟨t, ts⟩
  · exact .dropped h htokens.of_error
  · exact .dropped h (.ok _)
  · exact .dropped h (.ok _)

theorem front_settles {header : Line} {tail : List Line} (h : Fit (header :: tail))
    (hfree : MakeFree (header :: tail)) (p : Parser) : (front p header tail).Settles := by
  have htail : Orderly tail := by
    rcases h with h | ⟨l, hl, -⟩
    · exact h.suffix (List.suffix_cons header tail)
    · obtain ⟨-, rfl⟩ := List.cons.inj hl
      exact orderly_nil
  unfold front
  cases hs : Lexer.split header.text with
  | nil => exact .dropped htail (.ok _)
  | cons first more =>
    have hmake : first ≠ "make" := by
      rintro rfl
      exact hfree header (by simp) (Lexer.infix_of_mem_split (by simp [hs]))
    dsimp only
    rw [if_neg hmake]
    rcases h with h | ⟨l, hl, hplain⟩
    · have hawaits (hopen : Brace.splitOpen (Brace.mark header.text.toList) = none)
          (hheader : (StatementKind.ofKeyword? first).isSome = true ∧
              Text.cut [':'] (Text.code header.text.toList) = none ∨
            declaresMethod (first :: more) = true) : awaitsBody header.text.toList = true := by
        unfold awaitsBody
        rw [String.ofList_toList,hs,hopen]
        rcases hheader with ⟨hkind, hcolon⟩ | hmethod
        · simp [hkind,hcolon]
        · simp [hmethod]
      cases hkind : StatementKind.ofKeyword? first with
      | some kind =>
        have hread := h.readStatement p.declared kind fun hopen hcolon =>
          hawaits hopen (.inl ⟨by rw [hkind]; rfl, hcolon⟩)
        dsimp only
        generalize StatementHead.read p.declared kind header tail = r at hread
        obtain ⟨e | head, rest⟩ := r
        · exact ⟨hread.1.of_error, nofun⟩
        · exact hread.2 head rfl
      | none =>
        dsimp only
        split
        · have hread := h.readClass
          generalize ClassHead.read header tail = r at hread
          obtain ⟨e | head, rest⟩ := r
          · exact ⟨hread.1.of_error, nofun⟩
          · exact hread.2 head rfl
        · split
          · next hmethod =>
            have hread := h.readMethod p.declared fun hopen => hawaits hopen (.inr hmethod)
            generalize MethodHead.read p.declared header tail = r at hread
            obtain ⟨e | head, rest⟩ := r
            · exact ⟨hread.1.of_error, nofun⟩
            · exact hread.2 head rfl
          · split
            · have hread := h.readContainer p.declared
              generalize Container.read p.declared header tail = r at hread
              obtain ⟨e | c, rest⟩ := r
              · exact ⟨hread.1.of_error, nofun⟩
              · exact .dropped (hread.2 c rfl).2 (.ok _)
            · exact settles_tokens p htail
    · obtain ⟨rfl, rfl⟩ := List.cons.inj hl
      simp only [opensConstruct,hs,Bool.or_eq_false_iff,Option.isSome_eq_false_iff,
        Option.isNone_iff_eq_none,beq_eq_false_iff_ne] at hplain
      obtain ⟨⟨⟨hkind, hclass⟩, hmethod⟩, hcontainer⟩ := hplain
      simp only [hkind,hclass,hmethod,hcontainer,Bool.false_eq_true,if_false]
      exact settles_tokens p htail

theorem memberFront_settles {line : Line} {tail : List Line} (h : Orderly (line :: tail))
    (p : Parser) (c : Class Token) : (memberFront p c line tail).Settles := by
  have htail : Orderly tail := h.suffix (List.suffix_cons line tail)
  unfold memberFront
  dsimp only
  split
  · exact htail
  · next htokens =>
    have hawaits (hopen : Brace.splitOpen (Brace.mark line.text.toList) = none)
        (hheader : declaresMethod (Lexer.split line.text) = true ∨
          (Token.codeOfText line.text).head?.map Token.kind = some .get) :
        awaitsBody line.text.toList = true := by
      unfold awaitsBody
      rw [String.ofList_toList,hopen]
      cases hs : Lexer.split line.text with
      | nil => simp [Token.codeOfText,Token.ofText,hs] at htokens
      | cons first more =>
        rcases hheader with hmethod | hget
        · rw [hs] at hmethod
          simp [hmethod]
        · simp [hget]
    split
    · have hread := h.readClass
      generalize ClassHead.read line tail = r at hread
      obtain ⟨e | head, rest⟩ := r
      · exact hread.1.of_error
      · exact hread.2 head rfl
    · split
      · next hmethod =>
        have hread := h.readMethod p.declared fun hopen => hawaits hopen (.inl hmethod)
        generalize MethodHead.read p.declared line tail = r at hread
        obtain ⟨e | head, rest⟩ := r
        · exact hread.1.of_error
        · exact hread.2 head rfl
      · split
        · next hget =>
          have hread := h.readConverter p.declared fun hopen => hawaits hopen (.inr hget)
          generalize ConverterHead.read p.declared line tail = r at hread
          obtain ⟨e | head, rest⟩ := r
          · exact hread.1.of_error
          · exact hread.2 head rfl
        · have hsimple := Member.addSimple_matched p.declared c line (Token.codeOfText line.text)
          generalize Member.addSimple p.declared c line (Token.codeOfText line.text) = r at hsimple
          cases r with
          | error e => exact hsimple
          | ok c' => exact htail

/-- With this fuel, reading fit lines comes upon no block without an end. -/
structure MatchesWith (fuel : Nat) : Prop where
  nextLine : ∀ {p : Parser} {ls : List Line} {s : Step}, Fit ls → MakeFree ls →
    nextLine fuel p ls = some s → Matched s.result ∧ ∀ row, s.result = .ok row → Orderly s.rest
  parseLines : ∀ {p q : Parser} {ls : List Line} {r : Except ParseError (List (Row Token))},
    Fit ls → MakeFree ls → parseLines fuel p ls = some (q, r) → Matched r
  parseMembers : ∀ {p q : Parser} {c : Class Token} {ls : List Line}
    {r : Except ParseError (Class Token)}, Orderly ls → MakeFree ls →
    parseMembers fuel p c ls = some (q, r) → Matched r

namespace MatchesWith

variable {fuel : Nat} (ih : MatchesWith fuel) {p q : Parser} {ls : List Line}
include ih

theorem nextLine_succ {s : Step} (hfit : Fit ls) (hfree : MakeFree ls)
    (h : Parser.nextLine (fuel + 1) p ls = some s) :
    Matched s.result ∧ ∀ row, s.result = .ok row → Orderly s.rest := by
  cases ls with
  | nil =>
    obtain rfl := Option.some.inj h
    exact ⟨.ok _, fun _ _ => orderly_nil⟩
  | cons header tail =>
    have hfront := front_settles hfit hfree p
    have hcut := front_consumes hfree p
    have hclose {α : Type} {q : Parser} {rest : List Line} {finish : Parser → α → Parser × Row Token}
        {r : Except ParseError α} (hr : Matched r) (hrest : Orderly rest) :
        Matched (Step.close rest finish (q, r)).result ∧
          ∀ row, (Step.close rest finish (q, r)).result = .ok row →
            Orderly (Step.close rest finish (q, r)).rest := by
      cases r with
      | error e => exact ⟨hr.of_error, nofun⟩
      | ok a => exact ⟨.ok _, fun _ _ => hrest⟩
    rw [nextLine_cons] at h
    cases hf : front p header tail with
    | settled t =>
      rw [hf] at h hfront
      obtain rfl := Option.some.inj h
      exact hfront
    | ofLines body rest finish =>
      rw [hf] at h hfront hcut
      obtain ⟨⟨q, r⟩, hr, rfl⟩ := Option.map_eq_some_iff.1 h
      exact hclose (ih.parseLines hfront.1 (hfree.of_within hcut.within) hr) hfront.2
    | ofMembers start body rest finish =>
      rw [hf] at h hfront hcut
      obtain ⟨⟨q, r⟩, hr, rfl⟩ := Option.map_eq_some_iff.1 h
      exact hclose (ih.parseMembers hfront.1 (hfree.of_within hcut.within) hr) hfront.2

theorem parseLines_succ {r : Except ParseError (List (Row Token))} (hfit : Fit ls)
    (hfree : MakeFree ls) (h : Parser.parseLines (fuel + 1) p ls = some (q, r)) : Matched r := by
  cases ls with
  | nil =>
    obtain ⟨-, rfl⟩ := Prod.mk.inj (Option.some.inj h)
    exact .ok _
  | cons l ls =>
    rw [Parser.parseLines] at h
    cases hn : Parser.nextLine fuel p (l :: ls) with
    | none => simp [hn] at h
    | some s =>
      obtain ⟨hresult, hrest⟩ := ih.nextLine hfit hfree hn
      have hleft := (nextLine_left hfree hn).1
      rw [hn] at h
      obtain ⟨q', rest, e | row⟩ := s
      · obtain ⟨-, rfl⟩ := Prod.mk.inj (Option.some.inj h)
        exact hresult.of_error
      · rcases hl : Parser.parseLines fuel q' rest with _ | ⟨q'', r'⟩
        · simp [hl] at h
        · have hr' : Matched r' := ih.parseLines (.inl (hrest row rfl))
            (hfree.of_within fun l hl => hleft.within hl) hl
          simp only [hl] at h
          cases r' with
          | error e =>
            obtain ⟨-, rfl⟩ := Prod.mk.inj (Option.some.inj h)
            exact hr'
          | ok rows =>
            obtain ⟨-, rfl⟩ := Prod.mk.inj (Option.some.inj h)
            exact .ok _

theorem parseMembers_succ {c : Class Token} {r : Except ParseError (Class Token)}
    (horder : Orderly ls) (hfree : MakeFree ls)
    (h : Parser.parseMembers (fuel + 1) p c ls = some (q, r)) : Matched r := by
  cases ls with
  | nil =>
    obtain ⟨-, rfl⟩ := Prod.mk.inj (Option.some.inj h)
    exact .ok _
  | cons line tail =>
    have hfront := memberFront_settles horder p c
    have hcut := memberFront_consumes p c line tail
    rw [parseMembers_cons] at h
    cases hf : memberFront p c line tail with
    | refused e =>
      rw [hf] at h hfront
      obtain ⟨-, rfl⟩ := Prod.mk.inj (Option.some.inj h)
      exact hfront
    | settled c' rest =>
      rw [hf] at h hfront hcut
      exact ih.parseMembers hfront (hfree.of_within fun l hl => hcut.1.within hl) h
    | ofLines body rest finish =>
      rw [hf] at hfront hcut
      have hrest := hfree.of_within fun l hl => hcut.left.within hl
      simp only [hf,Membership.run] at h
      rcases hl : Parser.parseLines fuel p body with _ | ⟨q', e | rows⟩
      · simp [hl] at h
      · simp only [hl] at h
        obtain ⟨-, rfl⟩ := Prod.mk.inj (Option.some.inj h)
        exact (ih.parseLines hfront.1 (hfree.of_within hcut.within) hl).of_error
      · simp only [hl] at h
        exact ih.parseMembers hfront.2 hrest h
    | ofMembers start body rest finish =>
      rw [hf] at hfront hcut
      have hrest := hfree.of_within fun l hl => hcut.left.within hl
      simp only [hf,Membership.run] at h
      rcases hl : Parser.parseMembers fuel p start body with _ | ⟨q', e | nested⟩
      · simp [hl] at h
      · simp only [hl] at h
        obtain ⟨-, rfl⟩ := Prod.mk.inj (Option.some.inj h)
        exact ih.parseMembers hfront.1 (hfree.of_within hcut.within) hl
      · simp only [hl] at h
        exact ih.parseMembers hfront.2 hrest h

end MatchesWith

theorem matchesWith (fuel : Nat) : MatchesWith fuel := by
  induction fuel with
  | zero => exact ⟨nofun, nofun, nofun⟩
  | succ fuel ih => exact ⟨ih.nextLine_succ, ih.parseLines_succ, ih.parseMembers_succ⟩

end Parser

/-- The turns of a source, line by line. -/
def Brace.turnsOfSource (source : String) : List Int :=
  (Text.pieces '\n' source.toList).flatMap Brace.turns

theorem Brace.isComplete_iff (source : String) :
    Brace.isComplete source = true ↔ (Brace.turnsOfSource source).sum ≤ 0 := by
  have hsum (texts : List (List Char)) :
      texts.foldr (fun l n => balance (mark l) + n) 0 = (texts.flatMap Brace.turns).sum := by
    induction texts with
    | nil => rfl
    | cons t texts ih =>
      rw [List.foldr_cons,ih,List.flatMap_cons,List.sum_append,Brace.turns,sum_turnsOf]
  simp only [isComplete,turnsOfSource,hsum,decide_eq_true_eq]

namespace Line

theorem tidy_of_mem_ofTexts {n : Nat} {texts : List (List Char)} {l : Line}
    (h : l ∈ ofTexts n texts) : l.Tidy := by
  induction texts generalizing n with
  | nil => cases h
  | cons t texts ih =>
    rw [ofTexts] at h
    split at h
    · exact ih h
    · next ht =>
      rcases List.mem_cons.1 h with rfl | h
      · have hline : trimmed? n t = some ⟨n, String.ofList (Text.trim t)⟩ := by simp [trimmed?,ht]
        exact tidy_of_trimmed? hline
      · exact ih h

/-- A line without any character left has no brace. -/
theorem turns_ofTexts (n : Nat) (texts : List (List Char)) :
    turns (ofTexts n texts) = texts.flatMap Brace.turns := by
  induction texts generalizing n with
  | nil => rfl
  | cons t texts ih =>
    rw [ofTexts,List.flatMap_cons,← Brace.turns_trim t]
    split
    · next ht =>
      rw [List.isEmpty_iff.1 ht,ih]
      rfl
    · rw [turns_cons,ih,String.toList_ofList]

end Line

theorem Orderly.ofSource {source : String} (h : Brace.Balanced (Brace.turnsOfSource source))
    (hleads : (Line.ofSource source).IsChain Line.Leads) : Orderly (Line.ofSource source) where
  tidy _ hl := Line.tidy_of_mem_ofTexts hl
  closing := by
    rw [Line.ofSource,Line.turns_ofTexts]
    exact h.closing
  leads := hleads

namespace Parser

/-- A balanced source is complete, and reading it ends without a report of a block that is never closed. -/
theorem balanced_never_unclosed (p : Parser) (source : String)
    (hfree : ¬"make".toList <:+: source.toList)
    (hbalanced : Brace.Balanced (Brace.turnsOfSource source))
    (hleads : (Line.ofSource source).IsChain Line.Leads) :
    Brace.isComplete source = true ∧
      ∀ fuel, 2 * Line.total (Line.ofSource source) + 1 < fuel →
        ∃ q r, p.parseWith fuel source = some (q, r) ∧
          ∀ line, r ≠ .error ⟨line, .unclosedBlock⟩ := by
  refine ⟨(Brace.isComplete_iff source).2 (Int.le_of_eq hbalanced.settled), fun fuel hfuel => ?_⟩
  have hfit : Fit (Line.ofSource source) := .inl (.ofSource hbalanced hleads)
  obtain ⟨q, r, hr⟩ := (endsWith fuel).parseLines (p := p) (.ofSource hfree) hfuel
  have hmatched := (matchesWith fuel).parseLines hfit (.ofSource hfree) hr
  rw [parseWith,hr]
  cases r with
  | error e => exact ⟨q, .error e, rfl, hmatched.of_error⟩
  | ok rows => exact ⟨_, _, rfl, nofun⟩

/-- Braces behind a backslash and in a comment, a body on the next line, and one on the same line. -/
def nestedSource : String :=
  "if a \x7b\nwhile b // \x7b\n\\\x7b x\n\x7d y\nmethod f\nif c \x7b z \x7d"

theorem balanced_never_unclosed_nested :
    ¬"make".toList <:+: nestedSource.toList ∧
      Brace.turnsOfSource nestedSource = [1, -1, 1, -1] ∧
      Brace.Balanced (Brace.turnsOfSource nestedSource) ∧
      (Line.ofSource nestedSource).IsChain Line.Leads ∧
      Brace.isComplete nestedSource = true ∧
      ∃ q r, empty.parseWith 200 nestedSource = some (q, r) ∧
        ∀ line, r ≠ .error ⟨line, .unclosedBlock⟩ := by
  have hfree : ¬"make".toList <:+: nestedSource.toList := by decide +kernel
  have hbalanced : Brace.Balanced (Brace.turnsOfSource nestedSource) := by decide +kernel
  have hleads : (Line.ofSource nestedSource).IsChain Line.Leads := by decide +kernel
  obtain ⟨hcomplete, hends⟩ := balanced_never_unclosed empty nestedSource hfree hbalanced hleads
  exact ⟨hfree, by decide +kernel, hbalanced, hleads, hcomplete, hends 200 (by decide +kernel)⟩

/-- The outer header takes the first line of the inner block as its body, and not the block. -/
theorem unclosed_after_waiting_header :
    let source := "if a\nif b \x7b\nx\n\x7d"
    ¬"make".toList <:+: source.toList ∧ Brace.Balanced (Brace.turnsOfSource source) ∧
      Brace.isComplete source = true ∧
      (empty.parseWith 40 source).map Prod.snd = some (.error ⟨2, .unclosedBlock⟩) := by
  intro source
  have hrun : ((empty.parseWith 40 source).bind fun r =>
      match r.2 with
      | .error e => some e
      | .ok _ => none) = some ⟨2, .unclosedBlock⟩ := by decide +kernel
  obtain ⟨⟨q, r⟩, hr, he⟩ := Option.bind_eq_some_iff.1 hrun
  refine ⟨by decide +kernel, by decide +kernel, by decide +kernel, ?_⟩
  cases r with
  | ok program => cases he
  | error e =>
    obtain rfl : e = ⟨2, .unclosedBlock⟩ := Option.some.inj he
    rw [hr]
    rfl

end Parser

end LineScript
