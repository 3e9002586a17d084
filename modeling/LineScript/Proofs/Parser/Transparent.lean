import LineScript.Proofs.Parser.Fuel
import LineScript.Proofs.Parser.Noted
set_option autoImplicit false

/-!
Reading goes through noted lines as it goes through the lines without the note. One step finds the same
construct at the front of both, and where a note has become a line of its own, it takes one step more; so
twice the fuel reads the whole.
-/

namespace LineScript

open Text (IsRemark)

namespace Line

variable {n : Nat} {l l' : Line}

theorem Ends.bare (h : Ends n l l') : l'.bare n = l.bare n := by
  cases h with
  | same => rfl
  | note => simp [Line.bare]

theorem Ends.bareText (h : Ends n l l') :
    (if l.number = n then "" else l'.text) = if l.number = n then "" else l.text := by
  cases h with
  | same => rfl
  | note => simp

end Line

theorem not_isRemark {s : String} (h : s.toList.head? ≠ some '/') : ¬IsRemark s := by
  rintro ⟨x, hx⟩
  exact h (by rw [hx]; rfl)

theorem StatementKind.ofKeyword?_remark {s : String} (h : IsRemark s) : ofKeyword? s = none := by
  refine List.find?_eq_none.2 fun k _ hk => ?_
  rw [beq_iff_eq] at hk
  have hno : ¬IsRemark k.keyword := by cases k <;> exact not_isRemark (by decide)
  exact hno (hk ▸ h)

theorem declares_append_remarks {keyword : String} {modifiers remark : List String}
    (hkeyword : ¬IsRemark keyword) (hmodifiers : ∀ m ∈ modifiers, ¬IsRemark m)
    (hremark : ∀ r ∈ remark, IsRemark r) (parts : List String) :
    declares keyword modifiers (parts ++ remark) = declares keyword modifiers parts := by
  induction parts with
  | nil =>
    cases remark with
    | nil => rfl
    | cons r remark =>
      have hr := hremark r (by simp)
      have hk : (r == keyword) = false := beq_eq_false_iff_ne.2 fun heq => hkeyword (heq ▸ hr)
      have hm : modifiers.contains r = false := by
        rw [List.contains_eq_mem]
        exact decide_eq_false fun hmem => hmodifiers r hmem hr
      simp only [List.nil_append,declares,hk,hm,Bool.false_and,Bool.or_false]
  | cons part parts ih => simp only [List.cons_append,declares,ih]

theorem declaresClass_append_remarks {remark : List String} (h : ∀ r ∈ remark, IsRemark r)
    (parts : List String) : declaresClass (parts ++ remark) = declaresClass parts := by
  have hmodifiers : ∀ m ∈ ["static", "semi", "ontop"], m.toList.head? ≠ some '/' := by decide
  exact declares_append_remarks (not_isRemark (by decide))
    (fun m hm => not_isRemark (hmodifiers m hm)) h parts

theorem declaresMethod_append_remarks {remark : List String} (h : ∀ r ∈ remark, IsRemark r)
    (parts : List String) : declaresMethod (parts ++ remark) = declaresMethod parts := by
  have hmodifiers : ∀ m ∈ ["static", "nocol"], m.toList.head? ≠ some '/' := by decide
  exact declares_append_remarks (not_isRemark (by decide))
    (fun m hm => not_isRemark (hmodifiers m hm)) h parts

section Building

variable {n : Nat} {rows rows' : List (Row Token)}

theorem MethodHead.bare_build (head : MethodHead) (body' : List Line) (line : Nat)
    (h : rows'.map (bareRow n) = rows.map (bareRow n)) :
    bareMethod n (build { head with body := body' } line rows') = bareMethod n (head.build line rows) := by
  simp only [bareMethod_eq,build,h]

theorem ConverterHead.bare_build (head : ConverterHead) (body' : List Line) (line : Nat)
    (h : rows'.map (bareRow n) = rows.map (bareRow n)) :
    bareConverter n (build ⟨head.type, body'⟩ line rows') = bareConverter n (head.build line rows) := by
  simp only [bareConverter,build,bareMethod_eq,h]

end Building

namespace Parser

variable {n : Nat} {p p' : Parser} {c c' : Class Token} {header header' : Line} {tail tail' : List Line}

section Remarks

/-- A line of comments is passed over. -/
theorem front_remarks (h : ∀ r ∈ Lexer.split header.text, IsRemark r) (p : Parser) (tail : List Line) :
    front p header tail = .settled ⟨p, tail, .ok none⟩ := by
  have hclass : declaresClass (Lexer.split header.text) = false := declaresClass_append_remarks h []
  have hmethod : declaresMethod (Lexer.split header.text) = false := declaresMethod_append_remarks h []
  unfold front
  cases hs : Lexer.split header.text with
  | nil => rfl
  | cons first more =>
    have hfirst : IsRemark first := h first (by simp [hs])
    have hmake : first ≠ "make" := by
      rintro rfl
      exact not_isRemark (by decide) hfirst
    have hcontainer : first ≠ "container" := by
      rintro rfl
      exact not_isRemark (by decide) hfirst
    rw [hs] at hclass hmethod
    simp [hmake,hcontainer,hclass,hmethod,StatementKind.ofKeyword?_remark hfirst,
      Declarations.tokens_remarks p.declared header.number h]

theorem memberFront_remarks (h : ∀ r ∈ Lexer.split header.text, IsRemark r) (p : Parser)
    (c : Class Token) (tail : List Line) : memberFront p c header tail = .settled c tail := by
  unfold memberFront
  simp [Token.codeOfText_remarks h]

end Remarks

/-- What is made of two bodies that differ in raw texts only differs in raw texts only. -/
def Finishes {α β : Type} (n : Nat) (f : α → α) (g : β → β) (finish finish' : Parser → α → Parser × β) :
    Prop :=
  ∀ q q' a a', q'.bare n = q.bare n → f a' = f a →
    (finish' q' a').1.bare n = (finish q a).1.bare n ∧ g (finish' q' a').2 = g (finish q a).2

/-- The constructs at the front of lines with and without a note. -/
inductive Construct.Noted (n : Nat) : Construct → Construct → Prop where
  | refused {q : Parser} {rest : List Line} {e : ParseError} {f : Construct} :
    Noted n (.settled ⟨q, rest, .error e⟩) f
  | settled {q q' : Parser} {rest rest' : List Line} {row row' : Option (Row Token)} :
    q'.bare n = q.bare n → NotedLines n rest rest' → row'.map (bareRow n) = row.map (bareRow n) →
    Noted n (.settled ⟨q, rest, .ok row⟩) (.settled ⟨q', rest', .ok row'⟩)
  | ofLines {body body' rest rest' : List Line}
    {finish finish' : Parser → List (Row Token) → Parser × Row Token} :
    NotedLines n body body' → NotedLines n rest rest' →
    Finishes n (List.map (bareRow n)) (bareRow n) finish finish' →
    Noted n (.ofLines body rest finish) (.ofLines body' rest' finish')
  | ofMembers {start : Class Token} {body body' rest rest' : List Line}
    {finish finish' : Parser → Class Token → Parser × Row Token} :
    NotedLines n body body' → NotedLines n rest rest' →
    Finishes n (bareClass n) (bareRow n) finish finish' →
    Noted n (.ofMembers start body rest finish) (.ofMembers start body' rest' finish')

/-- The members at the front of lines with and without a note. -/
inductive Membership.Noted (n : Nat) : Membership → Membership → Prop where
  | refused {e : ParseError} {f : Membership} : Noted n (.refused e) f
  | settled {c c' : Class Token} {rest rest' : List Line} :
    bareClass n c' = bareClass n c → NotedLines n rest rest' →
    Noted n (.settled c rest) (.settled c' rest')
  | ofLines {body body' rest rest' : List Line}
    {finish finish' : Parser → List (Row Token) → Parser × Class Token} :
    NotedLines n body body' → NotedLines n rest rest' →
    Finishes n (List.map (bareRow n)) (bareClass n) finish finish' →
    Noted n (.ofLines body rest finish) (.ofLines body' rest' finish')
  | ofMembers {start : Class Token} {body body' rest rest' : List Line}
    {finish finish' : Parser → Class Token → Parser × Class Token} :
    NotedLines n body body' → NotedLines n rest rest' →
    Finishes n (bareClass n) (bareClass n) finish finish' →
    Noted n (.ofMembers start body rest finish) (.ofMembers start body' rest' finish')

section Fronts

theorem front_noted (hfree : MakeFree (header :: tail)) (hp : p'.bare n = p.bare n)
    (hh : header.Noted n header') (ht : List.Forall₂ (Line.Noted n) tail tail') :
    (front p header tail).Noted n (front p' header' tail') := by
  have hd : p.declared.Agree p'.declared := Declarations.agree_of_bare (congrArg Parser.declared hp)
  have hrow (ts : List Token) : bareRow n ⟨header', ts⟩ = bareRow n ⟨header, ts⟩ := by
    simp only [bareRow,hh.1.bare]
  obtain ⟨parts, remark, remark', hs, hs', hr, hr'⟩ := Lexer.split_note hh.1.notes
  cases parts with
  | nil =>
    -- No code on the line: the note may be its first part, or go into the comment that is.
    rw [front_remarks (hs ▸ hr),front_remarks (hs' ▸ hr')]
    exact .settled hp (.lines ht) rfl
  | cons first parts =>
    have hmake : first ≠ "make" := by
      rintro rfl
      exact hfree header (by simp) (Lexer.infix_of_mem_split (by simp [hs]))
    have hclass := declaresClass_append_remarks hr (first :: parts)
    have hclass' := declaresClass_append_remarks hr' (first :: parts)
    have hmethod := declaresMethod_append_remarks hr (first :: parts)
    have hmethod' := declaresMethod_append_remarks hr' (first :: parts)
    rw [List.cons_append] at hs hs' hclass hclass' hmethod hmethod'
    unfold front
    simp only [hs,hs',hclass,hclass',hmethod,hmethod',if_neg hmake]
    cases StatementKind.ofKeyword? first with
    | some kind =>
      dsimp only
      rcases hread : StatementHead.read p.declared kind header tail with ⟨e | head, rest⟩
      · exact .refused
      · obtain ⟨body', rest', hread', hbody, hrest⟩ := StatementHead.read_noted hd hh ht hread
        rw [hread']
        refine .ofLines hbody hrest fun q q' rows rows' hq hrows => ⟨hq, ?_⟩
        simp only [bareRow,bareTokens,bareToken,bareStatement,bareRows_eq,hh.1.bare,hh.1.bareText,
          hh.1.number,hrows]
    | none =>
      dsimp only
      split
      · rcases hread : ClassHead.read header tail with ⟨e | head, rest⟩
        · exact .refused
        · obtain ⟨body', rest', hread', hbody, hrest⟩ := ClassHead.read_noted hh ht hread
          rw [hread']
          refine .ofMembers hbody hrest fun q q' c c' hq hc => ⟨?_, ?_⟩
          · rw [bare_registerClass,bare_registerClass,hq,hc]
          · simp only [bareRow,bareTokens,bareToken,hh.1.bare,hc]
      · split
        · rcases hread : MethodHead.read p.declared header tail with ⟨e | head, rest⟩
          · exact .refused
          · obtain ⟨body', rest', hread', hbody, hrest⟩ := MethodHead.read_noted hd hh ht hread
            rw [hread']
            refine .ofLines hbody hrest fun q q' rows rows' hq hrows => ?_
            have hbuild := head.bare_build body' header.number hrows
            rw [hh.1.number]
            refine ⟨?_, ?_⟩
            · rw [bare_registerMethod,bare_registerMethod,hq,hbuild]
            · simp only [bareRow,bareTokens,bareToken,hh.1.bare,hbuild]
        · split
          · rcases hread : Container.read p.declared header tail with ⟨e | c, rest⟩
            · exact .refused
            · obtain ⟨rest', hread', hrest⟩ := Container.read_noted hd hh ht hread
              rw [hread']
              refine .settled ?_ hrest (congrArg some (hrow _))
              rw [bare_registerContainer,bare_registerContainer,hp]
          · cases htok : p.declared.tokens header.text header.number with
            | error e => exact .refused
            | ok tokens =>
              have htok' : p'.declared.tokens header'.text header'.number = .ok tokens := by
                rw [hd.tokens,hh.1.number]
                exact Declarations.tokens_note hh.1.notes htok
              rw [htok']
              cases tokens with
              | nil => exact .settled hp (.lines ht) rfl
              | cons t ts => exact .settled hp (.lines ht) (congrArg some (hrow _))

theorem memberFront_noted (hp : p'.bare n = p.bare n) (hc : bareClass n c' = bareClass n c)
    (hh : header.Noted n header') (ht : List.Forall₂ (Line.Noted n) tail tail') :
    (memberFront p c header tail).Noted n (memberFront p' c' header' tail') := by
  have hd : p.declared.Agree p'.declared := Declarations.agree_of_bare (congrArg Parser.declared hp)
  have htokens := Token.codeOfText_note hh.1.notes
  obtain ⟨parts, remark, remark', hs, hs', hr, hr'⟩ := Lexer.split_note hh.1.notes
  have hclass := declaresClass_append_remarks hr parts
  have hclass' := declaresClass_append_remarks hr' parts
  have hmethod := declaresMethod_append_remarks hr parts
  have hmethod' := declaresMethod_append_remarks hr' parts
  unfold memberFront
  simp only [hs,hs',hclass,hclass',hmethod,hmethod',htokens]
  split
  · exact .settled hc (.lines ht)
  · split
    · rcases hread : ClassHead.read header tail with ⟨e | head, rest⟩
      · exact .refused
      · obtain ⟨body', rest', hread', hbody, hrest⟩ := ClassHead.read_noted hh ht hread
        rw [hread']
        refine .ofMembers hbody hrest fun q q' k k' hq hk => ⟨?_, ?_⟩
        · rw [bare_registerClass,bare_registerClass,hq,hk]
        · simp only [bareClass_eq,Class.mk.injEq] at hc ⊢
          simp [hc,hk]
    · split
      · rcases hread : MethodHead.read p.declared header tail with ⟨e | head, rest⟩
        · exact .refused
        · obtain ⟨body', rest', hread', hbody, hrest⟩ := MethodHead.read_noted hd hh ht hread
          rw [hread']
          refine .ofLines hbody hrest fun q q' rows rows' hq hrows => ?_
          have hbuild := head.bare_build body' header.number hrows
          obtain ⟨hparser, hclass⟩ := bare_addMethod n q c (head.build header.number rows)
          rw [← hq,← hc,← hbuild] at hparser hclass
          rw [hparser,hclass,hh.1.number]
          exact bare_addMethod n q' c' _
      · split
        · rcases hread : ConverterHead.read p.declared header tail with ⟨e | head, rest⟩
          · exact .refused
          · obtain ⟨body', rest', hread', hbody, hrest⟩ := ConverterHead.read_noted hd hh ht hread
            rw [hread']
            refine .ofLines hbody hrest fun q q' rows rows' hq hrows => ⟨hq, ?_⟩
            have hbuild := head.bare_build body' header.number hrows
            simp only [bareClass_eq,Class.mk.injEq,hh.1.number] at hc ⊢
            simp [hc,hbuild]
        · cases hadd : Member.addSimple p.declared c header (Token.codeOfText header.text) with
          | error e => exact .refused
          | ok e =>
            obtain ⟨e', hadd', hbare⟩ := Member.addSimple_noted hd hh hc hadd
            rw [htokens] at hadd'
            rw [hadd']
            exact .settled hbare (.lines ht)

end Fronts

/-- What is read well from lines with the fuel `k` is read from the noted lines with the fuel `m`, up to
raw texts. -/
structure Transparent (n k m : Nat) : Prop where
  nextLine : ∀ {p p' q : Parser} {ls ls' rest : List Line} {row : Option (Row Token)}, MakeFree ls →
    p'.bare n = p.bare n → List.Forall₂ (Line.Noted n) ls ls' →
    nextLine k p ls = some ⟨q, rest, .ok row⟩ →
    ∃ q' rest' row', nextLine m p' ls' = some ⟨q', rest', .ok row'⟩ ∧ q'.bare n = q.bare n ∧
      NotedLines n rest rest' ∧ row'.map (bareRow n) = row.map (bareRow n)
  parseLines : ∀ {p p' q : Parser} {ls ls' : List Line} {rows : List (Row Token)}, MakeFree ls →
    p'.bare n = p.bare n → NotedLines n ls ls' → parseLines k p ls = some (q, .ok rows) →
    ∃ q' rows', parseLines m p' ls' = some (q', .ok rows') ∧ q'.bare n = q.bare n ∧
      rows'.map (bareRow n) = rows.map (bareRow n)
  parseMembers : ∀ {p p' q : Parser} {c c' e : Class Token} {ls ls' : List Line}, MakeFree ls →
    p'.bare n = p.bare n → bareClass n c' = bareClass n c → NotedLines n ls ls' →
    parseMembers k p c ls = some (q, .ok e) →
    ∃ q' e', parseMembers m p' c' ls' = some (q', .ok e') ∧ q'.bare n = q.bare n ∧
      bareClass n e' = bareClass n e

namespace Transparent

variable {k m : Nat} (ih : Transparent n k m) {q : Parser} {e : Class Token} {ls ls' : List Line}
include ih

theorem nextLine_succ {rest : List Line} {row : Option (Row Token)} (hfree : MakeFree ls)
    (hp : p'.bare n = p.bare n) (hls : List.Forall₂ (Line.Noted n) ls ls')
    (h : Parser.nextLine (k + 1) p ls = some ⟨q, rest, .ok row⟩) :
    ∃ q' rest' row', Parser.nextLine (m + 1) p' ls' = some ⟨q', rest', .ok row'⟩ ∧
      q'.bare n = q.bare n ∧ NotedLines n rest rest' ∧ row'.map (bareRow n) = row.map (bareRow n) := by
  cases hls with
  | nil =>
    obtain ⟨rfl, rfl, rfl⟩ : p = q ∧ [] = rest ∧ none = row := by simpa [Parser.nextLine] using h
    exact ⟨p', [], none, rfl, hp, .lines .nil, rfl⟩
  | @cons header header' tail tail' hh ht =>
    have hconsumes := front_consumes hfree p
    have hnoted := front_noted hfree hp hh ht
    rw [nextLine_cons] at h ⊢
    generalize front p header tail = f at h hconsumes hnoted
    generalize front p' header' tail' = f' at hnoted
    cases hnoted with
    | refused => simp [Construct.run] at h
    | @settled r r' left left' row₀ row₀' hr hleft hrow =>
      obtain ⟨rfl, rfl, rfl⟩ : r = q ∧ left = rest ∧ row₀ = row := by simpa [Construct.run] using h
      exact ⟨r', left', row₀', rfl, hr, hleft, hrow⟩
    | @ofLines body body' left left' finish finish' hbody hleft hfinish =>
      obtain ⟨⟨r, e | rows⟩, hr, hclose⟩ := Option.map_eq_some_iff.1 h
      · simp [Step.close] at hclose
      · obtain ⟨r', rows', hr', hbare, hrows⟩ :=
          ih.parseLines (hfree.of_within hconsumes.within) hp hbody hr
        obtain ⟨rfl, rfl, rfl⟩ : (finish r rows).1 = q ∧ left = rest ∧ some (finish r rows).2 = row := by
          simpa [Step.close] using hclose
        obtain ⟨hq, hrow⟩ := hfinish r r' rows rows' hbare hrows
        exact ⟨_, left', some (finish' r' rows').2, by simp [Construct.run,hr',Step.close], hq, hleft,
          congrArg some hrow⟩
    | @ofMembers start body body' left left' finish finish' hbody hleft hfinish =>
      obtain ⟨⟨r, e | d⟩, hr, hclose⟩ := Option.map_eq_some_iff.1 h
      · simp [Step.close] at hclose
      · obtain ⟨r', d', hr', hbare, hd⟩ :=
          ih.parseMembers (hfree.of_within hconsumes.within) hp rfl hbody hr
        obtain ⟨rfl, rfl, rfl⟩ : (finish r d).1 = q ∧ left = rest ∧ some (finish r d).2 = row := by
          simpa [Step.close] using hclose
        obtain ⟨hq, hrow⟩ := hfinish r r' d d' hbare hd
        exact ⟨_, left', some (finish' r' d').2, by simp [Construct.run,hr',Step.close], hq, hleft,
          congrArg some hrow⟩

theorem parseLines_succ {rows : List (Row Token)} (hfree : MakeFree ls) (hp : p'.bare n = p.bare n)
    (hls : List.Forall₂ (Line.Noted n) ls ls')
    (h : Parser.parseLines (k + 1) p ls = some (q, .ok rows)) :
    ∃ q' rows', Parser.parseLines (m + 1) p' ls' = some (q', .ok rows') ∧ q'.bare n = q.bare n ∧
      rows'.map (bareRow n) = rows.map (bareRow n) := by
  cases hls with
  | nil =>
    obtain ⟨rfl, rfl⟩ : p = q ∧ [] = rows := by simpa [Parser.parseLines] using h
    exact ⟨p', [], rfl, hp, rfl⟩
  | @cons header header' tail tail' hh ht =>
    rw [Parser.parseLines] at h ⊢
    rcases hn : Parser.nextLine k p (header :: tail) with _ | ⟨r, rest, e | row⟩
    · simp [hn] at h
    · simp [hn] at h
    · obtain ⟨r', rest', row', hn', hr, hrest, hrow⟩ := ih.nextLine hfree hp (.cons hh ht) hn
      have hleft := (nextLine_left hfree hn).1
      simp only [hn] at h
      simp only [hn']
      rcases hl : Parser.parseLines k r rest with _ | ⟨t, e | more⟩
      · simp [hl] at h
      · simp [hl] at h
      · obtain ⟨t', more', hl', ht, hmore⟩ :=
          ih.parseLines (hfree.of_within fun l hl => hleft.within hl) hr hrest hl
        obtain ⟨rfl, rfl⟩ : t = q ∧ row.toList ++ more = rows := by simpa [hl] using h
        refine ⟨t', row'.toList ++ more', by simp [hl'], ht, ?_⟩
        rw [List.map_append,List.map_append,hmore,← Option.toList_map,hrow,Option.toList_map]

theorem parseMembers_succ (hfree : MakeFree ls) (hp : p'.bare n = p.bare n)
    (hc : bareClass n c' = bareClass n c) (hls : List.Forall₂ (Line.Noted n) ls ls')
    (h : Parser.parseMembers (k + 1) p c ls = some (q, .ok e)) :
    ∃ q' e', Parser.parseMembers (m + 1) p' c' ls' = some (q', .ok e') ∧ q'.bare n = q.bare n ∧
      bareClass n e' = bareClass n e := by
  cases hls with
  | nil =>
    obtain ⟨rfl, rfl⟩ : p = q ∧ c = e := by simpa [Parser.parseMembers] using h
    exact ⟨p', c', rfl, hp, hc⟩
  | @cons line line' tail tail' hh ht =>
    have hconsumes := memberFront_consumes p c line tail
    have hnoted := memberFront_noted hp hc hh ht
    rw [parseMembers_cons] at h ⊢
    generalize memberFront p c line tail = f at h hconsumes hnoted
    generalize memberFront p' c' line' tail' = f' at hnoted
    cases hnoted with
    | refused => simp [Membership.run] at h
    | settled hd hleft =>
      exact ih.parseMembers (hfree.of_within fun l hl => hconsumes.1.within hl) hp hd hleft h
    | @ofLines body body' left left' finish finish' hbody hleft hfinish =>
      simp only [Membership.run] at h ⊢
      rcases hl : Parser.parseLines k p body with _ | ⟨r, f | rows⟩
      · simp [hl] at h
      · simp [hl] at h
      · obtain ⟨r', rows', hl', hr, hrows⟩ :=
          ih.parseLines (hfree.of_within hconsumes.within) hp hbody hl
        obtain ⟨hq, hd⟩ := hfinish r r' rows rows' hr hrows
        simp only [hl] at h
        simp only [hl']
        exact ih.parseMembers (hfree.of_within fun l hl => hconsumes.left.within hl) hq hd hleft h
    | @ofMembers start body body' left left' finish finish' hbody hleft hfinish =>
      simp only [Membership.run] at h ⊢
      rcases hl : Parser.parseMembers k p start body with _ | ⟨r, f | nested⟩
      · simp [hl] at h
      · simp [hl] at h
      · obtain ⟨r', nested', hl', hr, hnested⟩ :=
          ih.parseMembers (hfree.of_within hconsumes.within) hp rfl hbody hl
        obtain ⟨hq, hd⟩ := hfinish r r' nested nested' hr hnested
        simp only [hl] at h
        simp only [hl']
        exact ih.parseMembers (hfree.of_within fun l hl => hconsumes.left.within hl) hq hd hleft h

end Transparent

theorem transparent (n k : Nat) : Transparent n k (2 * k) := by
  induction k with
  | zero => exact ⟨nofun, nofun, nofun⟩
  | succ k ih =>
    have hlast : Outlasts (2 * k + 1) (2 * (k + 1)) := outlasts (by omega)
    refine ⟨?_, ?_, ?_⟩
    · intro p p' q ls ls' rest row hfree hp hls h
      obtain ⟨q', rest', row', h', hbare⟩ := ih.nextLine_succ hfree hp hls h
      exact ⟨q', rest', row', hlast.nextLine h', hbare⟩
    · intro p p' q ls ls' rows hfree hp hls h
      cases hls with
      | lines hls =>
        obtain ⟨q', rows', h', hbare⟩ := ih.parseLines_succ hfree hp hls h
        exact ⟨q', rows', hlast.parseLines h', hbare⟩
      | @remark ls' r hr hls =>
        -- The note takes one step by itself, and the lines behind it have one step less.
        obtain ⟨q', rows', h', hbare⟩ := ih.parseLines_succ hfree hp hls h
        refine ⟨q', rows', ?_, hbare⟩
        have hnext : Parser.nextLine (2 * k + 1) p' (r :: ls') = some ⟨p', ls', .ok none⟩ := by
          rw [nextLine_cons,front_remarks (Lexer.split_remark hr)]
          rfl
        rw [show 2 * (k + 1) = 2 * k + 1 + 1 by omega,Parser.parseLines,hnext]
        simp [h']
    · intro p p' q c c' e ls ls' hfree hp hc hls h
      cases hls with
      | lines hls =>
        obtain ⟨q', e', h', hbare⟩ := ih.parseMembers_succ hfree hp hc hls h
        exact ⟨q', e', hlast.parseMembers h', hbare⟩
      | @remark ls' r hr hls =>
        obtain ⟨q', e', h', hbare⟩ := ih.parseMembers_succ hfree hp hc hls h
        refine ⟨q', e', ?_, hbare⟩
        rw [show 2 * (k + 1) = 2 * k + 1 + 1 by omega,parseMembers_cons,
          memberFront_remarks (Lexer.split_remark hr)]
        exact h'

end Parser

end LineScript
