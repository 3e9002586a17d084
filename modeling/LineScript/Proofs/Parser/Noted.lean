import LineScript.Proofs.Block.Note
import LineScript.Proofs.Parser.Bare
import LineScript.Proofs.Progress
set_option autoImplicit false

/-!
Reading with a note behind one line. Each reader of a header finds in the noted lines what it finds in the
lines without the note, and leaves noted lines to be read.
-/

namespace LineScript

open Text (IsNote Notes)

variable {n : Nat} {d d' : Declarations} {header header' : Line} {tail tail' : List Line}

section Headers

theorem takeBody_noted (hh : header.Noted n header') (ht : List.Forall₂ (Line.Noted n) tail tail')
    {construct text : String} {body rest : List Line}
    (h : takeBody construct header tail = (.ok (text, body), rest)) :
    ∃ text' body' rest', takeBody construct header' tail' = (.ok (text', body'), rest') ∧
      Notes text text' ∧ NotedLines n body body' ∧ NotedLines n rest rest' := by
  obtain ⟨hnone, hsome⟩ := Block.find_noted hh ht
  unfold takeBody at h ⊢
  cases hf : Block.find (header :: tail) with
  | error e => simp [hf] at h
  | ok found =>
    cases found with
    | some b =>
      obtain ⟨b', hf', hhead, hb⟩ := hsome b hf
      obtain ⟨⟨rfl, rfl⟩, rfl⟩ : (b.head = text ∧ b.body = body) ∧ b.rest = rest := by
        simpa [hf] using h
      exact ⟨b'.head, b'.body, b'.rest, by simp [hf'], hhead, hb.body, hb.rest⟩
    | none =>
      rw [hnone hf]
      rw [hf] at h
      cases ht with
      | nil => simp at h
      | @cons next next' later later' hnext hlater =>
        obtain ⟨⟨rfl, rfl⟩, rfl⟩ : (header.text = text ∧ [next] = body) ∧ later = rest := by
          simpa using h
        exact ⟨header'.text, [next'], later', rfl, hh.1.notes, .lines (.cons hnext .nil), .lines hlater⟩

theorem StatementHead.split_noted (hh : header.Noted n header')
    (ht : List.Forall₂ (Line.Noted n) tail tail') {kind : StatementKind} {text : String}
    {body rest : List Line} (h : split kind header tail = (.ok (text, body), rest)) :
    ∃ text' body' rest', split kind header' tail' = (.ok (text', body'), rest') ∧
      Notes text text' ∧ NotedLines n body body' ∧ NotedLines n rest rest' := by
  obtain ⟨hnone, hsome⟩ := Block.find_noted hh ht
  unfold split at h ⊢
  dsimp only at h ⊢
  cases hf : Block.find (header :: tail) with
  | error e => simp [hf] at h
  | ok found =>
    cases found with
    | some b =>
      obtain ⟨b', hf', hhead, hb⟩ := hsome b hf
      obtain ⟨⟨rfl, rfl⟩, rfl⟩ : (b.head = text ∧ b.body = body) ∧ b.rest = rest := by
        simpa [hf] using h
      exact ⟨b'.head, b'.body, b'.rest, by simp [hf'], hhead, hb.body, hb.rest⟩
    | none =>
      obtain ⟨gap, hgap, hcode⟩ := hh.1.notes.code
      have hblank : ∀ c ∈ gap, Text.isBlank c = true := fun c hc => Text.isBlank_of_isGap (hgap c hc)
      have hcut : Text.cut [':'] (Text.code header.text.toList ++ gap) =
          (Text.cut [':'] (Text.code header.text.toList)).map fun p => (p.1, p.2 ++ gap) :=
        Text.cut_append_gaps (by simp) (by simp [Lexer.isGap]) hgap
      rw [hnone hf]
      simp only [hf] at h
      simp only [hcode,hcut,hh.1.number]
      cases hc : Text.cut [':'] (Text.code header.text.toList) with
      | some p =>
        simp only [hc] at h
        have hline : Line.trimmed? header.number (p.2 ++ gap) = Line.trimmed? header.number p.2 := by
          simp only [Line.trimmed?,Text.trim_append_blanks hblank]
        cases hl : Line.trimmed? header.number p.2 with
        | none => simp [hl] at h
        | some line =>
          obtain ⟨⟨rfl, rfl⟩, rfl⟩ : (String.ofList p.1 = text ∧ [line] = body) ∧ tail = rest := by
            simpa [hl] using h
          refine ⟨String.ofList p.1, [line], tail', ?_, .inl rfl, .same n [line], .lines ht⟩
          simp [hline,hl]
      | none =>
        simp only [hc] at h
        cases ht with
        | nil => simp at h
        | @cons next next' later later' hnext hlater =>
          obtain ⟨⟨rfl, rfl⟩, rfl⟩ : (header.text = text ∧ [next] = body) ∧ later = rest := by
            simpa using h
          exact ⟨header'.text, [next'], later', rfl, hh.1.notes, .lines (.cons hnext .nil), .lines hlater⟩

theorem StatementHead.read_noted (hd : d.Agree d') (hh : header.Noted n header')
    (ht : List.Forall₂ (Line.Noted n) tail tail') {kind : StatementKind} {head : StatementHead}
    {rest : List Line} (h : read d kind header tail = (.ok head, rest)) :
    ∃ body' rest', read d' kind header' tail' = (.ok ⟨head.condition, body'⟩, rest') ∧
      NotedLines n head.body body' ∧ NotedLines n rest rest' := by
  unfold read at h ⊢
  rcases hs : split kind header tail with ⟨e | ⟨text, body⟩, left⟩
  · simp [hs] at h
  · obtain ⟨text', body', rest', hs', htext, hbody, hrest⟩ := split_noted hh ht hs
    simp only [hs] at h
    cases htok : d.tokens text header.number with
    | error e => simp [htok] at h
    | ok tokens =>
      have htok' : d'.tokens text' header'.number = .ok tokens := by
        rw [hd.tokens,hh.1.number]
        exact Declarations.tokens_note htext htok
      simp only [htok] at h
      simp only [hs',htok']
      split at h
      · next hkind =>
        obtain ⟨rfl, rfl⟩ : ⟨none, body⟩ = head ∧ left = rest := by simpa using h
        exact ⟨body', rest', by rw [if_pos hkind], hbody, hrest⟩
      · next hkind =>
        split at h
        · simp at h
        · next hcond =>
          obtain ⟨rfl, rfl⟩ : ⟨some (tokens.drop 1), body⟩ = head ∧ left = rest := by simpa using h
          exact ⟨body', rest', by rw [if_neg hkind,if_neg hcond], hbody, hrest⟩

theorem paramsFrom_agree (hd : d.Agree d') (line : Nat) (optional : Bool) (groups : List (List Token)) :
    paramsFrom d' line optional groups = paramsFrom d line optional groups := by
  have hparam : paramOf? d' = paramOf? d := by
    funext group
    simp only [paramOf?,hd.writtenType]
  induction groups generalizing optional with
  | nil => rfl
  | cons group groups ih => simp only [paramsFrom,hparam,ih]

theorem readParams_agree (hd : d.Agree d') : readParams d' = readParams d := by
  funext tokens line
  exact paramsFrom_agree hd line false _

theorem MethodHead.ofText_noted (hd : d.Agree d') {text text' : String} (htext : Notes text text')
    (line : Nat) {body : List Line} {head : MethodHead} (h : ofText d line text body = .ok head)
    (body' : List Line) : ofText d' line text' body' = .ok { head with body := body' } := by
  have hsignature : readSignature d' = readSignature d := by
    funext line tokens
    simp only [readSignature,readParams_agree hd]
  have hreturns : readReturns d' = readReturns d := by
    funext line tokens
    simp only [readReturns,hd.tokenType?]
  unfold ofText at h ⊢
  rw [Token.codeOfText_note htext,hsignature,hreturns]
  split at h
  · next modifiers name rest hafter =>
    dsimp only
    split at h
    · next hkind =>
      rw [if_pos hkind]
      dsimp only at h
      cases hs : readSignature d line (splitArrow rest).1 with
      | error e => simp [hs,bind,Except.bind] at h
      | ok params =>
        cases hr : readReturns d line (splitArrow rest).2 with
        | error e => simp [hs,hr,bind,Except.bind] at h
        | ok returns =>
          rw [hs,hr] at h
          obtain rfl := Except.ok.inj h
          rfl
    · cases h
  · cases h

theorem MethodHead.read_noted (hd : d.Agree d') (hh : header.Noted n header')
    (ht : List.Forall₂ (Line.Noted n) tail tail') {head : MethodHead} {rest : List Line}
    (h : read d header tail = (.ok head, rest)) :
    ∃ body' rest', read d' header' tail' = (.ok { head with body := body' }, rest') ∧
      NotedLines n head.body body' ∧ NotedLines n rest rest' := by
  unfold read at h ⊢
  rcases hb : takeBody "method" header tail with ⟨e | ⟨text, body⟩, left⟩
  · simp [hb] at h
  · obtain ⟨text', body', rest', hb', htext, hbody, hrest⟩ := takeBody_noted hh ht hb
    obtain ⟨hok, rfl⟩ : ofText d header.number text body = .ok head ∧ left = rest := by
      simpa [hb] using h
    refine ⟨body', rest', ?_, ?_, hrest⟩
    · simp only [hb',hh.1.number,ofText_noted hd htext _ hok body']
    · rwa [body_of_ofText d hok]

theorem ClassHead.read_noted (hh : header.Noted n header') (ht : List.Forall₂ (Line.Noted n) tail tail')
    {head : ClassHead} {rest : List Line} (h : read header tail = (.ok head, rest)) :
    ∃ body' rest', read header' tail' = (.ok ⟨head.start, body'⟩, rest') ∧
      NotedLines n head.body body' ∧ NotedLines n rest rest' := by
  unfold read at h ⊢
  cases hf : Block.find (header :: tail) with
  | error e => simp [hf] at h
  | ok found =>
    cases found with
    | none => simp [hf] at h
    | some b =>
      obtain ⟨b', hf', hhead, hb⟩ := (Block.find_noted hh ht).2 b hf
      simp only [hf] at h
      simp only [hf',Token.codeOfText_note hhead,hb.consumed,hh.1.number]
      split at h
      · next modifiers name hafter =>
        split at h
        · next hkind =>
          obtain ⟨rfl, rfl⟩ : _ = head ∧ b.rest = rest := by simpa using h
          exact ⟨b'.body, b'.rest, by rw [if_pos hkind], hb.body, hb.rest⟩
        · simp at h
      · simp at h

theorem ConverterHead.read_noted (hd : d.Agree d') (hh : header.Noted n header')
    (ht : List.Forall₂ (Line.Noted n) tail tail') {head : ConverterHead} {rest : List Line}
    (h : read d header tail = (.ok head, rest)) :
    ∃ body' rest', read d' header' tail' = (.ok ⟨head.type, body'⟩, rest') ∧
      NotedLines n head.body body' ∧ NotedLines n rest rest' := by
  unfold read at h ⊢
  rcases hb : takeBody "get" header tail with ⟨e | ⟨text, body⟩, left⟩
  · simp [hb] at h
  · obtain ⟨text', body', rest', hb', htext, hbody, hrest⟩ := takeBody_noted hh ht hb
    simp only [hb] at h
    simp only [hb',Token.codeOfText_note htext]
    split at h
    · next get arrow type hcode =>
      simp only [hd.tokenType?]
      split at h
      · next hkinds =>
        cases htype : d.tokenType? type with
        | none => simp [htype] at h
        | some t =>
          obtain ⟨rfl, rfl⟩ : ⟨t, body⟩ = head ∧ left = rest := by simpa [htype] using h
          exact ⟨body', rest', by rw [if_pos hkinds], hbody, hrest⟩
      · simp at h
    · simp at h

namespace Container

theorem members_agree (hd : d.Agree d') (name : String) (tokens : List (Nat × Token)) :
    members d' name tokens = members d name tokens := by
  induction tokens with
  | nil => rfl
  | cons t tokens ih => simp only [members,hd.classNames,ih]

theorem memberTokens_noted {ls ls' : List Line} (h : NotedLines n ls ls') :
    memberTokens ls' = memberTokens ls := by
  have hlines {ls ls' : List Line} (h : List.Forall₂ (Line.Noted n) ls ls') :
      memberTokens ls' = memberTokens ls := by
    induction h with
    | nil => rfl
    | @cons l l' ls ls' hl hls ih =>
      simp only [memberTokens] at ih
      simp only [memberTokens,List.flatMap_cons,Token.codeOfText_note hl.1.notes,hl.1.number,ih]
  cases h with
  | lines h => exact hlines h
  | remark hremark h =>
    rw [← hlines h]
    simp [memberTokens,Token.codeOfText_remarks (Lexer.split_remark hremark)]

theorem read_noted (hd : d.Agree d') (hh : header.Noted n header')
    (ht : List.Forall₂ (Line.Noted n) tail tail') {c : Container} {rest : List Line}
    (h : read d header tail = (.ok c, rest)) :
    ∃ rest', read d' header' tail' = (.ok c, rest') ∧ NotedLines n rest rest' := by
  unfold read at h ⊢
  cases hf : Block.find (header :: tail) with
  | error e => simp [hf] at h
  | ok found =>
    cases found with
    | none => simp [hf] at h
    | some b =>
      obtain ⟨b', hf', hhead, hb⟩ := (Block.find_noted hh ht).2 b hf
      simp only [hf] at h
      simp only [hf',Token.codeOfText_note hhead,hh.1.number,members_agree hd,memberTokens_noted hb.body]
      split at h
      · next keyword name hcode =>
        split at h
        · next hkinds =>
          obtain ⟨hc, rfl⟩ := Prod.mk.inj h
          exact ⟨b'.rest, by rw [if_pos hkinds,hc], hb.rest⟩
        · simp at h
      · simp at h

end Container

end Headers

namespace Member

variable {c c' e : Class Token} {line line' : Line}

/-- No rule of a class stands on a line that has a note. -/
theorem same_or_not_rule (h : line.Noted n line') : line' = line ∨ isRule line.text.toList = false := by
  obtain ⟨hends, hsame | htidy⟩ := h
  · exact .inl hsame
  · cases hends with
    | same => exact .inl rfl
    | @note text note hlast hrule hnote =>
      have htrim : Text.trim text = text := by simpa using htidy.1
      refine .inr (hrule _ ?_)
      rw [htrim,String.toList_ofList]
      exact List.mem_cons_self

theorem contains_methods_bare (hc : bareClass n c' = bareClass n c) (name : String) :
    Table.contains c'.methods name = Table.contains c.methods name := by
  have hm := congrArg (fun c => Table.contains c.methods name) hc
  simp only [bareClass_eq] at hm
  exact (Table.contains_mapValues (bareMethod n) c'.methods name).symm.trans
    (hm.trans (Table.contains_mapValues (bareMethod n) c.methods name))

theorem addProperty_noted (hc : bareClass n c' = bareClass n c) {v v' : Variable}
    (hv : v'.bare n = v.bare n) (h : addProperty c v line = .ok e) :
    ∃ e', addProperty c' v' line' = .ok e' ∧ bareClass n e' = bareClass n e := by
  have hname (v : Variable) : (v.bare n).name = v.name := by
    unfold Variable.bare
    split <;> rfl
  have hproperties : c'.properties.map (Variable.bare n) = c.properties.map (Variable.bare n) := by
    have hp := congrArg Class.properties hc
    simpa only [bareClass_eq] using hp
  have hknown : (c'.property? v'.name).isSome = (c.property? v.name).isSome := by
    have hany (c : Class Token) (name : String) : (c.property? name).isSome =
        (c.properties.map (Variable.bare n)).any fun w => w.name == name := by
      rw [Class.property?,Bool.eq_iff_iff]
      simp [hname]
    rw [hany,hany,hproperties,← hname v',hv,hname]
  unfold addProperty at h ⊢
  rw [hknown]
  split at h
  · cases h
  · next hnew =>
    obtain rfl := Except.ok.inj h
    refine ⟨{ c' with properties := c'.properties ++ [v'] }, by rw [if_neg hnew], ?_⟩
    simp only [bareClass_eq,Class.mk.injEq] at hc ⊢
    simp [hc,hv]

/-- The default of a property on line `n` gets the note, which is a comment in it. -/
theorem defaultText_noted (hl : line.Noted n line') {value : String} (h : defaultText line = some value) :
    ∃ value', defaultText line' = some value' ∧
      (value' = value ∨ line.number = n ∧
        Text.trim (Text.code value'.toList) = Text.trim (Text.code value.toList)) := by
  cases hl.1 with
  | same => exact ⟨value, h, .inl rfl⟩
  | @note text note hlast hrule hnote =>
    unfold defaultText at h ⊢
    simp only [String.toList_ofList] at h ⊢
    cases hcut : Text.cut [':'] text with
    | none => simp [hcut] at h
    | some p =>
      obtain ⟨hne, rfl⟩ : Text.trim p.2 ≠ [] ∧ String.ofList (Text.trim p.2) = value := by
        simpa [hcut] using h
      have hlast' : ∀ c, p.2.getLast? = some c → Text.isBlank c = false := by
        intro c hc
        refine hlast c ?_
        rw [← Text.cut_append hcut,List.getLast?_append,hc]
        rfl
      have htrim : Text.trim (p.2 ++ note) = Text.trim p.2 ++ note :=
        Text.trim_append_note hnote (fun hnil => hne (by rw [hnil]; rfl)) hlast'
      -- The first colon stands before the note, so the note is a part of the value.
      obtain ⟨gap, hgap, hcode⟩ := Text.code_append_note hnote (Text.trim p.2)
      refine ⟨String.ofList (Text.trim p.2 ++ note), ?_, .inr ⟨trivial, ?_⟩⟩
      · simp [Text.cut_append_right hcut,htrim,hne]
      · rw [String.toList_ofList,String.toList_ofList,hcode]
        exact Text.trim_append_blanks fun c hc => Text.isBlank_of_isGap (hgap c hc)

theorem property_noted (hd : d.Agree d') (hl : line.Noted n line') {tokens : List Token} {v : Variable}
    (h : property d line tokens = .ok v) :
    ∃ v', property d' line' tokens = .ok v' ∧ v'.bare n = v.bare n := by
  unfold property at h ⊢
  simp only [hd.tokenType?,hl.1.number]
  split at h
  · next type name rest =>
    cases htype : d.tokenType? type with
    | none => simp [htype] at h
    | some t =>
      simp only [htype] at h ⊢
      split at h
      · next hname =>
        rw [if_pos hname]
        split at h
        · obtain rfl := Except.ok.inj h
          exact ⟨_, rfl, rfl⟩
        · next colon later hrest =>
          split at h
          · next hcolon =>
            simp only [if_pos hcolon]
            cases hvalue : defaultText line with
            | none => simp [hvalue] at h
            | some value =>
              obtain ⟨value', hvalue', hsame⟩ := defaultText_noted hl hvalue
              simp only [hvalue] at h
              obtain rfl := Except.ok.inj h
              refine ⟨_, by rw [hvalue'], ?_⟩
              rcases hsame with rfl | ⟨hn, htrim⟩
              · rfl
              · simp [Variable.bare,hn,htrim]
          · cases h
      · cases h
  · cases h

theorem rule_agree (hd : d.Agree d') (hc : bareClass n c' = bareClass n c) (line : Line)
    (keyword : String) (overrides : Bool) :
    rule d' c' line keyword overrides = rule d c line keyword overrides := by
  have hname : c'.name = c.name := by
    have hn := congrArg Class.name hc
    simpa only [bareClass_eq] using hn
  unfold rule
  simp only [contains_methods_bare hc,hd.methodNames,readParams_agree hd,hname]

theorem addExplicit_noted (hd : d.Agree d') (hl : line.Noted n line')
    (hc : bareClass n c' = bareClass n c) {first : Token} {rest : List Token}
    (hcode : Token.codeOfText line.text = first :: rest) (hfirst : first.kind = .explicit)
    (h : addExplicit d c line (first :: rest) = .ok e) :
    ∃ e', addExplicit d' c' line' (first :: rest) = .ok e' ∧ bareClass n e' = bareClass n e := by
  have htypes : typesAfterArrow d' (first :: rest) = typesAfterArrow d (first :: rest) := by
    simp only [typesAfterArrow,hd.tokenType?]
  unfold addExplicit at h ⊢
  rw [htypes]
  cases rest with
  | nil => cases h
  | cons second more =>
    have hsame (hkind : second.kind = .watch ∨ second.kind = .params) : line' = line := by
      refine (same_or_not_rule hl).resolve_right fun hno => ?_
      rcases hkind with hkind | hkind
      · simp [isRule,hcode,hfirst,hkind] at hno
      · simp [isRule,hcode,hfirst,hkind] at hno
    simp only [List.drop_succ_cons,List.drop_zero] at h ⊢
    split at h
    · next hkind =>
      rw [hsame (.inl hkind),rule_agree hd hc]
      cases hr : rule d c line "watch" false with
      | error f => rw [hr] at h; cases h
      | ok r =>
        rw [hr] at h
        obtain rfl := Except.ok.inj h
        refine ⟨{ c' with watch := c'.watch ++ [r] }, rfl, ?_⟩
        simp only [bareClass_eq,Class.mk.injEq] at hc ⊢
        simp [hc]
    · next hkind =>
      rw [hsame (.inr hkind),rule_agree hd hc]
      cases hr : rule d c line "params" (more.head?.map Token.kind == some .override) with
      | error f => rw [hr] at h; cases h
      | ok r =>
        rw [hr] at h
        obtain rfl := Except.ok.inj h
        refine ⟨{ c' with params := some r }, rfl, ?_⟩
        simp only [bareClass_eq,Class.mk.injEq] at hc ⊢
        simp [hc]
    · split at h
      · next t _ =>
        obtain rfl := Except.ok.inj h
        refine ⟨{ c' with typeOf := some t }, rfl, ?_⟩
        simp only [bareClass_eq,Class.mk.injEq] at hc ⊢
        simp [hc]
      · cases h
    · split at h
      · next t ts _ =>
        obtain rfl := Except.ok.inj h
        refine ⟨{ c' with insideOf := c'.insideOf ++ t :: ts }, rfl, ?_⟩
        simp only [bareClass_eq,Class.mk.injEq] at hc ⊢
        simp [hc]
      · cases h
    · cases h

theorem addSimple_noted (hd : d.Agree d') (hl : line.Noted n line') (hc : bareClass n c' = bareClass n c)
    (h : addSimple d c line (Token.codeOfText line.text) = .ok e) :
    ∃ e', addSimple d' c' line' (Token.codeOfText line'.text) = .ok e' ∧
      bareClass n e' = bareClass n e := by
  rw [Token.codeOfText_note hl.1.notes]
  cases hcode : Token.codeOfText line.text with
  | nil =>
    rw [hcode] at h
    obtain rfl := Except.ok.inj h
    exact ⟨c', rfl, hc⟩
  | cons first rest =>
    rw [hcode] at h
    unfold addSimple at h ⊢
    dsimp only at h ⊢
    split at h
    · next hkind => exact addExplicit_noted hd hl hc hcode hkind h
    · split at h
      · next name =>
        split at h
        · next hname =>
          rw [if_pos hname,hl.1.number]
          exact addProperty_noted hc rfl h
        · cases h
      · cases h
    · split at h
      · next hnew =>
        rw [if_pos hnew]
        cases hv : property d line (first :: rest) with
        | error f => rw [hv] at h; cases h
        | ok v =>
          obtain ⟨v', hv', hbare⟩ := property_noted hd hl hv
          rw [hv] at h
          rw [hv']
          exact addProperty_noted hc hbare h
      · cases h

end Member

end LineScript
