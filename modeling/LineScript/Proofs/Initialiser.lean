import LineScript.Machine.Line
import LineScript.Parser.Header
import LineScript.Proofs.Pattern.Spacing
import LineScript.Proofs.Token.Gaps
set_option autoImplicit false

/-!
Initialisers. A line that makes an instance hands on the text behind its colon as it stands, an expression
writes the tokens out again, with a space before each but commas and colons. Patterns read both alike if
the text is spaced in that way already.
-/

namespace LineScript

/-- A name that is lexed as one identifier. -/
def IsName (name : String) : Prop := Lexer.split name = [name] ∧ Kind.ofPart name = .identifier

instance (name : String) : Decidable (IsName name) :=
  inferInstanceAs (Decidable (Lexer.split name = [name] ∧ Kind.ofPart name = .identifier))

/-- Every word is one part with commas and colons behind it, and none but the first begins with one. -/
structure WellSpaced (cs : List Char) : Prop where
  gaps : ∀ c ∈ cs, Text.isBlank c = true → Lexer.isGap c = true
  single : ∀ w ∈ Text.words cs, ∀ p ∈ (Lexer.parts w).tail, p = [','] ∨ p = [':']
  led : ∀ w ∈ (Text.words cs).tail, w.head? ≠ some ',' ∧ w.head? ≠ some ':'

instance (cs : List Char) : Decidable (WellSpaced cs) :=
  have hgaps : (cs.all fun c => !Text.isBlank c || Lexer.isGap c) = true ↔
      ∀ c ∈ cs, Text.isBlank c = true → Lexer.isGap c = true := by
    simp [Bool.or_eq_true,or_iff_not_imp_left]
  decidable_of_iff ((cs.all fun c => !Text.isBlank c || Lexer.isGap c) = true ∧
      (∀ w ∈ Text.words cs, ∀ p ∈ (Lexer.parts w).tail, p = [','] ∨ p = [':']) ∧
      ∀ w ∈ (Text.words cs).tail, w.head? ≠ some ',' ∧ w.head? ≠ some ':')
    ⟨fun h => ⟨hgaps.1 h.1, h.2.1, h.2.2⟩, fun h => ⟨hgaps.2 h.gaps, h.single, h.led⟩⟩

namespace IsName

variable {name : String} (h : IsName name)
include h

theorem parts : Lexer.parts name.toList = [name.toList] := by
  obtain ⟨p, hp, hname⟩ : ∃ p, Lexer.parts name.toList = [p] ∧ String.ofList p = name := by
    simpa [Lexer.split,List.map_eq_singleton_iff] using h.1
  rw [hp,← hname,String.toList_ofList]

theorem codeOfText : Token.codeOfText name = [.word .identifier name] := by
  simp [Token.codeOfText,Token.ofText,h.1,Token.ofPart,h.2,Token.kind]

theorem isWord : Lexer.IsWord name.toList :=
  Token.Spelled.isWord (t := .word .identifier name) ⟨name, by simp [h.codeOfText]⟩ rfl

theorem not_comment : ¬['/', '/'] <:+: name.toList := by
  intro hi
  cases hcut : Text.cut ['/', '/'] name.toList with
  | none => exact (Text.cut_eq_none_iff (by simp)).1 hcut hi
  | some p =>
    obtain ⟨a, b⟩ := p
    have hname := Text.cut_append hcut
    have hfirst := Text.not_infix_of_cut (by simp) hcut
    have hsplits : Lexer.Splits a ('/' :: '/' :: b) := by
      refine ⟨fun s _ hlast => hfirst ?_, nofun, rfl⟩
      obtain ⟨t, rfl⟩ := List.getLast?_eq_some_iff.1 hlast
      exact ⟨t, [], by simp⟩
    have hparts := Lexer.parts_append hsplits fun hi => hfirst (hi.trans (List.prefix_append _ _).isInfix)
    have htext : a ++ '/' :: '/' :: b = name.toList := by simpa using hname
    rw [htext,h.parts,Lexer.parts] at hparts
    have hnil : Lexer.parts a = [] ∧ name.toList = '/' :: '/' :: b := by
      cases hp : Lexer.parts a with
      | nil => simpa [hp] using hparts
      | cons p ps => simp [hp] at hparts
    exact (Kind.of_ofPart_identifier h.2).2.1 b hnil.2

theorem not_mem_colon : ':' ∉ name.toList := by
  intro hmem
  have hinner := h.isWord.2 ':' hmem
  revert hinner
  decide

end IsName

theorem Kind.comment_of_ofPart {part : String} (h : Kind.ofPart part = .comment) :
    ∃ r, part.toList = '/' :: '/' :: r := by
  unfold Kind.ofPart at h
  cases hw : Kind.ofKeyword? part with
  | some k =>
    have hnone : ∀ e ∈ Kind.keywords, e.2 ≠ Kind.comment := by decide
    exact absurd (by simpa [hw] using h) (hnone _ (Kind.mem_keywords hw))
  | none =>
    simp only [hw] at h
    split at h
    · next r hr => exact ⟨r, hr⟩
    · cases h
    · cases h

namespace Token

/-- The tokens of a text without a comment. -/
def ofRun (cs : List Char) : List Token := (Lexer.parts cs).map fun p => ofPart (String.ofList p)

theorem kind_ofPart_ne {p : List Char} {c : Char} {k : Kind} (hp : p ≠ [c])
    (hne : k ≠ .comment ∧ k ≠ .dataType ∧ k ≠ .identifier)
    (hword : ∀ e ∈ Kind.keywords, e.2 = k → e.1.toList = [c]) :
    (ofPart (String.ofList p)).kind ≠ k := by
  intro hk
  have hpart : Kind.ofPart (String.ofList p) = k := hk
  have htext := hword _ (Kind.mem_keywords_of_ofPart (hpart ▸ hne)) hpart
  rw [String.toList_ofList] at htext
  exact hp htext

theorem codeOfText_words {text : String}
    (hgaps : ∀ c ∈ text.toList, Text.isBlank c = true → Lexer.isGap c = true)
    (hcomment : ¬['/', '/'] <:+: text.toList) :
    codeOfText text = (Text.words text.toList).flatMap ofRun := by
  have hparts : ofText text = (Text.words text.toList).flatMap ofRun := by
    have hmap : ofText text = ofRun text.toList := by simp [ofText,Lexer.split,ofRun]
    rw [hmap,ofRun,Lexer.parts_words hgaps hcomment,List.map_flatMap]
    rfl
  rw [codeOfText,List.filter_eq_self.2,hparts]
  intro t ht
  obtain ⟨part, hpart, rfl⟩ := List.mem_map.1 ht
  simp only [bne_iff_ne,ne_eq]
  intro hk
  obtain ⟨r, hr⟩ := Kind.comment_of_ofPart hk
  have hi := Lexer.infix_of_mem_split hpart
  rw [hr] at hi
  exact hcomment ((List.prefix_append ['/', '/'] r).isInfix.trans hi)

theorem toList_writeAfter (s : String) (t : Token) : (writeAfter s t).toList =
    if s = "" ∨ t.kind = .comma ∨ t.kind = .colon then s.toList ++ t.text.toList
    else s.toList ++ ' ' :: t.text.toList := by
  unfold writeAfter
  by_cases h : s = "" ∨ t.kind = .comma ∨ t.kind = .colon
  · rw [if_pos h,if_pos (by simpa [or_assoc] using h)]
    simp
  · rw [if_neg h,if_neg (by simpa [or_assoc] using h)]
    simp

/-- Commas and colons are written without a space. -/
theorem toList_write_marks {ps : List (List Char)} (h : ∀ p ∈ ps, p = [','] ∨ p = [':']) (s : String) :
    ((ps.map fun p => ofPart (String.ofList p)).foldl writeAfter s).toList = s.toList ++ ps.flatten := by
  induction ps generalizing s with
  | nil => simp
  | cons p ps ih =>
    obtain ⟨hp, hps⟩ := List.forall_mem_cons.1 h
    have hmark : (writeAfter s (ofPart (String.ofList p))).toList = s.toList ++ p := by
      rw [toList_writeAfter,if_pos]
      · simp [ofPart,text]
      · rcases hp with rfl | rfl
        · exact .inr (.inl rfl)
        · exact .inr (.inr rfl)
    rw [List.map_cons,List.foldl_cons,ih hps,hmark,List.flatten_cons,List.append_assoc]

/-- A word of one part with marks behind it is written with a space before it, unless it is the first. -/
theorem toList_write_word {w : List Char} (hw : Text.IsRun w)
    (hsingle : ∀ p ∈ (Lexer.parts w).tail, p = [','] ∨ p = [':']) (s : String) :
    (s = "" → ((ofRun w).foldl writeAfter s).toList = w) ∧
      (s ≠ "" → w.head? ≠ some ',' ∧ w.head? ≠ some ':' →
        ((ofRun w).foldl writeAfter s).toList = s.toList ++ ' ' :: w) := by
  have hflat : (Lexer.parts w).flatten = w := by
    refine Lexer.flatten_parts fun c hc => ?_
    have hblank := hw.2 c hc
    simp only [Bool.eq_false_iff]
    intro hgap
    obtain rfl | rfl : c = ' ' ∨ c = '\t' := by simpa [Lexer.isGap] using hgap
    · cases hblank
    · cases hblank
  cases hp : Lexer.parts w with
  | nil =>
    rw [hp] at hflat
    exact absurd hflat.symm hw.1
  | cons p ps =>
    rw [hp] at hsingle hflat
    have hsplit : w = p ++ ps.flatten := by simpa using hflat.symm
    have hwrite : (ofRun w).foldl writeAfter s =
        (ps.map fun p => ofPart (String.ofList p)).foldl writeAfter
          (writeAfter s (ofPart (String.ofList p))) := by
      rw [ofRun,hp,List.map_cons,List.foldl_cons]
    have htext : (ofPart (String.ofList p)).text.toList = p := by simp [ofPart,text]
    rw [hwrite,toList_write_marks (show ∀ p ∈ ps, _ from hsingle),toList_writeAfter,htext]
    refine ⟨fun hs => ?_, fun hs hhead => ?_⟩
    · rw [if_pos (.inl hs),hs,hsplit]
      simp
    · have hcomma : p ≠ [','] := by
        rintro rfl
        exact hhead.1 (by simp [hsplit])
      have hcolon : p ≠ [':'] := by
        rintro rfl
        exact hhead.2 (by simp [hsplit])
      have hkind := kind_ofPart_ne hcomma (k := .comma) (by decide) (by decide)
      have hkind' := kind_ofPart_ne hcolon (k := .colon) (by decide) (by decide)
      rw [if_neg (by simp [hs,hkind,hkind']),List.append_assoc,List.cons_append,← hsplit]

theorem toList_write_words {ws : List (List Char)} (hws : ∀ w ∈ ws, Text.IsRun w)
    (hsingle : ∀ w ∈ ws, ∀ p ∈ (Lexer.parts w).tail, p = [','] ∨ p = [':'])
    (hled : ∀ w ∈ ws, w.head? ≠ some ',' ∧ w.head? ≠ some ':') {s : String} (hs : s ≠ "") :
    ((ws.flatMap ofRun).foldl writeAfter s).toList = s.toList ++ ws.flatMap (' ' :: ·) := by
  induction ws generalizing s with
  | nil => simp
  | cons w ws ih =>
    obtain ⟨hw, hws⟩ := List.forall_mem_cons.1 hws
    obtain ⟨hone, hsingle⟩ := List.forall_mem_cons.1 hsingle
    obtain ⟨hhead, hled⟩ := List.forall_mem_cons.1 hled
    have hword := (toList_write_word hw hone s).2 hs hhead
    have hne : (ofRun w).foldl writeAfter s ≠ "" := by
      intro hnil
      rw [hnil] at hword
      simp at hword
    rw [List.flatMap_cons,List.foldl_append,ih hws hsingle hled hne,hword]
    simp

/-- Tokens of a well spaced text are written out as its words. -/
theorem sourceText_of_wellSpaced {text : String} (h : WellSpaced text.toList)
    (hcomment : ¬['/', '/'] <:+: text.toList) :
    sourceText (codeOfText text) = String.ofList (Text.spaced (Text.words text.toList)) := by
  rw [codeOfText_words h.gaps hcomment,sourceText_eq]
  have hruns : ∀ w ∈ Text.words text.toList, Text.IsRun w := fun w hw => Text.isRun_of_mem_words hw
  have hsingle := h.single
  have hled := h.led
  generalize Text.words text.toList = ws at hruns hsingle hled
  cases ws with
  | nil => rfl
  | cons w ws =>
    obtain ⟨hw, hws⟩ := List.forall_mem_cons.1 hruns
    obtain ⟨hone, hsingle⟩ := List.forall_mem_cons.1 hsingle
    have hword := (toList_write_word hw hone "").1 rfl
    have hne : (ofRun w).foldl writeAfter "" ≠ "" := by
      intro hnil
      rw [hnil] at hword
      exact hw.1 (by simpa using hword.symm)
    rw [← String.toList_inj,List.flatMap_cons,List.foldl_append,
      toList_write_words hws hsingle hled hne,hword,String.toList_ofList,Text.spaced_cons]

end Token

namespace Declarations

variable (d : Declarations)

theorem bindWord_cases (t : Token) :
    d.bindWord t = t ∨ ∃ word c, t = .word .identifier word ∧ d.bindWord t = .bound c ∧ c.source = word := by
  unfold bindWord
  split
  · next word =>
    cases hw : d.watchCall? word with
    | none => exact .inl rfl
    | some c =>
      refine .inr ⟨word, c, rfl, rfl, ?_⟩
      obtain ⟨rule, -, hrule⟩ := List.exists_of_findSome?_eq_some hw
      obtain ⟨m, -, rfl⟩ := Option.map_eq_some_iff.1 hrule
      rfl
  · exact .inl rfl

theorem writeAfter_bindWord (s : String) (t : Token) :
    Token.writeAfter s (d.bindWord t) = Token.writeAfter s t := by
  rcases d.bindWord_cases t with h | ⟨word, c, rfl, h, hc⟩
  · rw [h]
  · simp [h,Token.writeAfter,Token.kind,Token.text,hc]

theorem sourceText_bindWord (ts : List Token) :
    Token.sourceText (ts.map d.bindWord) = Token.sourceText ts := by
  rw [Token.sourceText_eq,Token.sourceText_eq,List.foldl_map]
  simp only [writeAfter_bindWord]

theorem kind_bindWord_ne_colon {t : Token} (h : t.kind ≠ .colon) : (d.bindWord t).kind ≠ .colon := by
  rcases d.bindWord_cases t with hb | ⟨word, c, rfl, hb, -⟩
  · rwa [hb]
  · simp [hb,Token.kind]

end Declarations

/-- The line that makes an instance. -/
def instanceLine (className name s : String) : String :=
  className ++ " " ++ name ++ " new : " ++ s

section Forms

variable {className name s : String} (hclass : IsName className) (hname : IsName name)

theorem toList_instanceLine (className name s : String) : (instanceLine className name s).toList =
    className.toList ++ ' ' :: (name.toList ++ ' ' :: ("new".toList ++ ' ' :: (":".toList ++ ' ' :: s.toList))) := by
  simp [instanceLine]

include hclass hname

theorem codeOfText_instanceLine : Token.codeOfText (instanceLine className name s) =
    [.word .identifier className, .word .identifier name, .word .new "new", .word .colon ":"] ++
      Token.codeOfText s := by
  have hparts : Lexer.parts (instanceLine className name s).toList =
      [className.toList, name.toList, "new".toList, ":".toList] ++ Lexer.parts s.toList := by
    rw [toList_instanceLine,Lexer.parts_append_gap rfl hclass.not_comment,hclass.parts,
      Lexer.parts_append_gap rfl hname.not_comment,hname.parts,
      Lexer.parts_append_gap rfl (by decide),Lexer.parts_append_gap rfl (by decide)]
    rfl
  have hnew : Token.ofPart "new" = .word .new "new" := rfl
  have hcolon : Token.ofPart ":" = .word .colon ":" := rfl
  simp only [Token.codeOfText,Token.ofText,Lexer.split,hparts,List.map_append,List.map_cons,
    List.map_nil,String.ofList_toList,List.filter_append,hnew,hcolon]
  simp [Token.ofPart,hclass.2,hname.2,Token.kind]

theorem not_comment_instanceLine (hcomment : ¬['/', '/'] <:+: s.toList) :
    ¬['/', '/'] <:+: (instanceLine className name s).toList := by
  rw [toList_instanceLine]
  refine Text.not_comment_append (by decide) hclass.not_comment ?_
  refine Text.not_comment_append (by decide) hname.not_comment ?_
  refine Text.not_comment_append (by decide) (by decide) ?_
  exact Text.not_comment_append (by decide) (by decide) hcomment

/-- On a line, the initialiser is the text behind the colon. -/
theorem initOfLine_instanceLine (hcomment : ¬['/', '/'] <:+: s.toList) :
    Calls.initOfLine (instanceLine className name s) =
      if Text.trim s.toList = [] then none else some (String.ofList (Text.trim s.toList)) := by
  have hcut : Text.cut [':'] (instanceLine className name s).toList =
      some (className.toList ++ ' ' :: (name.toList ++ ' ' :: ("new".toList ++ [' '])), ' ' :: s.toList) := by
    have hne : ':' ∉ className.toList ++ ' ' :: (name.toList ++ ' ' :: ("new".toList ++ [' '])) := by
      simp [hclass.not_mem_colon,hname.not_mem_colon]
    rw [← Text.cut_of_not_mem hne,toList_instanceLine]
    simp
  unfold Calls.initOfLine
  rw [Text.code_eq_self (not_comment_instanceLine hclass hname hcomment),hcut]
  simp [Text.trim_cons (show Text.isBlank ' ' = true by decide)]

/-- In an expression, it is the tokens behind the colon, written out. -/
theorem initOfTokens_instanceLine (d : Declarations) :
    Calls.initOfTokens ((Token.codeOfText (instanceLine className name s)).map d.bindWord) =
      if Token.sourceText (Token.codeOfText s) = "" then none
      else some (Token.sourceText (Token.codeOfText s)) := by
  have hkind (t : Token) (h : t.kind ≠ .colon) : (d.bindWord t).kind ≠ .colon :=
    d.kind_bindWord_ne_colon h
  have hdrop : (((Token.codeOfText (instanceLine className name s)).map d.bindWord).dropWhile
      fun t => t.kind ≠ .colon).drop 1 = (Token.codeOfText s).map d.bindWord := by
    rw [codeOfText_instanceLine hclass hname]
    have hcolon : (d.bindWord (.word .colon ":")).kind = .colon := rfl
    simp [hkind (.word .identifier className) (by simp [Token.kind]),
      hkind (.word .identifier name) (by simp [Token.kind]),hkind (.word .new "new") (by simp [Token.kind]),
      hcolon]
  unfold Calls.initOfTokens
  rw [hdrop,d.sourceText_bindWord]
  simp

end Forms

/-- Both forms are read alike by every pattern if the initialiser is spaced as tokens are written out. -/
theorem init_forms_read_alike (d : Declarations) (line : Nat) (className name s : String)
    (hclass : IsName className) (hname : IsName name) (hcomment : ¬"//".toList <:+: s.toList)
    (hhost : Text.cutWord "runexec" (instanceLine className name s) = none)
    (hspaced : WellSpaced s.toList) :
    ∃ ts, d.tokens (instanceLine className name s) line = .ok ts ∧
      ∀ source accept at_ p, Pattern.compile source accept at_ = .ok p →
        (Calls.initOfLine (instanceLine className name s)).bind p.captures? =
          (Calls.initOfTokens ts).bind p.captures? := by
  refine ⟨(Token.codeOfText (instanceLine className name s)).map d.bindWord, ?_, ?_⟩
  · rw [Declarations.tokens,hhost]
  · intro source accept at_ p hp
    rw [initOfLine_instanceLine hclass hname hcomment,initOfTokens_instanceLine hclass hname,
      Token.sourceText_of_wellSpaced hspaced hcomment]
    have hwords := Text.words_trim s.toList
    have hrespaced := (Text.respaced_trim s.toList).eq_nil_iff
    by_cases hnil : Text.trim s.toList = []
    · simp [hnil,hrespaced.1 hnil]
    · have hne : String.ofList (Text.spaced (Text.words s.toList)) ≠ "" := by
        intro he
        exact hnil (hrespaced.2 (by simpa using congrArg String.toList he))
      rw [if_neg hnil,if_neg hne]
      refine Pattern.captures?_of_words hp ?_
      rw [String.toList_ofList,String.toList_ofList,hwords,
        Text.words_spaced fun w hw => Text.isRun_of_mem_words hw]

/-- Two captures between literals, with more blanks than one between the words of the initialiser. -/
theorem init_forms_read_alike_named :
    IsName "P" ∧ IsName "a" ∧ ¬"//".toList <:+: "x:   3,  y: int".toList ∧
      Text.cutWord "runexec" (instanceLine "P" "a" "x:   3,  y: int") = none ∧
      WellSpaced "x:   3,  y: int".toList ∧
      ∃ ts p, Declarations.empty.tokens (instanceLine "P" "a" "x:   3,  y: int") 1 = .ok ts ∧
        Pattern.compile "x: \x7bv\x7d, y: \x7bw\x7d" .word 1 = .ok p ∧
        (Calls.initOfLine (instanceLine "P" "a" "x:   3,  y: int")).bind p.captures? =
          some [("v", "3"), ("w", "int")] ∧
        (Calls.initOfTokens ts).bind p.captures? = some [("v", "3"), ("w", "int")] := by
  have hclass : IsName "P" := by decide
  have hname : IsName "a" := by decide
  have hcomment : ¬"//".toList <:+: "x:   3,  y: int".toList := by decide +kernel
  have hhost : Text.cutWord "runexec" (instanceLine "P" "a" "x:   3,  y: int") = none := by
    decide +kernel
  have hspaced : WellSpaced "x:   3,  y: int".toList := by decide +kernel
  have hpattern : (Pattern.compile "x: \x7bv\x7d, y: \x7bw\x7d" .word 1).toOption.bind (fun p =>
      (Calls.initOfLine (instanceLine "P" "a" "x:   3,  y: int")).bind p.captures?) =
        some [("v", "3"), ("w", "int")] := by decide +kernel
  obtain ⟨ts, hts, halike⟩ := init_forms_read_alike .empty 1 "P" "a" "x:   3,  y: int" hclass hname
    hcomment hhost hspaced
  cases hp : Pattern.compile "x: \x7bv\x7d, y: \x7bw\x7d" .word 1 with
  | error e => simp [hp,Except.toOption] at hpattern
  | ok p =>
    have hline : (Calls.initOfLine (instanceLine "P" "a" "x:   3,  y: int")).bind p.captures? =
        some [("v", "3"), ("w", "int")] := by simpa [hp,Except.toOption] using hpattern
    exact ⟨hclass, hname, hcomment, hhost, hspaced, ts, p, hts, rfl, hline,
      (halike _ _ _ p hp).symm.trans hline⟩

/-- A type before its value is written out with a space between them, and the capture is lost. -/
theorem init_forms_differ :
    IsName "P" ∧ IsName "b" ∧ ¬"//".toList <:+: "int:3".toList ∧
      ∃ ts p, Declarations.empty.tokens (instanceLine "P" "b" "int:3") 1 = .ok ts ∧
        Pattern.compile "\x7bx\x7d" .word 1 = .ok p ∧
        (Calls.initOfLine (instanceLine "P" "b" "int:3")).bind p.captures? = some [("x", "int:3")] ∧
        (Calls.initOfTokens ts).bind p.captures? = none := by
  refine ⟨by decide, by decide, by decide, ?_⟩
  have hrun : (Pattern.compile "\x7bx\x7d" .word 1).toOption.bind (fun p =>
      (Declarations.empty.tokens (instanceLine "P" "b" "int:3") 1).toOption.map fun ts =>
        ((Calls.initOfLine (instanceLine "P" "b" "int:3")).bind p.captures?,
          (Calls.initOfTokens ts).bind p.captures?)) = some (some [("x", "int:3")], none) := by
    decide +kernel
  obtain ⟨p, hp, hrun⟩ := Option.bind_eq_some_iff.1 hrun
  obtain ⟨ts, hts, hresult⟩ := Option.map_eq_some_iff.1 hrun
  obtain ⟨hline, htokens⟩ := Prod.mk.inj hresult
  have hok {α : Type} {r : Except ParseError α} {a : α} (h : r.toOption = some a) : r = .ok a := by
    cases r with
    | error e => cases h
    | ok b => rw [Option.some.inj h]
  exact ⟨ts, p, hok hts, hok hp, hline, htokens⟩

end LineScript
