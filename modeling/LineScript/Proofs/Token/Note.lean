import LineScript.Parser.Header
import LineScript.Proofs.Text.Note
import LineScript.Proofs.Token.Gaps
set_option autoImplicit false

/-!
Tokens of a text with a note behind it: the code tokens are those of the text, and all that stands behind a
word of it stands there with the note behind. So a header and a host call are read alike.
-/

namespace LineScript

open Text (IsNote IsRemark Notes)

variable {s t : String} {note gap : List Char}

namespace Lexer

theorem parts_gaps (hgap : ∀ c ∈ gap, isGap c = true) : parts gap = [] := by
  induction gap with
  | nil => rfl
  | cons g gap ih =>
    obtain ⟨hg, hgap⟩ := List.forall_mem_cons.1 hgap
    rw [parts_gap hg,ih hgap]

theorem isGap_of_parts_eq_nil {a : List Char} (h : parts a = []) : ∀ c ∈ a, isGap c = true := by
  fun_induction parts a with
  | case1 => simp
  | case2 r => cases h
  | case3 r ih => cases h
  | case4 c r hcomment harrow hgap ih => exact List.forall_mem_cons.2 ⟨hgap, ih h⟩
  | case5 c r hcomment harrow hgap hdelimiter ih => cases h
  | case6 c r hcomment harrow hgap hdelimiter hword ih =>
    cases hp : parts r with
    | nil => exact absurd hp (parts_ne_nil hword)
    | cons p ps => simp [hp,Text.attach] at h
  | case7 c r hcomment harrow hgap hdelimiter hword ih => cases h

theorem parts_append_gaps {a : List Char} (ha : ¬['/', '/'] <:+: a) (hgap : ∀ c ∈ gap, isGap c = true) :
    parts (a ++ gap) = parts a := by
  cases gap with
  | nil => rw [List.append_nil]
  | cons g gap =>
    obtain ⟨hg, hgap⟩ := List.forall_mem_cons.1 hgap
    rw [parts_append_gap hg ha,parts_gaps hgap,List.append_nil]

/-- Behind the parts of the code stands at most one part more, the comment. -/
theorem parts_code (cs : List Char) :
    ∃ remark, parts cs = parts (Text.code cs) ++ remark ∧ ∀ r ∈ remark, ∃ x, r = '/' :: '/' :: x := by
  cases hc : Text.cut ['/', '/'] cs with
  | none => exact ⟨[], by simp [Text.code,hc], by simp⟩
  | some p =>
    have hcs := Text.cut_append hc
    have hlast : p.1.getLast? ≠ some '/' := by
      intro hl
      obtain ⟨b, hb⟩ := List.getLast?_eq_some_iff.1 hl
      refine Text.not_infix_of_cut (by simp) hc ⟨b, [], ?_⟩
      simp [hb]
    have hsplits : Splits p.1 ('/' :: '/' :: p.2) := ⟨fun _ _ => hlast, fun s hs => by simp at hs, rfl⟩
    have hcode : Text.code cs = p.1 := by simp [Text.code,hc]
    refine ⟨['/' :: '/' :: p.2], ?_, by simp⟩
    rw [hcode,← hcs,List.append_assoc]
    exact parts_append hsplits (hcode ▸ Text.not_comment_code cs)

/-- A text that has no part but comments has only gaps before them. -/
theorem isGap_of_remarks (h : ∀ r ∈ split s, IsRemark r) :
    ∀ c ∈ Text.code s.toList, isGap c = true := by
  obtain ⟨remark, hs, -⟩ := parts_code s.toList
  refine isGap_of_parts_eq_nil (List.eq_nil_iff_forall_not_mem.2 fun p hp => ?_)
  obtain ⟨x, hx⟩ := h (String.ofList p) (by
    rw [split,hs]
    exact List.mem_map_of_mem (List.mem_append_left remark hp))
  have hinfix := infix_of_lexed (lexed_parts (Text.code s.toList)) hp
  rw [String.toList_ofList] at hx
  exact Text.not_comment_code s.toList (.trans ⟨[], x, by simp [hx]⟩ hinfix)

theorem split_remark (h : IsRemark s) : ∀ r ∈ split s, IsRemark r := by
  obtain ⟨x, hx⟩ := h
  simp [split,hx,parts,IsRemark]

/-- A text and the text with a note behind it have the same parts, apart from comments. -/
theorem split_note (h : Notes s t) :
    ∃ parts remark remark', split s = parts ++ remark ∧ split t = parts ++ remark' ∧
      (∀ r ∈ remark, IsRemark r) ∧ ∀ r ∈ remark', IsRemark r := by
  obtain ⟨r, hs, hr⟩ := parts_code s.toList
  obtain ⟨r', ht, hr'⟩ := parts_code t.toList
  have hcode : parts (Text.code t.toList) = parts (Text.code s.toList) := by
    obtain ⟨gap, hgap, hc⟩ := h.code
    rw [hc,parts_append_gaps (Text.not_comment_code _) hgap]
  refine ⟨(parts (Text.code s.toList)).map String.ofList, r.map String.ofList, r'.map String.ofList,
    ?_, ?_, ?_, ?_⟩
  · rw [split,hs,List.map_append]
  · rw [split,ht,hcode,List.map_append]
  · intro x hx
    obtain ⟨y, hy, rfl⟩ := List.mem_map.1 hx
    simpa [IsRemark] using hr y hy
  · intro x hx
    obtain ⟨y, hy, rfl⟩ := List.mem_map.1 hx
    simpa [IsRemark] using hr' y hy

end Lexer

namespace Token

theorem filter_remarks {rs : List String} (h : ∀ r ∈ rs, IsRemark r) :
    ((rs.map ofPart).filter fun t => t.kind != .comment) = [] := by
  refine List.filter_eq_nil_iff.2 fun tok htok => ?_
  obtain ⟨r, hmem, rfl⟩ := List.mem_map.1 htok
  obtain ⟨x, hx⟩ := h r hmem
  have hkind : Kind.ofPart r = .comment := by
    rw [← String.ofList_toList (s := r),hx]
    exact Kind.ofPart_comment x
  simp [ofPart,Token.kind,hkind]

theorem codeOfText_note (h : Notes s t) : codeOfText t = codeOfText s := by
  obtain ⟨parts, remark, remark', hs, ht, hr, hr'⟩ := Lexer.split_note h
  simp only [codeOfText,ofText,hs,ht,List.map_append,List.filter_append]
  rw [filter_remarks hr,filter_remarks hr']

theorem codeOfText_remarks (h : ∀ r ∈ Lexer.split s, IsRemark r) : codeOfText s = [] :=
  filter_remarks h

end Token

theorem HostCall.readArgs_append_gaps (a : List Char) (hgap : ∀ c ∈ gap, Lexer.isGap c = true) :
    readArgs (a ++ gap) = readArgs a := by
  have hcomma : ',' ∉ gap := fun hmem => absurd (hgap ',' hmem) (by decide)
  obtain ⟨front, last, ha, hag⟩ := Text.pieces_append hcomma a
  have hblank : ∀ c ∈ gap, Text.isBlank c = true := fun c hc => Text.isBlank_of_isGap (hgap c hc)
  simp only [readArgs,ha,hag,List.map_append,List.map_cons,Text.trim_append_blanks hblank]

theorem HostCall.ofTail_note {a : List Char} {call : HostCall} (h : IsNote note)
    (hok : ofTail a = .ok call) : ofTail (a ++ note) = .ok call := by
  unfold ofTail at hok ⊢
  split at hok
  · next r hr =>
    have hstart : Text.trimStart (a ++ note) = '=' :: '>' :: (r ++ note) := by
      unfold Text.trimStart at hr ⊢
      rw [List.dropWhile_append,hr]
      rfl
    obtain ⟨gap, hgap, hcut⟩ := Text.cut_comment_append_note h r
    have hblank : ∀ c ∈ gap, Text.isBlank c = true := fun c hc => Text.isBlank_of_isGap (hgap c hc)
    have hsep : " //".toList = [' ', '/', '/'] := rfl
    rw [hstart]
    simp only [hsep,hcut] at hok ⊢
    generalize ((Text.cut [' ', '/', '/'] r).map Prod.fst).getD r = x at hok ⊢
    rw [Text.cut_append_gaps (by simp [Lexer.isGap]) (by simp [Lexer.isGap]) hgap]
    cases hx : Text.cut "~>".toList x with
    | none =>
      simp only [hx,Option.map_none,Option.getD_none,Text.trim_append_blanks hblank] at hok ⊢
      exact hok
    | some p =>
      simp only [hx,Option.map_some,Option.getD_some,readArgs_append_gaps p.2 hgap] at hok ⊢
      exact hok
  · cases hok

theorem Declarations.tokens_remarks (d : Declarations) (n : Nat)
    (h : ∀ r ∈ Lexer.split s, IsRemark r) : d.tokens s n = .ok [] := by
  have hcut : Text.cutWord "runexec" s = none := by
    rw [Text.cutWord,Text.wordAt_gaps ⟨'r', by decide, rfl⟩ (Lexer.isGap_of_remarks h) none]
    rfl
  rw [Declarations.tokens,hcut,Token.codeOfText_remarks h]
  rfl

theorem Declarations.tokens_note {d : Declarations} {n : Nat} {tokens : List Token} (h : Notes s t)
    (hok : d.tokens s n = .ok tokens) : d.tokens t n = .ok tokens := by
  rcases h with rfl | ⟨note, hnote, hst⟩
  · exact hok
  · unfold Declarations.tokens at hok ⊢
    rw [Text.cutWord_append_note hnote hst (by simp [Lexer.isGap]) (by simp)]
    cases hc : Text.cutWord "runexec" s with
    | none =>
      rw [hc] at hok
      simpa [Token.codeOfText_note (.inr ⟨note, hnote, hst⟩)] using hok
    | some p =>
      simp only [hc,Option.map_some] at hok ⊢
      cases hcall : HostCall.ofTail p.2 with
      | error f => simp [hcall] at hok
      | ok call =>
        rw [hcall] at hok
        rw [HostCall.ofTail_note hnote hcall]
        exact hok

end LineScript
