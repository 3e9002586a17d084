import LineScript.Proofs.Token.Gaps
import LineScript.Proofs.Token.Grammar
set_option autoImplicit false

/-!
Lexing loses nothing. Every text is laid out in one way only: gaps, and between them comments, arrows, at signs
with their words, delimiters and words that go on as far as they can. The grammar of a line reads every text, and
the parts that it keeps are those of this layout.
-/

namespace LineScript.Lexer

open Grammar

/-- One of the marks that no word goes past begins here. -/
def StopsAt (cs : List Char) : Prop := ∃ s ∈ stops, s <+: cs

/-- In front of the rest, nowhere in the word does such a mark begin. -/
def Unbroken : List Char → List Char → Prop
  | [], _ => True
  | c :: w, rest => ¬StopsAt (c :: (w ++ rest)) ∧ Unbroken w rest

/-- A word where it stands. It has no space, tab, delimiter, at sign, comment or arrow inside, and it is maximal:
no mark begins in it, and however far it went on one would. -/
structure WordAt (w rest : List Char) : Prop where
  plain : ∀ s ∈ stops, ¬s <:+: w
  unbroken : Unbroken w rest
  maximal : ∀ x y, rest = x ++ y → x ≠ [] → ¬Unbroken (w ++ x) y

/-- A part with what follows it. Nothing follows a comment. -/
inductive PartAt : List Char → List Char → Prop
  | comment (cs : List Char) : PartAt ('/' :: '/' :: cs) []
  | arrow (rest : List Char) : PartAt ['=', '>'] rest
  | dataType {w rest : List Char} : WordAt w rest → PartAt ('@' :: w) rest
  | delimiter {c : Char} (rest : List Char) : isDelimiter c = true → PartAt [c] rest
  | word {w rest : List Char} : w ≠ [] → WordAt w rest → PartAt w rest

/-- A part and the gap behind it. -/
@[ext] structure Piece where
  part : List Char
  gap : List Char

def laidOut (pieces : List Piece) : List Char := pieces.flatMap fun p => p.part ++ p.gap

def Gaps (cs : List Char) : Prop := ∀ c ∈ cs, isGap c = true

/-- Every piece is a part where it stands, with a gap behind it. -/
def Fits : List Piece → Prop
  | [] => True
  | p :: ps => PartAt p.part (p.gap ++ laidOut ps) ∧ Gaps p.gap ∧ Fits ps

/-- The text is the first gap and the pieces. -/
structure Layout (text first : List Char) (pieces : List Piece) : Prop where
  text_eq : text = first ++ laidOut pieces
  first : Gaps first
  fits : Fits pieces

section words

variable {c : Char} {w rest cs x : List Char}

theorem stopsAt_iff (c : Char) (r : List Char) : StopsAt (c :: r) ↔ wordHere (c :: r) = false := by
  by_cases hcomment : ∃ s, c = '/' ∧ r = '/' :: s
  · obtain ⟨s, rfl, rfl⟩ := hcomment
    simp [StopsAt,stops,wordHere]
  · by_cases harrow : ∃ s, c = '=' ∧ r = '>' :: s
    · obtain ⟨s, rfl, rfl⟩ := harrow
      simp [StopsAt,stops,wordHere]
    · have hcomment' : ∀ s, c = '/' → r = '/' :: s → False := fun s h1 h2 => hcomment ⟨s, h1, h2⟩
      have harrow' : ∀ s, c = '=' → r = '>' :: s → False := fun s h1 h2 => harrow ⟨s, h1, h2⟩
      have hslashes : ¬['/', '/'] <+: c :: r := by
        rintro ⟨s, hs⟩
        obtain ⟨rfl, rfl⟩ := List.cons.inj hs
        exact hcomment' s rfl rfl
      have hpoint : ¬['=', '>'] <+: c :: r := by
        rintro ⟨s, hs⟩
        obtain ⟨rfl, rfl⟩ := List.cons.inj hs
        exact harrow' s rfl rfl
      rw [wordHere_cons hcomment' harrow']
      simp [StopsAt,stops,hslashes,hpoint,isInner,isGap,isDelimiter,@eq_comm _ _ c]
      grind

theorem Unbroken.of_append (h : Unbroken (w ++ x) rest) : Unbroken x rest := by
  induction w with
  | nil => exact h
  | cons c w ih => exact ih h.2

theorem Unbroken.plain (h : Unbroken w rest) : ∀ s ∈ stops, ¬s <:+: w := by
  rintro s hs ⟨u, v, rfl⟩
  rw [List.append_assoc] at h
  have hunbroken := h.of_append
  cases s with
  | nil => simp [stops] at hs
  | cons c s => exact hunbroken.1 ⟨c :: s, hs, v ++ rest, by simp⟩

/-- A word is where no mark begins, up to the end or to a mark. -/
theorem wordAt_iff : WordAt w rest ↔ Unbroken w rest ∧ (rest = [] ∨ StopsAt rest) := by
  constructor
  · intro h
    refine ⟨h.unbroken, ?_⟩
    cases rest with
    | nil => exact .inl rfl
    | cons c r =>
      right
      by_contra hgo
      have hunbroken : ∀ w, Unbroken w (c :: r) → Unbroken (w ++ [c]) r := by
        intro w hw
        induction w with
        | nil => exact ⟨hgo, trivial⟩
        | cons d w ih => exact ⟨by simpa using hw.1, ih hw.2⟩
      exact h.maximal [c] r rfl (by simp) (hunbroken w h.unbroken)
  · rintro ⟨hunbroken, hend⟩
    refine ⟨hunbroken.plain, hunbroken, ?_⟩
    rintro x y rfl hx hlonger
    rcases hend with hnil | hstop
    · exact hx (List.append_eq_nil_iff.1 hnil).1
    · cases x with
      | nil => exact hx rfl
      | cons c x => exact hlonger.of_append.1 hstop

theorem wordHere_of_unbroken (h : Unbroken (c :: w) rest) : wordHere (c :: (w ++ rest)) = true := by
  by_contra hnot
  exact h.1 ((stopsAt_iff c _).2 (by simpa using hnot))

end words

/-! How the rules read the parts of a layout. -/

section reading

open Peg

variable {c : Char} {w rest cs p : List Char}

theorem mem_delimiters (c : Char) : c ∈ delimiters ↔ isDelimiter c = true := by
  simp [delimiters,isDelimiter,or_assoc]

theorem whitespace_fails (h : ∀ c ∈ cs.head?, isGap c = false) (place : Nat) :
    whitespace.Reads place cs none := by
  refine oneOf_fails (fun c hc hgap => ?_) place
  have hnot : ¬isGap c = true := by simp [h c hc]
  exact hnot (by simpa [isGap] using hgap)

theorem reads_skip {gap : List Char} (hg : Gaps gap) (h : ∀ c ∈ rest.head?, isGap c = false)
    (place : Nat) : skip.Reads place (gap ++ rest) (some ⟨gap, [], rest⟩) := by
  refine reads_star (fun u c v hgap place => ?_) (whitespace_fails h) place
  exact reads_oneOf (by simpa [isGap] using hg c (by simp [hgap])) (v ++ rest) place

theorem reads_skip_all {gap : List Char} (hg : Gaps gap) (place : Nat) :
    skip.Reads place gap (some ⟨gap, [], []⟩) := by
  have hskip : skip.Reads place (gap ++ []) (some ⟨gap, [], []⟩) := reads_skip hg (by simp) place
  rwa [List.append_nil] at hskip

theorem reads_comment (cs : List Char) (place : Nat) :
    comment.Reads place ('/' :: '/' :: cs) (some ⟨'/' :: '/' :: cs, ['/' :: '/' :: cs], []⟩) := by
  have hall : (star any).Reads (place + 2) (cs ++ []) (some ⟨cs, [], []⟩) :=
    reads_star (fun _ c v _ place => .any place c (v ++ [])) .anyFails (place + 2)
  rw [List.append_nil] at hall
  exact .part (.seq (reads_literal ['/', '/'] cs place) hall)

/-- Where no mark begins a character of a word is read, and where one does none is. -/
theorem reads_inner (h : ¬StopsAt (c :: cs)) (place : Nat) :
    (seq (notAhead (choice stops)) any).Reads place (c :: cs) (some ⟨[c], [], cs⟩) :=
  .seq (.notAhead (choice_fails (fun s hs hprefix => h ⟨s, hs, hprefix⟩) place)) (.any place c cs)

theorem inner_fails (h : rest = [] ∨ StopsAt rest) (place : Nat) :
    (seq (notAhead (choice stops)) any).Reads place rest none := by
  by_cases hstop : StopsAt rest
  · obtain ⟨s, -, r, -, hreads⟩ := reads_choice hstop place
    exact .seqFails (.notAheadFails hreads)
  · obtain rfl := h.resolve_right hstop
    refine .seqFailsLater (.notAhead (choice_fails (fun s hs hprefix => ?_) place)) (.anyFails place)
    exact hstop ⟨s, hs, hprefix⟩

theorem reads_inners (h : WordAt w rest) (place : Nat) :
    (star (seq (notAhead (choice stops)) any)).Reads place (w ++ rest) (some ⟨w, [], rest⟩) := by
  obtain ⟨hunbroken, hend⟩ := wordAt_iff.1 h
  refine reads_star (fun u c v hw place => ?_) (inner_fails hend) place
  rw [hw] at hunbroken
  exact reads_inner hunbroken.of_append.1 place

theorem reads_word (hw : w ≠ []) (h : WordAt w rest) (place : Nat) :
    word.Reads place (w ++ rest) (some ⟨w, [w], rest⟩) := by
  cases w with
  | nil => exact absurd rfl hw
  | cons c w =>
    obtain ⟨hunbroken, hend⟩ := wordAt_iff.1 h
    have htail := reads_inners (wordAt_iff.2 ⟨hunbroken.2, hend⟩) (place + 1)
    exact .part (.seq (reads_inner hunbroken.1 place) htail)

theorem reads_dataType (h : WordAt w rest) (place : Nat) :
    dataType.Reads place ('@' :: (w ++ rest)) (some ⟨'@' :: w, ['@' :: w], rest⟩) := by
  have hopt : ∃ ps, (opt word).Reads (place + 1) (w ++ rest) (some ⟨w, ps, rest⟩) := by
    by_cases hw : w = []
    · subst hw
      have hnone := inner_fails (wordAt_iff.1 h).2 (place + 1)
      exact ⟨[], .altSecond (.partFails (.seqFails hnone)) (.empty _ _)⟩
    · exact ⟨[w], .altFirst (reads_word hw h (place + 1))⟩
  obtain ⟨ps, hopt⟩ := hopt
  exact .part (.seq (.char place '@' (w ++ rest)) hopt)

theorem comment_fails (h : ¬['/', '/'] <+: cs) (place : Nat) : comment.Reads place cs none :=
  .partFails (.seqFails (literal_fails h place))

theorem arrow_fails (h : ¬['=', '>'] <+: cs) (place : Nat) : arrow.Reads place cs none :=
  .partFails (literal_fails h place)

theorem dataType_fails (h : cs.head? ≠ some '@') (place : Nat) : dataType.Reads place cs none :=
  .partFails (.seqFails (.charFails place h))

theorem delimiter_fails (h : ∀ c ∈ cs.head?, isDelimiter c = false) (place : Nat) :
    delimiter.Reads place cs none := by
  refine .partFails (oneOf_fails (fun c hc hmem => ?_) place)
  cases (h c hc).symm.trans ((mem_delimiters c).1 hmem)

/-- Every part is read by its own rule, for the rules before it fail. -/
theorem PartAt.reads (h : PartAt p rest) (place : Nat) :
    anyPart.Reads place (p ++ rest) (some ⟨p, [p], rest⟩) := by
  cases h with
  | comment cs =>
    rw [List.append_nil]
    exact .altFirst (reads_comment cs place)
  | arrow rest =>
    refine .altSecond (comment_fails (by simp) place) (.altFirst ?_)
    exact .part (reads_literal ['=', '>'] rest place)
  | @dataType w rest hw =>
    refine .altSecond (comment_fails (by simp) place) (.altSecond (arrow_fails (by simp) place) ?_)
    exact .altFirst (reads_dataType hw place)
  | @delimiter c rest hc =>
    have hne {d : Char} (hd : isDelimiter d = false) : c ≠ d := by
      rintro rfl
      simp [hc] at hd
    have hslash := hne (show isDelimiter '/' = false by decide)
    have hequal := hne (show isDelimiter '=' = false by decide)
    have hat := hne (show isDelimiter '@' = false by decide)
    refine .altSecond (comment_fails (by simp [hslash.symm]) place) ?_
    refine .altSecond (arrow_fails (by simp [hequal.symm]) place) ?_
    refine .altSecond (dataType_fails (by simpa using hat) place) (.altFirst ?_)
    exact .part (reads_oneOf ((mem_delimiters c).2 hc) rest place)
  | word hne hw =>
    obtain ⟨c, w, rfl⟩ := List.exists_cons_of_ne_nil hne
    have hhere := wordHere_of_unbroken hw.unbroken
    have hinner := isInner_of_wordHere hhere
    simp only [isInner,Bool.not_eq_true',Bool.or_eq_false_iff,beq_eq_false_iff_ne] at hinner
    have hmark {s : List Char} (hs : s ∈ stops) : ¬s <+: c :: w ++ rest := fun h => hw.unbroken.1 ⟨s, hs, h⟩
    refine .altSecond (comment_fails (hmark (by simp [stops])) place) ?_
    refine .altSecond (arrow_fails (hmark (by simp [stops])) place) ?_
    refine .altSecond (dataType_fails (by simpa using hinner.2) place) ?_
    exact .altSecond (delimiter_fails (by simpa using hinner.1.2) place) (reads_word hne hw place)

end reading

section layout

open Peg

variable {c : Char} {text first rest gap p r : List Char} {pieces : List Piece}

/-- No part begins with a gap. -/
theorem PartAt.head (h : PartAt p rest) : ∃ c w, p = c :: w ∧ isGap c = false := by
  cases h with
  | comment cs => exact ⟨'/', '/' :: cs, rfl, by decide⟩
  | arrow => exact ⟨'=', ['>'], rfl, by decide⟩
  | @dataType w _ _ => exact ⟨'@', w, rfl, by decide⟩
  | @delimiter c _ hc =>
    refine ⟨c, [], rfl, ?_⟩
    rcases eq_of_isDelimiter hc with rfl | rfl | rfl | rfl | rfl <;> decide
  | word hne hw =>
    obtain ⟨c, w, rfl⟩ := List.exists_cons_of_ne_nil hne
    have hinner := isInner_of_wordHere (wordHere_of_unbroken hw.unbroken)
    simp [isInner] at hinner
    exact ⟨c, w, rfl, hinner.1.1⟩

theorem Fits.head (h : Fits pieces) : ∀ c ∈ (laidOut pieces).head?, isGap c = false := by
  cases pieces with
  | nil => simp [laidOut]
  | cons p ps =>
    obtain ⟨c, w, hp, hc⟩ := h.1.head
    simpa [laidOut,hp] using hc

theorem anyPart_fails (place : Nat) : anyPart.Reads place [] none := by
  refine .altSecond (comment_fails (by simp) place) (.altSecond (arrow_fails (by simp) place) ?_)
  refine .altSecond (dataType_fails (by simp) place) (.altSecond (delimiter_fails (by simp) place) ?_)
  exact .partFails (.seqFails (inner_fails (.inl rfl) place))

theorem laidOut_cons (q : Piece) (pieces : List Piece) :
    laidOut (q :: pieces) = q.part ++ (q.gap ++ laidOut pieces) := by
  simp [laidOut]

/-- Behind a part come the other ones, and the last gap is left. -/
theorem Fits.reads (h : Fits pieces) (hgap : Gaps gap) (place : Nat) :
    ∃ read last, read ++ last = gap ++ laidOut pieces ∧ Gaps last ∧
      (star (seq skip anyPart)).Reads place (gap ++ laidOut pieces)
        (some ⟨read, pieces.map Piece.part, last⟩) := by
  induction pieces generalizing gap place with
  | nil =>
    refine ⟨[], gap, (List.append_nil gap).symm, hgap, ?_⟩
    rw [show gap ++ laidOut [] = gap from List.append_nil gap]
    exact star_stops (.seqFailsLater (reads_skip_all hgap place) (anyPart_fails _))
  | cons q ps ih =>
    have hskip := reads_skip hgap h.head place
    obtain ⟨hpart, hbehind, hps⟩ := h
    rw [laidOut_cons] at hskip ⊢
    obtain ⟨read, last, hread, hlast, hstar⟩ := ih hps hbehind (place + (gap ++ q.part).length)
    refine ⟨gap ++ q.part ++ read, last, by simp [hread], hlast, ?_⟩
    exact star_goes_on (.seq hskip (hpart.reads _)) hstar

/-- The grammar reads a text that is laid out, and keeps its parts. -/
theorem Layout.reads (h : Layout text first pieces) :
    line.Reads 0 text (some ⟨text, pieces.map Piece.part, []⟩) := by
  obtain ⟨rfl, hfirst, hfits⟩ := h
  have hskip := reads_skip hfirst hfits.head 0
  -- what the parts read, and the gap behind the last of them
  have hparts : ∃ read last, read ++ last = laidOut pieces ∧ Gaps last ∧
      allParts.Reads first.length (laidOut pieces) (some ⟨read, pieces.map Piece.part, last⟩) := by
    cases pieces with
    | nil =>
      exact ⟨[], [], rfl, by simp [Gaps], .altSecond (.seqFails (anyPart_fails _)) (.empty _ _)⟩
    | cons q ps =>
      obtain ⟨hpart, hgap, hps⟩ := hfits
      obtain ⟨read, last, hread, hlast, hstar⟩ := hps.reads hgap (first.length + q.part.length)
      rw [laidOut_cons,← hread]
      rw [← hread] at hpart hstar
      exact ⟨q.part ++ read, last, by simp, hlast, .altFirst (.seq (hpart.reads _) hstar)⟩
  obtain ⟨read, last, hread, hlast, hreads⟩ := hparts
  have hend : (seq skip stop).Reads (first.length + read.length) last (some ⟨last, [], []⟩) := by
    simpa using (reads_skip_all hlast (first.length + read.length)).seq (.stop _)
  have hline := Reads.seq (.start (first ++ laidOut pieces))
    (.seq (by simpa using hskip) (.seq (by simpa using hreads) (by simpa using hend)))
  simpa [line,hread] using hline

theorem wordAt_nil (h : wordHere r = false) : WordAt [] r := by
  refine wordAt_iff.2 ⟨trivial, ?_⟩
  cases r with
  | nil => exact .inl rfl
  | cons c r => exact .inr ((stopsAt_iff c r).2 h)

/-- Where a word goes on stands a word. -/
theorem PartAt.wordAt (h : PartAt p rest) (hw : wordHere (p ++ rest) = true) : WordAt p rest := by
  cases h with
  | comment cs => cases hw
  | arrow rest => cases hw
  | dataType _ =>
    have hinner := isInner_of_wordHere hw
    simp [isInner] at hinner
  | delimiter _ hc =>
    have hinner := isInner_of_wordHere hw
    simp [isInner,hc] at hinner
  | word _ hword => exact hword

theorem partAt_cons {w : List Char} (hc : c ≠ '@' → wordHere (c :: (w ++ rest)) = true)
    (h : WordAt w rest) : PartAt (c :: w) rest := by
  by_cases hat : c = '@'
  · subst hat
    exact .dataType h
  · obtain ⟨hunbroken, hend⟩ := wordAt_iff.1 h
    have hgo : ¬StopsAt (c :: (w ++ rest)) := by
      rw [stopsAt_iff,hc hat]
      decide
    exact .word (by simp) (wordAt_iff.2 ⟨⟨hgo, hunbroken⟩, hend⟩)

theorem Layout.cons (hpart : PartAt p r) (h : Layout r first pieces) :
    Layout (p ++ r) [] (⟨p, first⟩ :: pieces) := by
  obtain ⟨rfl, hfirst, hfits⟩ := h
  exact ⟨by simp [laidOut_cons], by simp [Gaps], hpart, hfirst, hfits⟩

/-- The lexer finds a layout. -/
theorem exists_layout (cs : List Char) :
    ∃ first pieces, Layout cs first pieces ∧ pieces.map Piece.part = parts cs := by
  fun_induction parts cs with
  | case1 => exact ⟨[], [], ⟨rfl, by simp [Gaps], trivial⟩, rfl⟩
  | case2 r =>
    have hnone : Layout [] [] [] := ⟨rfl, by simp [Gaps], trivial⟩
    have hlayout := hnone.cons (.comment r)
    rw [List.append_nil] at hlayout
    exact ⟨_, _, hlayout, rfl⟩
  | case3 r ih =>
    obtain ⟨first, pieces, hlayout, hparts⟩ := ih
    exact ⟨_, _, hlayout.cons (.arrow r), by simp [hparts]⟩
  | case4 c r _ _ hg ih =>
    obtain ⟨first, pieces, ⟨rfl, hfirst, hfits⟩, hparts⟩ := ih
    exact ⟨c :: first, pieces, ⟨rfl, List.forall_mem_cons.2 ⟨hg, hfirst⟩, hfits⟩, hparts⟩
  | case5 c r _ _ _ hd ih =>
    obtain ⟨first, pieces, hlayout, hparts⟩ := ih
    exact ⟨_, _, hlayout.cons (.delimiter r hd), by simp [hparts]⟩
  | case6 c r hcomment harrow hg hd hw ih =>
    -- the word that goes on is the first piece, and nothing stands before it
    obtain ⟨first, pieces, ⟨rfl, hfirst, hfits⟩, hparts⟩ := ih
    have hc := wordHere_of hcomment harrow hg hd
    cases first with
    | cons d first =>
      have hinner := isInner_of_wordHere hw
      simp [isInner,hfirst d] at hinner
    | nil =>
      cases pieces with
      | nil => cases hw
      | cons q ps =>
        obtain ⟨hpart, hgap, hps⟩ := hfits
        rw [List.nil_append,laidOut_cons] at hw hc hparts ⊢
        refine ⟨[], ⟨c :: q.part, q.gap⟩ :: ps, ⟨by simp [laidOut_cons], hfirst, ?_, hgap, hps⟩, ?_⟩
        · exact partAt_cons hc (hpart.wordAt hw)
        · rw [← hparts]
          rfl
  | case7 c r hcomment harrow hg hd hw ih =>
    obtain ⟨first, pieces, hlayout, hparts⟩ := ih
    have hc := wordHere_of hcomment harrow hg hd
    have hpart : PartAt [c] r := partAt_cons hc (wordAt_nil (by simpa using hw))
    exact ⟨_, _, hlayout.cons hpart, by simp [hparts]⟩

/-- Gaps end where the first part begins. -/
theorem gaps_eq {gap gap' a b : List Char} (hg : Gaps gap) (hg' : Gaps gap')
    (ha : ∀ c ∈ a.head?, isGap c = false) (hb : ∀ c ∈ b.head?, isGap c = false)
    (h : gap ++ a = gap' ++ b) : gap = gap' ∧ a = b := by
  induction gap generalizing gap' with
  | nil =>
    cases gap' with
    | nil => exact ⟨rfl, h⟩
    | cons c gap' =>
      have hc := hg' c List.mem_cons_self
      obtain rfl : a = c :: (gap' ++ b) := h
      simp [hc] at ha
  | cons c gap ih =>
    cases gap' with
    | nil =>
      have hc := hg c List.mem_cons_self
      obtain rfl : c :: (gap ++ a) = b := h
      simp [hc] at hb
    | cons d gap' =>
      obtain ⟨rfl, hrest⟩ := List.cons.inj h
      obtain ⟨rfl, rfl⟩ := ih (fun e he => hg e (List.mem_cons_of_mem _ he))
        (fun e he => hg' e (List.mem_cons_of_mem _ he)) hrest
      exact ⟨rfl, rfl⟩

/-- Where the parts are the same, so are the gaps. -/
theorem Fits.pieces_eq {pieces' : List Piece} (h : Fits pieces) (h' : Fits pieces')
    (hparts : pieces.map Piece.part = pieces'.map Piece.part) (htext : laidOut pieces = laidOut pieces') :
    pieces = pieces' := by
  induction pieces generalizing pieces' with
  | nil => simpa using hparts.symm
  | cons q ps ih =>
    cases pieces' with
    | nil => cases hparts
    | cons q' ps' =>
      obtain ⟨-, hgap, hps⟩ := h
      obtain ⟨-, hgap', hps'⟩ := h'
      obtain ⟨hpart, hrest⟩ := List.cons.inj hparts
      rw [laidOut_cons,laidOut_cons,hpart] at htext
      obtain ⟨hbetween, hlaid⟩ := gaps_eq hgap hgap' hps.head hps'.head (List.append_cancel_left htext)
      rw [Piece.ext hpart hbetween,ih hps hps' hrest hlaid]

theorem Layout.unique {first' : List Char} {pieces' : List Piece} (h : Layout text first pieces)
    (h' : Layout text first' pieces') : first = first' ∧ pieces = pieces' := by
  have hparts : pieces.map Piece.part = pieces'.map Piece.part := by
    simpa using Peg.Reads.unique h.reads h'.reads
  obtain ⟨hfirst, hlaid⟩ := gaps_eq h.first h'.first h.fits.head h'.fits.head
    (h.text_eq.symm.trans h'.text_eq)
  exact ⟨hfirst, h.fits.pieces_eq h'.fits hparts hlaid⟩

end layout

/-- Every text is laid out as parts between gaps, and in no other way. The lexer gives the parts of that layout,
and the grammar of a line reads the whole text, keeps the same parts and has no other answer. -/
theorem lexing_lossless (text : String) :
    ∃ first pieces, Layout text.toList first pieces ∧
      split text = pieces.map (fun p => String.ofList p.part) ∧
      (∀ o, line.Reads 0 text.toList o ↔ o = some ⟨text.toList, pieces.map Piece.part, []⟩) ∧
      ∀ first' pieces', Layout text.toList first' pieces' → first' = first ∧ pieces' = pieces := by
  obtain ⟨first, pieces, hlayout, hparts⟩ := exists_layout text.toList
  refine ⟨first, pieces, hlayout, ?_, fun o => ⟨fun h => h.unique hlayout.reads, ?_⟩, ?_⟩
  · rw [split,← hparts,List.map_map]
    rfl
  · rintro rfl
    exact hlayout.reads
  · exact fun first' pieces' h' => h'.unique hlayout

-- a word stops where a mark begins, even if it could take the first character of it
example : split "a=>@b /c//d e" = ["a", "=>", "@b", "/c", "//d e"] := by decide +kernel

end LineScript.Lexer
