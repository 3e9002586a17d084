import LineScript.Proofs.Text.Cut
import LineScript.Proofs.Text.Words
import LineScript.Proofs.Token.Relexed
set_option autoImplicit false

/-!
Lexing side by side. The parts of a text are those of its front and of its rest, wherever no part goes on
from one into the other: at a gap, and where a comment begins. So a text without a comment has the parts
of its words, and a comment at its end adds only itself.
-/

namespace LineScript

namespace Lexer

variable {c : Char} {a x : List Char}

theorem parts_cons (hcomment : ∀ s, c = '/' → x = '/' :: s → False)
    (harrow : ∀ s, c = '=' → x = '>' :: s → False) :
    parts (c :: x) = if isGap c then parts x else if isDelimiter c then [c] :: parts x
      else if wordHere x then Text.attach c (parts x) else [c] :: parts x :=
  parts.eq_4 c x hcomment harrow

theorem parts_ne_nil (h : wordHere a = true) : parts a ≠ [] := by
  intro hnil
  have hl := lexed_parts a
  rw [hnil] at hl
  cases hl with
  | nil => simp [wordHere] at h
  | gap hgap _ =>
    have hc := isInner_of_wordHere h
    simp [isInner,hgap] at hc

/-- Neither a comment nor an arrow begins with the last character of the one and ends with the first of
the other, and a word does not go on. -/
structure Splits (a x : List Char) : Prop where
  comment : ∀ s, x = '/' :: s → a.getLast? ≠ some '/'
  arrow : ∀ s, x = '>' :: s → a.getLast? ≠ some '='
  word : wordHere x = false

theorem Splits.tail (h : Splits (c :: a) x) : Splits a x where
  comment s hs hlast := h.comment s hs (by simp [List.getLast?_cons,hlast])
  arrow s hs hlast := h.arrow s hs (by simp [List.getLast?_cons,hlast])
  word := h.word

theorem wordHere_cons (hcomment : ∀ s, c = '/' → x = '/' :: s → False)
    (harrow : ∀ s, c = '=' → x = '>' :: s → False) : wordHere (c :: x) = isInner c :=
  wordHere.eq_4 c x hcomment harrow

/-- Nothing that a character begins in front of the rest was not begun there before. -/
theorem Splits.cons_cases (h : Splits (c :: a) x) :
    (∀ s, c = '/' → a = '/' :: s → False) → (∀ s, c = '=' → a = '>' :: s → False) →
    (∀ s, c = '/' → a ++ x = '/' :: s → False) ∧ ∀ s, c = '=' → a ++ x = '>' :: s → False := by
  intro hcomment harrow
  cases a with
  | nil =>
    refine ⟨?_, ?_⟩
    · rintro s rfl hs
      exact h.comment s hs rfl
    · rintro s rfl hs
      exact h.arrow s hs rfl
  | cons d a =>
    refine ⟨?_, ?_⟩
    · rintro s hc hs
      exact hcomment a hc (by rw [(List.cons.inj hs).1])
    · rintro s hc hs
      exact harrow a hc (by rw [(List.cons.inj hs).1])

/-- A word goes on in the front exactly if it goes on there alone. -/
theorem Splits.wordHere_append (h : Splits a x) : wordHere (a ++ x) = wordHere a := by
  cases a with
  | nil => exact h.word
  | cons c a =>
    by_cases hcomment : ∃ s, c = '/' ∧ a = '/' :: s
    · obtain ⟨s, rfl, rfl⟩ := hcomment
      rfl
    · by_cases harrow : ∃ s, c = '=' ∧ a = '>' :: s
      · obtain ⟨s, rfl, rfl⟩ := harrow
        rfl
      · have hcomment : ∀ s, c = '/' → a = '/' :: s → False := fun s h1 h2 => hcomment ⟨s, h1, h2⟩
        have harrow : ∀ s, c = '=' → a = '>' :: s → False := fun s h1 h2 => harrow ⟨s, h1, h2⟩
        obtain ⟨hcomment', harrow'⟩ := h.cons_cases hcomment harrow
        rw [List.cons_append,wordHere_cons hcomment' harrow',wordHere_cons hcomment harrow]

theorem parts_append (h : Splits a x) (hcomment : ¬['/', '/'] <:+: a) :
    parts (a ++ x) = parts a ++ parts x := by
  fun_induction parts a with
  | case1 => rfl
  | case2 r => exact absurd ⟨[], r, rfl⟩ hcomment
  | case3 r ih =>
    have hr := Text.not_comment_tail (Text.not_comment_tail hcomment)
    simpa [parts] using ih h.tail.tail hr
  | case4 c r hc ha hg ih =>
    have hr := Text.not_comment_tail hcomment
    obtain ⟨hc', ha'⟩ := h.cons_cases hc ha
    rw [List.cons_append,parts_cons hc' ha',if_pos hg,ih h.tail hr]
  | case5 c r hc ha hg hd ih =>
    have hr := Text.not_comment_tail hcomment
    obtain ⟨hc', ha'⟩ := h.cons_cases hc ha
    rw [List.cons_append,parts_cons hc' ha',if_neg hg,if_pos hd,ih h.tail hr,List.cons_append]
  | case6 c r hc ha hg hd hw ih =>
    have hr := Text.not_comment_tail hcomment
    obtain ⟨hc', ha'⟩ := h.cons_cases hc ha
    have hw' : wordHere (r ++ x) = true := by rw [h.tail.wordHere_append,hw]
    rw [List.cons_append,parts_cons hc' ha',if_neg hg,if_neg hd,if_pos hw',ih h.tail hr,
      Text.attach_append (parts_ne_nil hw)]
  | case7 c r hc ha hg hd hw ih =>
    have hr := Text.not_comment_tail hcomment
    obtain ⟨hc', ha'⟩ := h.cons_cases hc ha
    have hw' : ¬wordHere (r ++ x) = true := by rwa [h.tail.wordHere_append]
    rw [List.cons_append,parts_cons hc' ha',if_neg hg,if_neg hd,if_neg hw',ih h.tail hr,
      List.cons_append]

theorem splits_gap (hc : isGap c = true) (a x : List Char) : Splits a (c :: x) := by
  obtain rfl | rfl : c = ' ' ∨ c = '\t' := by simpa [isGap] using hc
  · exact ⟨fun s hs => by simp at hs, fun s hs => by simp at hs, rfl⟩
  · exact ⟨fun s hs => by simp at hs, fun s hs => by simp at hs, rfl⟩

theorem parts_gap (hc : isGap c = true) (x : List Char) : parts (c :: x) = parts x := by
  obtain rfl | rfl : c = ' ' ∨ c = '\t' := by simpa [isGap] using hc
  · rfl
  · rfl

/-- A gap divides the parts before it from those behind it. -/
theorem parts_append_gap (hc : isGap c = true) (hcomment : ¬['/', '/'] <:+: a) (x : List Char) :
    parts (a ++ c :: x) = parts a ++ parts x := by
  rw [parts_append (splits_gap hc a x) hcomment,parts_gap hc]

/-- Without gaps nothing is lost. -/
theorem flatten_parts (h : ∀ c ∈ a, isGap c = false) : (parts a).flatten = a := by
  have hl := lexed_parts a
  generalize parts a = ps at hl
  induction hl with
  | nil => rfl
  | @gap c r ps hc _ _ => simp [hc] at h
  | comment r => simp
  | arrow _ ih => simp [ih fun c hc => h c (by simp [hc])]
  | delimiter _ _ ih => simp [ih fun c hc => h c (by simp [hc])]
  | word _ _ _ _ ih => simp [ih fun c hc => h c (by simp [hc])]

/-- The parts of a text are those of its words. -/
theorem parts_words (hgaps : ∀ c ∈ a, Text.isBlank c = true → isGap c = true)
    (hcomment : ¬['/', '/'] <:+: a) : parts a = (Text.words a).flatMap parts := by
  induction a using Text.wordInduction with
  | nil => rfl
  | blank c cs hc ih =>
    rw [parts_gap (hgaps c List.mem_cons_self hc),Text.words_cons_blank hc]
    refine ih (fun d hd => hgaps d (List.mem_cons_of_mem c hd)) fun hi => hcomment ?_
    exact hi.trans (List.suffix_cons c cs).isInfix
  | last w hw => simp [hw.words]
  | word w c cs hw hc ih =>
    have hgap : isGap c = true := hgaps c (by simp) hc
    have hw' : ¬['/', '/'] <:+: w := fun hi => hcomment (hi.trans ⟨[], c :: cs, rfl⟩)
    have hcs : ¬['/', '/'] <:+: cs := fun hi =>
      hcomment (hi.trans ((List.suffix_cons c cs).trans (List.suffix_append w _)).isInfix)
    rw [parts_append_gap hgap hw',Text.words_append_blank hc,hw.words,
      ih (fun d hd => hgaps d (by simp [hd])) hcs]
    simp

end Lexer

end LineScript
