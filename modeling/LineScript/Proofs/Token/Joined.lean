import LineScript.Proofs.Token.Gaps
set_option autoImplicit false

/-!
Lexing what was lexed. Joining the tokens of a line puts a space between parts that stood side by side, and
keeps every part whole. A word that another part cut short ends at the space now, so the joined line has
the parts of the line it came from.
-/

namespace LineScript

namespace Lexer

theorem parts_spaces (ps : List (List Char)) :
    parts (ps.flatMap (' ' :: ·)) = parts (Text.spaced ps) := by
  cases ps with
  | nil => rfl
  | cons p ps => rw [List.flatMap_cons,List.cons_append,parts_gap rfl,Text.spaced_cons]

/-- Nothing goes on from a part into the space behind it. -/
theorem splits_spaces (a : List Char) (ps : List (List Char)) : Splits a (ps.flatMap (' ' :: ·)) := by
  cases ps with
  | nil => exact ⟨nofun, nofun, rfl⟩
  | cons p ps => exact splits_gap rfl a _

/-- A word that goes on in a text goes on in its front, too. -/
theorem wordHere_of_append {a x : List Char} (h : wordHere (a ++ x) = true) (ha : a ≠ []) :
    wordHere a = true := by
  cases a with
  | nil => exact absurd rfl ha
  | cons c a =>
    rw [wordHere_cons]
    · exact isInner_of_wordHere h
    · rintro s rfl rfl
      cases h
    · rintro s rfl rfl
      cases h

/-- Where a word goes on, the first part is a front of the text. -/
theorem parts_of_wordHere {r : List Char} (h : wordHere r = true) :
    ∃ p ps y, parts r = p :: ps ∧ p ≠ [] ∧ r = p ++ y := by
  have hl := lexed_parts r
  generalize parts r = qs at hl
  cases hl with
  | nil => simp [wordHere] at h
  | gap hgap _ =>
    have hc := isInner_of_wordHere h
    simp [isInner,hgap] at hc
  | comment r => simp [wordHere] at h
  | arrow _ => simp [wordHere] at h
  | delimiter hdel _ =>
    have hc := isInner_of_wordHere h
    simp [isInner,hdel] at hc
  | @word c w y ps _ _ _ _ => exact ⟨c :: w, ps, y, rfl, by simp, rfl⟩

theorem parts_spaced_parts (cs : List Char) : parts (Text.spaced (parts cs)) = parts cs := by
  fun_induction parts cs with
  | case1 => rfl
  | case2 r => simp [Text.spaced_cons,parts]
  | case3 r ih => simp [Text.spaced_cons,parts,parts_spaces,ih]
  | case4 c r _ _ _ ih => exact ih
  | case5 c r _ _ hg hd ih =>
    obtain ⟨hcomment, harrow⟩ := (splits_spaces [c] (parts r)).cons_cases (by simp) (by simp)
    rw [Text.spaced_cons,List.cons_append,parts_cons hcomment harrow,if_neg hg,if_pos hd,
      List.nil_append,parts_spaces,ih]
  | case6 c r hc ha hg hd hw ih =>
    obtain ⟨p, ps, y, hr, hp, rfl⟩ := parts_of_wordHere hw
    rw [hr,Text.spaced_cons] at ih
    -- the word in front of which the character stood is there again, with a space or nothing behind it
    have hseam := splits_spaces (c :: p) ps
    have hword : wordHere (p ++ ps.flatMap (' ' :: ·)) = true := by
      rw [hseam.tail.wordHere_append]
      exact wordHere_of_append hw hp
    obtain ⟨hcomment, harrow⟩ := hseam.cons_cases
      (fun s h1 h2 => hc (s ++ y) h1 (by rw [h2]; rfl)) (fun s h1 h2 => ha (s ++ y) h1 (by rw [h2]; rfl))
    rw [hr,Text.attach,Text.spaced_cons,List.cons_append,parts_cons hcomment harrow,if_neg hg,if_neg hd,
      if_pos hword,ih,Text.attach]
  | case7 c r _ _ hg hd hw ih =>
    have hseam := splits_spaces [c] (parts r)
    obtain ⟨hcomment, harrow⟩ := hseam.cons_cases (by simp) (by simp)
    have hword : ¬wordHere ((parts r).flatMap (' ' :: ·)) = true := by simp [hseam.word]
    rw [Text.spaced_cons,List.cons_append,parts_cons hcomment harrow,if_neg hg,if_neg hd,
      List.nil_append,if_neg hword,parts_spaces,ih]

end Lexer

namespace Token

/-- Joining tokens lexed from a line writes their parts with a space between them. -/
theorem toList_joinText (text : String) :
    (joinText (ofText text)).toList = Text.spaced (Lexer.parts text.toList) := by
  have htexts : (ofText text).map Token.text = Lexer.split text := by
    simp [ofText,Function.comp_def,ofPart,Token.text]
  rw [joinText,htexts,String.toList_intercalate]
  simp [Text.spaced,Lexer.split,Function.comp_def]

theorem relexing_stable (text : String) : ofText (joinText (ofText text)) = ofText text := by
  have hparts : Lexer.split (joinText (ofText text)) = Lexer.split text := by
    rw [Lexer.split,toList_joinText,Lexer.parts_spaced_parts,Lexer.split]
  rw [ofText,hparts,ofText]

example : joinText (ofText "a==>@b//c d") = "a= => @b //c d" := by decide +kernel

end Token

end LineScript
