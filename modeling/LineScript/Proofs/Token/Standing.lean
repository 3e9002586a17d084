import Mathlib.Data.List.TakeWhile
import LineScript.Proofs.Token.Parts
set_option autoImplicit false

/-!
Texts that stand in a text: `Stands w cs` says that `w` is in `cs` with an end of words on both sides.
What is cut out of a text for evaluation stands in it; and what stands in a part of a text, or in a text
put together from parts, stood in the text before. So a word that turns up when a text is cut and lexed
again and again was a word of the first text.
-/

namespace LineScript.Lexer

theorem eq_of_isDelimiter {c : Char} (h : isDelimiter c = true) :
    c = '\x7b' ∨ c = '\x7d' ∨ c = ':' ∨ c = ',' ∨ c = '?' := by
  simpa [isDelimiter,or_assoc] using h

/-- Does no word go past the character? -/
def isBreak (c : Char) : Bool := Text.isBlank c || isDelimiter c

/-- A word may start here; the text before it is given with its last character first. -/
inductive Opens : List Char → Prop where
  | start : Opens []
  | break_ {c : Char} (hc : isBreak c = true) (a : List Char) : Opens (c :: a)
  | arrow (a : List Char) : Opens ('>' :: '=' :: a)

/-- A word may end before the text. -/
inductive Closes : List Char → Prop where
  | stop : Closes []
  | break_ {c : Char} (hc : isBreak c = true) (b : List Char) : Closes (c :: b)
  | at_ (b : List Char) : Closes ('@' :: b)
  | arrow (b : List Char) : Closes ('=' :: '>' :: b)
  | comment (b : List Char) : Closes ('/' :: '/' :: b)

def Stands (w cs : List Char) : Prop := ∃ a b, cs = a.reverse ++ w ++ b ∧ Opens a ∧ Closes b

theorem Opens.append {a x : List Char} (h : Opens a) (hx : a = [] → Opens x) : Opens (a ++ x) := by
  cases h with
  | start => exact hx rfl
  | break_ hc a => exact .break_ hc (a ++ x)
  | arrow a => exact .arrow (a ++ x)

theorem Closes.append {b y : List Char} (h : Closes b) (hy : Closes y) : Closes (b ++ y) := by
  cases h with
  | stop => exact hy
  | break_ hc b => exact .break_ hc (b ++ y)
  | at_ b => exact .at_ (b ++ y)
  | arrow b => exact .arrow (b ++ y)
  | comment b => exact .comment (b ++ y)

theorem isBreak_of_isGap {c : Char} (h : isGap c = true) : isBreak c = true := by
  obtain rfl | rfl : c = ' ' ∨ c = '\t' := by simpa [isGap] using h
  · decide
  · decide

/-- No arrow and no comment goes past a break either. -/
theorem Opens.of_append_break {a x : List Char} {c : Char} (h : Opens (a ++ c :: x))
    (hc : isBreak c = true) : Opens a := by
  match a, h with
  | [], _ => exact .start
  | [d], .break_ hd _ => exact .break_ hd []
  | [_], .arrow _ => cases hc
  | d :: e :: a, .break_ hd _ => exact .break_ hd (e :: a)
  | _ :: _ :: a, .arrow _ => exact .arrow a

theorem Closes.of_append_break {b x : List Char} {c : Char} (h : Closes (b ++ c :: x))
    (hc : isBreak c = true) : Closes b := by
  match b, h with
  | [], _ => exact .stop
  | [d], .break_ hd _ => exact .break_ hd []
  | [_], .at_ _ => exact .at_ []
  | [_], .arrow _ => cases hc
  | [_], .comment _ => cases hc
  | d :: e :: b, .break_ hd _ => exact .break_ hd (e :: b)
  | _ :: e :: b, .at_ _ => exact .at_ (e :: b)
  | _ :: _ :: b, .arrow _ => exact .arrow b
  | _ :: _ :: b, .comment _ => exact .comment b

namespace Stands

variable {w x cs : List Char}

theorem refl (cs : List Char) : Stands cs cs := ⟨[], [], by simp, .start, .stop⟩

theorem trans (h : Stands w x) (hx : Stands x cs) : Stands w cs := by
  obtain ⟨a, b, rfl, ha, hb⟩ := h
  obtain ⟨a', b', rfl, ha', hb'⟩ := hx
  exact ⟨a ++ a', b ++ b', by simp, ha.append fun _ => ha', hb.append hb'⟩

theorem isInfix (h : Stands w cs) : w <:+: cs := by
  obtain ⟨a, b, rfl, -, -⟩ := h
  exact ⟨a.reverse, b, rfl⟩

end Stands

theorem opens_of_blanks {a : List Char} (h : ∀ c ∈ a, Text.isBlank c = true) : Opens a := by
  cases a with
  | nil => exact .start
  | cons c a => exact .break_ (by simp [isBreak,h c (by simp)]) a

theorem closes_of_blanks {b : List Char} (h : ∀ c ∈ b, Text.isBlank c = true) : Closes b := by
  cases b with
  | nil => exact .stop
  | cons c b => exact .break_ (by simp [isBreak,h c (by simp)]) b

theorem stands_trimStart (cs : List Char) : Stands (Text.trimStart cs) cs := by
  refine ⟨(cs.takeWhile Text.isBlank).reverse, [], by simp [Text.trimStart], opens_of_blanks ?_, .stop⟩
  exact fun c hc => List.mem_takeWhile_imp (List.mem_reverse.1 hc)

theorem stands_trimEnd (cs : List Char) : Stands (Text.trimEnd cs) cs := by
  refine ⟨[], (cs.reverse.takeWhile Text.isBlank).reverse, ?_, .start, closes_of_blanks ?_⟩
  · rw [Text.trimEnd,List.reverse_nil,List.nil_append,← List.reverse_append,
      List.takeWhile_append_dropWhile,List.reverse_reverse]
  · exact fun c hc => List.mem_takeWhile_imp (List.mem_reverse.1 hc)

theorem stands_trim (cs : List Char) : Stands (Text.trim cs) cs :=
  (stands_trimEnd _).trans (stands_trimStart cs)

theorem stands_of_mem_pieces {sep : Char} (hsep : isBreak sep = true) {cs p : List Char}
    (h : p ∈ Text.pieces sep cs) : Stands p cs := by
  -- every piece but the first stands in the text whatever is put before it
  have hpieces : ∃ q qs b, Text.pieces sep cs = q :: qs ∧ cs = q ++ b ∧ Closes b ∧
      ∀ p ∈ qs, ∀ x, Stands p (x ++ cs) := by
    clear h
    induction cs with
    | nil => exact ⟨[], [], [], rfl, rfl, .stop, by simp⟩
    | cons c r ih =>
      obtain ⟨q, qs, b, hr, hq, hb, hqs⟩ := ih
      have hlater : ∀ p ∈ qs, ∀ x, Stands p (x ++ c :: r) := by
        intro p hp x
        simpa using hqs p hp (x ++ [c])
      rw [Text.pieces,hr]
      split
      · next hc =>
        obtain rfl : c = sep := by simpa using hc
        refine ⟨[], q :: qs, c :: r, rfl, rfl, .break_ hsep r, ?_⟩
        refine List.forall_mem_cons.2 ⟨fun x => ?_, hlater⟩
        exact ⟨c :: x.reverse, b, by simp [hq], .break_ hsep _, hb⟩
      · exact ⟨c :: q, qs, b, rfl, by simp [hq], hb, hlater⟩
  obtain ⟨q, qs, b, hcs, hq, hb, hqs⟩ := hpieces
  rw [hcs] at h
  rcases List.mem_cons.1 h with rfl | h
  · exact ⟨[], b, by simpa using hq, .start, hb⟩
  · exact hqs p h []

theorem stands_of_cut {c : Char} (hc : isBreak c = true) {cs a b : List Char}
    (h : Text.cut [c] cs = some (a, b)) : Stands b cs := by
  refine ⟨c :: a.reverse, [], ?_, .break_ hc _, .stop⟩
  simpa using (Text.cut_append h).symm

/-- The texts that the lexer reads as one identifier, among others. -/
structure IsWord (w : List Char) : Prop where
  ne_nil : w ≠ []
  inner : ∀ c ∈ w, isInner c = true
  ne_arrow : w ≠ ['=', '>']

theorem IsWord.not_stands_nil {w : List Char} (hw : IsWord w) : ¬Stands w [] :=
  fun h => hw.ne_nil (List.infix_nil.1 h.isInfix)

theorem closes_of_wordHere {r : List Char} (h : wordHere r = false) : Closes r := by
  unfold wordHere at h
  split at h
  · exact .stop
  · exact .comment _
  · exact .arrow _
  · next c r _ _ =>
    have hc : (isGap c = true ∨ isDelimiter c = true) ∨ c = '@' := by
      simpa only [Bool.not_eq_false',Bool.or_eq_true,beq_iff_eq] using h
    obtain (hg | hd) | rfl := hc
    · exact .break_ (isBreak_of_isGap hg) r
    · exact .break_ (by simp [isBreak,hd]) r
    · exact .at_ r

theorem not_stands_delimiter {w : List Char} {c : Char} (hw : IsWord w) (hc : isDelimiter c = true) :
    ¬Stands w [c] := by
  intro h
  obtain ⟨d, hd⟩ := List.exists_mem_of_ne_nil w hw.ne_nil
  obtain rfl : d = c := by simpa using h.isInfix.subset hd
  simpa [isInner,hc] using hw.inner d hd

theorem not_stands_arrow {w : List Char} (hw : IsWord w) : ¬Stands w ['=', '>'] := by
  rintro ⟨a, b, h, ha, hb⟩
  have hlen : a.length + (w.length + b.length) = 2 := by simpa using (congrArg List.length h).symm
  have hpos : 0 < w.length := List.length_pos_iff.2 hw.ne_nil
  have hbreak {c : Char} (hc : isBreak c = true) : c ∉ a.reverse ++ w ++ b := by
    intro hmem
    obtain rfl | rfl : c = '=' ∨ c = '>' := by simpa [← h] using hmem
    · cases hc
    · cases hc
  cases hb with
  | break_ hc b => exact hbreak hc (by simp)
  | at_ b =>
    have hmem : '@' ∈ ['=', '>'] := h ▸ by simp
    simp at hmem
  | arrow b => simp at hlen; omega
  | comment b =>
    have hmem : '/' ∈ ['=', '>'] := h ▸ by simp
    simp at hmem
  | stop =>
    cases ha with
    | start => exact hw.ne_arrow (by simpa using h.symm)
    | break_ hc a => exact hbreak hc (by simp)
    | arrow a => simp at hlen; omega

/-- What stands in a part that is no comment stands in the text. -/
theorem Lexed.stands {cs p w : List Char} {ps : List (List Char)} (h : Lexed cs ps) (hp : p ∈ ps)
    (hcomment : ∀ r, p ≠ '/' :: '/' :: r) (hw : IsWord w) (hs : Stands w p) : Stands w cs := by
  -- before the word is an end of words in the text, or the text starts with a word
  have hplace : ∃ a b, cs = a.reverse ++ w ++ b ∧ Closes b ∧ Opens a ∧
      (a = [] → wordHere cs = true) := by
    induction h with
    | nil => cases hp
    | @gap c r ps hg _ ih =>
      obtain ⟨a, b, rfl, hb, ha, -⟩ := ih hp
      exact ⟨a ++ [c], b, by simp, hb, ha.append fun _ => .break_ (isBreak_of_isGap hg) [], by simp⟩
    | comment r =>
      obtain rfl : p = '/' :: '/' :: r := by simpa using hp
      exact absurd rfl (hcomment r)
    | @arrow r ps _ ih =>
      rcases List.mem_cons.1 hp with rfl | hp
      · exact absurd hs (not_stands_arrow hw)
      · obtain ⟨a, b, rfl, hb, ha, -⟩ := ih hp
        exact ⟨a ++ ['>', '='], b, by simp, hb, ha.append fun _ => .arrow [], by simp⟩
    | @delimiter c r ps hd _ ih =>
      rcases List.mem_cons.1 hp with rfl | hp
      · exact absurd hs (not_stands_delimiter hw hd)
      · obtain ⟨a, b, rfl, hb, ha, -⟩ := ih hp
        have hc : isBreak c = true := by simp [isBreak,hd]
        exact ⟨a ++ [c], b, by simp, hb, ha.append fun _ => .break_ hc [], by simp⟩
    | @word c v r ps hc _ hend _ ih =>
      rcases List.mem_cons.1 hp with rfl | hp
      · obtain ⟨a, b, hab, ha, hb⟩ := hs
        refine ⟨a, b ++ r, ?_, hb.append (closes_of_wordHere hend), ha, ?_⟩
        · simpa using congrArg (· ++ r) hab
        · rintro rfl
          refine hc ?_
          rintro rfl
          obtain ⟨d, u, rfl⟩ := List.exists_cons_of_ne_nil hw.ne_nil
          obtain rfl : '@' = d := by simpa using congrArg List.head? hab
          simpa [isInner] using hw.inner '@' (by simp)
      · obtain ⟨a, b, rfl, hb, ha, hstart⟩ := ih hp
        refine ⟨a ++ (c :: v).reverse, b, by simp, hb, ha.append fun hnil => ?_, by simp⟩
        rw [hstart hnil] at hend
        cases hend
  obtain ⟨a, b, hcs, hb, ha, -⟩ := hplace
  exact ⟨a, b, hcs, ha, hb⟩

/-- A word that stands in two texts with a break between them stands in one of them. -/
theorem Stands.of_append_break {w s x : List Char} {c : Char} (h : Stands w (s ++ c :: x))
    (hw : IsWord w) (hc : isBreak c = true) (hi : isInner c = false) : Stands w s ∨ Stands w x := by
  obtain ⟨a, b, hcs, ha, hb⟩ := h
  have hmem : c ∉ w := fun hmem => by simp [hw.inner c hmem] at hi
  rw [List.append_assoc] at hcs
  rcases List.append_eq_append_iff.1 hcs with ⟨d, had, hdb⟩ | ⟨d, hsd, hdb⟩
  · -- the word starts behind the break
    right
    cases d with
    | nil =>
      obtain ⟨e, u, rfl⟩ := List.exists_cons_of_ne_nil hw.ne_nil
      obtain ⟨rfl, -⟩ : c = e ∧ _ := by simpa using hdb
      simp at hmem
    | cons e d =>
      obtain ⟨rfl, rfl⟩ : c = e ∧ x = d ++ (w ++ b) := by simpa using hdb
      have haeq : a = d.reverse ++ c :: s.reverse := by simpa using congrArg List.reverse had
      exact ⟨d.reverse, b, by simp, (haeq ▸ ha).of_append_break hc, hb⟩
  · left
    rcases List.append_eq_append_iff.1 hdb with ⟨e, hde, hbe⟩ | ⟨e, hwe, hbe⟩
    · exact ⟨a, e, by simp [hsd,hde], ha, (hbe ▸ hb).of_append_break hc⟩
    · cases e with
      | nil => exact ⟨a, [], by simp [hsd,hwe], ha, .stop⟩
      | cons f e =>
        obtain ⟨rfl, -⟩ : c = f ∧ _ := by simpa using hbe
        simp [hwe] at hmem

end LineScript.Lexer
