import LineScript.Token.Lexer
set_option autoImplicit false

/-!
How the parts of a line lie in it. `Lexed cs ps` says that `ps` are the parts of `cs` from left to right
with only gaps between them, and that no word could have gone on; the lexer finds such parts in every
line.
-/

namespace LineScript.Lexer

/-- May the character stand inside a word? An at sign only starts one. -/
def isInner (c : Char) : Bool := !(isGap c || isDelimiter c || c == '@')

inductive Lexed : List Char → List (List Char) → Prop where
  | nil : Lexed [] []
  | gap {c : Char} {r : List Char} {ps : List (List Char)} :
    isGap c = true → Lexed r ps → Lexed (c :: r) ps
  | comment (r : List Char) : Lexed ('/' :: '/' :: r) ['/' :: '/' :: r]
  | arrow {r : List Char} {ps : List (List Char)} :
    Lexed r ps → Lexed ('=' :: '>' :: r) (['=', '>'] :: ps)
  | delimiter {c : Char} {r : List Char} {ps : List (List Char)} :
    isDelimiter c = true → Lexed r ps → Lexed (c :: r) ([c] :: ps)
  | word {c : Char} {w r : List Char} {ps : List (List Char)} :
    (c ≠ '@' → wordHere (c :: (w ++ r)) = true) → (∀ d ∈ w, isInner d = true) → wordHere r = false →
    Lexed r ps → Lexed (c :: (w ++ r)) ((c :: w) :: ps)

theorem isInner_of_wordHere {c : Char} {r : List Char} (h : wordHere (c :: r) = true) :
    isInner c = true := by
  unfold wordHere at h
  split at h <;> simp_all [isInner]

theorem wordHere_of {c : Char} {r : List Char} (hcomment : ∀ s, c = '/' → r = '/' :: s → False)
    (harrow : ∀ s, c = '=' → r = '>' :: s → False) (hg : ¬isGap c = true) (hd : ¬isDelimiter c = true)
    (hc : c ≠ '@') : wordHere (c :: r) = true := by
  unfold wordHere
  split
  · next h => cases h
  · next s h => cases h; exact (hcomment s rfl rfl).elim
  · next s h => cases h; exact (harrow s rfl rfl).elim
  · next d s _ _ h => cases h; simp [hg,hd,hc]

/-- A character in front of a word that goes on there belongs to that word. -/
theorem Lexed.attach {c : Char} {r : List Char} {ps : List (List Char)}
    (hc : c ≠ '@' → wordHere (c :: r) = true) (hw : wordHere r = true) (h : Lexed r ps) :
    Lexed (c :: r) (Text.attach c ps) := by
  cases h with
  | nil => simp [wordHere] at hw
  | gap hgap _ =>
    have hc := isInner_of_wordHere hw
    simp [isInner,hgap] at hc
  | comment r => simp [wordHere] at hw
  | arrow _ => simp [wordHere] at hw
  | delimiter hdel _ =>
    have hc := isInner_of_wordHere hw
    simp [isInner,hdel] at hc
  | @word d w r ps _ hinner hend hrest =>
    have hword : ∀ e ∈ d :: w, isInner e = true :=
      List.forall_mem_cons.2 ⟨isInner_of_wordHere hw, hinner⟩
    exact .word hc hword hend hrest

theorem lexed_parts (cs : List Char) : Lexed cs (parts cs) := by
  fun_induction parts cs with
  | case1 => exact .nil
  | case2 r => exact .comment r
  | case3 r ih => exact .arrow ih
  | case4 c r _ _ hg ih => exact .gap hg ih
  | case5 c r _ _ hg hd ih => exact .delimiter hd ih
  | case6 c r hcomment harrow hg hd hw ih =>
    exact .attach (wordHere_of hcomment harrow hg hd) hw ih
  | case7 c r hcomment harrow hg hd hw ih =>
    exact .word (w := []) (wordHere_of hcomment harrow hg hd) (by simp) (by simpa using hw) ih

/-- A part is a comment, an arrow, a delimiter or a word. -/
theorem Lexed.part_cases {cs p : List Char} {ps : List (List Char)} (h : Lexed cs ps) (hp : p ∈ ps) :
    (∃ r, p = '/' :: '/' :: r) ∨ p = ['=', '>'] ∨ (∃ c, isDelimiter c = true ∧ p = [c]) ∨
      ∃ c w, p = c :: w ∧ (c ≠ '@' → isInner c = true) ∧ ∀ d ∈ w, isInner d = true := by
  induction h with
  | nil => cases hp
  | gap _ _ ih => exact ih hp
  | comment r => exact .inl ⟨r, by simpa using hp⟩
  | arrow _ ih =>
    rcases List.mem_cons.1 hp with rfl | hp
    · exact .inr (.inl rfl)
    · exact ih hp
  | @delimiter c _ _ hd _ ih =>
    rcases List.mem_cons.1 hp with rfl | hp
    · exact .inr (.inr (.inl ⟨c, hd, rfl⟩))
    · exact ih hp
  | @word c w _ _ hc hinner _ _ ih =>
    rcases List.mem_cons.1 hp with rfl | hp
    · exact .inr (.inr (.inr ⟨c, w, rfl, fun hne => isInner_of_wordHere (hc hne), hinner⟩))
    · exact ih hp

theorem infix_of_lexed {cs p : List Char} {ps : List (List Char)} (h : Lexed cs ps) (hp : p ∈ ps) :
    p <:+: cs := by
  induction h with
  | nil => cases hp
  | gap _ _ ih => exact (ih hp).trans (List.suffix_cons _ _).isInfix
  | comment r =>
    obtain rfl : p = '/' :: '/' :: r := by simpa using hp
    exact List.infix_rfl
  | @arrow r ps _ ih =>
    rcases List.mem_cons.1 hp with rfl | hp
    · exact ⟨[], r, rfl⟩
    · exact (ih hp).trans (List.suffix_append ['=', '>'] r).isInfix
  | @delimiter c r ps _ _ ih =>
    rcases List.mem_cons.1 hp with rfl | hp
    · exact ⟨[], r, rfl⟩
    · exact (ih hp).trans (List.suffix_cons c r).isInfix
  | @word c w r ps _ _ _ _ ih =>
    rcases List.mem_cons.1 hp with rfl | hp
    · exact ⟨[], r, rfl⟩
    · exact (ih hp).trans (List.suffix_append (c :: w) r).isInfix

theorem flatten_sublist_of_lexed {cs : List Char} {ps : List (List Char)} (h : Lexed cs ps) :
    ps.flatten.Sublist cs := by
  induction h with
  | nil => exact .slnil
  | @gap c _ _ _ _ ih => exact ih.cons c
  | comment r => simp
  | arrow _ ih => exact (ih.cons_cons '>').cons_cons '='
  | @delimiter c _ _ _ _ ih => exact ih.cons_cons c
  | @word c w _ _ _ _ _ _ ih => exact List.Sublist.append_left ih (c :: w)

theorem infix_of_mem_split {text part : String} (h : part ∈ split text) :
    part.toList <:+: text.toList := by
  obtain ⟨p, hp, rfl⟩ := List.mem_map.1 h
  rw [String.toList_ofList]
  exact infix_of_lexed (lexed_parts text.toList) hp

end LineScript.Lexer
