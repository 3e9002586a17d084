import LineScript.Text.Basic
set_option autoImplicit false

/-! Cuts at a separator: nothing is cut exactly if the separator does not stand in the text, and it stands
nowhere before the first place where it does. -/

namespace LineScript.Text

variable {sep cs a b : List Char}

theorem cut_eq_none_iff (hsep : sep ≠ []) : cut sep cs = none ↔ ¬sep <:+: cs := by
  induction cs with
  | nil => simp [cut,hsep]
  | cons c r ih =>
    rw [cut,List.infix_cons_iff]
    by_cases hp : sep.isPrefixOf (c :: r) = true
    · simp [hp,List.isPrefixOf_iff_prefix.1 hp]
    · have hp' : ¬sep <+: c :: r := fun h => hp (List.isPrefixOf_iff_prefix.2 h)
      simp [hp,hp',ih]

/-- The separator begins nowhere before the first place where it stands. -/
theorem not_infix_of_cut (hsep : sep ≠ []) (h : cut sep cs = some (a, b)) :
    ¬sep <:+: a ++ sep.dropLast := by
  induction cs generalizing a with
  | nil => simp [cut] at h
  | cons c r ih =>
    rw [cut] at h
    split at h
    · obtain ⟨rfl, -⟩ : [] = a ∧ (c :: r).drop sep.length = b := by simpa using h
      intro hi
      have hlen := hi.length_le
      have hpos := List.length_pos_iff.2 hsep
      simp only [List.nil_append,List.length_dropLast] at hlen
      omega
    · next hp =>
      obtain ⟨⟨a', b'⟩, hr, he⟩ := Option.map_eq_some_iff.1 h
      obtain ⟨rfl, rfl⟩ : c :: a' = a ∧ b' = b := by simpa using he
      have happend := cut_append hr
      rw [List.cons_append,List.infix_cons_iff]
      rintro (hs | hs)
      · refine hp (List.isPrefixOf_iff_prefix.2 (hs.trans ?_))
        refine ⟨[sep.getLast hsep] ++ b', ?_⟩
        rw [← happend,List.cons_append,List.append_assoc,← List.append_assoc sep.dropLast,
          List.dropLast_concat_getLast,List.append_assoc]
      · exact ih hr hs

/-- A cut is made at the first place where the separator stands, also where it could reach into the text
before that place. -/
theorem cut_of_first (h : ¬sep <:+: a ++ sep.dropLast) (b : List Char) :
    cut sep (a ++ sep ++ b) = some (a, b) := by
  have hsep : sep ≠ [] := by
    rintro rfl
    exact h List.nil_infix
  induction a with
  | nil =>
    obtain ⟨c, r, rfl⟩ := List.exists_cons_of_ne_nil hsep
    simp [cut]
  | cons c a ih =>
    rw [List.cons_append,List.infix_cons_iff,not_or] at h
    have hnot : ¬sep <+: c :: (a ++ sep ++ b) := by
      intro hs
      refine h.1 (List.prefix_of_prefix_length_le hs ⟨[sep.getLast hsep] ++ b, ?_⟩ ?_)
      · rw [List.cons_append,List.append_assoc,← List.append_assoc sep.dropLast,
          List.dropLast_concat_getLast,List.append_assoc]
      · have hpos := List.length_pos_iff.2 hsep
        simp only [List.length_cons,List.length_append,List.length_dropLast]
        omega
    rw [← List.isPrefixOf_iff_prefix] at hnot
    rw [List.cons_append,List.cons_append,cut,if_neg hnot,ih h.2]
    rfl

theorem cut_of_not_mem {c : Char} (h : c ∉ a) (b : List Char) : cut [c] (a ++ c :: b) = some (a, b) := by
  induction a with
  | nil => simp [cut,List.isPrefixOf]
  | cons d a ih =>
    obtain ⟨hd, ha⟩ : c ≠ d ∧ c ∉ a := by simpa using h
    simp [cut,List.isPrefixOf,hd,ih ha]

theorem not_comment_tail {c : Char} (h : ¬['/', '/'] <:+: c :: a) : ¬['/', '/'] <:+: a :=
  fun hi => h (hi.trans (List.suffix_cons c a).isInfix)

/-- No comment begins across a character that is no slash. -/
theorem not_comment_append {c : Char} (hc : c ≠ '/') (ha : ¬['/', '/'] <:+: a)
    (hb : ¬['/', '/'] <:+: b) : ¬['/', '/'] <:+: a ++ c :: b := by
  induction a with
  | nil =>
    rw [List.nil_append,List.infix_cons_iff]
    rintro (hs | hs)
    · exact hc (List.cons_prefix_cons.1 hs).1.symm
    · exact hb hs
  | cons d a ih =>
    rw [List.cons_append,List.infix_cons_iff]
    rintro (hs | hs)
    · obtain ⟨rfl, hnext⟩ := List.cons_prefix_cons.1 hs
      cases a with
      | nil => exact hc (List.cons_prefix_cons.1 hnext).1.symm
      | cons e a =>
        obtain ⟨rfl, -⟩ := List.cons_prefix_cons.1 hnext
        exact ha ⟨[], a, rfl⟩
    · exact ih (not_comment_tail ha) hs

theorem code_prefix (cs : List Char) : code cs <+: cs := by
  unfold code
  cases hc : cut ['/', '/'] cs with
  | none => exact List.prefix_rfl
  | some p => exact ⟨['/', '/'] ++ p.2, by simpa using cut_append hc⟩

theorem not_comment_code (cs : List Char) : ¬['/', '/'] <:+: code cs := by
  unfold code
  cases hc : cut ['/', '/'] cs with
  | none => exact (cut_eq_none_iff (by simp)).1 hc
  | some p => exact fun hi => not_infix_of_cut (by simp) hc (hi.trans (List.prefix_append _ _).isInfix)

theorem code_eq_self (h : ¬['/', '/'] <:+: cs) : code cs = cs := by
  rw [code,(cut_eq_none_iff (by simp)).2 h]
  rfl

theorem code_append_of_not_mem (h : '/' ∉ a) (b : List Char) : code (a ++ b) = a ++ code b := by
  induction a with
  | nil => rfl
  | cons c a ih =>
    obtain ⟨hc, ha⟩ : '/' ≠ c ∧ '/' ∉ a := by simpa using h
    have hcut := ih ha
    unfold code at hcut ⊢
    cases hab : cut ['/', '/'] (a ++ b) with
    | none => simpa [cut,List.isPrefixOf,hc,hab] using hcut
    | some p => simpa [cut,List.isPrefixOf,hc,hab] using hcut

end LineScript.Text
