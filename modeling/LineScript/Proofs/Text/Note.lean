import Mathlib.Data.List.Basic
import LineScript.Proofs.Text.Cut
import LineScript.Proofs.Text.Trim
import LineScript.Text.Word
import LineScript.Token.Lexer
set_option autoImplicit false

/-!
Notes: comments put behind a text, with a gap between. A cut that finds its separator in the text finds it
in the same place when a note follows, and one that does not finds at most what the note holds.
-/

namespace LineScript.Text

open Lexer (isGap)

variable {sep a x y note word gap : List Char} {g : Char}

/-- A gap that ends with a space, two slashes and any text, the last character of which is no blank. -/
def IsNote (note : List Char) : Prop :=
  (∃ gap text, (∀ c ∈ gap, isGap c = true) ∧ note = gap ++ ' ' :: '/' :: '/' :: text) ∧
    ∀ c, note.getLast? = some c → isBlank c = false

/-- The second text is the first, or the first with a note behind it. -/
def Notes (s t : String) : Prop := t = s ∨ ∃ note, IsNote note ∧ t.toList = s.toList ++ note

/-- A comment and nothing else. -/
def IsRemark (s : String) : Prop := ∃ text, s.toList = '/' :: '/' :: text

theorem eq_of_isGap (h : isGap g = true) : g = ' ' ∨ g = '\t' := by simpa [isGap] using h

theorem isBlank_of_isGap (h : isGap g = true) : isBlank g = true := by
  obtain rfl | rfl := eq_of_isGap h
  · decide
  · decide

theorem IsNote.cons (h : IsNote note) :
    ∃ g gap text, isGap g = true ∧ (∀ c ∈ gap, isGap c = true) ∧
      note = g :: (gap ++ '/' :: '/' :: text) := by
  obtain ⟨⟨gap, text, hgap, rfl⟩, -⟩ := h
  cases gap with
  | nil => exact ⟨' ', [], text, rfl, by simp, rfl⟩
  | cons g gap =>
    obtain ⟨hg, hgap⟩ := List.forall_mem_cons.1 hgap
    refine ⟨g, gap ++ [' '], text, hg, fun c hc => ?_, by simp⟩
    rcases List.mem_append.1 hc with hc | hc
    · exact hgap c hc
    · obtain rfl : c = ' ' := by simpa using hc
      rfl

section Cuts

/-- A separator that fits into the front of a text stands there or does not stand at its start at all. -/
theorem isPrefixOf_append (h : sep.length ≤ a.length) (x : List Char) :
    sep.isPrefixOf (a ++ x) = sep.isPrefixOf a := by
  refine Bool.eq_iff_iff.2 ?_
  rw [List.isPrefixOf_iff_prefix,List.isPrefixOf_iff_prefix]
  refine ⟨fun hs => ?_, fun hs => hs.trans (List.prefix_append a x)⟩
  exact List.prefix_of_prefix_length_le hs (List.prefix_append a x) h

/-- A separator that a gap cannot be inside of does not reach over one. -/
theorem isPrefixOf_append_gap (hsep : g ∉ sep.tail) (ha : a ≠ []) (x : List Char) :
    sep.isPrefixOf (a ++ g :: x) = sep.isPrefixOf a := by
  by_cases hlen : sep.length ≤ a.length
  · exact isPrefixOf_append hlen _
  · have hnot : ¬sep <+: a := fun hs => hlen hs.length_le
    have hnot' : ¬sep <+: a ++ g :: x := by
      intro hs
      have hpre : a <+: sep :=
        List.prefix_of_prefix_length_le (List.prefix_append a _) hs (by omega)
      obtain ⟨t, rfl⟩ := hpre
      obtain ⟨c, a, rfl⟩ := List.exists_cons_of_ne_nil ha
      cases t with
      | nil => simp at hlen
      | cons d t =>
        obtain ⟨rfl, -⟩ := List.cons_prefix_cons.1 ((List.prefix_append_right_inj _).1 hs)
        exact hsep (by simp)
    rw [← List.isPrefixOf_iff_prefix] at hnot hnot'
    rw [Bool.eq_false_iff.2 hnot,Bool.eq_false_iff.2 hnot']

/-- A separator that a character can only begin stands on one side of it, or begins with it. -/
theorem infix_append_of (hsep : g ∉ sep.tail) (h : sep <:+: a ++ g :: x) : sep <:+: a ∨ sep <:+: g :: x := by
  induction a with
  | nil => exact .inr h
  | cons c a ih =>
    rcases List.infix_cons_iff.1 h with hs | hs
    · have hp : sep.isPrefixOf (c :: a ++ g :: x) = true := List.isPrefixOf_iff_prefix.2 hs
      rw [isPrefixOf_append_gap hsep (List.cons_ne_nil c a)] at hp
      exact .inl (List.isPrefixOf_iff_prefix.1 hp).isInfix
    · exact (ih hs).imp_left fun hi => hi.trans (List.suffix_cons c a).isInfix

theorem cut_append_right (h : cut sep a = some (x, y)) (b : List Char) :
    cut sep (a ++ b) = some (x, y ++ b) := by
  induction a generalizing x with
  | nil => simp [cut] at h
  | cons c r ih =>
    have hlen : sep.length ≤ (c :: r).length := by
      rw [← cut_append h]
      simp
      omega
    rw [cut] at h
    rw [List.cons_append,cut,← List.cons_append,isPrefixOf_append hlen]
    split at h
    · next hp =>
      obtain ⟨rfl, rfl⟩ : [] = x ∧ (c :: r).drop sep.length = y := by simpa using h
      rw [if_pos hp,List.drop_append_of_le_length hlen]
    · next hp =>
      obtain ⟨⟨x', y'⟩, hr, he⟩ := Option.map_eq_some_iff.1 h
      obtain ⟨rfl, rfl⟩ : c :: x' = x ∧ y' = y := by simpa using he
      rw [if_neg hp,ih hr]
      rfl

theorem cut_append_gap (hsep : g ∉ sep.tail) (h : cut sep a = none) (x : List Char) :
    cut sep (a ++ g :: x) = (cut sep (g :: x)).map fun p => (a ++ p.1, p.2) := by
  induction a with
  | nil => simp
  | cons c r ih =>
    rw [cut] at h
    split at h
    · cases h
    · next hp =>
      have hr : cut sep r = none := Option.map_eq_none_iff.1 h
      have hp' : ¬sep.isPrefixOf (c :: (r ++ g :: x)) = true := by
        rwa [← List.cons_append,isPrefixOf_append_gap hsep (List.cons_ne_nil c r)]
      rw [List.cons_append,cut,if_neg hp',ih hr,Option.map_map]
      rfl

theorem cut_append_gaps (htail : ∀ c ∈ sep.tail, isGap c = false) (hsome : ∃ c ∈ sep, isGap c = false)
    (hgap : ∀ c ∈ gap, isGap c = true) :
    cut sep (a ++ gap) = (cut sep a).map fun p => (p.1, p.2 ++ gap) := by
  obtain ⟨d, hd, hdgap⟩ := hsome
  cases ha : cut sep a with
  | some p => exact cut_append_right ha gap
  | none =>
    cases gap with
    | nil => simpa using ha
    | cons g gap =>
      have hg : g ∉ sep.tail := fun hmem => by
        have hno := htail g hmem
        rw [hgap g List.mem_cons_self] at hno
        cases hno
      have hnone : cut sep (g :: gap) = none := by
        refine (cut_eq_none_iff (List.ne_nil_of_mem hd)).2 fun hi => ?_
        rw [hgap d (hi.subset hd)] at hdgap
        cases hdgap
      rw [cut_append_gap hg ha,hnone]
      rfl

/-- The code before a comment is the same with a note behind it, up to a gap. -/
theorem code_append_note (h : IsNote note) (a : List Char) :
    ∃ gap, (∀ c ∈ gap, isGap c = true) ∧ code (a ++ note) = code a ++ gap := by
  cases ha : cut ['/', '/'] a with
  | some p => exact ⟨[], by simp, by simp [code,cut_append_right ha,ha]⟩
  | none =>
    obtain ⟨⟨gap, text, hgap, rfl⟩, -⟩ := h
    have hgaps : cut ['/', '/'] (a ++ gap) = none := by
      rw [cut_append_gaps (by simp [isGap]) (by simp [isGap]) hgap,ha]
      rfl
    refine ⟨gap ++ [' '], ?_, ?_⟩
    · simpa [or_imp,forall_and] using ⟨hgap, rfl⟩
    · rw [← List.append_assoc,code,cut_append_gap (by decide) hgaps,code,ha]
      simp [cut,List.isPrefixOf]

theorem Notes.code {s t : String} (h : Notes s t) :
    ∃ gap, (∀ c ∈ gap, isGap c = true) ∧ Text.code t.toList = Text.code s.toList ++ gap := by
  rcases h with rfl | ⟨note, hnote, hst⟩
  · exact ⟨[], by simp, (List.append_nil _).symm⟩
  · rw [hst]
    exact code_append_note hnote s.toList

/-- The first comment with a space in front is the same with a note behind it, or is the note. -/
theorem cut_comment_append_note (h : IsNote note) (a : List Char) :
    ∃ gap, (∀ c ∈ gap, isGap c = true) ∧
      ((cut [' ', '/', '/'] (a ++ note)).map Prod.fst).getD (a ++ note) =
        ((cut [' ', '/', '/'] a).map Prod.fst).getD a ++ gap := by
  cases ha : cut [' ', '/', '/'] a with
  | some p => exact ⟨[], by simp, by simp [cut_append_right ha]⟩
  | none =>
    obtain ⟨⟨gap, text, hgap, rfl⟩, -⟩ := h
    have hgaps : cut [' ', '/', '/'] (a ++ gap) = none := by
      rw [cut_append_gaps (by simp [isGap]) (by simp [isGap]) hgap,ha]
      rfl
    refine ⟨gap, hgap, ?_⟩
    rw [← List.append_assoc,cut_append_gap (by decide) hgaps]
    simp [cut,List.isPrefixOf]

end Cuts

section Words

theorem pieces_of_not_mem {c : Char} (h : c ∉ a) : pieces c a = [a] := by
  induction a with
  | nil => rfl
  | cons d a ih =>
    obtain ⟨hd, ha⟩ : c ≠ d ∧ c ∉ a := by simpa using h
    simp [pieces,hd.symm,ih ha,attach]

theorem pieces_ne_nil (c : Char) (a : List Char) : pieces c a ≠ [] := by
  cases a with
  | nil => simp [pieces]
  | cons d a =>
    rw [pieces]
    split
    · simp
    · cases pieces c a <;> simp [attach]

theorem pieces_append_sep (c : Char) (a b : List Char) :
    pieces c (a ++ c :: b) = pieces c a ++ pieces c b := by
  induction a with
  | nil => simp [pieces]
  | cons d a ih =>
    by_cases hd : d = c
    · simp [pieces,hd,ih]
    · obtain ⟨p, ps, hp⟩ := List.exists_cons_of_ne_nil (pieces_ne_nil c a)
      simp [pieces,hd,ih,hp,attach]

/-- The pieces of a text stay when a gap is put behind it; only the last one gets longer. -/
theorem pieces_append {c : Char} (hgap : c ∉ gap) (a : List Char) :
    ∃ front last, pieces c a = front ++ [last] ∧ pieces c (a ++ gap) = front ++ [last ++ gap] := by
  induction a with
  | nil => exact ⟨[], [], rfl, pieces_of_not_mem hgap⟩
  | cons d a ih =>
    obtain ⟨front, last, ha, hag⟩ := ih
    by_cases hd : d = c
    · exact ⟨[] :: front, last, by simp [pieces,hd,ha], by simp [pieces,hd,hag]⟩
    · cases front with
      | nil => exact ⟨[], d :: last, by simp [pieces,hd,ha,attach], by simp [pieces,hd,hag,attach]⟩
      | cons p front =>
        exact ⟨(d :: p) :: front, last, by simp [pieces,hd,ha,attach], by simp [pieces,hd,hag,attach]⟩

theorem wordAt_le {prev : Option Char} {n : Nat} (h : wordAt word prev a = some n) :
    n + word.length ≤ a.length := by
  induction a generalizing prev n with
  | nil => simp [wordAt] at h
  | cons c r ih =>
    rw [wordAt] at h
    split at h
    · next hp =>
      obtain rfl : 0 = n := by simpa using h
      rw [Bool.and_eq_true,Bool.and_eq_true] at hp
      simpa using (List.isPrefixOf_iff_prefix.1 hp.1.1).length_le
    · obtain ⟨k, hk, rfl⟩ := Option.map_eq_some_iff.1 h
      have hlen := ih hk
      simp
      omega

theorem wordAt_gaps (hword : ∃ c ∈ word, isGap c = false) (hgap : ∀ c ∈ gap, isGap c = true)
    (prev : Option Char) : wordAt word prev gap = none := by
  obtain ⟨d, hd, hdgap⟩ := hword
  induction gap generalizing prev with
  | nil => rfl
  | cons g gap ih =>
    have hp : word.isPrefixOf (g :: gap) = false := by
      refine Bool.eq_false_iff.2 fun hp => ?_
      rw [hgap d ((List.isPrefixOf_iff_prefix.1 hp).subset hd)] at hdgap
      cases hdgap
    rw [wordAt,hp,ih (List.forall_mem_cons.1 hgap).2]
    rfl

/-- A gap ends a word just as the end of the text does. -/
theorem wordAt_append_gaps (hword : ∀ c ∈ word, isGap c = false) (hne : word ≠ [])
    (hgap : ∀ c ∈ gap, isGap c = true) (prev : Option Char) (a : List Char) :
    wordAt word prev (a ++ gap) = wordAt word prev a := by
  obtain ⟨w, hw⟩ := List.exists_mem_of_ne_nil word hne
  induction a generalizing prev with
  | nil => exact wordAt_gaps ⟨w, hw, hword w hw⟩ hgap prev
  | cons c r ih =>
    cases gap with
    | nil => rw [List.append_nil]
    | cons g gap =>
      have hg : g ∉ word.tail := fun hmem => by
        have hno := hword g (List.mem_of_mem_tail hmem)
        rw [hgap g List.mem_cons_self] at hno
        cases hno
      have hp := isPrefixOf_append_gap hg (List.cons_ne_nil c r) gap
      rw [List.cons_append,wordAt,wordAt,ih,← List.cons_append,hp]
      cases hpre : word.isPrefixOf (c :: r) with
      | false => rfl
      | true =>
        have hlen := (List.isPrefixOf_iff_prefix.1 hpre).length_le
        have hend : isWordEnd ((c :: r ++ g :: gap).drop word.length).head? =
            isWordEnd ((c :: r).drop word.length).head? := by
          rw [List.drop_append_of_le_length hlen]
          cases hd : (c :: r).drop word.length with
          | nil =>
            obtain rfl | rfl := eq_of_isGap (hgap g List.mem_cons_self)
            · rfl
            · rfl
          | cons d t => rfl
        rw [hend]

theorem cutWord_append_note (h : IsNote note) {word s t : String} (ht : t.toList = s.toList ++ note)
    (hword : ∀ c ∈ word.toList, isGap c = false) (hne : word.toList ≠ []) :
    cutWord word t = (cutWord word s).map fun p => (p.1, p.2 ++ note) := by
  obtain ⟨gap, hgap, hcode⟩ := code_append_note h s.toList
  simp only [cutWord,ht,hcode,wordAt_append_gaps hword hne hgap]
  cases hw : wordAt word.toList none (code s.toList) with
  | none => rfl
  | some n =>
    have hpre : code s.toList <+: s.toList := code_prefix s.toList
    have hle := (wordAt_le hw).trans hpre.length_le
    simp only [Option.map_some]
    rw [List.take_append_of_le_length (by omega),List.drop_append_of_le_length hle]

end Words

section Blanks

theorem trim_ne_nil (hne : a ≠ []) (hlast : ∀ c, a.getLast? = some c → isBlank c = false) :
    trim a ≠ [] := by
  intro hnil
  obtain ⟨as, bs, has, hbs, ha⟩ := eq_blanks_trim a
  rw [hnil,List.append_nil] at ha
  obtain ⟨cs, c, hc⟩ := (List.eq_nil_or_concat a).resolve_left hne
  have hblank : isBlank c = true := by
    have hmem : c ∈ as ++ bs := by rw [← ha,hc]; simp
    rcases List.mem_append.1 hmem with hmem | hmem
    · exact has c hmem
    · exact hbs c hmem
  rw [hlast c (by rw [hc]; simp)] at hblank
  cases hblank

theorem trim_append_note (h : IsNote note) (hne : a ≠ [])
    (hlast : ∀ c, a.getLast? = some c → isBlank c = false) : trim (a ++ note) = trim a ++ note := by
  have htrim := trim_ne_nil hne hlast
  obtain ⟨as, bs, has, hbs, ha⟩ := eq_blanks_trim a
  have hnil : bs = [] := by
    rcases List.eq_nil_or_concat bs with hnil | ⟨cs, c, rfl⟩
    · exact hnil
    · have hc := hlast c (by rw [ha]; simp)
      rw [hbs c (by simp)] at hc
      cases hc
  rw [hnil,List.append_nil] at ha
  have hself : trim (trim a ++ note) = trim a ++ note := by
    refine trim_eq_self (fun c hc => ?_) fun c hc => ?_
    · obtain ⟨d, t, ht⟩ := List.exists_cons_of_ne_nil htrim
      rw [ht] at hc
      exact head?_trim (by rw [ht]; exact hc)
    · obtain ⟨g, gap, text, -, -, rfl⟩ := h.cons
      rw [List.getLast?_append_of_ne_nil _ (by simp)] at hc
      exact h.2 c hc
  calc trim (a ++ note) = trim (as ++ (trim a ++ note)) := by rw [← List.append_assoc,← ha]
    _ = trim a ++ note := by rw [trim_blanks_append has,hself]

theorem trim_note (h : IsNote note) : ∃ text, trim note = '/' :: '/' :: text := by
  obtain ⟨⟨gap, text, hgap, rfl⟩, hlast⟩ := h
  refine ⟨text, ?_⟩
  have hblank : ∀ c ∈ gap ++ [' '], isBlank c = true := by
    intro c hc
    rcases List.mem_append.1 hc with hc | hc
    · exact isBlank_of_isGap (hgap c hc)
    · obtain rfl : c = ' ' := by simpa using hc
      decide
  have hself : trim ('/' :: '/' :: text) = '/' :: '/' :: text := by
    refine trim_eq_self (fun c hc => ?_) fun c hc => hlast c ?_
    · obtain rfl : '/' = c := by simpa using hc
      decide
    · rwa [List.getLast?_append_of_ne_nil _ (by simp),List.getLast?_cons_cons]
  rw [List.append_cons,trim_blanks_append hblank,hself]

end Blanks

end LineScript.Text
