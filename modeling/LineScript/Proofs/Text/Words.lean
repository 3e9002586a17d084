import LineScript.Proofs.Text.Trim
import Mathlib.Data.List.TakeWhile
set_option autoImplicit false

/-!
The words of a text. A blank divides the words before it from those after it, and every other fact about
words is read off that; so a text is known up to the number of its blanks from its words.
-/

namespace LineScript.Text

variable {c : Char} {cs w : List Char}

/-- Something, and nothing blank in it. -/
def IsRun (w : List Char) : Prop := w ≠ [] ∧ ∀ c ∈ w, isBlank c = false

theorem words_cons_blank (h : isBlank c = true) (cs : List Char) : words (c :: cs) = words cs := by
  simp [words,h]

/-- A word ends before a blank. -/
theorem words_cons_end {d : Char} (h : isBlank c = false) (hd : isBlank d = true) (cs : List Char) :
    words (c :: d :: cs) = [c] :: words (d :: cs) := by
  simp [words,h,hd]

theorem words_cons_inner {d : Char} (h : isBlank c = false) (hd : isBlank d = false)
    (cs : List Char) : words (c :: d :: cs) = attach c (words (d :: cs)) := by
  rw [words,if_neg (by simp [h])]
  simp [hd]

theorem words_ne_nil (h : isBlank c = false) (cs : List Char) : words (c :: cs) ≠ [] := by
  cases cs with
  | nil => simp [words,h]
  | cons d cs =>
    by_cases hd : isBlank d = true
    · simp [words_cons_end h hd]
    · rw [words_cons_inner h (by simpa using hd)]
      cases words (d :: cs) <;> simp [attach]

theorem attach_append {l m : List (List Char)} (h : l ≠ []) :
    attach c (l ++ m) = attach c l ++ m := by
  cases l with
  | nil => exact absurd rfl h
  | cons a l => rfl

theorem words_append_blank (h : isBlank c = true) (a b : List Char) :
    words (a ++ c :: b) = words a ++ words b := by
  induction a with
  | nil => simpa [words] using words_cons_blank h b
  | cons d a ih =>
    by_cases hd : isBlank d = true
    · rw [List.cons_append,words_cons_blank hd,words_cons_blank hd,ih]
    · have hd : isBlank d = false := by simpa using hd
      cases a with
      | nil => simp [words,hd,h]
      | cons e a =>
        simp only [List.cons_append] at ih ⊢
        by_cases he : isBlank e = true
        · rw [words_cons_end hd he,words_cons_end hd he,ih,List.cons_append]
        · have he : isBlank e = false := by simpa using he
          rw [words_cons_inner hd he,words_cons_inner hd he,ih,attach_append (words_ne_nil he a)]

theorem IsRun.words (h : IsRun w) : words w = [w] := by
  obtain ⟨hne, hw⟩ := h
  induction w with
  | nil => exact absurd rfl hne
  | cons c w ih =>
    obtain ⟨hc, hw⟩ := List.forall_mem_cons.1 hw
    cases w with
    | nil => simp [Text.words,hc]
    | cons d w =>
      have hd : isBlank d = false := hw d List.mem_cons_self
      rw [words_cons_inner hc hd,ih (by simp) hw]
      rfl

/-- Every text is nothing, or has a blank or a word in front, the word followed by a blank or by nothing. -/
theorem wordInduction {P : List Char → Prop} (nil : P [])
    (blank : ∀ c cs, isBlank c = true → P cs → P (c :: cs)) (last : ∀ w, IsRun w → P w)
    (word : ∀ w c cs, IsRun w → isBlank c = true → P cs → P (w ++ c :: cs)) (cs : List Char) :
    P cs := by
  induction hn : cs.length using Nat.strong_induction_on generalizing cs with
  | _ n ih =>
    cases cs with
    | nil => exact nil
    | cons c cs =>
      by_cases hc : isBlank c = true
      · exact blank c cs hc (ih cs.length (by simp [← hn]) cs rfl)
      · have hsplit := List.takeWhile_append_dropWhile (p := fun c => !isBlank c) (l := c :: cs)
        have hrun : IsRun ((c :: cs).takeWhile fun c => !isBlank c) := by
          refine ⟨by simp [hc], fun d hd => ?_⟩
          have hd := List.mem_takeWhile_imp hd
          simpa using hd
        have hlen := congrArg List.length hsplit
        have hpos := List.length_pos_iff.2 hrun.1
        cases hrest : (c :: cs).dropWhile fun c => !isBlank c with
        | nil =>
          rw [hrest,List.append_nil] at hsplit
          exact hsplit ▸ last _ hrun
        | cons d ds =>
          have hd := List.head?_dropWhile_not (fun c => !isBlank c) (c :: cs)
          rw [hrest] at hsplit hd hlen
          rw [← hsplit]
          refine word _ d ds hrun (by simpa using hd) (ih ds.length ?_ ds rfl)
          simp only [List.length_append,List.length_cons] at hlen hn
          omega

theorem isRun_of_mem_words (h : w ∈ words cs) : IsRun w := by
  induction cs using wordInduction with
  | nil => cases h
  | blank c cs hc ih =>
    rw [words_cons_blank hc] at h
    exact ih h
  | last v hv =>
    rw [hv.words] at h
    exact List.mem_singleton.1 h ▸ hv
  | word v c cs hv hc ih =>
    rw [words_append_blank hc,hv.words] at h
    rcases List.mem_append.1 h with h | h
    · exact List.mem_singleton.1 h ▸ hv
    · exact ih h

/-- The words with one space between them. -/
def spaced (ws : List (List Char)) : List Char := [' '].intercalate ws

theorem spaced_cons (w : List Char) (ws : List (List Char)) :
    spaced (w :: ws) = w ++ ws.flatMap (' ' :: ·) := by
  induction ws generalizing w with
  | nil => simp [spaced,List.intercalate]
  | cons v ws ih =>
    have h : spaced (w :: v :: ws) = w ++ ' ' :: spaced (v :: ws) := by
      simp [spaced,List.intercalate]
    rw [h,ih]
    simp

theorem spaced_cons_cons (w v : List Char) (ws : List (List Char)) :
    spaced (w :: v :: ws) = w ++ ' ' :: spaced (v :: ws) := by
  rw [spaced_cons,spaced_cons,List.flatMap_cons,List.cons_append]

theorem words_spaced {ws : List (List Char)} (h : ∀ w ∈ ws, IsRun w) : words (spaced ws) = ws := by
  induction ws with
  | nil => rfl
  | cons w ws ih =>
    obtain ⟨hw, hws⟩ := List.forall_mem_cons.1 h
    cases ws with
    | nil => simpa [spaced_cons] using hw.words
    | cons v ws =>
      rw [spaced_cons_cons,words_append_blank (by decide),hw.words,ih hws]
      rfl

theorem words_blanks_append {bs : List Char} (h : ∀ b ∈ bs, isBlank b = true) (cs : List Char) :
    words (bs ++ cs) = words cs := by
  induction bs with
  | nil => rfl
  | cons b bs ih =>
    obtain ⟨hb, hbs⟩ := List.forall_mem_cons.1 h
    rw [List.cons_append,words_cons_blank hb,ih hbs]

theorem words_append_blanks {bs : List Char} (h : ∀ b ∈ bs, isBlank b = true) (cs : List Char) :
    words (cs ++ bs) = words cs := by
  cases bs with
  | nil => rw [List.append_nil]
  | cons b bs =>
    obtain ⟨hb, hbs⟩ := List.forall_mem_cons.1 h
    have hnil := words_blanks_append hbs []
    rw [List.append_nil] at hnil
    rw [words_append_blank hb,hnil]
    simp [words]

theorem words_trim (cs : List Char) : words (trim cs) = words cs := by
  obtain ⟨as, bs, has, hbs, hcs⟩ := eq_blanks_trim cs
  calc words (trim cs) = words (as ++ trim cs ++ bs) := by
        rw [words_append_blanks hbs,words_blanks_append has]
    _ = words cs := by rw [← hcs]

end LineScript.Text
