import LineScript.Text.Basic
import Mathlib.Data.List.TakeWhile
set_option autoImplicit false

/-! Blanks around a text. Trimming takes away all of them and nothing else, so blanks put around a text and
trimming twice make no difference. -/

namespace LineScript.Text

variable {c : Char} {cs bs : List Char}

theorem trim_cons (h : isBlank c = true) (cs : List Char) : trim (c :: cs) = trim cs := by
  simp [trim,trimStart,h]

theorem trim_concat (h : isBlank c = true) (cs : List Char) : trim (cs ++ [c]) = trim cs := by
  unfold trim trimStart
  rw [List.dropWhile_append]
  split
  · next hall =>
    rw [List.isEmpty_iff.1 hall]
    simp [trimEnd,h]
  · simp [trimEnd,h]

theorem trim_append_blanks (h : ∀ b ∈ bs, isBlank b = true) : trim (cs ++ bs) = trim cs := by
  induction bs generalizing cs with
  | nil => rw [List.append_nil]
  | cons b bs ih =>
    obtain ⟨hb, hbs⟩ := List.forall_mem_cons.1 h
    rw [← List.singleton_append,← List.append_assoc,ih hbs,trim_concat hb]

theorem trim_blanks_append (h : ∀ b ∈ bs, isBlank b = true) : trim (bs ++ cs) = trim cs := by
  induction bs with
  | nil => rfl
  | cons b bs ih =>
    obtain ⟨hb, hbs⟩ := List.forall_mem_cons.1 h
    rw [List.cons_append,trim_cons hb,ih hbs]

theorem eq_trimEnd_append (cs : List Char) :
    ∃ bs, (∀ b ∈ bs, isBlank b = true) ∧ cs = trimEnd cs ++ bs := by
  refine ⟨(cs.reverse.takeWhile isBlank).reverse, ?_, ?_⟩
  · intro b hb
    exact List.mem_takeWhile_imp (List.mem_reverse.1 hb)
  · rw [trimEnd,← List.reverse_append,List.takeWhile_append_dropWhile,List.reverse_reverse]

theorem trimEnd_prefix (cs : List Char) : trimEnd cs <+: cs := by
  obtain ⟨bs, -, hcs⟩ := eq_trimEnd_append cs
  exact ⟨bs, hcs.symm⟩

theorem eq_blanks_trim (cs : List Char) :
    ∃ as bs, (∀ b ∈ as, isBlank b = true) ∧ (∀ b ∈ bs, isBlank b = true) ∧
      cs = as ++ trim cs ++ bs := by
  obtain ⟨bs, hbs, hend⟩ := eq_trimEnd_append (trimStart cs)
  refine ⟨cs.takeWhile isBlank, bs, fun b hb => List.mem_takeWhile_imp hb, hbs, ?_⟩
  have h : cs.takeWhile isBlank ++ trimStart cs = cs := List.takeWhile_append_dropWhile
  rw [List.append_assoc,show trim cs ++ bs = trimStart cs from hend.symm,h]

theorem trim_trim (cs : List Char) : trim (trim cs) = trim cs := by
  obtain ⟨as, bs, has, hbs, hcs⟩ := eq_blanks_trim cs
  calc trim (trim cs) = trim (as ++ trim cs ++ bs) := by
        rw [trim_append_blanks hbs,trim_blanks_append has]
    _ = trim cs := by rw [← hcs]

theorem head?_trim (h : (trim cs).head? = some c) : isBlank c = false := by
  obtain ⟨bs, -, hend⟩ := eq_trimEnd_append (trimStart cs)
  obtain ⟨t, ht⟩ := List.head?_eq_some_iff.1 h
  have hstart : cs.dropWhile isBlank = c :: (t ++ bs) := by
    rw [← List.cons_append,← ht]
    exact hend
  have hd := List.head?_dropWhile_not isBlank cs
  rwa [hstart] at hd

theorem getLast?_trimEnd (h : (trimEnd cs).getLast? = some c) : isBlank c = false := by
  rw [trimEnd,List.getLast?_reverse] at h
  have hd := List.head?_dropWhile_not isBlank cs.reverse
  rwa [h] at hd

theorem getLast?_trim (h : (trim cs).getLast? = some c) : isBlank c = false := getLast?_trimEnd h

/-- A text is trimmed if it neither begins nor ends with a blank. -/
theorem trim_eq_self (hhead : ∀ c, cs.head? = some c → isBlank c = false)
    (hlast : ∀ c, cs.getLast? = some c → isBlank c = false) : trim cs = cs := by
  have hstart : trimStart cs = cs := by
    cases cs with
    | nil => rfl
    | cons c cs => simp [trimStart,hhead c rfl]
  rw [trim,hstart,trimEnd]
  have hend : cs.reverse.dropWhile isBlank = cs.reverse := by
    cases hr : cs.reverse with
    | nil => rfl
    | cons c r =>
      have hc : isBlank c = false := hlast c (by rw [List.getLast?_eq_head?_reverse,hr]; rfl)
      simp [hc]
  rw [hend,List.reverse_reverse]

end LineScript.Text
