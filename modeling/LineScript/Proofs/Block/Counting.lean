import LineScript.Proofs.Block.Depth
import Mathlib.Data.Nat.Basic
set_option autoImplicit false

/-!
Which braces count, and how deep they lead. A brace counts at a place of a line if no backslash escapes it
and no comment has begun; this is said of the place alone, without reading the line from its start. Summed up
along some lines, the braces that count give the depth of blocks at every place, and a scan keeps just that
depth and stops at the first place where it comes down to zero.
-/

namespace LineScript

namespace Brace

/-- The number of backslashes directly before a place. -/
def slashesBefore (cs : List Char) (i : Nat) : Nat :=
  ((cs.take i).reverse.takeWhile (· == '\\')).length

/-- Two backslashes in a row are one that stands for itself, so it takes an odd number to escape what
follows. -/
def Escaped (cs : List Char) (i : Nat) : Prop := slashesBefore cs i % 2 = 1

instance (cs : List Char) (i : Nat) : Decidable (Escaped cs i) :=
  inferInstanceAs (Decidable (slashesBefore cs i % 2 = 1))

/-- A comment has begun at the place or before it. -/
def Commented (cs : List Char) (i : Nat) : Prop := ∃ j ≤ i, ['/', '/'] <+: cs.drop j ∧ ¬Escaped cs j

instance (cs : List Char) (i : Nat) : Decidable (Commented cs i) :=
  inferInstanceAs (Decidable (∃ j ≤ i, ['/', '/'] <+: cs.drop j ∧ ¬Escaped cs j))

def Counts (cs : List Char) (i : Nat) : Prop := ¬Escaped cs i ∧ ¬Commented cs i

instance (cs : List Char) (i : Nat) : Decidable (Counts cs i) :=
  inferInstanceAs (Decidable (¬Escaped cs i ∧ ¬Commented cs i))

/-- What the character at a place adds to the depth. -/
def turn (cs : List Char) (i : Nat) : Int :=
  (cs[i]?.map fun c => weight (c, decide (Counts cs i))).getD 0

/-- What the characters before a place add to the depth. -/
def level (cs : List Char) (i : Nat) : Int := ((List.range i).map (turn cs)).sum

section Places

variable {c d : Char} {cs r : List Char} {i : Nat}

theorem slashesBefore_cons (h : c ≠ '\\') : slashesBefore (c :: r) (i + 1) = slashesBefore r i := by
  simp only [slashesBefore,List.take_succ_cons,List.reverse_cons,List.takeWhile_append]
  split
  · next hall => simp [h,hall]
  · rfl

/-- An escape at the start makes no difference to what is escaped behind it. -/
theorem slashesBefore_escape :
    slashesBefore ('\\' :: d :: r) (i + 2) % 2 = slashesBefore r i % 2 := by
  have hrev : (('\\' :: d :: r).take (i + 2)).reverse = (r.take i).reverse ++ [d, '\\'] := by simp
  simp only [slashesBefore,hrev,List.takeWhile_append]
  split
  · next hall =>
    by_cases hd : d = '\\'
    · simp [hd,hall]
    · simp [hd,hall]
  · rfl

theorem commented_cons (h : c ≠ '\\') (hstart : ¬['/', '/'] <+: c :: r) :
    Commented (c :: r) (i + 1) ↔ Commented r i := by
  constructor
  · intro hc
    obtain ⟨j, hj, hprefix, hesc⟩ := hc
    cases j with
    | zero => exact absurd hprefix hstart
    | succ j => exact ⟨j, by omega, hprefix, by simpa [Escaped,slashesBefore_cons h] using hesc⟩
  · intro hc
    obtain ⟨j, hj, hprefix, hesc⟩ := hc
    exact ⟨j + 1, by omega, hprefix, by simpa [Escaped,slashesBefore_cons h] using hesc⟩

theorem commented_escape : Commented ('\\' :: d :: r) (i + 2) ↔ Commented r i := by
  constructor
  · intro hc
    obtain ⟨j, hj, hprefix, hesc⟩ := hc
    match j with
    | 0 => simp at hprefix
    | 1 => exact absurd rfl hesc
    | j + 2 => exact ⟨j, by omega, hprefix, by simpa [Escaped,slashesBefore_escape] using hesc⟩
  · intro hc
    obtain ⟨j, hj, hprefix, hesc⟩ := hc
    exact ⟨j + 2, by omega, hprefix, by simpa [Escaped,slashesBefore_escape] using hesc⟩

theorem turn_cons (h : c ≠ '\\') (hstart : ¬['/', '/'] <+: c :: r) :
    turn (c :: r) (i + 1) = turn r i := by
  simp [turn,Counts,Escaped,slashesBefore_cons h,commented_cons h hstart]

theorem turn_escape : turn ('\\' :: d :: r) (i + 2) = turn r i := by
  simp [turn,Counts,Escaped,slashesBefore_escape,commented_escape]

theorem turn_of_not_counts (h : ¬Counts cs i) : turn cs i = 0 := by
  cases hc : cs[i]? with
  | none => simp [turn,hc]
  | some c => simp [turn,hc,h,weight_of_false]

/-- Marking a line from its start marks the braces that count. -/
theorem weight_mark (cs : List Char) (i : Nat) : ((mark cs)[i]?.map weight).getD 0 = turn cs i := by
  fun_induction mark cs generalizing i with
  | case1 => rfl
  | case2 d r ih =>
    cases i with
    | zero => simp [turn,weight]
    | succ i =>
      cases i with
      | zero =>
        have hescaped : Escaped ('\\' :: d :: r) 1 := rfl
        exact (turn_of_not_counts fun h => h.1 hescaped).symm
      | succ i => simpa [turn_escape] using ih i
  | case3 r =>
    have hcommented : Commented ('/' :: '/' :: r) i := ⟨0, by omega, by simp, by simp [Escaped,slashesBefore]⟩
    rw [turn_of_not_counts fun h => h.2 hcommented]
    cases hc : (('/' :: '/' :: r).map fun c => (c, false))[i]? with
    | none => rfl
    | some p =>
      obtain ⟨c, -, rfl⟩ := List.mem_map.1 (List.mem_of_getElem? hc)
      rfl
  | case4 c r hslash hcomment ih =>
    have hstart : ¬['/', '/'] <+: c :: r := by
      intro hprefix
      obtain ⟨s, hs⟩ := hprefix
      obtain ⟨rfl, rfl⟩ : '/' = c ∧ '/' :: s = r := by simpa using hs
      exact hcomment s rfl rfl
    cases i with
    | zero =>
      have hcounts : Counts (c :: r) 0 := by
        refine ⟨by simp [Escaped,slashesBefore], fun hc => ?_⟩
        obtain ⟨j, hj, hprefix, -⟩ := hc
        obtain rfl : j = 0 := by omega
        exact hstart hprefix
      simp [turn,hcounts]
    | succ i =>
      by_cases hc : c = '\\'
      · -- a backslash at the end of the line escapes nothing
        have hr : r = [] := by
          cases r with
          | nil => rfl
          | cons d r => exact (hslash d r hc rfl).elim
        simp [hr,mark,turn]
      · simpa [turn_cons hc hstart] using ih i

theorem balance_cons (p : Char × Bool) (ms : List (Char × Bool)) :
    balance (p :: ms) = weight p + balance ms := rfl

theorem balance_append (xs ys : List (Char × Bool)) : balance (xs ++ ys) = balance xs + balance ys := by
  induction xs with
  | nil => simp [balance]
  | cons p xs ih =>
    rw [List.cons_append,balance_cons,balance_cons,ih]
    omega

theorem level_succ (cs : List Char) (i : Nat) : level cs (i + 1) = level cs i + turn cs i := by
  simp [level,List.range_succ]

theorem balance_take_mark (cs : List Char) (i : Nat) : balance ((mark cs).take i) = level cs i := by
  induction i with
  | zero => rfl
  | succ i ih =>
    rw [List.take_add_one,balance_append,ih,level_succ,← weight_mark]
    cases (mark cs)[i]? with
    | none => rfl
    | some p => simp [balance]

theorem length_mark (cs : List Char) : (mark cs).length = cs.length := by
  simpa [chars] using congrArg List.length (chars_mark cs)

theorem balance_mark (cs : List Char) : balance (mark cs) = level cs cs.length := by
  rw [← balance_take_mark,← length_mark,List.take_length]

theorem chars_take_mark (cs : List Char) (i : Nat) : chars ((mark cs).take i) = cs.take i := by
  rw [chars,List.map_take]
  exact congrArg (List.take i) (chars_mark cs)

theorem chars_drop_mark (cs : List Char) (i : Nat) : chars ((mark cs).drop i) = cs.drop i := by
  rw [chars,List.map_drop]
  exact congrArg (List.drop i) (chars_mark cs)

end Places

section Scanning

variable {cs inside after : List Char} {depth d : Nat}

theorem scan_closed {ms : List (Char × Bool)} (hd : 1 ≤ depth)
    (h : scan depth ms = .closed inside after) :
    ∃ i, ms[i]? = some ('\x7d', true) ∧ inside = chars (ms.take i) ∧ after = chars (ms.drop (i + 1)) ∧
      depth + balance (ms.take (i + 1)) = 0 ∧ ∀ j ≤ i, 1 ≤ depth + balance (ms.take j) := by
  induction ms generalizing depth inside with
  | nil => simp [scan] at h
  | cons p r ih =>
    rw [scan_cons depth p r hd] at h
    split at h
    · next hp =>
      obtain ⟨rfl, rfl⟩ : [] = inside ∧ chars r = after := by simpa using h
      obtain ⟨hw, rfl⟩ := hp
      refine ⟨0, by simp [eq_of_weight hw], rfl, rfl, by simp [balance,hw], fun j hj => ?_⟩
      obtain rfl : j = 0 := by omega
      simp [balance]
    · next hp =>
      obtain ⟨tail, hs, rfl⟩ := Scan.eq_of_cons_closed h
      have hw := neg_one_le_weight p
      obtain ⟨i, hi, rfl, rfl, hzero, hpos⟩ := ih (by omega) hs
      refine ⟨i + 1, by simpa using hi, by simp [chars], by simp, ?_, fun j hj => ?_⟩
      · rw [List.take_succ_cons,balance_cons]
        omega
      · cases j with
        | zero =>
          simp [balance]
          omega
        | succ j =>
          have hj := hpos j (by omega)
          rw [List.take_succ_cons,balance_cons]
          omega

theorem scan_stillOpen {ms : List (Char × Bool)} (hd : 1 ≤ depth) (h : scan depth ms = .stillOpen d) :
    (d : Int) = depth + balance ms ∧ ∀ j, 1 ≤ depth + balance (ms.take j) := by
  induction ms generalizing depth with
  | nil =>
    obtain rfl : depth = d := by simpa [scan] using h
    refine ⟨by simp [balance], fun j => ?_⟩
    simp [balance]
    omega
  | cons p r ih =>
    rw [scan_cons depth p r hd] at h
    split at h
    · cases h
    · next hp =>
      have hw := neg_one_le_weight p
      obtain ⟨hdepth, hpos⟩ := ih (by omega) (Scan.eq_of_cons_stillOpen h)
      refine ⟨?_, fun j => ?_⟩
      · rw [balance_cons]
        omega
      · cases j with
        | zero =>
          simp [balance]
          omega
        | succ j =>
          have hj := hpos j
          rw [List.take_succ_cons,balance_cons]
          omega

/-- The marks of the braces are those that count. -/
theorem mark_eq_iff {c : Char} {i : Nat} (hc : weight (c, true) ≠ 0) :
    (mark cs)[i]? = some (c, true) ↔ cs[i]? = some c ∧ Counts cs i := by
  have hchars : (mark cs)[i]?.map Prod.fst = cs[i]? := by
    rw [← List.getElem?_map]
    exact congrArg (fun l => l[i]?) (chars_mark cs)
  have hturn := weight_mark cs i
  constructor
  · intro h
    by_cases hcounts : Counts cs i
    · simpa [h,hcounts] using hchars.symm
    · rw [turn_of_not_counts hcounts,h] at hturn
      exact absurd hturn hc
  · intro h
    obtain ⟨hchar, hcounts⟩ := h
    rw [hchar] at hchars
    obtain ⟨⟨c', b⟩, hmark, rfl⟩ := Option.map_eq_some_iff.1 hchars
    cases b with
    | true => exact hmark
    | false => simp [hmark,turn,hchar,hcounts,weight_of_false,hc.symm] at hturn

/-- A scan stops at the first place where the depth is zero, which is a closing brace that counts. -/
theorem closes_of_scan (hd : 1 ≤ depth) (h : scan depth (mark cs) = .closed inside after) :
    ∃ i, cs[i]? = some '\x7d' ∧ Counts cs i ∧ inside = cs.take i ∧ after = cs.drop (i + 1) ∧
      depth + level cs (i + 1) = 0 ∧ ∀ j ≤ i, 1 ≤ depth + level cs j := by
  obtain ⟨i, hi, rfl, rfl, hzero, hpos⟩ := scan_closed hd h
  obtain ⟨hchar, hcounts⟩ := (mark_eq_iff (by decide)).1 hi
  refine ⟨i, hchar, hcounts, chars_take_mark cs i, chars_drop_mark cs (i + 1), ?_, fun j hj => ?_⟩
  · rwa [← balance_take_mark]
  · rw [← balance_take_mark]
    exact hpos j hj

/-- The counter of a scan that goes on is the depth, and it was never below one. -/
theorem open_of_scan (hd : 1 ≤ depth) (h : scan depth (mark cs) = .stillOpen d) :
    (d : Int) = depth + level cs cs.length ∧ ∀ j, 1 ≤ depth + level cs j := by
  obtain ⟨hdepth, hpos⟩ := scan_stillOpen hd h
  refine ⟨by rw [hdepth,balance_mark], fun j => ?_⟩
  rw [← balance_take_mark]
  exact hpos j

end Scanning

end Brace

/-- The depth of blocks before the character `i` of the line `n`, with `depth` of them open before the first
line. -/
def Line.depthAt (depth : Int) : List Line → Nat → Nat → Int
  | [], _, _ => depth
  | l :: _, 0, i => depth + Brace.level l.text.toList i
  | l :: r, n + 1, i => depthAt (depth + Brace.level l.text.toList l.text.toList.length) r n i

end LineScript
