import LineScript.Proofs.Parser.Consumption
import LineScript.Proofs.Text.Trim
import Mathlib.Algebra.Ring.Int.Defs
import Mathlib.Data.List.Chain
import Mathlib.Data.List.Infix
set_option autoImplicit false

/-!
The depth of blocks along some lines. Only the braces that count change it, one up and one down, so a text
is seen here as the list of these turns. Of lines whose every end closes at least as many blocks as it
opens, every block that is opened closes, and the lines inside it and behind it are again such lines.
-/

namespace LineScript

namespace Brace

/-- What the braces that count add to the depth, one after the other. -/
def turnsOf (ms : List (Char × Bool)) : List Int := (ms.map weight).filter (· != 0)

def turns (cs : List Char) : List Int := turnsOf (mark cs)

/-- Every end of the text closes at least as many blocks as it opens. -/
def Closing (ws : List Int) : Prop := ∀ us ∈ ws.tails, us.sum ≤ 0

instance (ws : List Int) : Decidable (Closing ws) :=
  inferInstanceAs (Decidable (∀ us ∈ ws.tails, us.sum ≤ 0))

/-- Never more is closed than was opened, and in the end nothing is open. -/
structure Balanced (ws : List Int) : Prop where
  settled : ws.sum = 0
  nonneg : ∀ us ∈ ws.inits, 0 ≤ us.sum

instance (ws : List Int) : Decidable (Balanced ws) :=
  decidable_of_iff (ws.sum = 0 ∧ ∀ us ∈ ws.inits, 0 ≤ us.sum) ⟨fun h => ⟨h.1, h.2⟩, fun h => ⟨h.1, h.2⟩⟩

section Turns

variable {ms ns : List (Char × Bool)}

@[simp]
theorem turnsOf_nil : turnsOf [] = [] := rfl

@[simp]
theorem turnsOf_append : turnsOf (ms ++ ns) = turnsOf ms ++ turnsOf ns := by
  simp [turnsOf]

theorem turnsOf_cons (p : Char × Bool) :
    turnsOf (p :: ms) = if weight p = 0 then turnsOf ms else weight p :: turnsOf ms := by
  by_cases h : weight p = 0 <;> simp [turnsOf,h]

@[simp]
theorem turnsOf_open : turnsOf (('\x7b', true) :: ms) = 1 :: turnsOf ms := by
  simp [turnsOf_cons,weight]

@[simp]
theorem turnsOf_close : turnsOf (('\x7d', true) :: ms) = -1 :: turnsOf ms := by
  simp [turnsOf_cons,weight]

theorem weight_of_false (c : Char) : weight (c, false) = 0 := by simp [weight]

theorem sum_turnsOf : (turnsOf ms).sum = balance ms := by
  induction ms with
  | nil => rfl
  | cons p ms ih =>
    rw [turnsOf_cons,show balance (p :: ms) = weight p + balance ms from rfl,← ih]
    split
    · next h => rw [h,Int.zero_add]
    · rw [List.sum_cons]

end Turns

namespace Closing

variable {us ws : List Int} {w : Int}

theorem nil : Closing [] := by decide

theorem cons_iff : Closing (w :: ws) ↔ w + ws.sum ≤ 0 ∧ Closing ws := by
  simp [Closing]

theorem suffix (h : Closing ws) (hs : us <:+ ws) : Closing us := by
  intro vs hv
  exact h vs ((List.mem_tails _ _).2 (((List.mem_tails _ _).1 hv).trans hs))

theorem sum_le (h : Closing ws) : ws.sum ≤ 0 := h ws ((List.mem_tails _ _).2 List.suffix_rfl)

/-- Text that opens nothing. -/
theorem of_forall_le (h : ∀ w ∈ ws, w ≤ 0) : Closing ws := by
  induction ws with
  | nil => exact nil
  | cons w ws ih =>
    have hws := ih fun v hv => h v (List.mem_cons_of_mem w hv)
    have hw := h w List.mem_cons_self
    have hsum := hws.sum_le
    exact cons_iff.2 ⟨by omega, hws⟩

end Closing

theorem Balanced.closing {ws : List Int} (h : Balanced ws) : Closing ws := by
  intro us hus
  obtain ⟨vs, rfl⟩ := (List.mem_tails _ _).1 hus
  have hall := h.settled
  have hvs := h.nonneg vs ((List.mem_inits _ _).2 (List.prefix_append vs us))
  rw [List.sum_append] at hall
  omega

section Marking

variable {cs : List Char} {xs ys : List (Char × Bool)} {c : Char}

theorem chars_append : chars (xs ++ ys) = chars xs ++ chars ys := by simp [chars]

theorem mark_cons {r : List Char} (h : c ≠ '\\') (hr : c = '/' → ∀ s, r ≠ '/' :: s) :
    mark (c :: r) = (c, true) :: mark r := by
  rw [mark.eq_4 c r (fun _ _ hc _ => h hc) fun s hc hs => hr hc s hs]

/-- Both sides of a character that counts are marked as they would be alone. -/
theorem mark_of_append (h : mark cs = xs ++ (c, true) :: ys) :
    mark (chars xs) = xs ∧ mark (chars ys) = ys := by
  fun_induction mark cs generalizing xs with
  | case1 => simp at h
  | case2 d r ih =>
    rcases xs with _ | ⟨p, _ | ⟨q, xs⟩⟩
    · simp at h
    · simp at h
    · obtain ⟨rfl, rfl, htail⟩ : ('\\', false) = p ∧ (d, false) = q ∧ _ := by simpa using h
      obtain ⟨hx, hy⟩ := ih htail
      refine ⟨?_, hy⟩
      have hcons : chars (('\\', false) :: (d, false) :: xs) = '\\' :: d :: chars xs := rfl
      rw [hcons,mark,hx]
  | case3 r =>
    have hmem : (c, true) ∈ ('/' :: '/' :: r).map fun c => (c, false) := by rw [h]; simp
    simp at hmem
  | case4 d r hslash hcomment ih =>
    cases xs with
    | nil =>
      obtain ⟨-, rfl⟩ : (d, true) = (c, true) ∧ mark r = ys := by simpa using h
      exact ⟨rfl, by rw [chars_mark]⟩
    | cons p xs =>
      obtain ⟨rfl, htail⟩ : (d, true) = p ∧ mark r = xs ++ (c, true) :: ys := by simpa using h
      obtain ⟨hx, hy⟩ := ih htail
      have hr : r = chars xs ++ c :: chars ys := by
        rw [← chars_mark r,htail,chars_append]
        rfl
      refine ⟨?_, hy⟩
      have hd : d ≠ '\\' := by
        rintro rfl
        cases hxs : chars xs with
        | nil => exact hslash c (chars ys) rfl (by simp [hr,hxs])
        | cons e es => exact hslash e (es ++ c :: chars ys) rfl (by simp [hr,hxs])
      have hd' : d = '/' → ∀ s, chars xs ≠ '/' :: s := by
        rintro rfl s hs
        exact hcomment (s ++ c :: chars ys) rfl (by simp [hr,hs])
      have hcons : chars ((d, true) :: xs) = d :: chars xs := rfl
      rw [hcons,mark_cons hd hd',hx]

theorem turns_cons {r : List Char} (hslash : ∀ d s, c = '\\' → r = d :: s → False)
    (hcomment : ∀ s, c = '/' → r = '/' :: s → False) :
    turns (c :: r) = turnsOf [(c, true)] ++ turns r := by
  rw [turns,mark.eq_4 c r hslash hcomment,← List.singleton_append,turnsOf_append]
  rfl

theorem turns_escape (d : Char) (r : List Char) : turns ('\\' :: d :: r) = turns r := by
  simp [turns,mark,turnsOf_cons,weight_of_false]

theorem turns_comment (r : List Char) : turns ('/' :: '/' :: r) = [] := by
  simp [turns,mark,turnsOf,weight_of_false]

/-- A text that is cut off early turns as the whole text does up to there. -/
theorem turns_prefix (as bs : List Char) : turns as <+: turns (as ++ bs) := by
  fun_induction mark as with
  | case1 => exact List.nil_prefix
  | case2 d r ih => simpa [turns_escape] using ih
  | case3 r => simp [turns_comment]
  | case4 d r hslash hcomment ih =>
    cases r with
    | nil =>
      -- what follows may make an escape or a comment of a backslash or a slash, but these turn nothing
      by_cases hd : d = '\\' ∨ d = '/'
      · have hnil : turns [d] = [] := by rcases hd with rfl | rfl <;> rfl
        simp [hnil]
      · obtain ⟨h1, h2⟩ := not_or.1 hd
        rw [List.cons_append,turns_cons (fun _ _ h => absurd h h1) fun _ h => absurd h h2,
          turns_cons (fun _ _ h => absurd h h1) fun _ h => absurd h h2]
        simpa using ih
    | cons e r =>
      rw [turns_cons hslash hcomment,List.cons_append,
        turns_cons (fun _ _ h _ => hslash e r h rfl) fun s h hs =>
          hcomment r h (by rw [(List.cons.inj hs).1])]
      simpa using ih

/-- Behind a character outside of comments that is neither a backslash nor a slash, the text turns as it
would alone. -/
theorem turns_append_cons {as : List Char} (bs : List Char) (hc : c ≠ '\\') (hc' : c ≠ '/')
    (h : ¬['/', '/'] <:+: as) : turns (as ++ c :: bs) = turns (as ++ [c]) ++ turns bs := by
  fun_induction mark as with
  | case1 =>
    simp only [List.nil_append]
    rw [turns_cons (fun _ _ h => absurd h hc) fun _ h => absurd h hc',
      turns_cons (fun _ _ h => absurd h hc) fun _ h => absurd h hc']
    simp [turns,mark]
  | case2 d r ih =>
    have hr : ¬['/', '/'] <:+: r := fun hi => h (hi.trans ⟨['\\', d], [], by simp⟩)
    simpa [turns_escape] using ih hr
  | case3 r => exact absurd ⟨[], r, rfl⟩ h
  | case4 d r hslash hcomment ih =>
    have hr : ¬['/', '/'] <:+: r := fun hi => h (hi.trans (List.suffix_cons d r).isInfix)
    have ih := ih hr
    cases r with
    | nil =>
      by_cases hd : d = '\\'
      · subst hd
        have hlone : turns ['\\', c] = [] := turns_escape c []
        simp [turns_escape,hlone]
      · have hcons (s : List Char) : turns (d :: c :: s) = turnsOf [(d, true)] ++ turns (c :: s) :=
          turns_cons (fun _ _ h => absurd h hd) fun _ _ hs => hc' (List.cons.inj hs).1
        simp only [List.cons_append,List.nil_append] at ih ⊢
        rw [hcons,hcons,ih,List.append_assoc]
    | cons e r =>
      have hcons (s : List Char) :
          turns (d :: e :: r ++ s) = turnsOf [(d, true)] ++ turns (e :: r ++ s) :=
        turns_cons (fun _ _ h _ => hslash e r h rfl) fun _ h hs =>
          hcomment r h (by rw [(List.cons.inj hs).1])
      rw [hcons,hcons,ih,List.append_assoc]

/-- Blanks are no braces, and nothing that begins with a blank escapes or comments anything out. -/
theorem ne_of_isBlank (h : Text.isBlank c = true) :
    c ≠ '\\' ∧ c ≠ '/' ∧ c ≠ '\x7b' ∧ c ≠ '\x7d' := by
  refine ⟨?_, ?_, ?_, ?_⟩
  · rintro rfl
    revert h
    decide
  · rintro rfl
    revert h
    decide
  · rintro rfl
    revert h
    decide
  · rintro rfl
    revert h
    decide

end Marking

section Stops

variable {ms ns : List (Char × Bool)} {cs r : List Char} {c : Char}

/-- The braces that count: what each adds to the depth, and the text behind it. -/
def stopsOf : List (Char × Bool) → List (Int × List Char)
  | [] => []
  | p :: r => if weight p = 0 then stopsOf r else (weight p, Text.trim (chars r)) :: stopsOf r

def stops (cs : List Char) : List (Int × List Char) := stopsOf (mark cs)

theorem map_fst_stopsOf : (stopsOf ms).map Prod.fst = turnsOf ms := by
  induction ms with
  | nil => rfl
  | cons p ms ih =>
    rw [stopsOf,turnsOf_cons]
    split
    · exact ih
    · rw [List.map_cons,ih]

theorem stopsOf_suffix (ms ns : List (Char × Bool)) : stopsOf ns <:+ stopsOf (ms ++ ns) := by
  induction ms with
  | nil => exact List.suffix_rfl
  | cons p ms ih =>
    rw [List.cons_append,stopsOf]
    split
    · exact ih
    · exact ih.trans (List.suffix_cons _ _)

theorem stops_cons (hslash : ∀ d s, c = '\\' → r = d :: s → False)
    (hcomment : ∀ s, c = '/' → r = '/' :: s → False) :
    stops (c :: r) = if weight (c, true) = 0 then stops r
      else (weight (c, true), Text.trim r) :: stops r := by
  rw [stops,mark.eq_4 c r hslash hcomment,stopsOf,chars_mark]
  rfl

theorem stops_blank (h : Text.isBlank c = true) (r : List Char) : stops (c :: r) = stops r := by
  obtain ⟨h1, h2, h3, h4⟩ := ne_of_isBlank h
  rw [stops_cons (fun _ _ h => absurd h h1) fun _ h => absurd h h2]
  simp [weight,h3,h4]

theorem stops_escape (d : Char) (r : List Char) : stops ('\\' :: d :: r) = stops r := by
  simp [stops,mark,stopsOf,weight_of_false]

theorem stops_comment (r : List Char) : stops ('/' :: '/' :: r) = [] := by
  have h : (stopsOf (mark ('/' :: '/' :: r))).map Prod.fst = _ := map_fst_stopsOf
  rw [← turns,turns_comment] at h
  exact List.map_eq_nil_iff.1 h

theorem stops_concat (h : Text.isBlank c = true) (cs : List Char) :
    stops (cs ++ [c]) = stops cs := by
  fun_induction mark cs with
  | case1 => exact stops_blank h []
  | case2 d r ih => simpa [stops_escape] using ih
  | case3 r => simp [stops_comment]
  | case4 d r hslash hcomment ih =>
    have hc := (ne_of_isBlank h).2.1
    by_cases hd : d = '\\'
    · -- a backslash at the end escapes the blank
      obtain rfl : r = [] := by
        cases r with
        | nil => rfl
        | cons e r => exact (hslash e r hd rfl).elim
      subst hd
      exact stops_escape c []
    · have hcomment' : ∀ s, d = '/' → r ++ [c] = '/' :: s → False := by
        rintro s rfl hs
        cases r with
        | nil => exact hc (List.cons.inj hs).1
        | cons e r => exact hcomment r rfl (by rw [(List.cons.inj hs).1])
      rw [List.cons_append,stops_cons (fun _ _ h => absurd h hd) hcomment',
        stops_cons hslash hcomment,ih,Text.trim_concat h]

theorem stops_trim (cs : List Char) : stops (Text.trim cs) = stops cs := by
  obtain ⟨as, bs, has, hbs, hcs⟩ := Text.eq_blanks_trim cs
  have hstart {as : List Char} (h : ∀ b ∈ as, Text.isBlank b = true) (r : List Char) :
      stops (as ++ r) = stops r := by
    induction as with
    | nil => rfl
    | cons a as ih =>
      obtain ⟨ha, has⟩ := List.forall_mem_cons.1 h
      rw [List.cons_append,stops_blank ha,ih has]
  have hend {bs : List Char} (h : ∀ b ∈ bs, Text.isBlank b = true) (r : List Char) :
      stops (r ++ bs) = stops r := by
    induction bs generalizing r with
    | nil => rw [List.append_nil]
    | cons b bs ih =>
      obtain ⟨hb, hbs⟩ := List.forall_mem_cons.1 h
      rw [← List.singleton_append,← List.append_assoc,ih hbs,stops_concat hb]
  calc stops (Text.trim cs) = stops (as ++ Text.trim cs ++ bs) := by rw [hend hbs,hstart has]
    _ = stops cs := by rw [← hcs]

theorem turns_trim (cs : List Char) : turns (Text.trim cs) = turns cs := by
  have h := congrArg (List.map Prod.fst) (stops_trim cs)
  rwa [stops,stops,map_fst_stopsOf,map_fst_stopsOf] at h

end Stops

section Scanning

variable {ms : List (Char × Bool)} {before after : List Char}

/-- The first opening brace that counts, with nothing but closing ones before it. -/
theorem of_splitOpen (h : splitOpen ms = some (before, after)) :
    ∃ xs ys, ms = xs ++ ('\x7b', true) :: ys ∧ before = chars xs ∧ after = chars ys := by
  induction ms generalizing before with
  | nil => simp [splitOpen] at h
  | cons p r ih =>
    obtain ⟨c, counts⟩ := p
    rw [splitOpen] at h
    split at h
    · next hc =>
      obtain ⟨rfl, rfl⟩ : [] = before ∧ chars r = after := by simpa using h
      obtain ⟨rfl, rfl⟩ : counts = true ∧ c = '\x7b' := by simpa using hc
      exact ⟨[], r, rfl, rfl, rfl⟩
    · obtain ⟨⟨before', after'⟩, hr, he⟩ := Option.map_eq_some_iff.1 h
      obtain ⟨rfl, rfl⟩ : c :: before' = before ∧ after' = after := by simpa using he
      obtain ⟨xs, ys, rfl, rfl, rfl⟩ := ih hr
      exact ⟨(c, counts) :: xs, ys, rfl, rfl, rfl⟩

/-- Without an opening brace that counts, nothing goes up. -/
theorem turnsOf_of_splitOpen_none (h : splitOpen ms = none) : ∀ w ∈ turnsOf ms, w ≤ 0 := by
  induction ms with
  | nil => simp
  | cons p r ih =>
    obtain ⟨c, counts⟩ := p
    rw [splitOpen] at h
    split at h
    · cases h
    · next hc =>
      have ih := ih (Option.map_eq_none_iff.1 h)
      have hw : weight (c, counts) ≤ 0 := by
        rw [weight,if_neg hc]
        split <;> omega
      rw [turnsOf_cons]
      split
      · exact ih
      · exact List.forall_mem_cons.2 ⟨hw, ih⟩

theorem scan_cons (depth : Nat) (p : Char × Bool) (r : List (Char × Bool)) (hd : 1 ≤ depth) :
    scan depth (p :: r) =
      if weight p = -1 ∧ depth = 1 then .closed [] (chars r)
      else (scan (depth + weight p).toNat r).cons p.1 := by
  obtain ⟨c, counts⟩ := p
  rw [scan]
  by_cases ho : (counts && c == '\x7b') = true
  · have hw : weight (c, counts) = 1 := by simp [weight,ho]
    rw [if_pos ho,hw,if_neg (by omega),show ((depth : Int) + 1).toNat = depth + 1 by omega]
  · rw [if_neg ho]
    by_cases hcl : (counts && c == '\x7d') = true
    · have hw : weight (c, counts) = -1 := by simp [weight,ho,hcl]
      rw [if_pos hcl,hw]
      by_cases hone : depth ≤ 1
      · rw [if_pos hone,if_pos (by omega)]
      · rw [if_neg hone,if_neg (by omega),show ((depth : Int) + -1).toNat = depth - 1 by omega]
    · have hw : weight (c, counts) = 0 := by simp [weight,ho,hcl]
      rw [if_neg hcl,hw,if_neg (by omega),show ((depth : Int) + 0).toNat = depth by omega]

theorem neg_one_le_weight (p : Char × Bool) : -1 ≤ weight p := by
  unfold weight
  split
  · omega
  · split <;> omega

theorem eq_of_weight {p : Char × Bool} (h : weight p = -1) : p = ('\x7d', true) := by
  obtain ⟨c, counts⟩ := p
  unfold weight at h
  split at h
  · omega
  · split at h
    · next hc =>
      obtain ⟨rfl, rfl⟩ : counts = true ∧ c = '\x7d' := by simpa using hc
      rfl
    · omega

theorem Scan.eq_of_cons_closed {c : Char} {s : Scan} {inside : List Char}
    (h : s.cons c = .closed inside after) : ∃ tail, s = .closed tail after ∧ inside = c :: tail := by
  cases s with
  | closed tail after' =>
    obtain ⟨rfl, rfl⟩ : c :: tail = inside ∧ after' = after := by simpa [Scan.cons] using h
    exact ⟨tail, rfl, rfl⟩
  | stillOpen d => simp [Scan.cons] at h

theorem Scan.eq_of_cons_stillOpen {c : Char} {s : Scan} {d : Nat} (h : s.cons c = .stillOpen d) :
    s = .stillOpen d := by
  cases s with
  | closed tail after' => simp [Scan.cons] at h
  | stillOpen d' => simpa [Scan.cons] using h

theorem sum_turnsOf_cons (p : Char × Bool) :
    (turnsOf (p :: ms)).sum = weight p + (turnsOf ms).sum := by
  rw [sum_turnsOf,sum_turnsOf]
  rfl

theorem closing_turnsOf_cons {p : Char × Bool} {ws : List Int} (h : Closing (turnsOf ms ++ ws))
    (hsum : weight p + (turnsOf ms ++ ws).sum ≤ 0) : Closing (turnsOf (p :: ms) ++ ws) := by
  rw [turnsOf_cons]
  split
  · exact h
  · exact Closing.cons_iff.2 ⟨hsum, h⟩

/-- Up to the brace that closes the outermost of the open blocks, all others are closed again. -/
theorem of_scan_closed {depth : Nat} {inside : List Char} (hd : 1 ≤ depth)
    (h : scan depth ms = .closed inside after) :
    ∃ xs ys, ms = xs ++ ('\x7d', true) :: ys ∧ inside = chars xs ∧ after = chars ys ∧
      depth + (turnsOf xs).sum = 1 ∧ Closing (turnsOf xs) := by
  induction ms generalizing depth inside with
  | nil => simp [scan] at h
  | cons p r ih =>
    rw [scan_cons depth p r hd] at h
    split at h
    · next hp =>
      obtain ⟨rfl, rfl⟩ : [] = inside ∧ chars r = after := by simpa using h
      obtain rfl := eq_of_weight hp.1
      exact ⟨[], r, rfl, rfl, rfl, by simp [hp.2], Closing.nil⟩
    · next hp =>
      obtain ⟨tail, hs, rfl⟩ := Scan.eq_of_cons_closed h
      have hw := neg_one_le_weight p
      have hdepth : 1 ≤ (depth + weight p).toNat := by omega
      obtain ⟨xs, ys, rfl, rfl, rfl, hsum, hclosing⟩ := ih hdepth hs
      have hsum : depth + (turnsOf (p :: xs)).sum = 1 := by
        rw [sum_turnsOf_cons]
        omega
      have hcons : Closing (turnsOf (p :: xs) ++ []) := by
        refine closing_turnsOf_cons (by rwa [List.append_nil]) ?_
        rw [sum_turnsOf_cons] at hsum
        rw [List.append_nil]
        omega
      exact ⟨p :: xs, ys, rfl, rfl, rfl, hsum, by rwa [List.append_nil] at hcons⟩

/-- The depth at the end of a line that does not close the outermost block. Whatever closes all blocks
behind the line closes those that the line opens. -/
theorem of_scan_stillOpen {depth d : Nat} (hd : 1 ≤ depth) (h : scan depth ms = .stillOpen d) :
    (d : Int) = depth + (turnsOf ms).sum ∧ 1 ≤ d ∧
      ∀ ws, Closing ws → d + ws.sum = 1 → Closing (turnsOf ms ++ ws) := by
  induction ms generalizing depth with
  | nil =>
    obtain rfl : depth = d := by simpa [scan] using h
    exact ⟨by simp, hd, fun ws hws _ => by simpa using hws⟩
  | cons p r ih =>
    rw [scan_cons depth p r hd] at h
    split at h
    · cases h
    · next hp =>
      have hw := neg_one_le_weight p
      obtain ⟨hsum, hpos, hclosing⟩ := ih (by omega) (Scan.eq_of_cons_stillOpen h)
      have hdepth : (d : Int) = depth + (turnsOf (p :: r)).sum := by
        rw [sum_turnsOf_cons]
        omega
      refine ⟨hdepth, hpos, fun ws hws hone => closing_turnsOf_cons (hclosing ws hws hone) ?_⟩
      rw [sum_turnsOf_cons] at hdepth
      rw [List.sum_append]
      omega

end Scanning

end Brace

namespace Line

/-- The turns of some lines. -/
def turns (ls : List Line) : List Int := ls.flatMap fun l => Brace.turns l.text.toList

@[simp]
theorem turns_cons (l : Line) (ls : List Line) :
    turns (l :: ls) = Brace.turns l.text.toList ++ turns ls := by
  simp [turns]

@[simp]
theorem turns_append (ls ks : List Line) : turns (ls ++ ks) = turns ls ++ turns ks := by
  simp [turns]

theorem turns_trimmed? (n : Nat) (cs : List Char) :
    turns (trimmed? n cs).toList = Brace.turns cs := by
  rw [← Brace.turns_trim cs]
  unfold trimmed?
  dsimp only
  split
  · next h => rw [List.isEmpty_iff.1 h]; rfl
  · simp [turns]

end Line

namespace Block

open Brace

/-- The lines as they go into the body of a block. -/
def kept (ls : List Line) : List Line :=
  ls.flatMap fun l => (Line.trimmed? l.number l.text.toList).toList

theorem kept_cons (l : Line) (ls : List Line) :
    kept (l :: ls) = (Line.trimmed? l.number l.text.toList).toList ++ kept ls := by
  simp [kept]

/-- Where a block closes: at a brace of the line `last`, with every block inside it closed. -/
theorem closed_of_close {head : String} {depth consumed : Nat} {body ls : List Line} {b : Block}
    (hd : 1 ≤ depth) (h : close head depth consumed body ls = some b) :
    ∃ taken last later xs ys, ls = taken ++ last :: later ∧
      mark last.text.toList = xs ++ ('\x7d', true) :: ys ∧
      b.body = body ++ (kept taken ++ (Line.trimmed? last.number (chars xs)).toList) ∧
      b.rest = (Line.trimmed? last.number (chars ys)).toList ++ later ∧
      depth + (Line.turns taken ++ turnsOf xs).sum = 1 ∧
      Closing (Line.turns taken ++ turnsOf xs) := by
  induction ls generalizing depth consumed body with
  | nil => cases h
  | cons l r ih =>
    rw [close] at h
    cases hs : scan depth (mark l.text.toList) with
    | closed inside after =>
      rw [hs] at h
      obtain rfl := Option.some.inj h
      obtain ⟨xs, ys, hmark, rfl, rfl, hsum, hclosing⟩ := of_scan_closed hd hs
      exact ⟨[], l, r, xs, ys, rfl, hmark, rfl, rfl, hsum, hclosing⟩
    | stillOpen d =>
      rw [hs] at h
      obtain ⟨hdepth, hpos, hline⟩ := of_scan_stillOpen hd hs
      obtain ⟨taken, last, later, xs, ys, rfl, hmark, hbody, hrest, hsum, hclosing⟩ := ih hpos h
      refine ⟨l :: taken, last, later, xs, ys, rfl, hmark, ?_, hrest, ?_, ?_⟩
      · rw [hbody,kept_cons]
        simp only [List.append_assoc]
      · rw [Line.turns_cons,List.append_assoc,List.sum_append]
        have hturns : (Brace.turns l.text.toList).sum = (turnsOf (mark l.text.toList)).sum := rfl
        omega
      · rw [Line.turns_cons,List.append_assoc]
        exact hline _ hclosing hsum

/-- A block stays open only if nothing closes it. -/
theorem open_of_close {head : String} {depth consumed : Nat} {body ls : List Line} (hd : 1 ≤ depth)
    (h : close head depth consumed body ls = none) : 1 ≤ depth + (Line.turns ls).sum := by
  induction ls generalizing depth consumed body with
  | nil => simp [Line.turns]; omega
  | cons l r ih =>
    rw [close] at h
    cases hs : scan depth (mark l.text.toList) with
    | closed inside after => simp [hs] at h
    | stillOpen d =>
      rw [hs] at h
      obtain ⟨hsum, hpos, -⟩ := of_scan_stillOpen hd hs
      have ih := ih hpos h
      rw [Line.turns_cons,List.sum_append]
      have hturns : (Brace.turns l.text.toList).sum = (turnsOf (mark l.text.toList)).sum := rfl
      omega

end Block

end LineScript
