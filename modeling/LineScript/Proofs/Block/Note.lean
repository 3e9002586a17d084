import LineScript.Proofs.Block.Orderly
import LineScript.Proofs.Token.Note
set_option autoImplicit false

/-!
Lines with a note behind one of them. A note has no brace that counts, so blocks are found where they were.
What stands behind the last brace of the noted line gets the note, and if nothing stands there, the note
becomes a line of its own, in front of the lines that follow.
-/

namespace LineScript

open Text (IsNote Notes)

variable {note a : List Char}

namespace Brace

theorem weight_of_mem_mark_comment {gap : List Char} (hgap : ∀ c ∈ gap, Lexer.isGap c = true)
    (text : List Char) : ∀ p ∈ mark (gap ++ '/' :: '/' :: text), weight p = 0 := by
  induction gap with
  | nil =>
    intro p hp
    obtain ⟨c, -, rfl⟩ : ∃ c ∈ '/' :: '/' :: text, (c, false) = p := by
      simpa only [List.nil_append,mark,List.mem_map] using hp
    exact weight_of_false c
  | cons g gap ih =>
    obtain ⟨hg, hgap⟩ := List.forall_mem_cons.1 hgap
    have hmark : mark (g :: (gap ++ '/' :: '/' :: text)) =
        (g, true) :: mark (gap ++ '/' :: '/' :: text) := by
      obtain rfl | rfl := Text.eq_of_isGap hg
      · exact mark_cons (by decide) fun h => absurd h (by decide)
      · exact mark_cons (by decide) fun h => absurd h (by decide)
    rw [List.cons_append,hmark]
    refine List.forall_mem_cons.2 ⟨?_, ih hgap⟩
    obtain rfl | rfl := Text.eq_of_isGap hg
    · decide
    · decide

/-- The two characters are the same and count for the same. -/
def Alike (p q : Char × Bool) : Prop := p.1 = q.1 ∧ weight p = weight q

/-- A note changes no mark that matters: of a last backslash only, behind which a character stands now. -/
theorem mark_append_note (h : IsNote note) (a : List Char) :
    ∃ ms ns, mark (a ++ note) = ms ++ ns ∧ List.Forall₂ Alike (mark a) ms ∧ chars ns = note ∧
      ∀ p ∈ ns, weight p = 0 := by
  obtain ⟨g, gap, text, hg, hgap, rfl⟩ := h.cons
  fun_induction mark a with
  | case1 =>
    refine ⟨[], _, rfl, .nil, chars_mark _, ?_⟩
    exact weight_of_mem_mark_comment (List.forall_mem_cons.2 ⟨hg, hgap⟩) text
  | case2 c r ih =>
    obtain ⟨ms, ns, hmark, hms, hns⟩ := ih
    exact ⟨('\\', false) :: (c, false) :: ms, ns, by simp [mark,hmark],
      .cons ⟨rfl, rfl⟩ (.cons ⟨rfl, rfl⟩ hms), hns⟩
  | case3 r =>
    refine ⟨_, (g :: (gap ++ '/' :: '/' :: text)).map fun c => (c, false), ?_,
      List.forall₂_same.2 fun p _ => ⟨rfl, rfl⟩, by simp [chars,Function.comp_def], fun p hp => ?_⟩
    · rw [← List.map_append]
      rfl
    · obtain ⟨c, -, rfl⟩ := List.mem_map.1 hp
      exact weight_of_false c
  | case4 c r hslash hcomment ih =>
    by_cases hc : c = '\\'
    · cases r with
      | cons d r => exact (hslash d r hc rfl).elim
      | nil =>
        subst hc
        refine ⟨[('\\', false)], (g, false) :: mark (gap ++ '/' :: '/' :: text), rfl,
          .cons ⟨rfl, rfl⟩ .nil, by rw [chars,List.map_cons,← chars,chars_mark], ?_⟩
        exact List.forall_mem_cons.2 ⟨weight_of_false g, weight_of_mem_mark_comment hgap text⟩
    · have hr : c = '/' → ∀ s, r ++ g :: (gap ++ '/' :: '/' :: text) ≠ '/' :: s := by
        intro hcs s hs
        cases r with
        | nil =>
          obtain ⟨rfl, -⟩ := List.cons.inj hs
          cases hg
        | cons d r =>
          obtain ⟨rfl, -⟩ := List.cons.inj hs
          exact hcomment r hcs rfl
      obtain ⟨ms, ns, hmark, hms, hns⟩ := ih
      exact ⟨(c, true) :: ms, ns, by rw [List.cons_append,mark_cons hc hr,hmark]; rfl,
        .cons ⟨rfl, rfl⟩ hms, hns⟩

theorem opens_eq (p : Char × Bool) : (p.2 && p.1 == '\x7b') = decide (weight p = 1) := by
  unfold weight
  split
  · next h => simp [h]
  · next h => split <;> simp [h]

theorem closes_eq (p : Char × Bool) : (p.2 && p.1 == '\x7d') = decide (weight p = -1) := by
  unfold weight
  split
  · next h =>
    obtain ⟨hp, hc⟩ : p.2 = true ∧ p.1 = '\x7b' := by simpa using h
    simp [hc]
  · split
    · next h => simp [h]
    · next h => simp [h]

section Scanning

variable {ms ms' ns : List (Char × Bool)}

theorem chars_of_alike (h : List.Forall₂ Alike ms ms') : chars ms' = chars ms := by
  induction h with
  | nil => rfl
  | cons hp _ ih => simpa [chars,hp.1] using ih

theorem splitOpen_quiet (h : ∀ p ∈ ns, weight p = 0) : splitOpen ns = none := by
  induction ns with
  | nil => rfl
  | cons p ns ih =>
    obtain ⟨hp, hns⟩ := List.forall_mem_cons.1 h
    rw [splitOpen,opens_eq,hp,ih hns]
    rfl

theorem splitOpen_append (h : List.Forall₂ Alike ms ms') (hns : ∀ p ∈ ns, weight p = 0) :
    splitOpen (ms' ++ ns) = (splitOpen ms).map fun p => (p.1, p.2 ++ chars ns) := by
  induction h with
  | nil => exact splitOpen_quiet hns
  | @cons p q ms ms' hp hms ih =>
    rw [List.cons_append,splitOpen,splitOpen,opens_eq,opens_eq,hp.2,ih,chars_append,chars_of_alike hms,
      hp.1]
    split
    · rfl
    · simp [Function.comp_def]

/-- The scan of a line with a text behind it that has no brace. -/
def Scan.append (note : List Char) : Scan → Scan
  | closed inside after => closed inside (after ++ note)
  | stillOpen depth => stillOpen depth

theorem Scan.cons_append (c : Char) (s : Scan) : (s.append note).cons c = (s.cons c).append note := by
  cases s <;> rfl

theorem scan_quiet (h : ∀ p ∈ ns, weight p = 0) (depth : Nat) : scan depth ns = .stillOpen depth := by
  induction ns with
  | nil => rfl
  | cons p ns ih =>
    obtain ⟨hp, hns⟩ := List.forall_mem_cons.1 h
    rw [scan,opens_eq,closes_eq,hp,ih hns]
    rfl

theorem scan_append (h : List.Forall₂ Alike ms ms') (hns : ∀ p ∈ ns, weight p = 0) (depth : Nat) :
    scan depth (ms' ++ ns) = (scan depth ms).append (chars ns) := by
  induction h generalizing depth with
  | nil => exact scan_quiet hns depth
  | @cons p q ms ms' hp hms ih =>
    rw [List.cons_append,scan,scan,opens_eq,opens_eq,closes_eq,closes_eq,hp.2,ih,ih,ih,chars_append,
      chars_of_alike hms,hp.1,Scan.cons_append,Scan.cons_append,Scan.cons_append]
    split
    · rfl
    · split
      · split <;> rfl
      · rfl

end Scanning

theorem splitOpen_note (h : IsNote note) (a : List Char) :
    splitOpen (mark (a ++ note)) = (splitOpen (mark a)).map fun p => (p.1, p.2 ++ note) := by
  obtain ⟨ms, ns, hmark, hms, hchars, hns⟩ := mark_append_note h a
  rw [hmark,splitOpen_append hms hns,hchars]

theorem scan_note (h : IsNote note) (a : List Char) (depth : Nat) :
    scan depth (mark (a ++ note)) = (scan depth (mark a)).append note := by
  obtain ⟨ms, ns, hmark, hms, hchars, hns⟩ := mark_append_note h a
  rw [hmark,scan_append hms hns,hchars]

end Brace

/-- Is the text a pattern rule of a class? -/
def isRule (text : List Char) : Bool :=
  match Token.codeOfText (String.ofList text) with
  | first :: second :: _ =>
    first.kind == .explicit && (second.kind == .watch || second.kind == .params)
  | _ => false

namespace Line

/-- The end of line `n` with a note behind it, or the same text twice. No rule of a class reaches up to the
note. -/
inductive Ends (n : Nat) : Line → Line → Prop where
  | same (l : Line) : Ends n l l
  | note {text note : List Char} : (∀ c, text.getLast? = some c → Text.isBlank c = false) →
    (∀ t ∈ Brace.reaches (Text.trim text), isRule t = false) → IsNote note →
    Ends n ⟨n, String.ofList text⟩ ⟨n, String.ofList (text ++ note)⟩

/-- Line `n` with a note behind it, or the same line twice. -/
def Noted (n : Nat) (l l' : Line) : Prop := Ends n l l' ∧ (l' = l ∨ l.Tidy)

variable {n : Nat} {l l' : Line}

theorem Noted.same (n : Nat) (l : Line) : Noted n l l := ⟨.same l, .inl rfl⟩

theorem noted_self (n : Nat) (ls : List Line) : List.Forall₂ (Noted n) ls ls :=
  List.forall₂_same.2 fun l _ => .same n l

theorem Ends.number (h : Ends n l l') : l'.number = l.number := by
  cases h with
  | same => rfl
  | note => rfl

theorem Ends.notes (h : Ends n l l') : Notes l.text l'.text := by
  cases h with
  | same => exact .inl rfl
  | note _ _ hnote => exact .inr ⟨_, hnote, by simp⟩

theorem Noted.trimmed (h : Noted n l l') : Notes (Text.trimmed l.text) (Text.trimmed l'.text) := by
  obtain ⟨he, htidy⟩ := h
  rcases htidy with rfl | htidy
  · exact .inl rfl
  · cases he with
    | same => exact .inl rfl
    | @note text note hlast hrule hnote =>
      obtain ⟨htrim, hne⟩ : Text.trim text = text ∧ text ≠ [] := by simpa [Tidy] using htidy
      refine .inr ⟨note, hnote, ?_⟩
      simp [Text.trimmed,Text.trim_append_note hnote hne hlast]

theorem trimmed?_append_note {text note : List Char} (hnote : IsNote note) (hne : text ≠ [])
    (hlast : ∀ c, text.getLast? = some c → Text.isBlank c = false) (n : Nat) :
    trimmed? n text = some ⟨n, String.ofList (Text.trim text)⟩ ∧
      trimmed? n (text ++ note) = some ⟨n, String.ofList (Text.trim text ++ note)⟩ := by
  have htrim := Text.trim_ne_nil hne hlast
  simp only [trimmed?,Text.trim_append_note hnote hne hlast]
  simp [htrim]

/-- What stands behind a brace of the line. -/
theorem Ends.behind {after : List Char} {xs ys : List (Char × Bool)} {c : Char} {note : List Char}
    {text : List Char} (hlast : ∀ c, text.getLast? = some c → Text.isBlank c = false)
    (hrule : ∀ t ∈ Brace.reaches (Text.trim text), isRule t = false) (hnote : IsNote note)
    (hmark : Brace.mark text = xs ++ (c, true) :: ys) (hc : Brace.weight (c, true) ≠ 0)
    (hafter : after = Brace.chars ys) :
    Ends n ⟨n, String.ofList after⟩ ⟨n, String.ofList (after ++ note)⟩ := by
  subst hafter
  have htext : text = Brace.chars xs ++ c :: Brace.chars ys := by
    rw [← Brace.chars_mark text,hmark,Brace.chars_append]
    rfl
  refine .note (fun d hd => hlast d ?_) (fun t ht => hrule t ?_) hnote
  · cases hy : Brace.chars ys with
    | nil => rw [hy] at hd; cases hd
    | cons e t =>
      rw [htext,List.getLast?_append_of_ne_nil _ (by simp),hy,List.getLast?_cons_cons,← hy]
      exact hd
  · have hmem := Brace.reaches_subset hmark hc ht
    rw [← Brace.stops_trim] at hmem
    exact List.mem_cons_of_mem _ hmem

end Line

/-- Lines with a note behind line `n`. A note with nothing in front of it is a line of its own, and comes
first. -/
inductive NotedLines (n : Nat) : List Line → List Line → Prop where
  | lines {ls ls' : List Line} : List.Forall₂ (Line.Noted n) ls ls' → NotedLines n ls ls'
  | remark {ls ls' : List Line} {l : Line} : Text.IsRemark l.text → List.Forall₂ (Line.Noted n) ls ls' →
    NotedLines n ls (l :: ls')

namespace NotedLines

variable {n : Nat} {ls ls' ks ks' : List Line} {l l' : Line}

theorem append (h : NotedLines n ls ls') (hk : List.Forall₂ (Line.Noted n) ks ks') :
    NotedLines n (ls ++ ks) (ls' ++ ks') := by
  cases h with
  | lines hl => exact .lines (List.rel_append hl hk)
  | remark hr hl => exact .remark hr (List.rel_append hl hk)

theorem same (n : Nat) (ls : List Line) : NotedLines n ls ls :=
  .lines (Line.noted_self n ls)

/-- The end of a line, trimmed; if nothing is left of it, the note is. -/
theorem trimmed? (h : Line.Ends n l l') :
    NotedLines n (Line.trimmed? l.number l.text.toList).toList
      (Line.trimmed? l'.number l'.text.toList).toList := by
  cases h with
  | same => exact .same n _
  | @note text note hlast hrule hnote =>
    simp only [String.toList_ofList]
    cases text with
    | nil =>
      obtain ⟨x, hx⟩ := Text.trim_note hnote
      have hsome : Line.trimmed? n note = some ⟨n, String.ofList ('/' :: '/' :: x)⟩ := by
        simp [Line.trimmed?,hx]
      rw [List.nil_append,hsome]
      exact .remark ⟨x, by simp⟩ .nil
    | cons c text =>
      obtain ⟨hsome, hsome'⟩ := Line.trimmed?_append_note hnote (List.cons_ne_nil c text) hlast n
      rw [hsome,hsome']
      refine .lines (.cons ⟨.note ?_ ?_ hnote, .inr (Line.tidy_of_trimmed? hsome)⟩ .nil)
      · exact fun d hd => Text.getLast?_trim hd
      · rwa [Text.trim_trim]

/-- A whole line has something left of it, so its note does not become a line of its own. -/
theorem trimmed?_noted (h : Line.Noted n l l') :
    List.Forall₂ (Line.Noted n) (Line.trimmed? l.number l.text.toList).toList
      (Line.trimmed? l'.number l'.text.toList).toList := by
  have hnoted := h
  obtain ⟨hends, rfl | htidy⟩ := h
  · exact Line.noted_self n _
  · cases hends with
    | same => exact Line.noted_self n _
    | @note text note hlast hrule hnote =>
      obtain ⟨htrim, hne⟩ : Text.trim text = text ∧ text ≠ [] := by simpa [Line.Tidy] using htidy
      obtain ⟨hsome, hsome'⟩ := Line.trimmed?_append_note hnote hne hlast n
      rw [htrim] at hsome hsome'
      simp only [String.toList_ofList,hsome,hsome']
      exact .cons hnoted .nil

end NotedLines

namespace Block

open Brace

variable {n : Nat} {ls ls' body body' : List Line} {l l' : Line} {b : Block}

/-- Two blocks in lines with and without a note, under these headers. -/
structure Noted (n : Nat) (b b' : Block) : Prop where
  consumed : b'.consumed = b.consumed
  body : NotedLines n b.body b'.body
  rest : NotedLines n b.rest b'.rest

theorem scan_ends (h : Line.Ends n l l') {depth : Nat} (hd : 1 ≤ depth) :
    (∃ inside after after', scan depth (mark l.text.toList) = .closed inside after ∧
      scan depth (mark l'.text.toList) = .closed inside after' ∧
      Line.Ends n ⟨l.number, String.ofList after⟩ ⟨l'.number, String.ofList after'⟩) ∨
    ∃ d, 1 ≤ d ∧ scan depth (mark l.text.toList) = .stillOpen d ∧
      scan depth (mark l'.text.toList) = .stillOpen d := by
  cases hs : scan depth (mark l.text.toList) with
  | closed inside after =>
    refine .inl ⟨inside, after, ?_⟩
    cases h with
    | same => exact ⟨after, rfl, hs, .same _⟩
    | @note text note hlast hrule hnote =>
      rw [String.toList_ofList] at hs
      obtain ⟨xs, ys, hmark, -, hafter, -, -⟩ := of_scan_closed hd hs
      refine ⟨after ++ note, rfl, ?_, .behind hlast hrule hnote hmark (by decide) hafter⟩
      rw [String.toList_ofList,scan_note hnote,hs]
      rfl
  | stillOpen d =>
    refine .inr ⟨d, (of_scan_stillOpen hd hs).2.1, rfl, ?_⟩
    cases h with
    | same => exact hs
    | @note text note hlast hrule hnote =>
      rw [String.toList_ofList] at hs
      rw [String.toList_ofList,scan_note hnote,hs]
      rfl

/-- The line on which the block ends, with the lines behind it. -/
theorem noted_of_closed {head head' : String} {consumed : Nat} {inside after after' : List Char}
    (hb : NotedLines n body body') (hls : List.Forall₂ (Line.Noted n) ls ls') (hnum : l'.number = l.number)
    (h : Line.Ends n ⟨l.number, String.ofList after⟩ ⟨l'.number, String.ofList after'⟩) :
    Noted n
      ⟨head, body ++ (Line.trimmed? l.number inside).toList, consumed, Line.trimmed? l.number after, ls⟩
      ⟨head', body' ++ (Line.trimmed? l'.number inside).toList, consumed, Line.trimmed? l'.number after',
        ls'⟩ where
  consumed := rfl
  body := by
    rw [hnum]
    exact hb.append (Line.noted_self n _)
  rest := by
    have ht := NotedLines.trimmed? h
    simp only [String.toList_ofList] at ht
    exact ht.append hls

theorem close_noted {head : String} {depth consumed : Nat} (hd : 1 ≤ depth) (head' : String)
    (hb : NotedLines n body body') (hls : List.Forall₂ (Line.Noted n) ls ls')
    (h : close head depth consumed body ls = some b) :
    ∃ b', close head' depth consumed body' ls' = some b' ∧ b.head = head ∧ b'.head = head' ∧
      b.Noted n b' := by
  induction hls generalizing depth consumed body body' with
  | nil => cases h
  | @cons l l' ls ls' hl hls ih =>
    rw [close] at h ⊢
    rcases scan_ends hl.1 hd with ⟨inside, after, after', hs, hs', hafter⟩ | ⟨d, hpos, hs, hs'⟩
    · rw [hs] at h
      obtain rfl := Option.some.inj h
      rw [hs']
      exact ⟨_, rfl, rfl, rfl, noted_of_closed hb hls hl.1.number hafter⟩
    · rw [hs] at h
      rw [hs']
      exact ih hpos (hb.append (NotedLines.trimmed?_noted hl)) h

/-- The block behind an opening brace. -/
theorem close_noted_open {head : String} {consumed : Nat} (head' : String) (hl : Line.Ends n l l')
    (hls : List.Forall₂ (Line.Noted n) ls ls') (h : close head 1 consumed [] (l :: ls) = some b) :
    ∃ b', close head' 1 consumed [] (l' :: ls') = some b' ∧ b.head = head ∧ b'.head = head' ∧
      b.Noted n b' := by
  rw [close] at h ⊢
  rcases scan_ends hl (Nat.le_refl 1) with ⟨inside, after, after', hs, hs', hafter⟩ | ⟨d, hpos, hs, hs'⟩
  · rw [hs] at h
    obtain rfl := Option.some.inj h
    rw [hs']
    exact ⟨_, rfl, rfl, rfl, noted_of_closed (.same n []) hls hl.number hafter⟩
  · rw [hs] at h
    rw [hs']
    exact close_noted hpos head' (NotedLines.trimmed? hl) hls h

section Find

variable {header header' : Line} {tail tail' : List Line}

/-- What reading up to the end of a block gives. -/
def found (number : Nat) : Option Block → Except ParseError (Option Block)
  | none => .error ⟨number, .unclosedBlock⟩
  | some b => .ok (some b)

theorem find_of_splitOpen {before after : List Char}
    (h : splitOpen (mark header.text.toList) = some (before, after)) :
    find (header :: tail) = found header.number (close (String.ofList (Text.trim before)) 1 0 []
      (⟨header.number, String.ofList after⟩ :: tail)) := by
  unfold find
  simp only [h]
  cases close (String.ofList (Text.trim before)) 1 0 [] (⟨header.number, String.ofList after⟩ :: tail) with
  | none => rfl
  | some b => rfl

theorem find_of_next {next : Line} {after : List Char} (h : splitOpen (mark header.text.toList) = none)
    (hnext : next.text.toList = '\x7b' :: after) :
    find (header :: next :: tail) = found header.number (close (Text.trimmed header.text) 1 1 []
      (⟨next.number, String.ofList after⟩ :: tail)) := by
  unfold find
  simp only [h,hnext]
  cases close (Text.trimmed header.text) 1 1 [] (⟨next.number, String.ofList after⟩ :: tail) with
  | none => rfl
  | some b => rfl

theorem find_eq_none (h : splitOpen (mark header.text.toList) = none)
    (hnext : ∀ next, tail.head? = some next → next.text.toList.head? ≠ some '\x7b') :
    find (header :: tail) = .ok none := by
  unfold find
  cases tail with
  | nil => simp [h]
  | cons next later =>
    have hne := hnext next rfl
    cases ht : next.text.toList with
    | nil => simp [h,ht]
    | cons c r =>
      have hc : c ≠ '\x7b' := fun hc => hne (by rw [ht,hc]; rfl)
      simp [h,ht,hc]

theorem splitOpen_ends (h : Line.Ends n l l') :
    (splitOpen (mark l.text.toList) = none ∧ splitOpen (mark l'.text.toList) = none) ∨
      ∃ before after after', splitOpen (mark l.text.toList) = some (before, after) ∧
        splitOpen (mark l'.text.toList) = some (before, after') ∧
        Line.Ends n ⟨l.number, String.ofList after⟩ ⟨l'.number, String.ofList after'⟩ := by
  cases h with
  | same =>
    cases hs : splitOpen (mark l.text.toList) with
    | none => exact .inl ⟨rfl, rfl⟩
    | some p => exact .inr ⟨p.1, p.2, p.2, rfl, rfl, .same _⟩
  | @note text note hlast hrule hnote =>
    rw [String.toList_ofList,String.toList_ofList,splitOpen_note hnote]
    cases hs : splitOpen (mark text) with
    | none => exact .inl ⟨rfl, rfl⟩
    | some p =>
      obtain ⟨xs, ys, hmark, -, hafter⟩ := of_splitOpen hs
      exact .inr ⟨p.1, p.2, p.2 ++ note, rfl, rfl, .behind hlast hrule hnote hmark (by decide) hafter⟩

/-- A line begins with a brace or does not, whether it has a note or not. -/
theorem brace_noted (h : Line.Noted n l l') :
    (l.text.toList.head? ≠ some '\x7b' ∧ l'.text.toList.head? ≠ some '\x7b') ∨
      ∃ after after', l.text.toList = '\x7b' :: after ∧ l'.text.toList = '\x7b' :: after' ∧
        Line.Ends n ⟨l.number, String.ofList after⟩ ⟨l'.number, String.ofList after'⟩ := by
  have hcases (cs : List Char) : cs.head? ≠ some '\x7b' ∨ ∃ after, cs = '\x7b' :: after := by
    by_cases hh : cs.head? = some '\x7b'
    · exact .inr (List.head?_eq_some_iff.1 hh)
    · exact .inl hh
  have hself (l : Line) : (l.text.toList.head? ≠ some '\x7b' ∧ l.text.toList.head? ≠ some '\x7b') ∨
      ∃ after after', l.text.toList = '\x7b' :: after ∧ l.text.toList = '\x7b' :: after' ∧
        Line.Ends n ⟨l.number, String.ofList after⟩ ⟨l.number, String.ofList after'⟩ := by
    rcases hcases l.text.toList with hh | ⟨after, ha⟩
    · exact .inl ⟨hh, hh⟩
    · exact .inr ⟨after, after, ha, ha, .same _⟩
  obtain ⟨hends, rfl | htidy⟩ := h
  · exact hself _
  · cases hends with
    | same => exact hself _
    | @note text note hlast hrule hnote =>
      have hne : text ≠ [] := by simpa using htidy.2
      rw [String.toList_ofList,String.toList_ofList]
      rcases hcases text with hh | ⟨after, rfl⟩
      · obtain ⟨c, r, rfl⟩ := List.exists_cons_of_ne_nil hne
        exact .inl ⟨hh, hh⟩
      · have hmark : mark ('\x7b' :: after) = [] ++ ('\x7b', true) :: mark after :=
          mark_cons (by decide) fun h => absurd h (by decide)
        exact .inr ⟨after, after ++ note, rfl, rfl,
          .behind hlast hrule hnote hmark (by decide) (chars_mark after).symm⟩

theorem found_noted {head head' : String} {consumed number number' : Nat} (hhead : Notes head head')
    (hl : Line.Ends n l l') (hls : List.Forall₂ (Line.Noted n) ls ls')
    (h : found number (close head 1 consumed [] (l :: ls)) = .ok (some b)) :
    ∃ b', found number' (close head' 1 consumed [] (l' :: ls')) = .ok (some b') ∧
      Notes b.head b'.head ∧ b.Noted n b' := by
  cases hc : close head 1 consumed [] (l :: ls) with
  | none => rw [hc] at h; cases h
  | some c =>
    rw [hc] at h
    obtain rfl : c = b := by simpa [found] using h
    obtain ⟨b', hb', hb, hbh, hnoted⟩ := close_noted_open head' hl hls hc
    rw [hb']
    exact ⟨b', rfl, by rwa [hb,hbh], hnoted⟩

/-- A block is found with a note in the lines exactly where it is found without one. -/
theorem find_noted (hh : Line.Noted n header header') (ht : List.Forall₂ (Line.Noted n) tail tail') :
    (find (header :: tail) = .ok none → find (header' :: tail') = .ok none) ∧
      ∀ b, find (header :: tail) = .ok (some b) → ∃ b', find (header' :: tail') = .ok (some b') ∧
        Notes b.head b'.head ∧ b.Noted n b' := by
  have hne {k : Nat} {o : Option Block} : found k o ≠ .ok none := by cases o <;> nofun
  rcases splitOpen_ends hh.1 with ⟨hs, hs'⟩ | ⟨before, after, after', hs, hs', hends⟩
  · cases ht with
    | nil =>
      have hnone {l : Line} (h : splitOpen (mark l.text.toList) = none) : find [l] = .ok none :=
        find_eq_none h nofun
      refine ⟨fun _ => hnone hs', fun b hb => ?_⟩
      rw [hnone hs] at hb
      cases hb
    | @cons next next' later later' hnext hlater =>
      rcases brace_noted hnext with ⟨hb, hb'⟩ | ⟨after, after', ha, ha', hends⟩
      · refine ⟨fun _ => find_eq_none hs' ?_, fun b hfound => ?_⟩
        · rintro _ ⟨⟩
          exact hb'
        · rw [find_eq_none hs (by rintro _ ⟨⟩; exact hb)] at hfound
          cases hfound
      · rw [find_of_next hs ha,find_of_next hs' ha']
        exact ⟨fun h => (hne h).elim, fun b hb => found_noted hh.trimmed hends hlater hb⟩
  · rw [find_of_splitOpen hs,find_of_splitOpen hs']
    exact ⟨fun h => (hne h).elim, fun b hb => found_noted (.inl rfl) hends ht hb⟩

end Find

end Block

end LineScript
