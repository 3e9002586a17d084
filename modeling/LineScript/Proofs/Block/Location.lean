import LineScript.Proofs.Block.Counting
import LineScript.Proofs.Block.Note
set_option autoImplicit false

/-!
Where blocks are. A block opens at the first brace of the first line that counts, or at the start of the
second line; it closes where the depth counted from there first comes down to zero. Whatever stands on its
lines is in the header, in the body or behind the block, once and in its order, and the lines behind are as
they were.
-/

namespace LineScript

/-- The text without its blanks. -/
def Text.solid (cs : List Char) : List Char := cs.filter fun c => !isBlank c

def Line.texts (ls : List Line) : List Char := ls.flatMap fun l => l.text.toList

theorem Line.texts_append (xs ys : List Line) : texts (xs ++ ys) = texts xs ++ texts ys := by
  simp [texts]

namespace Brace

variable {cs before after : List Char}

theorem splitOpen_some {ms : List (Char × Bool)} (h : splitOpen ms = some (before, after)) :
    ms[before.length]? = some ('\x7b', true) ∧ ∀ i < before.length, ms[i]? ≠ some ('\x7b', true) := by
  induction ms generalizing before with
  | nil => simp [splitOpen] at h
  | cons p r ih =>
    obtain ⟨c, counts⟩ := p
    rw [splitOpen] at h
    split at h
    · next hc =>
      obtain ⟨rfl, rfl⟩ : [] = before ∧ chars r = after := by simpa using h
      obtain ⟨rfl, rfl⟩ : counts = true ∧ c = '\x7b' := by simpa using hc
      simp
    · next hc =>
      obtain ⟨⟨before', after'⟩, hr, he⟩ := Option.map_eq_some_iff.1 h
      obtain ⟨rfl, rfl⟩ : c :: before' = before ∧ after' = after := by simpa using he
      obtain ⟨hat, hfirst⟩ := ih hr
      refine ⟨by simpa using hat, fun i hi => ?_⟩
      cases i with
      | zero =>
        intro hzero
        obtain ⟨rfl, rfl⟩ : c = '\x7b' ∧ counts = true := by simpa using hzero
        simp at hc
      | succ i => simpa using hfirst i (by simpa using hi)

theorem splitOpen_none {ms : List (Char × Bool)} (h : splitOpen ms = none) (i : Nat) :
    ms[i]? ≠ some ('\x7b', true) := by
  induction ms generalizing i with
  | nil => simp
  | cons p r ih =>
    obtain ⟨c, counts⟩ := p
    rw [splitOpen] at h
    split at h
    · cases h
    · next hc =>
      cases i with
      | zero =>
        intro hzero
        obtain ⟨rfl, rfl⟩ : c = '\x7b' ∧ counts = true := by simpa using hzero
        simp at hc
      | succ i => simpa using ih (Option.map_eq_none_iff.1 h) i

/-- The first opening brace that counts. -/
structure OpensAt (cs before after : List Char) : Prop where
  split : cs = before ++ '\x7b' :: after
  counts : Counts cs before.length
  first : ∀ i < before.length, cs[i]? = some '\x7b' → ¬Counts cs i

def NeverOpens (cs : List Char) : Prop := ∀ i, cs[i]? = some '\x7b' → ¬Counts cs i

theorem opensAt_of_splitOpen (h : splitOpen (mark cs) = some (before, after)) :
    OpensAt cs before after := by
  obtain ⟨hat, hfirst⟩ := splitOpen_some h
  have hsplit := append_of_splitOpen h
  rw [chars_mark] at hsplit
  refine ⟨hsplit.symm, ((mark_eq_iff (by decide)).1 hat).2, fun i hi hchar hcounts => ?_⟩
  exact hfirst i hi ((mark_eq_iff (by decide)).2 ⟨hchar, hcounts⟩)

theorem neverOpens_of_splitOpen (h : splitOpen (mark cs) = none) : NeverOpens cs := by
  intro i hchar hcounts
  exact splitOpen_none h i ((mark_eq_iff (by decide)).2 ⟨hchar, hcounts⟩)

theorem NeverOpens.splitOpen (h : NeverOpens cs) : splitOpen (mark cs) = none := by
  cases hs : Brace.splitOpen (mark cs) with
  | none => rfl
  | some p =>
    have hat := opensAt_of_splitOpen hs
    exact absurd hat.counts (h _ (by simp [hat.split]))

theorem OpensAt.splitOpen (h : OpensAt cs before after) :
    splitOpen (mark cs) = some (before, after) := by
  cases hs : Brace.splitOpen (mark cs) with
  | none => exact absurd h.counts (neverOpens_of_splitOpen hs _ (by simp [h.split]))
  | some p =>
    obtain ⟨before', after'⟩ := p
    have hat := opensAt_of_splitOpen hs
    -- neither of the two places is before the other
    have hle : ¬before'.length < before.length :=
      fun hlt => h.first _ hlt (by simp [hat.split]) hat.counts
    have hge : ¬before.length < before'.length :=
      fun hlt => hat.first _ hlt (by simp [h.split]) h.counts
    have hsplit := hat.split
    rw [h.split] at hsplit
    obtain ⟨rfl, hafter⟩ := List.append_inj hsplit (by omega)
    simp [(List.cons.inj hafter).2]

/-- Behind an opening brace that counts, the same braces count as on the whole line. -/
theorem turn_behind (h : Counts (before ++ '\x7b' :: after) before.length) (i : Nat) :
    turn (before ++ '\x7b' :: after) (before.length + 1 + i) = turn after i := by
  have hat : (mark (before ++ '\x7b' :: after))[before.length]? = some ('\x7b', true) :=
    (mark_eq_iff (by decide)).2 ⟨by simp, h⟩
  obtain ⟨hlt, hget⟩ := List.getElem?_eq_some_iff.1 hat
  have hmark : mark (before ++ '\x7b' :: after) =
      (mark (before ++ '\x7b' :: after)).take before.length ++
        ('\x7b', true) :: (mark (before ++ '\x7b' :: after)).drop (before.length + 1) := by
    rw [← hget,← List.drop_eq_getElem_cons hlt,List.take_append_drop]
  have hafter := (mark_of_append hmark).2
  have hdrop : (before ++ '\x7b' :: after).drop (before.length + 1) = after := by simp
  rw [chars_drop_mark,hdrop] at hafter
  rw [← weight_mark,← weight_mark,hafter,List.getElem?_drop]

end Brace

namespace Block

open Brace

variable {ls inner : List Line} {before : List Char} {start : Nat} {b : Block}

/-- Where a block opens: the text before its brace, the number of lines before the one with the brace, and
the lines from the brace on, the first without what stands up to the brace. -/
inductive Opens : List Line → List Char → Nat → List Line → Prop where
  | here {l : Line} {r : List Line} {before after : List Char} : OpensAt l.text.toList before after →
    Opens (l :: r) before 0 (⟨l.number, String.ofList after⟩ :: r)
  | next {l o : Line} {r : List Line} {after : List Char} : NeverOpens l.text.toList →
    o.text.toList = '\x7b' :: after →
    Opens (l :: o :: r) l.text.toList 1 (⟨o.number, String.ofList after⟩ :: r)

/-- The brace at the character `i` of the line `n` closes the block: behind it the depth is zero, and at
every place before it some block is open. -/
structure ClosesAt (depth : Int) (ls : List Line) (n i : Nat) (l : Line) : Prop where
  line : ls[n]? = some l
  brace : l.text.toList[i]? = some '\x7d'
  counts : Counts l.text.toList i
  zero : Line.depthAt depth ls n (i + 1) = 0
  before : ∀ n' i', n' < n ∨ n' = n ∧ i' ≤ i → 1 ≤ Line.depthAt depth ls n' i'

theorem closesAt_of_close {head : String} {depth consumed : Nat} {body : List Line} (hd : 1 ≤ depth)
    (h : close head depth consumed body ls = some b) : ∃ n i l, ClosesAt depth ls n i l ∧
      b = ⟨head, body ++ (kept (ls.take n) ++ (Line.trimmed? l.number (l.text.toList.take i)).toList),
        consumed + n + 1, Line.trimmed? l.number (l.text.toList.drop (i + 1)), ls.drop (n + 1)⟩ := by
  induction ls generalizing depth consumed body with
  | nil => cases h
  | cons l r ih =>
    rw [close] at h
    cases hs : scan depth (mark l.text.toList) with
    | closed inside after =>
      rw [hs] at h
      obtain rfl := Option.some.inj h
      obtain ⟨i, hbrace, hcounts, rfl, rfl, hzero, hpos⟩ := closes_of_scan hd hs
      refine ⟨0, i, l, ⟨rfl, hbrace, hcounts, hzero, fun n' i' hle => ?_⟩, by simp [kept]⟩
      obtain ⟨rfl, hi⟩ : n' = 0 ∧ i' ≤ i := by omega
      exact hpos i' hi
    | stillOpen d =>
      rw [hs] at h
      obtain ⟨hdepth, hpos⟩ := open_of_scan hd hs
      have hone := hpos l.text.toList.length
      obtain ⟨n, i, k, hat, rfl⟩ := ih (by omega) h
      rw [hdepth] at hat
      refine ⟨n + 1, i, k, ⟨by simpa using hat.line, hat.brace, hat.counts, hat.zero, fun n' i' hle => ?_⟩, ?_⟩
      · cases n' with
        | zero => exact hpos i'
        | succ n' => exact hat.before n' i' (by omega)
      · simp [kept_cons]
        omega

/-- Where a block is not closed, some block is open at every place. -/
theorem deep_of_close {head : String} {depth consumed : Nat} {body : List Line} (hd : 1 ≤ depth)
    (h : close head depth consumed body ls = none) (n i : Nat) : 1 ≤ Line.depthAt depth ls n i := by
  induction ls generalizing depth consumed body n with
  | nil =>
    simp [Line.depthAt]
    omega
  | cons l r ih =>
    rw [close] at h
    cases hs : scan depth (mark l.text.toList) with
    | closed inside after => simp [hs] at h
    | stillOpen d =>
      rw [hs] at h
      obtain ⟨hdepth, hpos⟩ := open_of_scan hd hs
      have hone := hpos l.text.toList.length
      cases n with
      | zero => exact hpos i
      | succ n =>
        have hrest := ih (by omega) h n
        rwa [hdepth] at hrest

theorem Opens.find (h : Opens ls before start inner) : ∃ header, ls.head? = some header ∧
    Block.find ls = found header.number
      (close (String.ofList (Text.trim before)) 1 start [] inner) := by
  cases h with
  | here hat => exact ⟨_, rfl, find_of_splitOpen hat.splitOpen⟩
  | next hnever hbrace => exact ⟨_, rfl, find_of_next hnever.splitOpen hbrace⟩

theorem find_of_not_opens (h : ¬∃ before start inner, Opens ls before start inner) :
    find ls = .ok none := by
  cases ls with
  | nil => rfl
  | cons header tail =>
    cases hs : splitOpen (mark header.text.toList) with
    | some p => exact absurd ⟨_, _, _, .here (opensAt_of_splitOpen hs)⟩ h
    | none =>
      refine find_eq_none hs fun next hnext hbrace => h ?_
      obtain ⟨later, rfl⟩ := List.head?_eq_some_iff.1 hnext
      obtain ⟨after, hafter⟩ := List.head?_eq_some_iff.1 hbrace
      exact ⟨_, _, _, .next (neverOpens_of_splitOpen hs) hafter⟩

/-- The lines up to one behind the brace, and those after them. -/
theorem Opens.texts (h : Opens ls before start inner) (n : Nat) :
    Line.texts (ls.take (start + n + 1)) = before ++ '\x7b' :: Line.texts (inner.take (n + 1)) ∧
      ls.drop (start + n + 1) = inner.drop (n + 1) := by
  cases h with
  | here hat => simp [Line.texts,hat.split]
  | next _ hbrace =>
    rw [show 1 + n + 1 = n + 2 by omega]
    simp [Line.texts,hbrace]

theorem ClosesAt.texts {n i : Nat} {l : Line} (h : ClosesAt 1 inner n i l) :
    Line.texts (inner.take (n + 1)) =
      Line.texts (inner.take n) ++ (l.text.toList.take i ++ '\x7d' :: l.text.toList.drop (i + 1)) := by
  obtain ⟨hi, hbrace⟩ := List.getElem?_eq_some_iff.1 h.brace
  rw [← hbrace,← List.drop_eq_getElem_cons hi,List.take_append_drop,List.take_add_one,h.line]
  simp [Line.texts]

theorem solid_append (cs ds : List Char) : Text.solid (cs ++ ds) = Text.solid cs ++ Text.solid ds := by
  simp [Text.solid]

theorem solid_trim (cs : List Char) : Text.solid (Text.trim cs) = Text.solid cs := by
  obtain ⟨as, bs, has, hbs, hcs⟩ := Text.eq_blanks_trim cs
  have hblank {ds : List Char} (h : ∀ d ∈ ds, Text.isBlank d = true) : Text.solid ds = [] := by
    simpa [Text.solid] using h
  calc Text.solid (Text.trim cs) = Text.solid (as ++ Text.trim cs ++ bs) := by
        simp [solid_append,hblank has,hblank hbs]
    _ = Text.solid cs := by rw [← hcs]

theorem solid_trimmed? (n : Nat) (cs : List Char) :
    Text.solid (Line.texts (Line.trimmed? n cs).toList) = Text.solid cs := by
  rw [← solid_trim cs]
  unfold Line.trimmed?
  dsimp only
  split
  · next hempty => simp [List.isEmpty_iff.1 hempty,Line.texts]
  · simp [Line.texts]

theorem solid_kept (ls : List Line) : Text.solid (Line.texts (kept ls)) = Text.solid (Line.texts ls) := by
  induction ls with
  | nil => rfl
  | cons l r ih =>
    have hcons : Line.texts (l :: r) = l.text.toList ++ Line.texts r := by simp [Line.texts]
    rw [kept_cons,Line.texts_append,hcons,solid_append,solid_append,solid_trimmed?,ih]

/-- A block that is found, piece by piece: where its brace is, and what it is made of. -/
theorem Opens.closesAt (h : Opens ls before start inner) (hb : Block.find ls = .ok (some b)) :
    ∃ n i l, ClosesAt 1 inner n i l ∧ b = ⟨String.ofList (Text.trim before),
      kept (inner.take n) ++ (Line.trimmed? l.number (l.text.toList.take i)).toList,
      start + n + 1, Line.trimmed? l.number (l.text.toList.drop (i + 1)), ls.drop (start + n + 1)⟩ := by
  obtain ⟨header, -, hfind⟩ := h.find
  rw [hfind] at hb
  cases hc : close (String.ofList (Text.trim before)) 1 start [] inner with
  | none => simp [hc,found] at hb
  | some b' =>
    obtain rfl : b' = b := by simpa [hc,found] using hb
    obtain ⟨n, i, l, hat, rfl⟩ := closesAt_of_close (Nat.le_refl 1) hc
    exact ⟨n, i, l, hat, by simp [(h.texts n).2]⟩

theorem Opens.length_eq (h : Opens ls before start inner) : ls.length = start + inner.length := by
  cases h with
  | here _ => simp
  | next _ _ => simp; omega

/-- A block that opens and is not found is open at every place, and its header is named. -/
theorem Opens.unclosed (h : Opens ls before start inner) (hnone : ∀ b, Block.find ls ≠ .ok (some b)) :
    (∀ n i, 1 ≤ Line.depthAt 1 inner n i) ∧
      ∃ header, ls.head? = some header ∧ Block.find ls = .error ⟨header.number, .unclosedBlock⟩ := by
  obtain ⟨header, hheader, hfind⟩ := h.find
  cases hc : close (String.ofList (Text.trim before)) 1 start [] inner with
  | none =>
    rw [hc] at hfind
    exact ⟨deep_of_close (Nat.le_refl 1) hc, header, hheader, hfind⟩
  | some b =>
    rw [hc] at hfind
    exact absurd hfind (hnone b)

theorem opens_of_find (h : find ls = .ok (some b)) : ∃ before start inner, Opens ls before start inner := by
  by_contra hnone
  rw [find_of_not_opens hnone] at h
  cases h

/-- Nothing on the lines of a block is lost, and nothing but blanks is added or taken away. -/
theorem Opens.lossless (h : Opens ls before start inner) (hb : Block.find ls = .ok (some b)) :
    Text.solid (b.head.toList ++ '\x7b' :: (Line.texts b.body ++ '\x7d' :: Line.texts b.remainder.toList)) =
      Text.solid (Line.texts (ls.take b.consumed)) := by
  obtain ⟨n, i, l, hat, rfl⟩ := h.closesAt hb
  have hcons (c : Char) (cs : List Char) : Text.solid (c :: cs) = Text.solid [c] ++ Text.solid cs :=
    solid_append [c] cs
  rw [(h.texts n).1,hat.texts,String.toList_ofList,Line.texts_append]
  simp only [solid_append,hcons _ (_ ++ _),hcons '\x7d' (Line.texts _),hcons '\x7d' (List.drop _ _),solid_trim,
    solid_kept,solid_trimmed?,List.append_assoc]

/-- A block is found if one opens and the depth counted from its brace comes down to zero; it closes where
that first happens, and until then some block is open at every place, so that the counter of the scan, which
is that depth, has nothing below one to take away from. Behind the brace the same braces count as on the whole
line. What stands on the lines of the block is all there, blanks apart, and what is left are the text behind
the block and the lines after it. -/
theorem blocks_located (ls : List Line) :
    ((¬∃ before start inner, Opens ls before start inner) → find ls = .ok none) ∧
    (∀ before start inner, Opens ls before start inner →
      ((∃ b, find ls = .ok (some b)) ↔ ∃ n i, Line.depthAt 1 inner n i = 0) ∧
      (∀ b, find ls = .ok (some b) → ∃ n i l, ClosesAt 1 inner n i l ∧
        b = ⟨String.ofList (Text.trim before),
          kept (inner.take n) ++ (Line.trimmed? l.number (l.text.toList.take i)).toList,
          start + n + 1, Line.trimmed? l.number (l.text.toList.drop (i + 1)), ls.drop (start + n + 1)⟩) ∧
      ((∀ b, find ls ≠ .ok (some b)) → (∀ n i, 1 ≤ Line.depthAt 1 inner n i) ∧
        ∃ header, ls.head? = some header ∧ find ls = .error ⟨header.number, .unclosedBlock⟩)) ∧
    (∀ before after, Counts (before ++ '\x7b' :: after) before.length →
      ∀ i, turn (before ++ '\x7b' :: after) (before.length + 1 + i) = turn after i) ∧
    (∀ depth cs d, 1 ≤ depth → scan depth (mark cs) = .stillOpen d →
      (d : Int) = depth + level cs cs.length ∧ 1 ≤ d) ∧
    ∀ b, find ls = .ok (some b) →
      Text.solid (b.head.toList ++ '\x7b' ::
        (Line.texts b.body ++ '\x7d' :: Line.texts b.remainder.toList)) =
        Text.solid (Line.texts (ls.take b.consumed)) ∧
      b.consumed ≤ ls.length ∧ b.rest = b.remainder.toList ++ ls.drop b.consumed := by
  refine ⟨find_of_not_opens, fun before start inner hopens => ⟨?_, fun b hb => hopens.closesAt hb,
    hopens.unclosed⟩, fun before after h i => turn_behind h i, fun depth cs d hd hs => ?_, fun b hb => ?_⟩
  · constructor
    · intro h
      obtain ⟨b, hb⟩ := h
      obtain ⟨n, i, l, hat, -⟩ := hopens.closesAt hb
      exact ⟨n, i + 1, hat.zero⟩
    · intro h
      obtain ⟨n, i, hzero⟩ := h
      by_contra hnone
      have hdeep := (hopens.unclosed fun b hb => hnone ⟨b, hb⟩).1 n i
      omega
  · obtain ⟨hdepth, hpos⟩ := open_of_scan hd hs
    have hone := hpos cs.length
    omega
  · obtain ⟨before, start, inner, hopens⟩ := opens_of_find hb
    refine ⟨hopens.lossless hb, ?_⟩
    obtain ⟨n, i, l, hat, rfl⟩ := hopens.closesAt hb
    obtain ⟨hn, -⟩ := List.getElem?_eq_some_iff.1 hat.line
    have hlength := hopens.length_eq
    exact ⟨by dsimp only; omega, rfl⟩

/-- Braces that are escaped and braces in comments stand on the way. -/
def guardedLines : List Line :=
  [⟨1, "if \\\x7b x \x7b a // \x7d"⟩, ⟨2, "b \x7b c \x7d"⟩, ⟨3, "d \x7d else \x7b"⟩, ⟨4, "e"⟩]

theorem blocks_located_guarded :
    Opens guardedLines "if \\\x7b x ".toList 0 (⟨1, " a // \x7d"⟩ :: guardedLines.drop 1) ∧
    find guardedLines = .ok (some ⟨"if \\\x7b x", [⟨1, "a // \x7d"⟩, ⟨2, "b \x7b c \x7d"⟩, ⟨3, "d"⟩], 3,
      some ⟨3, "else \x7b"⟩, [⟨4, "e"⟩]⟩) ∧
    (∃ n i, Line.depthAt 1 (⟨1, " a // \x7d"⟩ :: guardedLines.drop 1) n i = 0) ∧
    ∃ b, find guardedLines = .ok (some b) ∧
      Text.solid (b.head.toList ++ '\x7b' ::
        (Line.texts b.body ++ '\x7d' :: Line.texts b.remainder.toList)) =
        Text.solid (Line.texts (guardedLines.take b.consumed)) := by
  have hopens : Opens guardedLines "if \\\x7b x ".toList 0 (⟨1, " a // \x7d"⟩ :: guardedLines.drop 1) :=
    .here ⟨by decide +kernel, by decide +kernel, by decide +kernel⟩
  have hfind : find guardedLines = .ok (some ⟨"if \\\x7b x",
      [⟨1, "a // \x7d"⟩, ⟨2, "b \x7b c \x7d"⟩, ⟨3, "d"⟩], 3, some ⟨3, "else \x7b"⟩, [⟨4, "e"⟩]⟩) := by
    decide +kernel
  obtain ⟨-, hlocated, -, -, hlossless⟩ := blocks_located guardedLines
  exact ⟨hopens, hfind, (hlocated _ _ _ hopens).1.1 ⟨_, hfind⟩, _, hfind, (hlossless _ hfind).1⟩

end Block

end LineScript
