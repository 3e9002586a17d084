import LineScript.Proofs.Pattern.Matching
set_option autoImplicit false

/-!
Patterns written out. Segments in normal form are written as a template, and that template is compiled into
the same segments: its pieces can be read, and each segment ends where the next one begins. So a compiled
pattern can be printed and compiled again.
-/

namespace LineScript

open Template

/-- A character of a literal, as it is read from its written form. -/
def Template.Piece.ofChar (c : Char) : Piece := if c = '\x7b' ∨ c = '\x7d' then .escaped c else .plain c

namespace Segment

/-- How a segment is written: the braces of a literal stand behind a backslash, a capture stands in braces,
and a run of blanks is one space. -/
def written : Segment → List Char
  | literal text => text.flatMap fun c => if c = '\x7b' ∨ c = '\x7d' then ['\\', c] else [c]
  | capture name => '\x7b' :: name.toList ++ ['\x7d']
  | space => [' ']

/-- The pieces that a written segment is read into. -/
def pieces : Segment → List Piece
  | literal text => text.map Piece.ofChar
  | capture name => [.hole name.toList]
  | space => [.plain ' ']

theorem source_ofChar (c : Char) :
    (Piece.ofChar c).source = if c = '\x7b' ∨ c = '\x7d' then ['\\', c] else [c] := by
  unfold Piece.ofChar
  split
  · rfl
  · rfl

theorem source_pieces (seg : Segment) : seg.pieces.flatMap Piece.source = seg.written := by
  cases seg with
  | literal text => simp [pieces,written,List.flatMap_map,source_ofChar]
  | capture name => simp [pieces,written,Piece.source]
  | space => rfl

theorem proper_ofChar (c : Char) : (Piece.ofChar c).Proper := by
  unfold Piece.ofChar
  split
  · next hbrace => exact hbrace
  · next hbrace => exact fun h => hbrace (.inl h)

/-- A brace of a literal is written behind a backslash, so no character is written with a brace in front. -/
theorem not_braced_ofChar (c : Char) : ¬Braced (Piece.ofChar c).source := by
  rw [source_ofChar]
  split
  · simp [Braced]
  · next hbrace => simpa [Braced] using hbrace

theorem precedes_ofChar {c : Char} {piece : Piece} (h : c = '\\' → ¬Braced piece.source) :
    (Piece.ofChar c).Precedes piece := by
  unfold Piece.ofChar
  split
  · trivial
  · exact h

variable {seg s t : Segment}

theorem proper_of_mem_pieces (h : seg.Proper) : ∀ piece ∈ seg.pieces, piece.Proper := by
  intro piece hpiece
  cases seg with
  | literal text =>
    obtain ⟨c, -, rfl⟩ := List.mem_map.1 hpiece
    exact proper_ofChar c
  | capture name =>
    obtain rfl := List.mem_singleton.1 hpiece
    exact h.2.2
  | space =>
    obtain rfl := List.mem_singleton.1 hpiece
    simp [Piece.Proper]

theorem pieces_ne_nil (h : seg.Proper) : seg.pieces ≠ [] := by
  cases seg with
  | literal text => simpa [pieces] using h.1
  | capture name => exact List.cons_ne_nil _ _
  | space => exact List.cons_ne_nil _ _

theorem chain_pieces (seg : Segment) : seg.pieces.IsChain Piece.Precedes := by
  cases seg with
  | literal text =>
    induction text with
    | nil => exact .nil
    | cons c text ih =>
      refine List.isChain_cons.2 ⟨fun piece hpiece => precedes_ofChar fun _ => ?_, ih⟩
      cases text with
      | nil => cases hpiece
      | cons d text =>
        obtain rfl : Piece.ofChar d = piece := by simpa using hpiece
        exact not_braced_ofChar d
  | capture name => exact .singleton _
  | space => exact .singleton _

/-- Segments that may stand next to each other do not change each other's pieces. -/
theorem precedes_of_joins (h : s.Joins t) {x y : Piece} (hx : s.pieces.getLast? = some x)
    (hy : t.pieces.head? = some y) : x.Precedes y := by
  cases s with
  | space =>
    obtain rfl : .plain ' ' = x := by simpa [pieces] using hx
    exact fun hslash => absurd hslash (by decide)
  | capture name =>
    obtain rfl : .hole name.toList = x := by simpa [pieces] using hx
    trivial
  | literal text =>
    obtain ⟨c, hc, rfl⟩ : ∃ c, text.getLast? = some c ∧ Piece.ofChar c = x := by
      simpa [pieces] using hx
    refine precedes_ofChar fun hslash => ?_
    cases t with
    | literal other => exact absurd trivial h.kinds
    | capture name => exact absurd (hc.trans (congrArg some hslash)) h.seen
    | space =>
      obtain rfl : .plain ' ' = y := by simpa [pieces] using hy
      simp [Piece.source,Braced]

end Segment

namespace Pattern

open Segment

variable {done segs : List Segment} {literal text : List Char} {c : Char}

theorem readable_pieces (h : Normal segs) : Readable (segs.flatMap pieces) := by
  constructor
  · intro piece hpiece
    obtain ⟨seg, hseg, hpiece⟩ := List.mem_flatMap.1 hpiece
    exact proper_of_mem_pieces (h.proper seg hseg) piece hpiece
  · have hsome : [] ∉ segs.map pieces := by
      intro hmem
      obtain ⟨seg, hseg, hnil⟩ := List.mem_map.1 hmem
      exact pieces_ne_nil (h.proper seg hseg) hnil
    rw [List.flatMap_def,List.isChain_flatten hsome]
    refine ⟨fun l hl => ?_, (List.isChain_map _).2 (h.joins.imp fun s t hjoins x hx y hy => ?_)⟩
    · obtain ⟨seg, -, rfl⟩ := List.mem_map.1 hl
      exact seg.chain_pieces
    · exact precedes_of_joins hjoins hx hy

/-- A written pattern is read into the pieces of its segments. -/
theorem read_written (h : Normal segs) : Template.read (segs.flatMap written) = segs.flatMap pieces := by
  have hsource : (segs.flatMap pieces).flatMap Piece.source = segs.flatMap written := by
    rw [List.flatMap_assoc]
    simp only [source_pieces]
  rw [← hsource,Template.read_source (readable_pieces h)]

theorem segmentsFrom_literal (h : ∀ c ∈ text, Text.isBlank c = false) (pieces : List Piece) :
    segmentsFrom done literal (text.map Piece.ofChar ++ pieces) =
      segmentsFrom done (text.reverse ++ literal) pieces := by
  induction text generalizing literal with
  | nil => rfl
  | cons c text ih =>
    obtain ⟨hc, htext⟩ := List.forall_mem_cons.1 h
    have hchar : segmentsFrom done literal (Piece.ofChar c :: (text.map Piece.ofChar ++ pieces)) =
        segmentsFrom done (c :: literal) (text.map Piece.ofChar ++ pieces) := by
      unfold Piece.ofChar
      split
      · rfl
      · simp [segmentsFrom,hc]
    rw [List.map_cons,List.cons_append,hchar,ih htext]
    simp

/-- A literal ends where a segment of another kind begins. -/
theorem segmentsFrom_flush (h : ∀ text, segs.head? ≠ some (.literal text)) :
    segmentsFrom done literal (segs.flatMap pieces) =
      segmentsFrom (flush done literal) [] (segs.flatMap pieces) := by
  cases segs with
  | nil => rfl
  | cons seg segs =>
    cases seg with
    | literal text => exact absurd rfl (h text)
    | capture name => rfl
    | space => rfl

/-- The pieces of segments are compiled into these segments, behind those that are done. -/
theorem segmentsFrom_pieces (hproper : ∀ seg ∈ segs, seg.Proper) (hjoins : segs.IsChain Joins)
    (hnext : ∀ s t, done.head? = some s → segs.head? = some t → s.Joins t) :
    segmentsFrom done [] (segs.flatMap pieces) = .ok (done.reverse ++ segs) := by
  induction segs generalizing done with
  | nil => simp [segmentsFrom,flush]
  | cons seg segs ih =>
    obtain ⟨hseg, hproper⟩ := List.forall_mem_cons.1 hproper
    obtain ⟨hbehind, hjoins⟩ := List.isChain_cons.1 hjoins
    have hdone : segmentsFrom (seg :: done) [] (segs.flatMap pieces) = .ok (done.reverse ++ seg :: segs) := by
      rw [ih hproper hjoins fun s t hs ht => by simp_all]
      simp
    rw [List.flatMap_cons]
    cases seg with
    | space =>
      have hhead : done.head? ≠ some .space := fun hs => (hnext _ _ hs rfl).kinds trivial
      rw [← hdone,pieces,List.singleton_append,segmentsFrom,if_pos (by decide),flush_of_nil]
      exact congrArg (segmentsFrom · [] _) (if_neg hhead)
    | capture name =>
      obtain ⟨hname, htrim, -⟩ := hseg
      have hhead : ¬(done.head?.map isCapture).getD false = true := by
        intro hcapture
        cases hs : done.head? with
        | none => simp [hs] at hcapture
        | some s =>
          cases s with
          | capture other => exact (hnext _ _ hs rfl).kinds trivial
          | literal text => simp [hs,isCapture] at hcapture
          | space => simp [hs,isCapture] at hcapture
      rw [← hdone,pieces,List.singleton_append,segmentsFrom,flush_of_nil,htrim,
        if_neg (by simpa using hname),if_neg hhead,String.ofList_toList]
    | literal text =>
      have hkind (other : List Char) : segs.head? ≠ some (.literal other) :=
        fun hs => (hbehind _ hs).kinds trivial
      have hflush : flush done text.reverse = .literal text :: done := by
        rw [flush_of_ne_nil (by simpa using hseg.1),List.reverse_reverse]
      rw [pieces,segmentsFrom_literal hseg.2,List.append_nil,segmentsFrom_flush hkind,hflush,hdone]

/-- A pattern as a template. -/
def written (p : Pattern) : String := String.ofList (p.segments.flatMap Segment.written)

theorem written_ne_nil {seg : Segment} (h : seg.Proper) : seg.written ≠ [] := by
  obtain ⟨piece, pieces, hpieces⟩ := List.exists_cons_of_ne_nil (pieces_ne_nil h)
  rw [← source_pieces,hpieces]
  cases piece <;> simp [Piece.source]

/-- No blank at either end of a written segment, unless it is a run of blanks. -/
theorem ends_written {seg : Segment} (hproper : seg.Proper) (hspace : seg ≠ .space)
    (hc : seg.written.head? = some c ∨ seg.written.getLast? = some c) : Text.isBlank c = false := by
  cases seg with
  | space => exact absurd rfl hspace
  | capture name =>
    have hlast : (Segment.capture name).written.getLast? = some '\x7d' := by
      rw [Segment.written,List.getLast?_append_of_ne_nil _ (by simp)]
      rfl
    rw [hlast] at hc
    obtain rfl | rfl : '\x7b' = c ∨ '\x7d' = c := by simpa [Segment.written] using hc
    · decide
    · decide
  | literal text =>
    have hmem : c ∈ (Segment.literal text).written := hc.elim List.mem_of_head? List.mem_of_getLast?
    obtain ⟨d, hd, hmem⟩ := List.mem_flatMap.1 hmem
    split at hmem
    · obtain rfl | rfl : c = '\\' ∨ c = d := by simpa using hmem
      · decide
      · exact hproper.2 c hd
    · obtain rfl := List.mem_singleton.1 hmem
      exact hproper.2 c hd

theorem trim_written (h : Normal segs) :
    Text.trim (segs.flatMap Segment.written) = segs.flatMap Segment.written := by
  refine Text.trim_eq_self (fun c hc => ?_) fun c hc => ?_
  · obtain ⟨seg, segs, rfl⟩ := List.exists_cons_of_ne_nil h.nonempty
    have hproper := h.proper seg List.mem_cons_self
    rw [List.flatMap_cons,List.head?_append_of_ne_nil _ (written_ne_nil hproper)] at hc
    exact ends_written hproper (by simpa using h.first) (.inl hc)
  · obtain ⟨before, seg, rfl⟩ := (List.eq_nil_or_concat segs).resolve_left h.nonempty
    have hproper := h.proper seg (by simp)
    rw [List.concat_eq_append,List.flatMap_append,List.flatMap_singleton,
      List.getLast?_append_of_ne_nil _ (written_ne_nil hproper)] at hc
    exact ends_written hproper (by simpa using h.last) (.inr hc)

/-- Every normal form is that of a compiled pattern, and writing it gives a template for it. -/
theorem compile_written {p : Pattern} (h : Normal p.segments) (accept : CaptureClass) (line : Nat) :
    compile p.written accept line = .ok ⟨p.written, accept, p.segments⟩ := by
  have htext : Text.trim p.written.toList = p.segments.flatMap Segment.written := by
    rw [written,String.toList_ofList,trim_written h]
  have hsome : p.segments.flatMap Segment.written ≠ [] := by
    obtain ⟨seg, segs, hsegs⟩ := List.exists_cons_of_ne_nil h.nonempty
    have hseg := written_ne_nil (h.proper seg (by simp [hsegs]))
    simp [hsegs,hseg]
  refine compile_eq_ok_iff.2 ⟨htext ▸ hsome, ?_, rfl, ?_⟩
  · rw [Text.trimmed,htext]
    rfl
  · rw [htext,read_written h,segmentsFrom_pieces h.proper h.joins (by simp)]
    rfl

/-- A compiled pattern is in normal form, so what a search finds is not empty, and the pattern is compiled
into the same segments again from what it is written as. -/
theorem compiled_normal {source : String} {accept : CaptureClass} {line : Nat} {p : Pattern}
    (h : compile source accept line = .ok p) :
    Normal p.segments ∧ (∀ text pieces, p.Cuts text pieces → text ≠ []) ∧
      (∀ input m, p.find input = some m → m.text ≠ []) ∧
      ∀ accept line, compile p.written accept line = .ok ⟨p.written, accept, p.segments⟩ := by
  have hnormal := normal_of_compile h
  have hcuts : ∀ text pieces, p.Cuts text pieces → text ≠ [] := fun _ _ hc => hc.ne_nil hnormal.solid
  refine ⟨hnormal, hcuts, fun input m hm => ?_, compile_written hnormal⟩
  have hfinds := findFrom_finds hnormal.solid [] input.toList
  rw [show p.findFrom [] input.toList = some m from hm] at hfinds
  obtain ⟨-, -, -, ⟨pieces, hpieces, -⟩, -⟩ := hfinds
  exact hcuts m.text pieces hpieces

/-- A stray backslash, escaped and unescaped braces, blanks in and around a name, and a name that ends with a
backslash. -/
theorem compiled_normal_escaped :
    ∃ p, compile " \\\\\x7b\x7bx  y \x7d\x7d\t \\ \x7b z\\\x7d " .word 1 = .ok p ∧
      p.segments = [.literal ['\\', '\x7b'], .capture "x  y", .literal ['\x7d'], .space, .literal ['\\'], .space,
        .capture "z\\"] ∧
      p.written = "\\\\\x7b\x7bx  y\x7d\\\x7d \\ \x7bz\\\x7d" ∧
      compile p.written .nonBlank 7 = .ok ⟨p.written, .nonBlank, p.segments⟩ ∧
      ∀ input m, p.find input = some m → m.text ≠ [] := by
  have hc : compile " \\\\\x7b\x7bx  y \x7d\x7d\t \\ \x7b z\\\x7d " .word 1 = .ok
      ⟨"\\\\\x7b\x7bx  y \x7d\x7d\t \\ \x7b z\\\x7d", .word, [.literal ['\\', '\x7b'], .capture "x  y",
        .literal ['\x7d'], .space, .literal ['\\'], .space, .capture "z\\"]⟩ := by
    decide +kernel
  obtain ⟨-, -, hfind, hagain⟩ := compiled_normal hc
  exact ⟨_, hc, rfl, by decide +kernel, hagain .nonBlank 7, hfind⟩

end Pattern

end LineScript
