import LineScript.Pattern.Basic
import LineScript.Proofs.Template
import LineScript.Proofs.Text.Words
set_option autoImplicit false

/-!
The normal form of patterns. A compiled pattern neither begins nor ends with a run of blanks, no two of its
segments next to each other are of one kind, its literals hold no blanks and its captures are named. While a
template is read the segments done are such a beginning, and the literal begun waits to join them.
-/

namespace LineScript

namespace Segment

/-- A literal is not empty and holds no blank. The name of a capture is not empty, has no blanks around it
and no closing brace in it. -/
def Proper : Segment → Prop
  | literal text => Text.IsRun text
  | capture name => name.toList ≠ [] ∧ Text.trim name.toList = name.toList ∧ '\x7d' ∉ name.toList
  | space => True

/-- Both are literals, captures or runs of blanks. -/
def SameKind : Segment → Segment → Prop
  | literal _, literal _ => True
  | capture _, capture _ => True
  | space, space => True
  | _, _ => False

/-- The first segment ends with a backslash, which would make the brace of the second one plain. -/
def Masks : Segment → Segment → Prop
  | literal text, capture _ => text.getLast? = some '\\'
  | _, _ => False

/-- The segments may stand next to each other. -/
structure Joins (s t : Segment) : Prop where
  kinds : ¬s.SameKind t
  seen : ¬s.Masks t

end Segment

namespace Pattern

open Segment

structure Normal (segs : List Segment) : Prop where
  nonempty : segs ≠ []
  proper : ∀ seg ∈ segs, seg.Proper
  first : segs.head? ≠ some .space
  last : segs.getLast? ≠ some .space
  joins : segs.IsChain Joins

/-- Segments that a normal form may begin with, the last one first. -/
structure Begins (done : List Segment) : Prop where
  proper : ∀ seg ∈ done, seg.Proper
  first : done.getLast? ≠ some .space
  joins : done.IsChain fun s t => t.Joins s

variable {done segs : List Segment} {seg : Segment} {literal name : List Char} {c : Char}
  {pieces : List Template.Piece}

theorem Begins.cons (h : Begins done) (hproper : seg.Proper) (hfirst : done = [] → seg ≠ .space)
    (hjoins : ∀ s, done.head? = some s → s.Joins seg) : Begins (seg :: done) := by
  refine ⟨List.forall_mem_cons.2 ⟨hproper, h.proper⟩, ?_, List.isChain_cons.2 ⟨hjoins, h.joins⟩⟩
  cases done with
  | nil => simpa using hfirst rfl
  | cons s done => simpa [List.getLast?_cons_cons] using h.first

theorem Begins.normal (h : Begins done) (hnonempty : done ≠ []) (hlast : done.head? ≠ some .space) :
    Normal done.reverse where
  nonempty := by simpa using hnonempty
  proper seg hseg := h.proper seg (List.mem_reverse.1 hseg)
  first := by simpa using h.first
  last := by simpa using hlast
  joins := List.isChain_reverse.2 h.joins

theorem flush_of_nil (done : List Segment) : flush done [] = done := rfl

theorem flush_of_ne_nil (h : literal ≠ []) : flush done literal = .literal literal.reverse :: done := by
  simp [flush,h]

theorem flush_eq_nil_iff : flush done literal = [] ↔ done = [] ∧ literal = [] := by
  cases literal with
  | nil => simp [flush]
  | cons c literal => simp [flush]

/-- The piece is a blank of the template. -/
def IsBlank : Template.Piece → Prop
  | .plain c => Text.isBlank c = true
  | _ => False

/-- The segments will not end with a run of blanks: the last piece is still to come, or it has made the last
segment. -/
def Ending (done : List Segment) (literal : List Char) (pieces : List Template.Piece) : Prop :=
  (∃ piece, pieces.getLast? = some piece ∧ ¬IsBlank piece) ∨
    pieces = [] ∧ flush done literal ≠ [] ∧ (flush done literal).head? ≠ some .space

theorem Ending.of_cons {piece : Template.Piece} {done' : List Segment} {literal' : List Char}
    (h : Ending done literal (piece :: pieces))
    (hend : ¬IsBlank piece → flush done' literal' ≠ [] ∧ (flush done' literal').head? ≠ some .space) :
    Ending done' literal' pieces := by
  obtain ⟨final, hfinal, hblank⟩ := h.resolve_right fun hnil => List.cons_ne_nil _ _ hnil.1
  cases pieces with
  | nil =>
    obtain rfl : piece = final := by simpa using hfinal
    exact .inr ⟨rfl, hend hblank⟩
  | cons next pieces => exact .inl ⟨final, by simpa [List.getLast?_cons_cons] using hfinal, hblank⟩

/-- A template while it is read: `done` and `literal` are kept last one first. -/
structure Reading (done : List Segment) (literal : List Char) (pieces : List Template.Piece) : Prop where
  begins : Begins done
  complete : ∀ text, done.head? ≠ some (.literal text)
  unbroken : ∀ c ∈ literal, Text.isBlank c = false
  readable : Template.Readable pieces
  seen : literal.head? = some '\\' → ∀ name, pieces.head? ≠ some (.hole name)
  first : done = [] → literal = [] → ∀ piece, pieces.head? = some piece → ¬IsBlank piece
  last : Ending done literal pieces

namespace Reading

variable {piece : Template.Piece}

theorem begins_flush (h : Reading done literal pieces) : Begins (flush done literal) := by
  by_cases hl : literal = []
  · rw [hl,flush_of_nil]
    exact h.begins
  · rw [flush_of_ne_nil hl]
    refine h.begins.cons ⟨by simpa using hl, fun c hc => h.unbroken c (List.mem_reverse.1 hc)⟩ nofun ?_
    intro s hs
    cases s with
    | literal text => exact absurd hs (h.complete text)
    | capture name => exact ⟨id, id⟩
    | space => exact ⟨id, id⟩

/-- A character joins the literal begun. -/
theorem char (h : Reading done literal (piece :: pieces)) (hc : Text.isBlank c = false)
    (hslash : c = '\\' → piece = .plain c) : Reading done (c :: literal) pieces := by
  obtain ⟨-, hnext, hreadable⟩ := Template.Readable.cons_iff.1 h.readable
  refine ⟨h.begins, h.complete, List.forall_mem_cons.2 ⟨hc, h.unbroken⟩, hreadable, ?_, nofun, ?_⟩
  · intro hhead name hname
    obtain rfl : c = '\\' := by simpa using hhead
    obtain rfl := hslash rfl
    exact hnext _ hname rfl (.inl rfl)
  · refine h.last.of_cons fun _ => ?_
    rw [flush_of_ne_nil (List.cons_ne_nil c literal)]
    exact ⟨List.cons_ne_nil _ _, by simp⟩

/-- A blank ends the literal and belongs to a run of blanks. -/
theorem blank (h : Reading done literal (.plain c :: pieces)) (hc : Text.isBlank c = true) :
    Reading (if (flush done literal).head? = some .space then flush done literal
      else .space :: flush done literal) [] pieces := by
  obtain ⟨-, -, hreadable⟩ := Template.Readable.cons_iff.1 h.readable
  have hsome : flush done literal ≠ [] := by
    rw [ne_eq,flush_eq_nil_iff]
    exact fun ⟨hdone, hliteral⟩ => h.first hdone hliteral _ rfl hc
  split
  · next hhead =>
    exact ⟨h.begins_flush, by simp [hhead], by simp, hreadable, nofun, fun hdone => absurd hdone hsome,
      h.last.of_cons fun hblank => absurd hc hblank⟩
  · next hhead =>
    refine ⟨h.begins_flush.cons trivial (fun hdone => absurd hdone hsome) ?_, by simp, by simp, hreadable, nofun,
      nofun, h.last.of_cons fun hblank => absurd hc hblank⟩
    intro s hs
    cases s with
    | space => exact absurd hs hhead
    | literal text => exact ⟨id, id⟩
    | capture name => exact ⟨id, id⟩

/-- A hole ends the literal and becomes a capture. -/
theorem hole (h : Reading done literal (.hole name :: pieces)) (hname : Text.trim name ≠ [])
    (hcapture : ∀ other, (flush done literal).head? ≠ some (.capture other)) :
    Reading (.capture (String.ofList (Text.trim name)) :: flush done literal) [] pieces := by
  obtain ⟨hproper, -, hreadable⟩ := Template.Readable.cons_iff.1 h.readable
  have hclosed : '\x7d' ∉ Text.trim name := by
    obtain ⟨as, bs, -, -, hcut⟩ := Text.eq_blanks_trim name
    exact fun hmem => hproper (by rw [hcut]; simp [hmem])
  refine ⟨h.begins_flush.cons ?_ nofun ?_, by simp, by simp, hreadable, nofun, nofun,
    h.last.of_cons fun _ => ⟨List.cons_ne_nil _ _, by simp [flush_of_nil]⟩⟩
  · simpa [Proper,Text.trim_trim] using ⟨hname, hclosed⟩
  · intro s hs
    cases s with
    | capture other => exact absurd hs (hcapture other)
    | space => exact ⟨id, id⟩
    | literal text =>
      refine ⟨id, fun hslash => ?_⟩
      by_cases hl : literal = []
      · rw [hl,flush_of_nil] at hs
        exact h.complete text hs
      · rw [flush_of_ne_nil hl] at hs
        obtain rfl : literal.reverse = text := by simpa using hs
        exact h.seen (by simpa [Masks] using hslash) name rfl

end Reading

/-- Whatever a template is compiled into is a normal form. -/
theorem Reading.normal (h : Reading done literal pieces)
    (hsegs : segmentsFrom done literal pieces = .ok segs) : Normal segs := by
  induction pieces generalizing done literal with
  | nil =>
    obtain rfl := Except.ok.inj hsegs
    obtain ⟨-, hsome, hlast⟩ := h.last.resolve_left nofun
    exact h.begins_flush.normal hsome hlast
  | cons piece pieces ih =>
    cases piece with
    | plain c =>
      rw [segmentsFrom] at hsegs
      split at hsegs
      · next hc => exact ih (h.blank hc) hsegs
      · next hc => exact ih (h.char (by simpa using hc) fun _ => rfl) hsegs
    | escaped c =>
      obtain ⟨hproper, -, -⟩ := Template.Readable.cons_iff.1 h.readable
      refine ih (h.char (c := c) ?_ ?_) hsegs
      · obtain rfl | rfl := hproper
        · decide
        · decide
      · rintro rfl
        exact absurd hproper (by simp [Template.Piece.Proper])
    | hole name =>
      rw [segmentsFrom] at hsegs
      split at hsegs
      · cases hsegs
      · next hname =>
        split at hsegs
        · cases hsegs
        · next hcapture =>
          refine ih (h.hole (by simpa using hname) fun other hother => ?_) hsegs
          rw [hother] at hcapture
          exact hcapture rfl
    | unclosed name => cases hsegs

/-- A template without blanks around it, before it is read. -/
theorem reading_read {cs : List Char} (hne : cs ≠ []) (htrim : Text.trim cs = cs) :
    Reading [] [] (Template.read cs) := by
  have hsource := Template.source_read cs
  refine ⟨⟨by simp, by simp, .nil⟩, by simp, by simp, Template.readable_read cs, nofun, ?_, .inl ?_⟩
  · intro _ _ piece hpiece hblank
    cases piece with
    | plain c =>
      have hhead : cs.head? = some c := by
        rw [← hsource,Template.Piece.head?_source,hpiece]
        rfl
      rw [← htrim] at hhead
      rw [IsBlank,Text.head?_trim hhead] at hblank
      cases hblank
    | escaped c => exact hblank
    | hole name => exact hblank
    | unclosed name => exact hblank
  · rcases List.eq_nil_or_concat (Template.read cs) with hnil | ⟨before, piece, hread⟩
    · rw [hnil] at hsource
      exact absurd hsource.symm hne
    · refine ⟨piece, by simp [hread], fun hblank => ?_⟩
      cases piece with
      | plain c =>
        have hend : cs.getLast? = some c := by
          rw [← hsource,hread]
          simp [Template.Piece.source]
        rw [← htrim] at hend
        rw [IsBlank,Text.getLast?_trim hend] at hblank
        cases hblank
      | escaped c => exact hblank
      | hole name => exact hblank
      | unclosed name => exact hblank

variable {source : String} {accept : CaptureClass} {line : Nat} {p : Pattern}

theorem compile_eq_ok_iff : compile source accept line = .ok p ↔
    Text.trim source.toList ≠ [] ∧ p.source = Text.trimmed source ∧ p.accept = accept ∧
      segmentsFrom [] [] (Template.read (Text.trim source.toList)) = .ok p.segments := by
  unfold compile
  dsimp only
  obtain ⟨text, taken, segments⟩ := p
  by_cases hempty : Text.trim source.toList = []
  · simp [hempty]
  · rw [if_neg (by simpa using hempty)]
    cases hs : segmentsFrom [] [] (Template.read (Text.trim source.toList)) with
    | error f => simp
    | ok segs =>
      simp only [Except.ok.injEq,Pattern.mk.injEq,Text.trimmed]
      constructor
      · rintro ⟨rfl, rfl, rfl⟩
        exact ⟨hempty, rfl, rfl, rfl⟩
      · rintro ⟨-, rfl, rfl, rfl⟩
        exact ⟨rfl, rfl, rfl⟩

theorem normal_of_compile (h : compile source accept line = .ok p) : Normal p.segments := by
  obtain ⟨hne, -, -, hsegs⟩ := compile_eq_ok_iff.1 h
  exact (reading_read hne (Text.trim_trim _)).normal hsegs

end Pattern

end LineScript
