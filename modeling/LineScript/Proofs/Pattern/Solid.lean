import LineScript.Proofs.Pattern.Cut
import LineScript.Proofs.Pattern.Normal
set_option autoImplicit false

/-!
Compiled patterns match something: at least one of their segments stands for non-empty pieces only, since
a normal form does not begin with a run of blanks. So no cut along a compiled pattern is of an empty text.
-/

namespace LineScript

/-- Every piece that the segment stands for is non-empty. -/
def Segment.Solid : Segment → Prop
  | .literal text => text ≠ []
  | .capture _ => True
  | .space => False

theorem Segment.Solid.ne_nil {seg : Segment} (h : seg.Solid) {accept : CaptureClass}
    {piece : List Char} (hf : seg.Fits accept piece) : piece ≠ [] := by
  cases seg with
  | literal text =>
    obtain rfl : piece = text := hf
    exact h
  | space => exact h.elim
  | capture name =>
    rintro rfl
    obtain ⟨-, ha⟩ := (accept.captures_iff []).1 hf
    cases accept <;> cases ha

namespace Pattern

theorem flatten_ne_nil_of_solid {accept : CaptureClass} {segs : List Segment}
    {pieces : List (List Char)} (hs : ∃ seg ∈ segs, seg.Solid)
    (hf : List.Forall₂ (Segment.Fits accept) segs pieces) : pieces.flatten ≠ [] := by
  obtain ⟨seg, hseg, hsolid⟩ := hs
  induction hf with
  | nil => cases hseg
  | cons hp _ ih =>
    rcases List.mem_cons.1 hseg with rfl | hseg
    · simp [hsolid.ne_nil hp]
    · simp [ih hseg]

/-- A normal form does not begin with a run of blanks, so its first segment is solid. -/
theorem Normal.solid {segs : List Segment} (h : Normal segs) : ∃ seg ∈ segs, seg.Solid := by
  cases segs with
  | nil => exact absurd rfl h.nonempty
  | cons seg segs =>
    refine ⟨seg, List.mem_cons_self, ?_⟩
    cases seg with
    | literal text => exact (h.proper _ List.mem_cons_self).1
    | capture name => trivial
    | space => exact absurd rfl h.first

theorem solid_of_compile {source : String} {accept : CaptureClass} {line : Nat} {p : Pattern}
    (h : compile source accept line = .ok p) : p.accept = accept ∧ ∃ seg ∈ p.segments, seg.Solid := by
  obtain ⟨-, -, haccept, -⟩ := compile_eq_ok_iff.1 h
  exact ⟨haccept, (normal_of_compile h).solid⟩

end Pattern

end LineScript
