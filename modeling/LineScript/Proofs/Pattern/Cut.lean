import LineScript.Pattern.Basic
import Mathlib.Data.List.Forall2
set_option autoImplicit false

/-!
Cuts of a text along the segments of a pattern. `Pattern.Cut` says what a cut is, without saying how one
is found. The matcher finds one whenever there is one, and of all cuts the one whose piece lengths are
lexicographically greatest.
-/

namespace LineScript

/-- What a capture of the class may be: words have at most one colon, neither first nor last. -/
def CaptureClass.Captures : CaptureClass → List Char → Prop
  | .word, cs => cs ≠ [] ∧ (∀ c ∈ cs, Text.isWordChar c = true ∨ c = ':') ∧ cs.count ':' ≤ 1 ∧
    cs.head? ≠ some ':' ∧ cs.getLast? ≠ some ':'
  | .nonBlank, cs => cs ≠ [] ∧ ∀ c ∈ cs, Text.isBlank c = false

theorem CaptureClass.captures_iff (accept : CaptureClass) (cs : List Char) :
    accept.Captures cs ↔ (∀ c ∈ cs, accept.admits c = true) ∧ accept.accepts cs = true := by
  cases accept with
  | nonBlank => simp [Captures,admits,accepts,and_comm]
  | word =>
    have hnone (h : cs.count ':' = 0) : cs.head? ≠ some ':' ∧ cs.getLast? ≠ some ':' := by
      rw [List.count_eq_zero] at h
      exact ⟨fun hh => h (List.mem_of_head? hh), fun hl => h (List.mem_of_getLast? hl)⟩
    have hne : cs.count ':' = 1 → cs ≠ [] := by
      rintro h rfl
      cases h
    simp only [Captures,admits,accepts,Bool.or_eq_true,beq_iff_eq]
    rcases hc : cs.count ':' with _ | _ | n
    · simp [hnone hc,and_comm]
    · simp [hne hc]
    · simp

namespace Segment

/-- Which pieces of text a segment stands for. -/
def Fits (accept : CaptureClass) : Segment → List Char → Prop
  | literal text, piece => piece = text
  | space, piece => ∀ c ∈ piece, Text.isBlank c = true
  | capture _, piece => accept.Captures piece

end Segment

namespace Pattern

/-- The front of the text is cut into consecutive pieces, one for each segment, and `rest` is left; with
`whole` nothing may be left. -/
structure Cut (accept : CaptureClass) (whole : Bool) (segs : List Segment) (cs : List Char)
    (pieces : List (List Char)) (rest : List Char) : Prop where
  fits : List.Forall₂ (Segment.Fits accept) segs pieces
  text : pieces.flatten ++ rest = cs
  all : whole = true → rest = []

/-- The lengths of the second cut are lexicographically greater. -/
def Exceeded (pieces others : List (List Char)) : Prop :=
  List.Lex (· < ·) (pieces.map List.length) (others.map List.length)

/-- The pieces that stand for captures. -/
def captured (segs : List Segment) (pieces : List (List Char)) : List (List Char) :=
  ((segs.zip pieces).filter fun e => e.1.isCapture).map Prod.snd

variable {accept : CaptureClass} {whole : Bool} {seg : Segment} {segs : List Segment}
  {cs rest piece : List Char} {pieces : List (List Char)}

/-- A cut is a first piece with a cut of what follows it. -/
theorem cut_cons_iff : Cut accept whole (seg :: segs) cs (piece :: pieces) rest ↔
    seg.Fits accept piece ∧ cs.take piece.length = piece ∧
      Cut accept whole segs (cs.drop piece.length) pieces rest := by
  constructor
  · rintro ⟨hf, rfl, hr⟩
    obtain ⟨hp, hps⟩ := List.forall₂_cons.1 hf
    refine ⟨hp, by simp, hps, by simp, hr⟩
  · rintro ⟨hp, ht, hps, hd, hr⟩
    refine ⟨.cons hp hps, ?_, hr⟩
    calc (piece :: pieces).flatten ++ rest = piece ++ (pieces.flatten ++ rest) := by simp
      _ = cs.take piece.length ++ cs.drop piece.length := by rw [hd,ht]
      _ = cs := List.take_append_drop _ _

theorem Cut.exists_cons {others : List (List Char)}
    (h : Cut accept whole (seg :: segs) cs others rest) : ∃ piece pieces, others = piece :: pieces := by
  obtain ⟨piece, pieces, -, -, rfl⟩ := List.forall₂_cons_left_iff.1 h.fits
  exact ⟨piece, pieces, rfl⟩

/-- The answer of the matcher is right: nothing where there is no cut, or else the captures of a cut that
no other one exceeds, with what is left after it. -/
def Answers (accept : CaptureClass) (whole : Bool) (segs : List Segment) (cs : List Char) :
    Option (List (List Char) × List Char) → Prop
  | none => ∀ pieces rest, ¬Cut accept whole segs cs pieces rest
  | some (captures, rest) => ∃ pieces, Cut accept whole segs cs pieces rest ∧
    captures = captured segs pieces ∧
      ∀ others rest', Cut accept whole segs cs others rest' → ¬Exceeded pieces others

/-- The answer is right as far as cuts with a first piece of length `k` go. -/
def AnswersAt (accept : CaptureClass) (whole : Bool) (seg : Segment) (segs : List Segment)
    (cs : List Char) (k : Nat) : Option (List (List Char) × List Char) → Prop
  | none => ∀ piece pieces rest, Cut accept whole (seg :: segs) cs (piece :: pieces) rest →
    piece.length ≠ k
  | some (captures, rest) => ∃ piece pieces, piece.length = k ∧
    Cut accept whole (seg :: segs) cs (piece :: pieces) rest ∧
      captures = captured (seg :: segs) (piece :: pieces) ∧
      ∀ piece' others rest', Cut accept whole (seg :: segs) cs (piece' :: others) rest' →
        piece'.length = k → ¬Exceeded (piece :: pieces) (piece' :: others)

/-- Puts a piece in front of the captures if its segment is one. -/
def addPiece (seg : Segment) (piece : List Char) (r : List (List Char) × List Char) :
    List (List Char) × List Char :=
  if seg.isCapture then (piece :: r.1, r.2) else r

theorem addPiece_captured (seg : Segment) (piece rest : List Char) :
    addPiece seg piece (captured segs pieces, rest) =
      (captured (seg :: segs) (piece :: pieces), rest) := by
  cases h : seg.isCapture <;> simp [addPiece,captured,h]

theorem map_addPiece (h : seg.isCapture = false) (o : Option (List (List Char) × List Char)) :
    o.map (addPiece seg piece) = o := by
  cases o <;> simp [addPiece,h]

theorem answersAt_of_answers (seg : Segment) {k : Nat} {o : Option (List (List Char) × List Char)}
    (hk : k ≤ cs.length) (hfit : seg.Fits accept (cs.take k))
    (h : Answers accept whole segs (cs.drop k) o) :
    AnswersAt accept whole seg segs cs k (o.map (addPiece seg (cs.take k))) := by
  have hlen : (cs.take k).length = k := List.length_take_of_le hk
  cases o with
  | none =>
    rintro piece pieces rest hc rfl
    exact h pieces rest (cut_cons_iff.1 hc).2.2
  | some r =>
    obtain ⟨captures, rest⟩ := r
    obtain ⟨pieces, hc, rfl, hbest⟩ := h
    rw [Option.map_some,addPiece_captured]
    refine ⟨cs.take k, pieces, hlen, cut_cons_iff.2 ⟨hfit, by rw [hlen], by rwa [hlen]⟩, rfl, ?_⟩
    rintro piece' others rest' hc' rfl hlex
    obtain ⟨-, hp, hothers⟩ := cut_cons_iff.1 hc'
    -- both cuts have the same first piece, so the pieces after it decide
    rw [Exceeded,List.map_cons,List.map_cons,hlen] at hlex
    cases hlex with
    | rel hlt => exact absurd hlt (Nat.lt_irrefl _)
    | cons htail => exact hbest others rest' hothers htail

theorem answersAt_none {k : Nat} (hfit : ¬seg.Fits accept (cs.take k)) :
    AnswersAt accept whole seg segs cs k none := by
  rintro piece pieces rest hc rfl
  obtain ⟨hp, ht, -⟩ := cut_cons_iff.1 hc
  exact hfit (ht.symm ▸ hp)

/-- A segment whose pieces have one length only. -/
theorem answers_of_answersAt {k : Nat} {o : Option (List (List Char) × List Char)}
    (hlen : ∀ piece, seg.Fits accept piece → piece.length = k)
    (h : AnswersAt accept whole seg segs cs k o) : Answers accept whole (seg :: segs) cs o := by
  cases o with
  | none =>
    intro pieces rest hc
    obtain ⟨piece, pieces, rfl⟩ := hc.exists_cons
    exact h piece pieces rest hc (hlen piece (cut_cons_iff.1 hc).1)
  | some r =>
    obtain ⟨piece, pieces, -, hc, hcap, hbest⟩ := h
    refine ⟨piece :: pieces, hc, hcap, fun others rest' hc' => ?_⟩
    obtain ⟨piece', others, rfl⟩ := hc'.exists_cons
    exact hbest piece' others rest' hc' (hlen piece' (cut_cons_iff.1 hc').1)

theorem findSome?_reverse_range {β : Type} {f : Nat → Option β} {n : Nat} {b : β}
    (h : (List.range n).reverse.findSome? f = some b) :
    ∃ k < n, f k = some b ∧ ∀ j, k < j → j < n → f j = none := by
  induction n with
  | zero => cases h
  | succ n ih =>
    rw [List.range_succ,List.reverse_append,List.reverse_singleton,List.singleton_append,
      List.findSome?_cons] at h
    cases hn : f n with
    | some c =>
      obtain rfl : c = b := by simpa [hn] using h
      exact ⟨n, Nat.lt_succ_self n, hn, fun j hj hj' => absurd hj (by omega)⟩
    | none =>
      obtain ⟨k, hk, hb, hlater⟩ := ih (by simpa [hn] using h)
      refine ⟨k, by omega, hb, fun j hj hj' => ?_⟩
      by_cases hjn : j = n
      · exact hjn ▸ hn
      · exact hlater j hj (by omega)

/-- Trying the lengths of the first piece from the greatest down. -/
theorem answers_of_run {f : Nat → Option (List (List Char) × List Char)} {run : Nat}
    (hf : ∀ k ≤ run, AnswersAt accept whole seg segs cs k (f k))
    (hrun : ∀ piece pieces rest, Cut accept whole (seg :: segs) cs (piece :: pieces) rest →
      piece.length ≤ run) :
    Answers accept whole (seg :: segs) cs ((List.range (run + 1)).reverse.findSome? f) := by
  cases ho : (List.range (run + 1)).reverse.findSome? f with
  | none =>
    intro pieces rest hc
    obtain ⟨piece, pieces, rfl⟩ := hc.exists_cons
    have hlen := hrun piece pieces rest hc
    have hnone : f piece.length = none := by
      refine List.findSome?_eq_none_iff.1 ho _ ?_
      simpa using Nat.lt_succ_of_le hlen
    have hat := hf piece.length hlen
    rw [hnone] at hat
    exact hat piece pieces rest hc rfl
  | some r =>
    obtain ⟨k, hk, hr, hlonger⟩ := findSome?_reverse_range ho
    have hat := hf k (Nat.le_of_lt_succ hk)
    rw [hr] at hat
    obtain ⟨piece, pieces, hpk, hc, hcap, hbest⟩ := hat
    refine ⟨piece :: pieces, hc, hcap, fun others rest' hc' hlex => ?_⟩
    obtain ⟨piece', others, rfl⟩ := hc'.exists_cons
    have hlen := hrun piece' others rest' hc'
    rcases Nat.lt_trichotomy piece'.length k with hlt | heq | hgt
    · rw [Exceeded,List.map_cons,List.map_cons,hpk] at hlex
      cases hlex with
      | rel h => omega
      | cons h => omega
    · exact hbest piece' others rest' hc' heq hlex
    · have hnone := hlonger piece'.length hgt (Nat.lt_succ_of_le hlen)
      have hat := hf piece'.length hlen
      rw [hnone] at hat
      exact hat piece' others rest' hc' rfl

/-- The first piece of a cut, if all its characters satisfy `q`, lies in the first run of such
characters. -/
theorem Cut.length_le_run {q : Char → Bool} (h : Cut accept whole (seg :: segs) cs (piece :: pieces) rest)
    (hq : ∀ c ∈ piece, q c = true) : piece.length ≤ (cs.takeWhile q).length := by
  obtain ⟨-, rfl, -⟩ := h
  simp [List.append_assoc,List.takeWhile_append_of_pos hq]

theorem forall_take_run {q : Char → Bool} {k : Nat} (hk : k ≤ (cs.takeWhile q).length) :
    ∀ c ∈ cs.take k, q c = true := by
  intro c hc
  have hinit : cs.take k <+: cs.takeWhile q :=
    List.prefix_of_prefix_length_le (List.take_prefix k cs) (List.takeWhile_prefix q)
      (by rw [List.length_take]; omega)
  exact List.all_eq_true.1 List.all_takeWhile c (hinit.mem hc)

/-- Captures are tried from the length one on; of length zero there is none. -/
theorem findSome?_range_succ {β : Type} {f : Nat → Option β} (h : f 0 = none) (n : Nat) :
    (List.range (n + 1)).reverse.findSome? f =
      (List.range n).reverse.findSome? fun k => f (k + 1) := by
  rw [List.range_succ_eq_map,List.reverse_cons,List.findSome?_append,← List.map_reverse,
    List.findSome?_map]
  simp [h,Function.comp_def]

/-- The matcher answers rightly. The induction is on the segments: each kind of segment tries the lengths
that its piece may have, and the lengths of the later pieces are left to the induction. -/
theorem cutFrom_answers (accept : CaptureClass) (whole : Bool) (segs : List Segment)
    (cs : List Char) : Answers accept whole segs cs (cutFrom accept whole segs cs) := by
  induction segs generalizing cs with
  | nil =>
    rw [cutFrom]
    by_cases hall : (whole && !cs.isEmpty) = true
    · rw [if_pos hall]
      rintro pieces rest ⟨hf, rfl, hr⟩
      obtain rfl := List.forall₂_nil_left_iff.1 hf
      obtain ⟨hw, hne⟩ : whole = true ∧ rest ≠ [] := by simpa using hall
      exact hne (hr hw)
    · rw [if_neg hall]
      refine ⟨[], ⟨.nil, rfl, fun hw => ?_⟩, rfl, ?_⟩
      · simpa [hw] using hall
      · rintro others rest' ⟨hf, -, -⟩ hlex
        obtain rfl := List.forall₂_nil_left_iff.1 hf
        cases hlex
  | cons seg segs ih =>
    cases seg with
    | literal text =>
      have hlen (piece : List Char) (h : (Segment.literal text).Fits accept piece) :
          piece.length = text.length := congrArg List.length h
      rw [cutFrom]
      by_cases hp : text.isPrefixOf cs = true
      · obtain ⟨tail, rfl⟩ := List.isPrefixOf_iff_prefix.1 hp
        have hat := answersAt_of_answers (.literal text) (by simp)
          (by simp [Segment.Fits]) (ih ((text ++ tail).drop text.length))
        rw [if_pos hp]
        rw [map_addPiece rfl] at hat
        exact answers_of_answersAt hlen hat
      · rw [if_neg hp]
        refine answers_of_answersAt hlen (answersAt_none fun hfit => hp ?_)
        have ht := List.take_append_drop text.length cs
        rw [show cs.take text.length = text from hfit] at ht
        exact List.isPrefixOf_iff_prefix.2 ⟨cs.drop text.length, ht⟩
    | space =>
      rw [cutFrom]
      refine answers_of_run (fun k hk => ?_) fun piece pieces rest hc => ?_
      · have hle := Nat.le_trans hk (List.takeWhile_prefix Text.isBlank).length_le
        have hat := answersAt_of_answers .space hle (forall_take_run hk) (ih (cs.drop k))
        rwa [map_addPiece rfl] at hat
      · exact hc.length_le_run (cut_cons_iff.1 hc).1
    | capture name =>
      rw [cutFrom]
      have hempty : accept.accepts [] = false := by cases accept <;> rfl
      rw [← findSome?_range_succ (f := fun k => if accept.accepts (cs.take k) then
        (cutFrom accept whole segs (cs.drop k)).map fun p => (cs.take k :: p.1, p.2) else none)
        (by simp [hempty])]
      refine answers_of_run (fun k hk => ?_) fun piece pieces rest hc => ?_
      · have hle := Nat.le_trans hk (List.takeWhile_prefix accept.admits).length_le
        have hadm := forall_take_run hk
        by_cases ha : accept.accepts (cs.take k) = true
        · rw [if_pos ha]
          exact answersAt_of_answers (.capture name) hle
            ((accept.captures_iff _).2 ⟨hadm, ha⟩) (ih (cs.drop k))
        · rw [if_neg ha]
          exact answersAt_none fun hfit => ha ((accept.captures_iff _).1 hfit).2
      · exact hc.length_le_run ((accept.captures_iff _).1 (cut_cons_iff.1 hc).1).1

end Pattern

end LineScript
