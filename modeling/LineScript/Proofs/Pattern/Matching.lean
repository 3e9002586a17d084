import LineScript.Proofs.Pattern.Solid
set_option autoImplicit false

/-!
Matching with compiled patterns. A text matches if and only if it can be cut along the segments, the
captures are those of the greatest cut, a search finds the leftmost text that can be cut, and the bytes
from `start` to `stop` are those of the matched text.
-/

namespace LineScript

theorem Text.byteSize_eq (cs : List Char) : Text.byteSize cs = (String.ofList cs).utf8ByteSize := by
  induction cs with
  | nil => rfl
  | cons c cs ih =>
    rw [Text.byteSize_cons,ih,← List.singleton_append,String.ofList_append,
      String.utf8ByteSize_append,← String.singleton_eq_ofList,String.utf8ByteSize_singleton]

/-- The text without blanks around it is a stretch of the text. -/
theorem Text.eq_append_trim (cs : List Char) :
    cs = cs.takeWhile Text.isBlank ++ Text.trim cs ++
      cs.drop ((cs.takeWhile Text.isBlank).length + (Text.trim cs).length) := by
  obtain ⟨t, ht⟩ := Text.trimEnd_prefix (Text.trimStart cs)
  have hcs : cs = cs.takeWhile Text.isBlank ++ (Text.trim cs ++ t) := by
    rw [show Text.trim cs ++ t = cs.dropWhile Text.isBlank from ht,List.takeWhile_append_dropWhile]
  have hdrop (a b : List Char) : (a ++ (b ++ t)).drop (a.length + b.length) = t := by
    rw [← List.append_assoc,← List.length_append,List.drop_left]
  have hrest := hdrop (cs.takeWhile Text.isBlank) (Text.trim cs)
  rw [← hcs] at hrest
  rw [hrest,List.append_assoc]
  exact hcs

namespace Pattern

/-- The text is cut into consecutive pieces, one for each segment of the pattern. -/
def Cuts (p : Pattern) (text : List Char) (pieces : List (List Char)) : Prop :=
  List.Forall₂ (Segment.Fits p.accept) p.segments pieces ∧ pieces.flatten = text

/-- The pieces of the captures under their names, in the order of the segments. -/
def capturesOf (p : Pattern) (pieces : List (List Char)) : List (String × String) :=
  (p.segments.zip pieces).filterMap fun e =>
    e.1.captureName?.map fun name => (name, String.ofList e.2)

/-- Where the match is: its range of bytes begins and ends between characters of the input and holds the
matched text. -/
structure Match.Locates (m : Match) (input : String) : Prop where
  text : input.toList = m.before ++ m.text ++ m.after
  start : String.Pos.Raw.IsValid input ⟨m.start⟩
  stop : String.Pos.Raw.IsValid input ⟨m.stop⟩
  bytes : input.toByteArray.extract m.start m.stop = (String.ofList m.text).toByteArray

theorem Match.locates_of_text {m : Match} {input : String}
    (h : input.toList = m.before ++ m.text ++ m.after) : m.Locates input := by
  have hinput : input =
      String.ofList m.before ++ (String.ofList m.text ++ String.ofList m.after) := by
    rw [← String.ofList_append,← String.ofList_append,← List.append_assoc,← h,String.ofList_toList]
  have hstart : m.start = (String.ofList m.before).utf8ByteSize := Text.byteSize_eq m.before
  have hstop : m.stop = (String.ofList m.before ++ String.ofList m.text).utf8ByteSize := by
    rw [Match.stop,Text.byteSize_eq,Text.byteSize_eq,String.utf8ByteSize_append]
  refine ⟨h, ?_, ?_, ?_⟩
  · rw [String.Pos.Raw.isValid_iff_exists_append]
    exact ⟨_, _, hinput, by rw [hstart]; rfl⟩
  · rw [String.Pos.Raw.isValid_iff_exists_append]
    exact ⟨_, _, hinput.trans String.append_assoc.symm, by rw [hstop]; rfl⟩
  · rw [hinput,hstart,hstop,String.toByteArray_append,String.toByteArray_append,
      String.utf8ByteSize_append,← String.size_toByteArray,← String.size_toByteArray]
    have hskip := ByteArray.extract_append_size_add (a := (String.ofList m.before).toByteArray)
      (b := (String.ofList m.text).toByteArray ++ (String.ofList m.after).toByteArray) (i := 0)
      (j := (String.ofList m.text).toByteArray.size)
    rw [Nat.add_zero] at hskip
    rw [hskip,ByteArray.extract_append_eq_left rfl]

theorem zip_captured {segs : List Segment} {pieces : List (List Char)}
    (h : segs.length = pieces.length) :
    (segs.filterMap Segment.captureName?).zip ((captured segs pieces).map String.ofList) =
      (segs.zip pieces).filterMap fun e =>
        e.1.captureName?.map fun name => (name, String.ofList e.2) := by
  induction segs generalizing pieces with
  | nil => rfl
  | cons seg segs ih =>
    cases pieces with
    | nil => cases h
    | cons piece pieces =>
      have ih := ih (Nat.succ.inj h)
      unfold captured at ih ⊢
      cases seg with
      | literal text => simpa [List.filterMap_cons,Segment.captureName?,Segment.isCapture] using ih
      | space => simpa [List.filterMap_cons,Segment.captureName?,Segment.isCapture] using ih
      | capture name => simpa [List.filterMap_cons,Segment.captureName?,Segment.isCapture] using ih

variable {p : Pattern}

theorem named_captured {pieces : List (List Char)}
    (h : List.Forall₂ (Segment.Fits p.accept) p.segments pieces) :
    p.named (captured p.segments pieces) = p.capturesOf pieces := zip_captured h.length_eq

theorem Cuts.cut {text rest : List Char} {pieces : List (List Char)} (h : p.Cuts text pieces) :
    Cut p.accept false p.segments (text ++ rest) pieces rest :=
  ⟨h.1, by rw [h.2], nofun⟩

theorem cut_whole_iff {text rest : List Char} {pieces : List (List Char)} :
    Cut p.accept true p.segments text pieces rest ↔ p.Cuts text pieces ∧ rest = [] := by
  constructor
  · rintro ⟨hf, rfl, hr⟩
    obtain rfl := hr rfl
    exact ⟨⟨hf, by simp⟩, rfl⟩
  · rintro ⟨⟨hf, rfl⟩, rfl⟩
    exact ⟨hf, by simp, fun _ => rfl⟩

theorem Cuts.ne_nil {text : List Char} {pieces : List (List Char)}
    (hs : ∃ seg ∈ p.segments, seg.Solid) (h : p.Cuts text pieces) : text ≠ [] :=
  h.2 ▸ flatten_ne_nil_of_solid hs h.1

/-- The captures are those of a cut of the matched text that none of the cuts in question exceeds. -/
def Match.Takes (m : Match) (p : Pattern) (inQuestion : List (List Char) → Prop) : Prop :=
  ∃ pieces, p.Cuts m.text pieces ∧ m.captures = p.capturesOf pieces ∧
    ∀ others, inQuestion others → ¬Exceeded pieces others

/-- The pieces are a cut of the front of the text. -/
def CutsFront (p : Pattern) (cs : List Char) (pieces : List (List Char)) : Prop :=
  ∃ text rest, text ++ rest = cs ∧ p.Cuts text pieces

/-- The answer of the search is right for what follows the characters already passed. -/
def Finds (p : Pattern) (passed cs : List Char) : Option Match → Prop
  | none => ∀ before text after, cs = before ++ text ++ after → ∀ pieces, ¬p.Cuts text pieces
  | some m => ∃ skipped, m.before = passed ++ skipped ∧ cs = skipped ++ m.text ++ m.after ∧
    m.Takes p (p.CutsFront (m.text ++ m.after)) ∧
      ∀ before text after, cs = before ++ text ++ after → ∀ pieces, p.Cuts text pieces →
        skipped.length ≤ before.length

/-- A search that finds nothing at its first character goes on behind it. -/
theorem Finds.cons {c : Char} {passed cs : List Char} {o : Option Match}
    (hnot : ∀ pieces, ¬p.CutsFront (c :: cs) pieces) (h : p.Finds (passed ++ [c]) cs o) :
    p.Finds passed (c :: cs) o := by
  cases o with
  | none =>
    intro before text after heq pieces hc
    cases before with
    | nil => exact hnot pieces ⟨text, after, heq.symm, hc⟩
    | cons b before =>
      obtain ⟨rfl, rfl⟩ := List.cons.inj heq
      exact h before text after rfl pieces hc
  | some m =>
    obtain ⟨skipped, hb, hcs, ht, hleft⟩ := h
    refine ⟨c :: skipped, by simp [hb], by simp [hcs], ht, fun before text after heq pieces hc => ?_⟩
    cases before with
    | nil => exact absurd ⟨text, after, heq.symm, hc⟩ (hnot pieces)
    | cons b before =>
      obtain ⟨rfl, hrest⟩ := List.cons.inj heq
      exact Nat.succ_le_succ (hleft before text after hrest pieces hc)

theorem findFrom_finds (hs : ∃ seg ∈ p.segments, seg.Solid) (passed cs : List Char) :
    p.Finds passed.reverse cs (p.findFrom passed cs) := by
  induction cs generalizing passed with
  | nil =>
    intro before text after heq pieces hc
    have ht : text = [] := by simp_all
    exact hc.ne_nil hs ht
  | cons c cs ih =>
    have hanswer := cutFrom_answers p.accept false p.segments (c :: cs)
    unfold findFrom
    cases ho : cutFrom p.accept false p.segments (c :: cs) with
    | none =>
      rw [ho] at hanswer
      refine Finds.cons ?_ (by simpa using ih (c :: passed))
      rintro pieces ⟨text, rest, heq, hc⟩
      exact hanswer pieces rest (heq ▸ hc.cut)
    | some r =>
      obtain ⟨captures, rest⟩ := r
      rw [ho] at hanswer
      obtain ⟨pieces, ⟨hf, heq, -⟩, rfl, hbest⟩ := hanswer
      have hne := flatten_ne_nil_of_solid hs hf
      have hlen : pieces.flatten.length + rest.length = (c :: cs).length := by
        rw [← List.length_append,heq]
      have hpos := List.length_pos_iff.2 hne
      have htake : (c :: cs).take ((c :: cs).length - rest.length) = pieces.flatten := by
        rw [← hlen,Nat.add_sub_cancel,← heq,List.take_left]
      dsimp only
      rw [if_pos (by omega),htake]
      refine ⟨[], by simp, heq.symm, ⟨pieces, ⟨hf, rfl⟩, named_captured hf, ?_⟩, by simp⟩
      rintro others ⟨text, rest', heq', hc⟩
      refine hbest others rest' ?_
      rw [← heq,← heq']
      exact hc.cut

theorem matchWhole_eq (p : Pattern) (input : String) :
    p.matchWhole input = (cutFrom p.accept true p.segments (Text.trim input.toList)).map fun r =>
      ⟨input.toList.takeWhile Text.isBlank, Text.trim input.toList,
        input.toList.drop ((input.toList.takeWhile Text.isBlank).length +
          (Text.trim input.toList).length), p.named r.1⟩ := rfl

theorem matching_greedy (source : String) (accept : CaptureClass) (line : Nat) (p : Pattern)
    (hp : compile source accept line = .ok p) (input : String) :
    p.accept = accept ∧
    ((p.matchWhole input).isSome ↔ ∃ pieces, p.Cuts (Text.trim input.toList) pieces) ∧
    (∀ m, p.matchWhole input = some m → m.Locates input ∧ m.text = Text.trim input.toList ∧
      m.Takes p (p.Cuts m.text)) ∧
    (p.find input = none ↔ ∀ before text after, input.toList = before ++ text ++ after →
      ∀ pieces, ¬p.Cuts text pieces) ∧
    ∀ m, p.find input = some m → m.Locates input ∧ m.text ≠ [] ∧
      m.Takes p (p.CutsFront (m.text ++ m.after)) ∧
      ∀ before text after, input.toList = before ++ text ++ after → ∀ pieces, p.Cuts text pieces →
        m.before.length ≤ before.length := by
  obtain ⟨haccept, hsolid⟩ := solid_of_compile hp
  have hwhole := cutFrom_answers p.accept true p.segments (Text.trim input.toList)
  have hfind := findFrom_finds hsolid [] input.toList
  refine ⟨haccept, ?_, ?_, ?_, ?_⟩
  · rw [matchWhole_eq]
    cases ho : cutFrom p.accept true p.segments (Text.trim input.toList) with
    | none =>
      rw [ho] at hwhole
      refine ⟨nofun, fun ⟨pieces, hc⟩ => ?_⟩
      exact absurd (cut_whole_iff.2 ⟨hc, rfl⟩) (hwhole pieces [])
    | some r =>
      rw [ho] at hwhole
      obtain ⟨pieces, hc, -⟩ := hwhole
      exact ⟨fun _ => ⟨pieces, (cut_whole_iff.1 hc).1⟩, fun _ => rfl⟩
  · intro m hm
    rw [matchWhole_eq] at hm
    obtain ⟨⟨captures, rest⟩, ho, rfl⟩ := Option.map_eq_some_iff.1 hm
    rw [ho] at hwhole
    obtain ⟨pieces, hc, rfl, hbest⟩ := hwhole
    obtain ⟨hcuts, -⟩ := cut_whole_iff.1 hc
    refine ⟨Match.locates_of_text (Text.eq_append_trim _), rfl, pieces, hcuts,
      named_captured hcuts.1, fun others hothers => ?_⟩
    exact hbest others [] (cut_whole_iff.2 ⟨hothers, rfl⟩)
  · constructor
    · intro hnone
      rw [find] at hnone
      rwa [hnone] at hfind
    · intro hnone
      cases ho : p.findFrom [] input.toList with
      | none => exact ho
      | some m =>
        rw [ho] at hfind
        obtain ⟨skipped, -, htext, ⟨pieces, hc, -⟩, -⟩ := hfind
        exact absurd hc (hnone skipped m.text m.after htext pieces)
  · intro m hm
    rw [find] at hm
    rw [hm] at hfind
    obtain ⟨skipped, hb, htext, htakes, hleft⟩ := hfind
    obtain rfl : m.before = skipped := hb
    obtain ⟨pieces, hc, -⟩ := id htakes
    exact ⟨Match.locates_of_text htext, hc.ne_nil hsolid, htakes, hleft⟩

/-- A capture gives up its last colon with the word behind it, since two colons are no word. -/
theorem matching_greedy_colons :
    ∃ p m, compile "\x7bx\x7d:\x7by\x7d" .word 1 = .ok p ∧ p.find "→ é:ü:z" = some m ∧
      m.captures = [("x", "é:ü"), ("y", "z")] ∧ m.start = 4 ∧ m.stop = 11 ∧
      m.Locates "→ é:ü:z" ∧ m.Takes p (p.CutsFront (m.text ++ m.after)) := by
  have hrun : ((compile "\x7bx\x7d:\x7by\x7d" .word 1).toOption.bind fun p =>
      (p.find "→ é:ü:z").map fun m => (m.captures, m.start, m.stop)) =
        some ([("x", "é:ü"), ("y", "z")], 4, 11) := by decide +kernel
  obtain ⟨p, hp, hrun⟩ := Option.bind_eq_some_iff.1 hrun
  obtain ⟨m, hm, hrun⟩ := Option.map_eq_some_iff.1 hrun
  obtain ⟨hcaptures, hstart, hstop⟩ :
      m.captures = [("x", "é:ü"), ("y", "z")] ∧ m.start = 4 ∧ m.stop = 11 := by simpa using hrun
  cases hc : compile "\x7bx\x7d:\x7by\x7d" .word 1 with
  | error e => simp [hc,Except.toOption] at hp
  | ok found =>
    obtain rfl : found = p := by simpa [hc,Except.toOption] using hp
    obtain ⟨-, -, -, -, hfind⟩ := matching_greedy _ _ _ found hc "→ é:ü:z"
    obtain ⟨hlocates, -, htakes, -⟩ := hfind m hm
    exact ⟨found, m, rfl, hm, hcaptures, hstart, hstop, hlocates, htakes⟩

end Pattern

end LineScript
