import LineScript.Make
import LineScript.Proofs.Pattern.Matching
import LineScript.Proofs.Pattern.Spacing
import LineScript.Proofs.Template
set_option autoImplicit false

/-!
Templates filled again. A template that is compiled for taking and filled as a replacement with the values of a
match gives a text that can be cut along the segments of the pattern, each capture being the value of its name;
so the pattern matches it. What a template is read into loses none of it, so the filled text begins and ends
where the template does.
-/

namespace LineScript

/-- Which text stands for a segment once the captures have these values. -/
def Segment.Filled (lookup : String → Option String) : Segment → List Char → Prop
  | literal text, piece => piece = text
  | space, piece => ∀ c ∈ piece, Text.isBlank c = true
  | capture name, piece => lookup name = some (String.ofList piece)

theorem Segment.Filled.fits {accept : CaptureClass} {lookup : String → Option String} {seg : Segment}
    {piece : List Char} (hvalues : ∀ name v, lookup name = some v → accept.Captures v.toList)
    (h : seg.Filled lookup piece) : seg.Fits accept piece := by
  cases seg with
  | literal text => exact h
  | space => exact h
  | capture name => simpa [Fits] using hvalues name _ h

namespace Pattern

open Template

variable {done segs : List Segment} {literal : List Char} {pieces : List Piece}
  {lookup : String → Option String} {texts : List (List Char)}

theorem mem_flush {seg : Segment} (h : seg ∈ done) : seg ∈ flush done literal := by
  unfold flush
  split
  · exact h
  · exact List.mem_cons_of_mem _ h

/-- No segment is given up, every hole becomes a capture, and every hole is closed. -/
theorem kept_of_segmentsFrom (h : segmentsFrom done literal pieces = .ok segs) :
    (∀ seg ∈ done, seg ∈ segs) ∧
      (∀ name, .hole name ∈ pieces → .capture (String.ofList (Text.trim name)) ∈ segs) ∧
      ∀ name, .unclosed name ∉ pieces := by
  induction pieces generalizing done literal with
  | nil =>
    obtain rfl := Except.ok.inj h
    exact ⟨fun seg hseg => List.mem_reverse.2 (mem_flush hseg), by simp, by simp⟩
  | cons piece pieces ih =>
    cases piece with
    | plain c =>
      rw [segmentsFrom] at h
      split at h
      · obtain ⟨hdone, hholes, hclosed⟩ := ih h
        refine ⟨fun seg hseg => hdone seg ?_, by simpa using hholes, by simpa using hclosed⟩
        split
        · exact mem_flush hseg
        · exact List.mem_cons_of_mem _ (mem_flush hseg)
      · simpa using ih h
    | escaped c =>
      rw [segmentsFrom] at h
      simpa using ih h
    | hole name =>
      rw [segmentsFrom] at h
      split at h
      · cases h
      · split at h
        · cases h
        · obtain ⟨hdone, hholes, hclosed⟩ := ih h
          refine ⟨fun seg hseg => hdone seg (List.mem_cons_of_mem _ (mem_flush hseg)), ?_,
            by simpa using hclosed⟩
          intro other hother
          rcases List.mem_cons.1 hother with heq | hother
          · obtain rfl := Piece.hole.inj heq
            exact hdone _ List.mem_cons_self
          · exact hholes other hother
    | unclosed name => cases h

theorem filled_flush (h : List.Forall₂ (Segment.Filled lookup) done texts) (literal : List Char) :
    ∃ more, List.Forall₂ (Segment.Filled lookup) (flush done literal) more ∧
      more.reverse.flatten = texts.reverse.flatten ++ literal.reverse := by
  unfold flush
  split
  · next hl =>
    refine ⟨texts, h, ?_⟩
    simp [List.isEmpty_iff.1 hl]
  · exact ⟨literal.reverse :: texts, .cons rfl h, by simp⟩

/-- A blank goes to the run of blanks before it, or begins one. -/
theorem filled_blank (h : List.Forall₂ (Segment.Filled lookup) done texts) {c : Char}
    (hc : Text.isBlank c = true) :
    ∃ more, List.Forall₂ (Segment.Filled lookup)
        (if done.head? = some .space then done else .space :: done) more ∧
      more.reverse.flatten = texts.reverse.flatten ++ [c] := by
  have hrun : ∀ b ∈ [c], Text.isBlank b = true := List.forall_mem_singleton.2 hc
  split
  · next hspace =>
    obtain ⟨tail, rfl⟩ := List.head?_eq_some_iff.1 hspace
    cases h with
    | @cons _ run _ texts hblank h =>
      refine ⟨(run ++ [c]) :: texts, .cons ?_ h, by simp⟩
      exact List.forall_mem_append.2 ⟨hblank, hrun⟩
  · exact ⟨[c] :: texts, .cons hrun h, by simp⟩

/-- Filling the pieces that are left gives a text for every segment. What is done and the literal begun are
filled already, last one first. -/
theorem filled_of_segmentsFrom (h : segmentsFrom done literal pieces = .ok segs)
    (hvalues : ∀ name, .capture name ∈ segs → ∃ v, lookup name = some v)
    (hdone : List.Forall₂ (Segment.Filled lookup) done texts) :
    ∃ more, List.Forall₂ (Segment.Filled lookup) segs more ∧
      more.flatten =
        texts.reverse.flatten ++ literal.reverse ++ pieces.flatMap (Make.fillPiece lookup) := by
  induction pieces generalizing done literal texts with
  | nil =>
    obtain rfl := Except.ok.inj h
    obtain ⟨more, hmore, htext⟩ := filled_flush hdone literal
    exact ⟨more.reverse, List.rel_reverse hmore, by simpa using htext⟩
  | cons piece pieces ih =>
    obtain ⟨more, hmore, htext⟩ := filled_flush hdone literal
    cases piece with
    | plain c =>
      rw [segmentsFrom] at h
      split at h
      · next hc =>
        obtain ⟨run, hrun, hblank⟩ := filled_blank hmore hc
        obtain ⟨all, hall, hflat⟩ := ih h hrun
        refine ⟨all, hall, ?_⟩
        rw [hflat,hblank,htext]
        simp [Make.fillPiece]
      · obtain ⟨all, hall, hflat⟩ := ih h hdone
        exact ⟨all, hall, by simp [hflat,Make.fillPiece]⟩
    | escaped c =>
      rw [segmentsFrom] at h
      obtain ⟨all, hall, hflat⟩ := ih h hdone
      exact ⟨all, hall, by simp [hflat,Make.fillPiece]⟩
    | hole name =>
      obtain ⟨-, hholes, -⟩ := kept_of_segmentsFrom h
      obtain ⟨v, hv⟩ := hvalues _ (hholes name List.mem_cons_self)
      have hcapture : (Segment.capture (String.ofList (Text.trim name))).Filled lookup v.toList := by
        simpa [Segment.Filled] using hv
      rw [segmentsFrom] at h
      split at h
      · cases h
      · split at h
        · cases h
        · obtain ⟨all, hall, hflat⟩ := ih h (.cons hcapture hmore)
          refine ⟨all, hall, ?_⟩
          rw [hflat,List.reverse_cons,List.flatten_append,htext]
          simp [Make.fillPiece,hv]
    | unclosed name => cases h

/-- A name of the pattern has a value in every cut, and every value is one that a capture may hold. -/
theorem lookup_capturesOf {p : Pattern} {cut : List (List Char)}
    (h : List.Forall₂ (Segment.Fits p.accept) p.segments cut) :
    (∀ name, .capture name ∈ p.segments → ∃ v, (p.capturesOf cut).lookup name = some v) ∧
      ∀ name v, (p.capturesOf cut).lookup name = some v → p.accept.Captures v.toList := by
  obtain ⟨hlen, hzip⟩ := List.forall₂_iff_zip.1 h
  constructor
  · intro name hname
    rw [← List.map_fst_zip hlen.le] at hname
    obtain ⟨⟨seg, piece⟩, hmem, rfl⟩ := List.mem_map.1 hname
    cases hl : (p.capturesOf cut).lookup name with
    | some v => exact ⟨v, rfl⟩
    | none =>
      have hentry : (name, String.ofList piece) ∈ p.capturesOf cut :=
        List.mem_filterMap.2 ⟨_, hmem, rfl⟩
      simpa using List.lookup_eq_none_iff.1 hl _ hentry
  · intro name v hv
    obtain ⟨before, after, heq, -⟩ := List.lookup_eq_some_iff.1 hv
    have hentry : (name, v) ∈ p.capturesOf cut := by rw [heq]; simp
    obtain ⟨⟨seg, piece⟩, hmem, hseg⟩ := List.mem_filterMap.1 hentry
    cases seg with
    | literal text => cases hseg
    | space => cases hseg
    | capture other =>
      obtain ⟨-, rfl⟩ : other = name ∧ String.ofList piece = v := by
        simpa [Segment.captureName?] using hseg
      simpa [Segment.Fits] using hzip hmem

/-- The captures of a match are those of a cut, whether the whole text was matched or a part found. -/
theorem cuts_of_match {p : Pattern} (hsolid : ∃ seg ∈ p.segments, seg.Solid) {input : String} {m : Match}
    (hm : p.matchWhole input = some m ∨ p.find input = some m) :
    ∃ cut, p.Cuts m.text cut ∧ m.captures = p.capturesOf cut := by
  rcases hm with hm | hm
  · rw [matchWhole_eq] at hm
    obtain ⟨⟨captures, rest⟩, ho, rfl⟩ := Option.map_eq_some_iff.1 hm
    have hanswer := cutFrom_answers p.accept true p.segments (Text.trim input.toList)
    rw [ho] at hanswer
    obtain ⟨cut, hcut, rfl, -⟩ := hanswer
    obtain ⟨hcuts, -⟩ := cut_whole_iff.1 hcut
    exact ⟨cut, hcuts, named_captured hcuts.1⟩
  · have hfinds := findFrom_finds hsolid [] input.toList
    rw [show p.findFrom [] input.toList = some m from hm] at hfinds
    obtain ⟨-, -, -, ⟨cut, hcuts, hcaptures, -⟩, -⟩ := hfinds
    exact ⟨cut, hcuts, hcaptures⟩

theorem matchWhole_of_cuts {p : Pattern} {text : List Char} {cut : List (List Char)}
    (htrim : Text.trim text = text) (h : p.Cuts text cut) :
    ∃ m, p.matchWhole (String.ofList text) = some m ∧ m.text = text := by
  have hanswer := cutFrom_answers p.accept true p.segments text
  rw [matchWhole_eq,String.toList_ofList,htrim]
  cases ho : cutFrom p.accept true p.segments text with
  | none =>
    rw [ho] at hanswer
    exact absurd (cut_whole_iff.2 ⟨h, rfl⟩) (hanswer cut [])
  | some r => exact ⟨_, rfl, rfl⟩

theorem segments_of_compile {source : String} {accept : CaptureClass} {line : Nat} {p : Pattern}
    (h : compile source accept line = .ok p) :
    segmentsFrom [] [] (Template.read (Text.trim source.toList)) = .ok p.segments := by
  obtain ⟨-, -, -, hsegs⟩ := compile_eq_ok_iff.1 h
  exact hsegs

end Pattern

namespace Make

open Template

variable {lookup : String → Option String} {pieces : List Piece}

/-- The filled piece is not empty, and a blank in it is a blank of the template. -/
def Firm (lookup : String → Option String) (piece : Piece) : Prop :=
  fillPiece lookup piece ≠ [] ∧
    ∀ c ∈ fillPiece lookup piece, Text.isBlank c = true → piece = .plain c

theorem head?_fill (hfirm : ∀ piece ∈ pieces, Firm lookup piece) {c : Char}
    (hc : Text.isBlank c = true) (h : (pieces.flatMap (fillPiece lookup)).head? = some c) :
    (pieces.flatMap Piece.source).head? = some c := by
  cases pieces with
  | nil => cases h
  | cons piece pieces =>
    obtain ⟨hne, hblank⟩ := hfirm piece List.mem_cons_self
    rw [List.flatMap_cons,List.head?_append_of_ne_nil _ hne] at h
    simp [hblank c (List.mem_of_head? h) hc,Piece.source]

theorem getLast?_fill (hfirm : ∀ piece ∈ pieces, Firm lookup piece) {c : Char}
    (hc : Text.isBlank c = true) (h : (pieces.flatMap (fillPiece lookup)).getLast? = some c) :
    (pieces.flatMap Piece.source).getLast? = some c := by
  rcases List.eq_nil_or_concat pieces with rfl | ⟨before, piece, rfl⟩
  · cases h
  · obtain ⟨hne, hblank⟩ := hfirm piece (by simp)
    rw [List.concat_eq_append,List.flatMap_append,List.flatMap_singleton,
      List.getLast?_append_of_ne_nil _ hne] at h
    simp [hblank c (List.mem_of_getLast? h) hc,Piece.source]

/-- A template without blanks around it keeps none when it is filled. -/
theorem trim_substitute {cs : List Char}
    (hfirm : ∀ piece ∈ Template.read (Text.trim cs), Firm lookup piece) :
    Text.trim (substitute (Text.trim cs) lookup) = substitute (Text.trim cs) lookup := by
  refine Text.trim_eq_self (fun c h => ?_) fun c h => ?_
  · by_contra hc
    have hhead := head?_fill hfirm (by simpa using hc) h
    rw [source_read] at hhead
    exact hc (Text.head?_trim hhead)
  · by_contra hc
    have hlast := getLast?_fill hfirm (by simpa using hc) h
    rw [source_read] at hlast
    exact hc (Text.getLast?_trim hlast)

/-- Where the holes have values that captures may hold, every piece of a compiled template is firm. -/
theorem firm_of_segmentsFrom {accept : CaptureClass} {cs : List Char} {segs : List Segment}
    (h : Pattern.segmentsFrom [] [] (Template.read cs) = .ok segs)
    (hvalues : ∀ name, .capture name ∈ segs → ∃ v, lookup name = some v)
    (hcaptures : ∀ name v, lookup name = some v → accept.Captures v.toList) :
    ∀ piece ∈ Template.read cs, Firm lookup piece := by
  obtain ⟨-, hholes, hclosed⟩ := Pattern.kept_of_segmentsFrom h
  intro piece hpiece
  cases piece with
  | plain c => simp [Firm,fillPiece]
  | escaped c => simp [Firm,fillPiece,not_isBlank_of_escaped hpiece]
  | hole name =>
    obtain ⟨v, hv⟩ := hvalues _ (hholes name hpiece)
    have hcap := hcaptures _ v hv
    have hsolid : (Segment.capture (String.ofList (Text.trim name))).Solid := trivial
    obtain ⟨hadmits, -⟩ := (accept.captures_iff _).1 hcap
    simp only [Firm,fillPiece,hv]
    refine ⟨hsolid.ne_nil hcap, fun c hc hblank => ?_⟩
    have hno := Pattern.CaptureClass.not_admits_blank accept hblank
    simp [hadmits c hc] at hno
  | unclosed name => exact absurd hpiece (hclosed name)

/-- The pattern of a template matches the template filled with the values of any match. Along its segments
the filled text is cut so that each capture is the value of its name, also where a name is repeated. -/
theorem filled_template_matches (source : String) (accept : CaptureClass) (line : Nat) (p : Pattern)
    (hp : Pattern.compile source accept line = .ok p) (input : String) (m : Pattern.Match)
    (hm : p.matchWhole input = some m ∨ p.find input = some m) :
    let filled := substitute (Text.trim source.toList) m.get?
    (∃ again, p.matchWhole (String.ofList filled) = some again ∧ again.text = filled) ∧
      ∃ cut, p.Cuts filled cut ∧ List.Forall₂ (Segment.Filled m.get?) p.segments cut := by
  obtain ⟨-, hsolid⟩ := Pattern.solid_of_compile hp
  have hsegs := Pattern.segments_of_compile hp
  obtain ⟨taken, ⟨htaken, -⟩, hm⟩ := Pattern.cuts_of_match hsolid hm
  have hget : m.get? = fun name => (p.capturesOf taken).lookup name := by
    funext name
    rw [Pattern.Match.get?,hm]
  obtain ⟨hvalues, hcaptures⟩ := Pattern.lookup_capturesOf htaken
  rw [hget]
  obtain ⟨cut, hfilled, hflat⟩ := Pattern.filled_of_segmentsFrom hsegs hvalues .nil
  have hcuts : p.Cuts (substitute (Text.trim source.toList) _) cut :=
    ⟨hfilled.imp fun _ _ h => h.fits hcaptures, hflat⟩
  have htrim := trim_substitute (firm_of_segmentsFrom hsegs hvalues hcaptures)
  exact ⟨Pattern.matchWhole_of_cuts htrim hcuts, cut, hcuts, hfilled⟩

/-- The two captures of `x` differ where the pattern is found, and both are filled with the first; the escaped
braces and the stray backslash are read alike in both directions. -/
theorem filled_template_matches_repeated :
    ∃ p m, Pattern.compile " \\\x7b\x7bx\x7d\\\x7d \\ \x7bx\x7d \x7b y\x7d" .nonBlank 1 = .ok p ∧
      p.find "so \x7ba\x7d   \\ b c!" = some m ∧
      m.captures = [("x", "a"), ("x", "b"), ("y", "c!")] ∧
      ∃ again, p.matchWhole "\x7ba\x7d \\ a c!" = some again ∧
        again.text = "\x7ba\x7d \\ a c!".toList := by
  have hrun : ((Pattern.compile " \\\x7b\x7bx\x7d\\\x7d \\ \x7bx\x7d \x7b y\x7d" .nonBlank 1).toOption.bind
      fun p => (p.find "so \x7ba\x7d   \\ b c!").map fun m => m.captures) =
        some [("x", "a"), ("x", "b"), ("y", "c!")] := by decide +kernel
  obtain ⟨p, hp, hrun⟩ := Option.bind_eq_some_iff.1 hrun
  obtain ⟨m, hm, hcaptures⟩ := Option.map_eq_some_iff.1 hrun
  cases hc : Pattern.compile " \\\x7b\x7bx\x7d\\\x7d \\ \x7bx\x7d \x7b y\x7d" .nonBlank 1 with
  | error e => simp [hc,Except.toOption] at hp
  | ok found =>
    obtain rfl : found = p := by simpa [hc,Except.toOption] using hp
    have hget : m.get? = fun name => [("x", "a"), ("x", "b"), ("y", "c!")].lookup name := by
      funext name
      rw [Pattern.Match.get?,hcaptures]
    have hfilled : substitute
        (Text.trim " \\\x7b\x7bx\x7d\\\x7d \\ \x7bx\x7d \x7b y\x7d".toList) m.get? =
          "\x7ba\x7d \\ a c!".toList := by
      rw [hget]
      decide +kernel
    obtain ⟨hagain, -⟩ := filled_template_matches _ _ _ found hc _ m (.inr hm)
    rw [hfilled,String.ofList_toList] at hagain
    exact ⟨found, m, rfl, hm, hcaptures, hagain⟩

end Make

end LineScript
