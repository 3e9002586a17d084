import LineScript.Proofs.Pattern.Matching
import LineScript.Proofs.Text.Words
import LineScript.Proofs.Token.Relexed
import Mathlib.Data.List.Chain
set_option autoImplicit false

/-!
Blanks and patterns. The literals and captures of a compiled pattern hold no blanks, and no two runs of
blanks follow each other in it, so a run of blanks in a text goes to one segment as a whole. What a pattern
captures therefore depends on the words of a text and not on how many blanks stand between them.
-/

namespace LineScript

namespace Text

/-- The texts differ at most in the number of blanks between their words. -/
inductive Respaced : List Char → List Char → Prop where
  | nil : Respaced [] []
  | char {c : Char} {a b : List Char} : isBlank c = false → Respaced a b → Respaced (c :: a) (c :: b)
  | gap {as bs a b : List Char} {c : Char} : as ≠ [] → bs ≠ [] → (∀ x ∈ as, isBlank x = true) →
    (∀ x ∈ bs, isBlank x = true) → isBlank c = false → Respaced a b →
    Respaced (as ++ c :: a) (bs ++ c :: b)

namespace Respaced

variable {a b : List Char}

theorem run {w : List Char} (hw : ∀ c ∈ w, isBlank c = false) (h : Respaced a b) :
    Respaced (w ++ a) (w ++ b) := by
  induction w with
  | nil => exact h
  | cons c w ih =>
    obtain ⟨hc, hw⟩ := List.forall_mem_cons.1 hw
    exact .char hc (ih hw)

theorem of_cons {c : Char} (h : Respaced (c :: a) b) (hc : isBlank c = false) :
    ∃ v, b = c :: v ∧ Respaced a v := by
  generalize hx : c :: a = x at h
  cases h with
  | nil => cases hx
  | char _ h =>
    obtain ⟨rfl, rfl⟩ := List.cons.inj hx
    exact ⟨_, rfl, h⟩
  | gap has _ hasb _ _ _ =>
    obtain ⟨y, as, rfl⟩ := List.exists_cons_of_ne_nil has
    obtain ⟨rfl, -⟩ := List.cons.inj hx
    simp [hasb c List.mem_cons_self] at hc

theorem eq_nil_iff (h : Respaced a b) : a = [] ↔ b = [] := by
  cases h with
  | nil => simp
  | char => simp
  | gap => simp

theorem isPrefixOf (h : Respaced a b) {text : List Char} (ht : ∀ c ∈ text, isBlank c = false) :
    text.isPrefixOf a = text.isPrefixOf b ∧
      (text.isPrefixOf a = true → Respaced (a.drop text.length) (b.drop text.length)) := by
  induction text generalizing a b with
  | nil => exact ⟨rfl, fun _ => h⟩
  | cons d text ih =>
    obtain ⟨hd, ht⟩ := List.forall_mem_cons.1 ht
    cases h with
    | nil => exact ⟨rfl, nofun⟩
    | @char c a b hc h =>
      obtain ⟨heq, hdrop⟩ := ih h ht
      refine ⟨by simp [List.isPrefixOf,heq], fun hp => ?_⟩
      simp only [List.isPrefixOf,Bool.and_eq_true] at hp
      exact hdrop hp.2
    | @gap as bs a b c has hbs hasb hbsb _ _ =>
      have hfalse {xs r : List Char} (hne : xs ≠ []) (hx : ∀ x ∈ xs, isBlank x = true) :
          (d :: text).isPrefixOf (xs ++ r) = false := by
        obtain ⟨x, xs, rfl⟩ := List.exists_cons_of_ne_nil hne
        have hdx : d ≠ x := by
          rintro rfl
          simp [hx d List.mem_cons_self] at hd
        simp [List.isPrefixOf,hdx]
      rw [hfalse has hasb,hfalse hbs hbsb]
      exact ⟨rfl, nofun⟩

/-- A run of characters that are not blank, from the front. -/
theorem takeWhile (h : Respaced a b) {q : Char → Bool} (hq : ∀ c, isBlank c = true → q c = false) :
    a.takeWhile q = b.takeWhile q ∧ ∀ k, k ≤ (a.takeWhile q).length →
      a.take k = b.take k ∧ Respaced (a.drop k) (b.drop k) := by
  have hgap {xs r : List Char} (hne : xs ≠ []) (hx : ∀ x ∈ xs, isBlank x = true) :
      (xs ++ r).takeWhile q = [] := by
    obtain ⟨x, xs, rfl⟩ := List.exists_cons_of_ne_nil hne
    simp [hq x (hx x List.mem_cons_self)]
  induction h with
  | nil => exact ⟨rfl, fun k _ => ⟨rfl, by simpa using .nil⟩⟩
  | @char c a b hc h ih =>
    obtain ⟨heq, hdrop⟩ := ih
    by_cases hqc : q c = true
    · refine ⟨by simp [hqc,heq], fun k hk => ?_⟩
      cases k with
      | zero => exact ⟨rfl, .char hc h⟩
      | succ k =>
        obtain ⟨htake, hrest⟩ := hdrop k (by simpa [hqc] using hk)
        exact ⟨by simp [htake], hrest⟩
    · refine ⟨by simp [hqc], fun k hk => ?_⟩
      obtain rfl : k = 0 := by simpa [hqc] using hk
      exact ⟨rfl, .char hc h⟩
  | gap has hbs hasb hbsb hc h ih =>
    rw [hgap has hasb,hgap hbs hbsb]
    refine ⟨rfl, fun k hk => ?_⟩
    obtain rfl : k = 0 := by simpa using hk
    exact ⟨rfl, .gap has hbs hasb hbsb hc h⟩

theorem dropWhile (h : Respaced a b) : Respaced (a.dropWhile isBlank) (b.dropWhile isBlank) := by
  cases h with
  | nil => exact .nil
  | char hc h => simpa [hc] using .char hc h
  | gap has hbs hasb hbsb hc h =>
    rw [List.dropWhile_append_of_pos hasb,List.dropWhile_append_of_pos hbsb]
    simpa [hc] using .char hc h

end Respaced

theorem IsRun.trim {w : List Char} (h : IsRun w) : trim w = w :=
  trim_eq_self (fun c hc => h.2 c (List.mem_of_head? hc)) fun c hc => h.2 c (List.mem_of_getLast? hc)

/-- A text without blanks around it is its words, up to the number of blanks between them. -/
theorem respaced_trim (cs : List Char) : Respaced (trim cs) (spaced (words cs)) := by
  induction cs using wordInduction with
  | nil => exact .nil
  | blank c cs hc ih => rwa [trim_cons hc,words_cons_blank hc]
  | last w hw =>
    rw [hw.trim,hw.words]
    simpa [spaced_cons] using Respaced.run hw.2 .nil
  | word w c cs hw hc ih =>
    obtain ⟨as, bs, has, hbs, hcs⟩ := eq_blanks_trim cs
    have hgap : ∀ x ∈ c :: as, isBlank x = true := List.forall_mem_cons.2 ⟨hc, has⟩
    have htext : w ++ c :: cs = (w ++ (c :: as) ++ trim cs) ++ bs := by
      nth_rewrite 1 [hcs]
      simp
    rw [words_append_blank hc,hw.words,htext,trim_append_blanks hbs]
    cases ht : trim cs with
    | nil =>
      have hnil : words cs = [] := by rw [← words_trim,ht]; rfl
      rw [List.append_nil,trim_append_blanks hgap,hw.trim,hnil]
      simpa [spaced_cons] using Respaced.run hw.2 .nil
    | cons d t =>
      have hhead : (trim cs).head? = some d := by rw [ht]; rfl
      have hd : isBlank d = false := head?_trim hhead
      have hself : trim (w ++ (c :: as) ++ d :: t) = w ++ (c :: as) ++ d :: t := by
        refine trim_eq_self (fun x hx => ?_) fun x hx => ?_
        · obtain ⟨e, v, rfl⟩ := List.exists_cons_of_ne_nil hw.1
          obtain rfl : e = x := by simpa using hx
          exact hw.2 e List.mem_cons_self
        · rw [List.getLast?_append_of_ne_nil _ (by simp),← ht] at hx
          exact getLast?_trim hx
      rw [ht] at ih
      obtain ⟨v, hv, hrest⟩ := ih.of_cons hd
      have hspaced : spaced (w :: words cs) = w ++ ' ' :: spaced (words cs) := by
        cases hws : words cs with
        | nil =>
          rw [hws] at hv
          cases hv
        | cons v ws => exact spaced_cons_cons w v ws
      rw [hself,List.singleton_append,hspaced,hv,List.append_assoc]
      have hblank : ∀ x ∈ [' '], isBlank x = true := List.forall_mem_singleton.2 (by decide)
      exact .run hw.2 (.gap (List.cons_ne_nil c as) (List.cons_ne_nil ' ' []) hgap hblank hd hrest)

end Text

namespace Segment

/-- No blank in a literal, which is not empty. -/
def Tight : Segment → Prop
  | literal text => Text.IsRun text
  | capture _ => True
  | space => True

/-- Not both are runs of blanks. -/
def Apart (s t : Segment) : Prop := s = .space → t ≠ .space

end Segment

namespace Pattern

open Segment

theorem tight_of_compile {source : String} {accept : CaptureClass} {line : Nat} {p : Pattern}
    (h : compile source accept line = .ok p) :
    (∀ seg ∈ p.segments, seg.Tight) ∧ p.segments.IsChain Apart := by
  have hnormal := normal_of_compile h
  refine ⟨fun seg hseg => ?_, hnormal.joins.imp fun s t hjoins => ?_⟩
  · have hproper := hnormal.proper seg hseg
    cases seg with
    | literal text => exact hproper
    | capture name => trivial
    | space => trivial
  · rintro rfl rfl
    exact hjoins.kinds trivial

variable {accept : CaptureClass} {segs : List Segment}

theorem CaptureClass.not_admits_blank (accept : CaptureClass) {c : Char}
    (h : Text.isBlank c = true) : accept.admits c = false := by
  cases accept with
  | nonBlank => simp [CaptureClass.admits,h]
  | word =>
    have hc : c ≠ ':' := by
      rintro rfl
      revert h
      decide
    simp [CaptureClass.admits,Text.isWordChar_of_isBlank h,hc]

/-- Only a run of blanks can take a blank. -/
theorem cutFrom_blank {c : Char} {r : List Char} (hc : Text.isBlank c = true)
    (htight : ∀ seg ∈ segs, seg.Tight) (hhead : segs.head? ≠ some .space) :
    cutFrom accept true segs (c :: r) = none := by
  cases segs with
  | nil => simp [cutFrom]
  | cons seg segs =>
    cases seg with
    | literal text =>
      have ht : Text.IsRun text := htight _ List.mem_cons_self
      obtain ⟨d, text, rfl⟩ := List.exists_cons_of_ne_nil ht.1
      have hd : d ≠ c := by
        rintro rfl
        simp [ht.2 d List.mem_cons_self] at hc
      simp [cutFrom,List.isPrefixOf,hd]
    | capture name => simp [cutFrom,CaptureClass.not_admits_blank accept hc]
    | space => simp at hhead

/-- A run of blanks goes to its segment as a whole. -/
theorem cutFrom_space (htight : ∀ seg ∈ segs, seg.Tight) (hhead : segs.head? ≠ some .space)
    (a : List Char) :
    cutFrom accept true (.space :: segs) a = cutFrom accept true segs (a.dropWhile Text.isBlank) := by
  have hrun : a.drop (a.takeWhile Text.isBlank).length = a.dropWhile Text.isBlank := by
    nth_rewrite 2 [← List.takeWhile_append_dropWhile (p := Text.isBlank) (l := a)]
    exact List.drop_left
  have hfewer : (List.range (a.takeWhile Text.isBlank).length).reverse.findSome?
      (fun k => cutFrom accept true segs (a.drop k)) = none := by
    refine List.findSome?_eq_none_iff.2 fun k hk => ?_
    have hk : k < (a.takeWhile Text.isBlank).length := by simpa using hk
    have hlen := (List.takeWhile_prefix Text.isBlank (l := a)).length_le
    rw [List.drop_eq_getElem_cons (by omega)]
    refine cutFrom_blank ?_ htight hhead
    refine forall_take_run (k := k + 1) hk _ ?_
    rw [List.take_add_one]
    simp
  rw [cutFrom,List.range_succ,List.reverse_append,List.reverse_singleton,List.singleton_append,
    List.findSome?_cons,hfewer,hrun]
  cases cutFrom accept true segs (a.dropWhile Text.isBlank) <;> rfl

theorem findSome?_congr {β : Type} {l : List Nat} {f g : Nat → Option β}
    (h : ∀ k ∈ l, f k = g k) : l.findSome? f = l.findSome? g := by
  induction l with
  | nil => rfl
  | cons k l ih =>
    obtain ⟨hk, hl⟩ := List.forall_mem_cons.1 h
    rw [List.findSome?_cons,List.findSome?_cons,hk,ih hl]

/-- The same pieces are captured, however many blanks stand between the words. -/
theorem cutFrom_respaced (htight : ∀ seg ∈ segs, seg.Tight) (hapart : segs.IsChain Apart)
    {a b : List Char} (h : Text.Respaced a b) :
    (cutFrom accept true segs a).map Prod.fst = (cutFrom accept true segs b).map Prod.fst := by
  induction segs generalizing a b with
  | nil =>
    have hnil := h.eq_nil_iff
    by_cases ha : a = []
    · simp [cutFrom,ha,hnil.1 ha]
    · simp [cutFrom,ha,mt hnil.2 ha]
  | cons seg segs ih =>
    obtain ⟨hseg, hsegs⟩ := List.forall_mem_cons.1 htight
    obtain ⟨hnext, hrest⟩ := List.isChain_cons.1 hapart
    have ih {a b : List Char} (h : Text.Respaced a b) := ih hsegs hrest h
    cases seg with
    | literal text =>
      obtain ⟨heq, hdrop⟩ := h.isPrefixOf (show Text.IsRun text from hseg).2
      rw [cutFrom,cutFrom,heq]
      split
      · next hp => exact ih (hdrop (heq ▸ hp))
      · rfl
    | space =>
      have hhead : segs.head? ≠ some .space := fun hs => hnext _ hs rfl rfl
      rw [cutFrom_space hsegs hhead,cutFrom_space hsegs hhead]
      exact ih h.dropWhile
    | capture name =>
      obtain ⟨hrun, hdrop⟩ := h.takeWhile (q := accept.admits) fun c hc =>
        CaptureClass.not_admits_blank accept hc
      rw [cutFrom,cutFrom,← hrun,List.map_findSome?,List.map_findSome?]
      refine findSome?_congr fun k hk => ?_
      have hk : k < (a.takeWhile accept.admits).length := by simpa using hk
      obtain ⟨htake, hrest⟩ := hdrop (k + 1) hk
      have hpieces {o : Option (List (List Char) × List Char)} {piece : List Char} :
          (o.map fun p => (piece :: p.1, p.2)).map Prod.fst = (o.map Prod.fst).map (piece :: ·) := by
        cases o <;> rfl
      dsimp only [Function.comp_apply]
      rw [← htake]
      split
      · rw [hpieces,hpieces,ih hrest]
      · rfl

/-- What a pattern captures if it matches the whole text. -/
def captures? (p : Pattern) (input : String) : Option (List (String × String)) :=
  (p.matchWhole input).map Match.captures

theorem captures?_eq {p : Pattern} (input : String) :
    p.captures? input = ((cutFrom p.accept true p.segments (Text.trim input.toList)).map
      Prod.fst).map p.named := by
  rw [captures?,matchWhole_eq,Option.map_map,Option.map_map]
  rfl

/-- A compiled pattern captures the same from texts of the same words. -/
theorem captures?_of_words {source : String} {line : Nat} {p : Pattern}
    (hp : compile source accept line = .ok p) {s t : String}
    (h : Text.words s.toList = Text.words t.toList) : p.captures? s = p.captures? t := by
  obtain ⟨htight, hapart⟩ := tight_of_compile hp
  have hspaced (s : String) : p.captures? s =
      ((cutFrom p.accept true p.segments (Text.spaced (Text.words s.toList))).map
        Prod.fst).map p.named := by
    rw [captures?_eq,cutFrom_respaced htight hapart (Text.respaced_trim s.toList)]
  rw [hspaced,hspaced,h]

end Pattern

end LineScript
