import LineScript.Parser.Header
import LineScript.Proofs.Block.Depth
set_option autoImplicit false

/-!
Lines in which every block that is opened closes, wherever reading starts. A header without a brace takes
the next line alone as its body, so a block that the next line opens would be cut off from its end; in
orderly lines no such header comes before such a line. Blocks are then found whole, and the lines inside
and behind a block are orderly again.
-/

namespace LineScript

/-- Does the text open a construct that has a body? -/
def opensConstruct (text : String) : Bool :=
  match Lexer.split text with
  | [] => false
  | first :: more =>
    (StatementKind.ofKeyword? first).isSome || declaresClass (first :: more) ||
      declaresMethod (first :: more) || first == "container"

/-- Is the text a header without a body of its own, which the next line has to supply? -/
def awaitsBody (text : List Char) : Bool :=
  (Brace.splitOpen (Brace.mark text)).isNone &&
    match Lexer.split (String.ofList text) with
    | [] => false
    | first :: more =>
      (StatementKind.ofKeyword? first).isSome && (Text.cut [':'] (Text.code text)).isNone ||
        declaresMethod (first :: more) ||
        (Token.codeOfText (String.ofList text)).head?.map Token.kind == some .get

namespace Brace

/-- The texts on a line that reach to its end: the line itself, and what stands behind a brace. -/
def reaches (text : List Char) : List (List Char) := text :: (stops text).map Prod.snd

/-- What stands behind a brace reaches no further texts than the line itself. -/
theorem reaches_subset {text : List Char} {xs ys : List (Char × Bool)} {c : Char}
    (h : mark text = xs ++ (c, true) :: ys) (hc : weight (c, true) ≠ 0) :
    reaches (Text.trim (chars ys)) ⊆ (stops text).map Prod.snd := by
  have hstops : (weight (c, true), Text.trim (chars ys)) :: stops (Text.trim (chars ys)) <:+
      stops text := by
    have hys : stops (Text.trim (chars ys)) = stopsOf ys := by
      rw [stops_trim,stops,(mark_of_append h).2]
    have hsuffix := stopsOf_suffix xs ((c, true) :: ys)
    rw [← h,stopsOf,if_neg hc] at hsuffix
    rw [hys]
    exact hsuffix
  exact List.map_subset Prod.snd hstops.subset

end Brace

namespace Line

/-- Trimmed, with something left. -/
def Tidy (l : Line) : Prop := Text.trim l.text.toList = l.text.toList ∧ l.text.toList ≠ []

/-- Does reading end on this line with a header that takes the next line as its body? -/
def awaits (l : Line) : Bool := (Brace.reaches l.text.toList).any awaitsBody

/-- A line that can be such a body: it is the block itself, opens nothing that it does not close, or is no
header. -/
def Suits (l : Line) : Prop :=
  l.text.toList.head? = some '\x7b' ∨ Brace.Closing (Brace.turns l.text.toList) ∨
    opensConstruct l.text = false

instance (l : Line) : Decidable l.Suits :=
  inferInstanceAs (Decidable (l.text.toList.head? = some '\x7b' ∨
    Brace.Closing (Brace.turns l.text.toList) ∨ opensConstruct l.text = false))

/-- One line may follow the other. -/
def Leads (l next : Line) : Prop := l.awaits = true → next.Suits

instance : DecidableRel Leads := fun l next => inferInstanceAs (Decidable (l.awaits = true → next.Suits))

theorem tidy_of_trimmed? {n : Nat} {cs : List Char} {l : Line} (h : trimmed? n cs = some l) :
    l.Tidy := by
  obtain rfl := trimmed?_some h
  refine ⟨by rw [String.toList_ofList,Text.trim_trim], fun hnil => ?_⟩
  rw [String.toList_ofList] at hnil
  simp [trimmed?,hnil] at h

theorem Tidy.trimmed? {l : Line} (h : l.Tidy) : Line.trimmed? l.number l.text.toList = some l := by
  unfold Line.trimmed?
  simp [h.1,h.2]

theorem Leads.of_behind {l next : Line} {n : Nat} {xs ys : List (Char × Bool)} {c : Char}
    (h : Leads l next) (hmark : Brace.mark l.text.toList = xs ++ (c, true) :: ys)
    (hc : Brace.weight (c, true) ≠ 0) :
    Leads ⟨n, String.ofList (Text.trim (Brace.chars ys))⟩ next := by
  intro ha
  refine h ?_
  obtain ⟨t, ht, hbody⟩ := List.any_eq_true.1 ha
  rw [String.toList_ofList] at ht
  exact List.any_eq_true.2 ⟨t, List.mem_cons_of_mem _ (Brace.reaches_subset hmark hc ht), hbody⟩

end Line

structure Orderly (ls : List Line) : Prop where
  tidy : ∀ l ∈ ls, l.Tidy
  closing : Brace.Closing (Line.turns ls)
  leads : ls.IsChain Line.Leads

namespace Orderly

open Brace

variable {ls later : List Line} {l o : Line} {n : Nat} {xs ys : List (Char × Bool)} {c : Char}

theorem suffix {rest : List Line} (h : Orderly ls) (hs : rest <:+ ls) : Orderly rest where
  tidy k hk := h.tidy k (hs.subset hk)
  closing := by
    obtain ⟨taken, rfl⟩ := hs
    refine h.closing.suffix ?_
    rw [Line.turns_append]
    exact List.suffix_append _ _
  leads := h.leads.suffix hs

/-- What stands behind a brace, with the lines after it. -/
theorem behind (h : Orderly (o :: later))
    (hmark : mark o.text.toList = xs ++ (c, true) :: ys) (hc : weight (c, true) ≠ 0) :
    Orderly ((Line.trimmed? n (chars ys)).toList ++ later) := by
  have hrest : Orderly later := h.suffix (List.suffix_cons o later)
  refine ⟨?_, ?_, ?_⟩
  · intro k hk
    rcases List.mem_append.1 hk with hk | hk
    · exact Line.tidy_of_trimmed? (Option.mem_toList.1 hk)
    · exact hrest.tidy k hk
  · refine h.closing.suffix ?_
    have hturns : Brace.turns o.text.toList = turnsOf xs ++ turnsOf ((c, true) :: ys) := by
      rw [Brace.turns,hmark,turnsOf_append]
    have hys : Brace.turns (chars ys) = turnsOf ys := by rw [Brace.turns,(mark_of_append hmark).2]
    rw [Line.turns_append,Line.turns_trimmed?,Line.turns_cons,hturns,hys,turnsOf_cons,if_neg hc]
    exact ⟨turnsOf xs ++ [weight (c, true)], by simp⟩
  · cases ht : Line.trimmed? n (chars ys) with
    | none => exact hrest.leads
    | some k =>
      obtain rfl := Line.trimmed?_some ht
      cases later with
      | nil => exact List.isChain_singleton _
      | cons next later =>
        obtain ⟨hlead, htail⟩ := List.isChain_cons_cons.1 h.leads
        exact List.isChain_cons_cons.2 ⟨hlead.of_behind hmark hc, htail⟩

/-- Lines with the front part of a line behind them, of which every block that is opened closes. -/
theorem concat {cs : List Char} (htidy : ∀ l ∈ ls, l.Tidy) (hleads : ls.IsChain Line.Leads)
    (h : Closing (Line.turns ls ++ Brace.turns cs)) :
    Orderly (ls ++ (Line.trimmed? n cs).toList) where
  tidy k hk := by
    rcases List.mem_append.1 hk with hk | hk
    · exact htidy k hk
    · exact Line.tidy_of_trimmed? (Option.mem_toList.1 hk)
  closing := by rwa [Line.turns_append,Line.turns_trimmed?]
  leads := by
    cases ht : Line.trimmed? n cs with
    | none => simpa using hleads
    | some k =>
      have hk : k.Suits := by
        obtain rfl := Line.trimmed?_some ht
        refine .inr (.inl ?_)
        rw [String.toList_ofList,turns_trim]
        exact h.suffix (List.suffix_append _ _)
      refine List.isChain_append.2 ⟨hleads, List.isChain_singleton _, ?_⟩
      intro a _ b hb _
      obtain rfl : k = b := by simpa using hb
      exact hk

theorem kept_eq (h : ∀ l ∈ ls, l.Tidy) : Block.kept ls = ls := by
  induction ls with
  | nil => rfl
  | cons l ls ih =>
    obtain ⟨hl, hls⟩ := List.forall_mem_cons.1 h
    rw [Block.kept_cons,hl.trimmed?,ih hls]
    rfl

/-- A block that a brace of the first line opens closes, and is orderly inside and behind. -/
theorem close (h : Orderly (o :: later)) (hmark : mark o.text.toList = xs ++ ('\x7b', true) :: ys)
    (head : String) (consumed : Nat) :
    ∃ b, Block.close head 1 consumed [] (⟨n, String.ofList (chars ys)⟩ :: later) = some b ∧
      Orderly b.body ∧ Orderly b.rest := by
  have hopen : weight ('\x7b', true) ≠ 0 := by decide
  have hys : mark (chars ys) = ys := (mark_of_append hmark).2
  have hturns : Brace.turns (chars ys) = turnsOf ys := by rw [Brace.turns,hys]
  cases hb : Block.close head 1 consumed [] (⟨n, String.ofList (chars ys)⟩ :: later) with
  | none =>
    have hsum := Block.open_of_close (Nat.le_refl 1) hb
    have hclosing : Closing (1 :: (turnsOf ys ++ Line.turns later)) := by
      refine h.closing.suffix ⟨turnsOf xs, ?_⟩
      rw [Line.turns_cons,Brace.turns,hmark,turnsOf_append,turnsOf_open]
      simp
    have hle := hclosing.sum_le
    rw [Line.turns_cons,String.toList_ofList,hturns] at hsum
    rw [List.sum_cons] at hle
    omega
  | some b =>
    refine ⟨b, rfl, ?_⟩
    obtain ⟨taken, last, after, us, vs, hls, hlast, hbody, hrest, -, hclosing⟩ :=
      Block.closed_of_close (Nat.le_refl 1) hb
    cases taken with
    | nil =>
      obtain ⟨rfl, rfl⟩ : ⟨n, String.ofList (chars ys)⟩ = last ∧ later = after := by simpa using hls
      rw [String.toList_ofList,hys] at hlast
      have hus : mark (chars us) = us := (mark_of_append (hys.trans hlast)).1
      constructor
      · rw [hbody]
        refine concat (by simp) List.isChain_nil ?_
        rw [Brace.turns,hus]
        exact hclosing
      · rw [hrest]
        have hclose : mark o.text.toList = (xs ++ ('\x7b', true) :: us) ++ ('\x7d', true) :: vs := by
          rw [hmark,hlast]
          simp
        exact h.behind hclose (by decide)
    | cons k taken =>
      obtain ⟨rfl, rfl⟩ : ⟨n, String.ofList (chars ys)⟩ = k ∧ later = taken ++ last :: after := by
        simpa using hls
      have hus : mark (chars us) = us := (mark_of_append hlast).1
      have hfirst := h.behind (n := n) hmark hopen
      constructor
      · have hpre : (Line.trimmed? n (chars ys)).toList ++ taken <+:
            (Line.trimmed? n (chars ys)).toList ++ (taken ++ last :: after) :=
          ⟨last :: after, by simp⟩
        have htaken : ∀ l ∈ taken, l.Tidy := fun l hl =>
          hfirst.tidy l (hpre.subset (List.mem_append_right _ hl))
        have hkept : Block.kept (⟨n, String.ofList (chars ys)⟩ :: taken) =
            (Line.trimmed? n (chars ys)).toList ++ taken := by
          rw [Block.kept_cons,kept_eq htaken,String.toList_ofList]
        have hleads := List.IsChain.prefix hfirst.leads hpre
        rw [hbody,hkept]
        refine concat (fun l hl => hfirst.tidy l (hpre.subset hl)) hleads ?_
        rw [Line.turns_append,Line.turns_trimmed?,Brace.turns,Brace.turns,hus]
        rwa [Line.turns_cons,String.toList_ofList,Brace.turns] at hclosing
      · rw [hrest]
        exact (h.suffix (List.suffix_append (o :: taken) _)).behind hlast (by decide)

/-- The block at the front is found, unless neither the header nor the line behind it opens one. -/
theorem find {header : Line} {tail : List Line} (h : Orderly (header :: tail)) :
    (∃ b, Block.find (header :: tail) = .ok (some b) ∧ Orderly b.body ∧ Orderly b.rest) ∨
      Block.find (header :: tail) = .ok none ∧ splitOpen (mark header.text.toList) = none ∧
        ∀ next later, tail = next :: later → next.text.toList.head? ≠ some '\x7b' := by
  unfold Block.find
  dsimp only
  cases hs : splitOpen (mark header.text.toList) with
  | some p =>
    obtain ⟨before, after⟩ := p
    obtain ⟨xs, ys, hmark, rfl, rfl⟩ := of_splitOpen hs
    obtain ⟨b, hb, hbody, hrest⟩ :=
      h.close (n := header.number) hmark (String.ofList (Text.trim (chars xs))) 0
    exact .inl ⟨b, by simp [hb], hbody, hrest⟩
  | none =>
    cases tail with
    | nil => exact .inr ⟨rfl, rfl, nofun⟩
    | cons next later =>
      by_cases hopen : ∃ after, next.text.toList = '\x7b' :: after
      · obtain ⟨after, htext⟩ := hopen
        have hmark : mark next.text.toList = [] ++ ('\x7b', true) :: mark after := by
          rw [htext,mark_cons (by decide) fun h => absurd h (by decide)]
          rfl
        obtain ⟨b, hb, hbody, hrest⟩ := (h.suffix (List.suffix_cons header _)).close
          (n := next.number) hmark (Text.trimmed header.text) 1
        rw [chars_mark] at hb
        exact .inl ⟨b, by simp [htext,hb], hbody, hrest⟩
      · refine .inr ⟨?_, rfl, ?_⟩
        · cases htext : next.text.toList with
          | nil => simp [htext]
          | cons c r =>
            have hc : c ≠ '\x7b' := fun hc => hopen ⟨r, by rw [htext,hc]⟩
            simp [htext,hc]
        · rintro _ _ ⟨rfl, rfl⟩ hhead
          obtain ⟨r, hr⟩ := List.head?_eq_some_iff.1 hhead
          exact hopen ⟨r, hr⟩

end Orderly

end LineScript
