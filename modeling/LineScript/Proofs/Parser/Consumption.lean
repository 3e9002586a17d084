import LineScript.Proofs.Parser.Front
import LineScript.Proofs.Pattern.Matching
import LineScript.Proofs.Token.Parts
import Mathlib.Algebra.GroupWithZero.Nat
set_option autoImplicit false

/-!
What a construct takes from the lines in front of it. The lines left are a suffix of the lines given, or
begin with what stands behind a closing brace; a body and the lines left are together smaller than the
lines given, counted in characters and lines; every text cut out is a stretch of a text given; and every
line of a body keeps the number and the place of the line that it is cut from.
-/

namespace LineScript

namespace Line

/-- A line counts for its characters and for itself. -/
def size (l : Line) : Nat := l.text.toList.length + 1

def total (ls : List Line) : Nat := (ls.map size).sum

@[simp]
theorem total_nil : total [] = 0 := rfl

@[simp]
theorem total_cons (l : Line) (ls : List Line) : total (l :: ls) = l.size + total ls := by
  simp [total]

@[simp]
theorem total_append (ls ks : List Line) : total (ls ++ ks) = total ls + total ks := by
  simp [total]

theorem size_pos (l : Line) : 0 < l.size := by simp [size]

/-- The text of the line is a stretch of one of the texts. -/
def Within (ls : List Line) (l : Line) : Prop := ∃ k ∈ ls, l.text.toList <:+: k.text.toList

theorem Within.of_mem {ls : List Line} {l : Line} (h : l ∈ ls) : Within ls l :=
  ⟨l, h, List.infix_rfl⟩

theorem Within.mono {ls ks : List Line} {l : Line} (h : Within ls l) (hs : ls ⊆ ks) :
    Within ks l := by
  obtain ⟨k, hk, hi⟩ := h
  exact ⟨k, hs hk, hi⟩

theorem Within.trans {ls ks : List Line} {l : Line} (h : Within ks l)
    (hs : ∀ k ∈ ks, Within ls k) : Within ls l := by
  obtain ⟨k, hk, hi⟩ := h
  obtain ⟨j, hj, hk⟩ := hs k hk
  exact ⟨j, hj, hi.trans hk⟩

end Line

theorem Text.trim_infix (cs : List Char) : Text.trim cs <:+: cs :=
  ⟨_, _, (Text.eq_append_trim cs).symm⟩

theorem Line.trimmed?_some {n : Nat} {cs : List Char} {l : Line} (h : Line.trimmed? n cs = some l) :
    l = ⟨n, String.ofList (Text.trim cs)⟩ := by
  unfold Line.trimmed? at h
  dsimp only at h
  split at h
  · cases h
  · exact (Option.some.inj h).symm

theorem Line.total_trimmed? (n : Nat) (cs : List Char) :
    Line.total (Line.trimmed? n cs).toList ≤ cs.length + 1 := by
  cases h : Line.trimmed? n cs with
  | none => simp
  | some l =>
    have hlen := (Text.trim_infix cs).length_le
    simp [Line.trimmed?_some h,Line.size,hlen]

/-- What is left of some lines: a suffix of them, or the text behind a proper part of the last line taken,
trimmed and with the number of that line, before the lines after it. -/
inductive Left (ls : List Line) : List Line → Prop where
  | suffix {rest : List Line} : rest <:+ ls → Left ls rest
  | remainder {taken later : List Line} {last : Line} {before after : List Char} :
    ls = taken ++ last :: later → last.text.toList = before ++ after → before ≠ [] →
    Left ls (⟨last.number, String.ofList (Text.trim after)⟩ :: later)

namespace Left

variable {ls rest : List Line}

theorem eq_or_total_lt (h : Left ls rest) : rest = ls ∨ Line.total rest < Line.total ls := by
  cases h with
  | suffix hs =>
    obtain ⟨taken, rfl⟩ := hs
    cases taken with
    | nil => exact .inl rfl
    | cons l taken =>
      have hl := l.size_pos
      exact .inr (by simp; omega)
  | @remainder taken later last before after hls htext hbefore =>
    have htrim := (Text.trim_infix after).length_le
    have hbefore := List.length_pos_iff.2 hbefore
    have hlast : last.text.toList.length = before.length + after.length := by simp [htext]
    subst hls
    exact .inr (by simp [Line.size]; omega)

theorem within (h : Left ls rest) {l : Line} (hl : l ∈ rest) : Line.Within ls l := by
  cases h with
  | suffix hs => exact .of_mem (hs.subset hl)
  | @remainder taken later last before after hls htext _ =>
    subst hls
    rcases List.mem_cons.1 hl with rfl | hl
    · refine ⟨last, by simp, ?_⟩
      rw [String.toList_ofList,htext]
      exact (Text.trim_infix after).trans (List.suffix_append before after).isInfix
    · exact .of_mem (by simp [hl])

theorem cons (h : Left ls rest) (l : Line) : Left (l :: ls) rest := by
  cases h with
  | suffix hs => exact .suffix (hs.trans (List.suffix_cons l ls))
  | remainder hls htext hbefore => exact .remainder (by rw [hls,List.cons_append]) htext hbefore

end Left

/-- A body and the lines left, cut out of some lines. -/
structure CutOut (ls body rest : List Line) : Prop where
  left : Left ls rest
  smaller : Line.total body + Line.total rest < Line.total ls
  within : ∀ l ∈ body, Line.Within ls l
  numbers : (body.map Line.number).Sublist (ls.map Line.number)

namespace CutOut

theorem cons {ls body rest : List Line} (h : CutOut ls body rest) (l : Line) :
    CutOut (l :: ls) body rest where
  left := h.left.cons l
  smaller := by
    have hl := h.smaller
    simp only [Line.total_cons]
    omega
  within k hk := (h.within k hk).mono (List.subset_cons_self l ls)
  numbers := by simpa using h.numbers.cons l.number

/-- The line after the header as a body. -/
theorem nextLine (header next : Line) (later : List Line) :
    CutOut (header :: next :: later) [next] later where
  left := .suffix ⟨[header, next], rfl⟩
  smaller := by
    have hl := header.size_pos
    simp only [Line.total_cons,Line.total_nil]
    omega
  within k hk := .of_mem (by simp_all)
  numbers := by simp

/-- The text behind a separator on the header as a body. -/
theorem sameLine {header line : Line} {tail : List Line} {before after : List Char}
    (htext : before ++ after <+: header.text.toList) (hbefore : before ≠ [])
    (hline : Line.trimmed? header.number after = some line) :
    CutOut (header :: tail) [line] tail := by
  have hin : after <:+: header.text.toList :=
    (List.suffix_append before after).isInfix.trans htext.isInfix
  have htrim := Text.trim_infix after
  obtain rfl := Line.trimmed?_some hline
  refine ⟨.suffix (List.suffix_cons _ _), ?_, ?_, by simp⟩
  · have hpos := List.length_pos_iff.2 hbefore
    have hlen := htext.length_le
    have htlen := htrim.length_le
    simp only [List.length_append] at hlen
    simp only [Line.total_cons,Line.total_nil,Line.size,String.toList_ofList]
    omega
  · intro k hk
    obtain rfl := List.mem_singleton.1 hk
    exact ⟨header, by simp, by simpa using htrim.trans hin⟩

end CutOut

namespace Brace

theorem append_of_splitOpen {cs : List (Char × Bool)} {before after : List Char}
    (h : splitOpen cs = some (before, after)) : before ++ '\x7b' :: after = chars cs := by
  induction cs generalizing before with
  | nil => simp [splitOpen] at h
  | cons p r ih =>
    obtain ⟨c, counts⟩ := p
    rw [splitOpen] at h
    split at h
    · next hc =>
      obtain ⟨rfl, rfl⟩ : [] = before ∧ chars r = after := by simpa using h
      have hc : c = '\x7b' := by simp at hc; exact hc.2
      simp [chars,hc]
    · obtain ⟨⟨before', after'⟩, hr, he⟩ := Option.map_eq_some_iff.1 h
      obtain ⟨rfl, rfl⟩ : c :: before' = before ∧ after' = after := by simpa using he
      have hr := ih hr
      simpa [chars] using hr

theorem append_of_scan {depth : Nat} {cs : List (Char × Bool)} {inside after : List Char}
    (h : scan depth cs = .closed inside after) : inside ++ '\x7d' :: after = chars cs := by
  have hcons {c : Char} {s : Scan} {inside : List Char} (hs : s.cons c = .closed inside after) :
      ∃ tail, s = .closed tail after ∧ inside = c :: tail := by
    cases s with
    | closed tail after' =>
      obtain ⟨rfl, rfl⟩ : c :: tail = inside ∧ after' = after := by simpa [Scan.cons] using hs
      exact ⟨tail, rfl, rfl⟩
    | stillOpen d => simp [Scan.cons] at hs
  induction cs generalizing depth inside with
  | nil => simp [scan] at h
  | cons p r ih =>
    obtain ⟨c, counts⟩ := p
    rw [scan] at h
    split at h
    · obtain ⟨tail, hs, rfl⟩ := hcons h
      have hr := ih hs
      simpa [chars] using hr
    · split at h
      · next hc =>
        have hc : c = '\x7d' := by simp at hc; exact hc.2
        split at h
        · obtain ⟨rfl, rfl⟩ : [] = inside ∧ chars r = after := by simpa using h
          simp [chars,hc]
        · obtain ⟨tail, hs, rfl⟩ := hcons h
          have hr := ih hs
          simpa [chars] using hr
      · obtain ⟨tail, hs, rfl⟩ := hcons h
        have hr := ih hs
        simpa [chars] using hr

end Brace

namespace Block

/-- A block that closes: the brace stands on `last`, and what was read on the way is `new`. -/
theorem of_close {head : String} {depth consumed : Nat} {body ls : List Line} {b : Block}
    (h : close head depth consumed body ls = some b) :
    ∃ taken last later inside after new, ls = taken ++ last :: later ∧
      last.text.toList = inside ++ '\x7d' :: after ∧
      b.rest = (Line.trimmed? last.number after).toList ++ later ∧ b.body = body ++ new ∧
      Line.total new + Line.total b.rest ≤ Line.total ls ∧ (∀ l ∈ new, Line.Within ls l) ∧
      (new.map Line.number).Sublist (ls.map Line.number) := by
  have hwithin {n : Nat} {cs : List Char} {k : Line} (r : List Line) (hi : cs <:+: k.text.toList) :
      ∀ l ∈ (Line.trimmed? n cs).toList, Line.Within (k :: r) l := by
    intro l hl
    rw [Line.trimmed?_some (Option.mem_toList.1 hl)]
    exact ⟨k, by simp, by simpa using (Text.trim_infix cs).trans hi⟩
  have hnumber (n : Nat) (cs : List Char) :
      ((Line.trimmed? n cs).toList.map Line.number).Sublist [n] := by
    cases ht : Line.trimmed? n cs with
    | none => simp
    | some l => simp [Line.trimmed?_some ht]
  induction ls generalizing depth consumed body with
  | nil => cases h
  | cons k r ih =>
    rw [close] at h
    cases hs : Brace.scan depth (Brace.mark k.text.toList) with
    | closed inside after =>
      rw [hs] at h
      obtain rfl := Option.some.inj h
      have htext : inside ++ '\x7d' :: after = k.text.toList := by
        rw [Brace.append_of_scan hs,Brace.chars_mark]
      have hlen : k.text.toList.length = inside.length + (after.length + 1) := by simp [← htext]
      have hin := Line.total_trimmed? k.number inside
      have haf := Line.total_trimmed? k.number after
      refine ⟨[], k, r, inside, after, _, rfl, htext.symm, rfl, rfl, ?_, ?_, ?_⟩
      · simp only [rest,Line.total_append,Line.total_cons,Line.size]
        omega
      · exact hwithin r ⟨[], '\x7d' :: after, by simp [htext]⟩
      · exact (hnumber k.number inside).trans (by simp)
    | stillOpen d =>
      rw [hs] at h
      obtain ⟨taken, last, later, inside, after, new, rfl, htext, hrest, hbody, htotal, hnew, hnumbers⟩ :=
        ih h
      have hk := Line.total_trimmed? k.number k.text.toList
      refine ⟨k :: taken, last, later, inside, after,
        (Line.trimmed? k.number k.text.toList).toList ++ new, rfl, htext, hrest, ?_, ?_, ?_, ?_⟩
      · simp [hbody]
      · simp only [Line.total_append,Line.total_cons,Line.size] at htotal ⊢
        omega
      · intro l hl
        rcases List.mem_append.1 hl with hl | hl
        · exact hwithin _ List.infix_rfl l hl
        · exact (hnew l hl).mono (List.subset_cons_self _ _)
      · rw [List.map_append]
        exact (hnumber k.number k.text.toList).append hnumbers

/-- The same, where the first line read is what is left of the line `k` behind an opening brace. -/
theorem cutOut_of_close {head : String} {consumed : Nat} {k : Line} {r : List Line} {b : Block}
    {before after : List Char} (hk : k.text.toList = before ++ '\x7b' :: after)
    (h : close head 1 consumed [] (⟨k.number, String.ofList after⟩ :: r) = some b) :
    CutOut (k :: r) b.body b.rest := by
  obtain ⟨taken, last, later, inside, behind, new, hls, htext, hrest, hbody, htotal, hnew, hnumbers⟩ :=
    of_close h
  have hlen : k.text.toList.length = before.length + (after.length + 1) := by simp [hk]
  refine ⟨?_, ?_, ?_, ?_⟩
  · -- the last line is the one with the opening brace, or one of those behind it
    have hlast : ∃ taken last' inside', k :: r = taken ++ last' :: later ∧
        last'.number = last.number ∧ last'.text.toList = inside' ++ behind ∧ inside' ≠ [] := by
      cases taken with
      | nil =>
        obtain ⟨rfl, rfl⟩ : ⟨k.number, String.ofList after⟩ = last ∧ r = later := by simpa using hls
        refine ⟨[], k, before ++ '\x7b' :: inside ++ ['\x7d'], rfl, rfl, ?_, by simp⟩
        rw [String.toList_ofList] at htext
        simp [hk,htext]
      | cons l taken =>
        obtain ⟨-, rfl⟩ : ⟨k.number, String.ofList after⟩ = l ∧ r = taken ++ last :: later := by
          simpa using hls
        exact ⟨k :: taken, last, inside ++ ['\x7d'], rfl, rfl, by simp [htext], by simp⟩
    obtain ⟨taken', last', inside', hls', hnumber, htext', hinside'⟩ := hlast
    rw [hrest]
    cases ht : Line.trimmed? last.number behind with
    | none =>
      refine .suffix ⟨taken' ++ [last'], ?_⟩
      simp [hls']
    | some l =>
      rw [Line.trimmed?_some ht,← hnumber]
      exact .remainder hls' htext' hinside'
  · rw [hbody,List.nil_append]
    simp only [Line.total_cons,Line.size,String.toList_ofList] at htotal ⊢
    omega
  · intro l hl
    rw [hbody,List.nil_append] at hl
    refine (hnew l hl).trans fun j hj => ?_
    rcases List.mem_cons.1 hj with rfl | hj
    · exact ⟨k, by simp, before ++ ['\x7b'], [], by simp [hk]⟩
    · exact .of_mem (List.mem_cons_of_mem _ hj)
  · rw [hbody,List.nil_append]
    exact hnumbers

theorem cutOut_of_find {header : Line} {tail : List Line} {b : Block}
    (h : find (header :: tail) = .ok (some b)) : CutOut (header :: tail) b.body b.rest := by
  unfold find at h
  dsimp only at h
  cases hs : Brace.splitOpen (Brace.mark header.text.toList) with
  | some p =>
    obtain ⟨before, after⟩ := p
    have htext : header.text.toList = before ++ '\x7b' :: after := by
      rw [Brace.append_of_splitOpen hs,Brace.chars_mark]
    simp only [hs] at h
    split at h
    · simp_all
    · cases h
    · next hc =>
      obtain rfl := Option.some.inj (Except.ok.inj h)
      exact cutOut_of_close htext (Option.some.inj hc)
  | none =>
    cases tail with
    | nil => simp [hs] at h
    | cons next later =>
      simp only [hs] at h
      split at h
      · cases h
      · cases h
      · next hc =>
        obtain rfl := Option.some.inj (Except.ok.inj h)
        split at hc
        · next after htext =>
          -- the header goes as a whole, so what is cut out of the other lines is cut out of all
          have htext : next.text.toList = [] ++ '\x7b' :: after := htext
          exact (cutOut_of_close htext (Option.some.inj hc)).cons header
        · cases hc

end Block

/-- A reader of headers: what is left is left of the lines given, and a header that is accepted has its
body cut out of them. -/
def Reads {α : Type} (ls : List Line) (body : α → List Line)
    (r : Except ParseError α × List Line) : Prop :=
  Left ls r.2 ∧ ∀ a, r.1 = .ok a → CutOut ls (body a) r.2

section Headers

variable (d : Declarations) (header : Line) (tail : List Line)

theorem Reads.error {α : Type} {ls rest : List Line} {body : α → List Line} {e : ParseError}
    (h : Left ls rest) : Reads ls body (.error e, rest) := ⟨h, nofun⟩

theorem Reads.ok {α : Type} {ls rest : List Line} {body : α → List Line} {a : α}
    (h : CutOut ls (body a) rest) : Reads ls body (.ok a, rest) := by
  refine ⟨h.left, ?_⟩
  rintro a' ⟨⟩
  exact h

theorem Left.refl (ls : List Line) : Left ls ls := .suffix List.suffix_rfl

theorem Left.drop : Left (header :: tail) tail := .suffix (List.suffix_cons header tail)

theorem takeBody_reads (construct : String) :
    Reads (header :: tail) Prod.snd (takeBody construct header tail) := by
  unfold takeBody
  split
  · exact .error (.refl _)
  · next b hb => exact .ok (Block.cutOut_of_find hb)
  · next next later _ => exact .ok (.nextLine header next later)
  · exact .error (.refl _)

theorem StatementHead.split_reads (kind : StatementKind) :
    Reads (header :: tail) Prod.snd (StatementHead.split kind header tail) := by
  unfold StatementHead.split
  dsimp only
  split
  · exact .error (.refl _)
  · next b hb => exact .ok (Block.cutOut_of_find hb)
  · rcases hcut : Text.cut [':'] (Text.code header.text.toList) with _ | ⟨head, body⟩
    · cases tail with
      | nil => exact .error (.refl _)
      | cons next later => exact .ok (.nextLine header next later)
    · have happend := Text.cut_append hcut
      have hcode : Text.code header.text.toList <+: header.text.toList := by
        unfold Text.code
        cases hc : Text.cut ['/', '/'] header.text.toList with
        | none => exact List.prefix_rfl
        | some p => exact ⟨['/', '/'] ++ p.2, by simpa using Text.cut_append hc⟩
      dsimp only
      split
      · exact .error (.drop header tail)
      · next line hline => exact .ok (.sameLine (happend ▸ hcode) (by simp) hline)

theorem StatementHead.read_reads (kind : StatementKind) :
    Reads (header :: tail) StatementHead.body (StatementHead.read d kind header tail) := by
  have hsplit := StatementHead.split_reads header tail kind
  unfold StatementHead.read
  generalize StatementHead.split kind header tail = r at hsplit
  obtain ⟨e | ⟨head, body⟩, rest⟩ := r
  · exact .error hsplit.1
  · have hcut := hsplit.2 _ rfl
    dsimp only
    split
    · exact .error hsplit.1
    · split
      · exact .ok hcut
      · split
        · exact .error hsplit.1
        · exact .ok hcut

/-- The body is cut off before the header of a method is read. -/
theorem MethodHead.body_of_ofText {line : Nat} {text : String} {body : List Line}
    {head : MethodHead} (h : MethodHead.ofText d line text body = .ok head) : head.body = body := by
  unfold MethodHead.ofText at h
  split at h
  · next modifiers name rest _ =>
    split at h
    · simp only [bind,Except.bind,pure,Except.pure] at h
      split at h
      · cases h
      · split at h
        · cases h
        · exact (Except.ok.inj h) ▸ rfl
    · cases h
  · cases h

theorem MethodHead.read_reads :
    Reads (header :: tail) MethodHead.body (MethodHead.read d header tail) := by
  have htake := takeBody_reads header tail "method"
  unfold MethodHead.read
  generalize takeBody "method" header tail = r at htake
  obtain ⟨e | ⟨text, body⟩, rest⟩ := r
  · exact .error htake.1
  · refine ⟨htake.1, fun head hhead => ?_⟩
    rw [MethodHead.body_of_ofText d hhead]
    exact htake.2 _ rfl

theorem ClassHead.read_reads : Reads (header :: tail) ClassHead.body (ClassHead.read header tail) := by
  unfold ClassHead.read
  split
  · exact .error (.refl _)
  · exact .error (.refl _)
  · next b hb =>
    have hcut := Block.cutOut_of_find hb
    dsimp only
    split
    · split
      · exact .ok hcut
      · exact .error hcut.left
    · exact .error hcut.left

theorem ConverterHead.read_reads :
    Reads (header :: tail) ConverterHead.body (ConverterHead.read d header tail) := by
  have htake := takeBody_reads header tail "get"
  unfold ConverterHead.read
  generalize takeBody "get" header tail = r at htake
  obtain ⟨e | ⟨text, body⟩, rest⟩ := r
  · exact .error htake.1
  · have hcut := htake.2 _ rfl
    dsimp only
    split
    · split
      · split
        · exact .ok hcut
        · exact .error htake.1
      · exact .error htake.1
    · exact .error htake.1

/-- A container keeps nothing to be read of its body. -/
theorem Container.read_reads :
    Reads (header :: tail) (fun _ => []) (Container.read d header tail) := by
  unfold Container.read
  split
  · exact .error (.refl _)
  · exact .error (.refl _)
  · next b hb =>
    have hcut := Block.cutOut_of_find hb
    have hempty : CutOut (header :: tail) [] b.rest := by
      refine ⟨hcut.left, ?_, by simp, by simp⟩
      have hsmaller := hcut.smaller
      simp only [Line.total_nil]
      omega
    dsimp only
    split
    · split
      · refine ⟨hcut.left, fun _ _ => hempty⟩
      · exact .error hcut.left
    · exact .error hcut.left

end Headers

end LineScript
