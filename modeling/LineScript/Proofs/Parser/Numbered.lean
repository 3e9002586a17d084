import LineScript.Proofs.Make.Pass
import LineScript.Proofs.Parser.Consumption
set_option autoImplicit false

/-!
Line numbers on the way through the readers. Numbers that ascend from a given one still do when lines are
taken away, when a body is cut out of them and when a `make` declaration rewrites them; and an error names
the header of its construct, or another of the lines that the construct took.
-/

namespace LineScript

/-- The numbers are known, none is below the one in front, and none is below the one before it. -/
structure Ascends (Known : Nat → Prop) (from_ : Nat) (numbers : List Nat) : Prop where
  known : ∀ n ∈ numbers, Known n
  sorted : (from_ :: numbers).Pairwise (· ≤ ·)

/-- The lines do so by their numbers. -/
def Line.Ascend (Known : Nat → Prop) (from_ : Nat) (ls : List Line) : Prop :=
  Ascends Known from_ (ls.map Line.number)

variable {Known : Nat → Prop} {lo n : Nat}

namespace Ascends

variable {ns ks : List Nat}

theorem nil : Ascends Known lo [] := ⟨by simp, by simp⟩

theorem cons_iff : Ascends Known lo (n :: ns) ↔ Known n ∧ lo ≤ n ∧ Ascends Known n ns := by
  constructor
  · intro h
    obtain ⟨hlo, hn⟩ := List.pairwise_cons.1 h.sorted
    exact ⟨h.known n (by simp), hlo n (by simp), fun k hk => h.known k (by simp [hk]), hn⟩
  · rintro ⟨hn, hlo, h⟩
    refine ⟨by simpa using ⟨hn, h.known⟩, List.pairwise_cons.2 ⟨fun k hk => ?_, h.sorted⟩⟩
    rcases List.mem_cons.1 hk with rfl | hk
    · exact hlo
    · exact Nat.le_trans hlo ((List.pairwise_cons.1 h.sorted).1 k hk)

theorem sublist (h : Ascends Known lo ns) (hs : ks.Sublist ns) : Ascends Known lo ks :=
  ⟨fun k hk => h.known k (hs.subset hk), h.sorted.sublist (hs.cons_cons lo)⟩

theorem weaken {lo' : Nat} (h : Ascends Known lo ns) (hlo : lo' ≤ lo) : Ascends Known lo' ns := by
  obtain ⟨hfrom, hns⟩ := List.pairwise_cons.1 h.sorted
  exact ⟨h.known, List.pairwise_cons.2 ⟨fun k hk => Nat.le_trans hlo (hfrom k hk), hns⟩⟩

/-- One number, any number of times, before numbers that ascend from it. -/
theorem repeated (hn : Known n) (hlo : lo ≤ n) (hk : ∀ k ∈ ks, k = n) (h : Ascends Known n ns) :
    Ascends Known lo (ks ++ ns) := by
  induction ks generalizing lo with
  | nil => exact h.weaken hlo
  | cons k ks ih =>
    obtain ⟨rfl, hks⟩ := List.forall_mem_cons.1 hk
    exact cons_iff.2 ⟨hn, hlo, ih (Nat.le_refl k) hks⟩

end Ascends

namespace Line.Ascend

variable {l : Line} {ls rest : List Line}

theorem cons_iff :
    Line.Ascend Known lo (l :: ls) ↔ Known l.number ∧ lo ≤ l.number ∧ Line.Ascend Known l.number ls :=
  Ascends.cons_iff

theorem known (h : Line.Ascend Known lo ls) : ∀ l ∈ ls, Known l.number :=
  fun l hl => Ascends.known h l.number (List.mem_map_of_mem hl)

theorem weaken {lo' : Nat} (h : Line.Ascend Known lo ls) (hlo : lo' ≤ lo) : Line.Ascend Known lo' ls :=
  Ascends.weaken h hlo

/-- Behind the first line the numbers ascend from its own, and with it, too. -/
theorem from_first (h : Line.Ascend Known lo (l :: ls)) : Line.Ascend Known l.number (l :: ls) :=
  cons_iff.2 ⟨(cons_iff.1 h).1, Nat.le_refl _, (cons_iff.1 h).2.2⟩

theorem suffix (h : Line.Ascend Known lo ls) (hs : rest <:+ ls) : Line.Ascend Known lo rest :=
  Ascends.sublist h (hs.sublist.map _)

theorem left (h : Line.Ascend Known lo ls) (hl : Left ls rest) : Line.Ascend Known lo rest := by
  cases hl with
  | suffix hs => exact h.suffix hs
  | @remainder taken later last before after hls _ _ =>
    subst hls
    refine Ascends.sublist h ?_
    simp

theorem cutOut {body : List Line} (h : Line.Ascend Known lo ls) (hc : CutOut ls body rest) :
    Line.Ascend Known lo body ∧ Line.Ascend Known lo rest :=
  ⟨Ascends.sublist h hc.numbers, h.left hc.left⟩

/-- Lines made out of one line before lines behind it. -/
theorem made {new : List Line} (hl : Known l.number) (hlo : lo ≤ l.number)
    (hnew : ∀ k ∈ new, k.number = l.number) (h : Line.Ascend Known l.number ls) :
    Line.Ascend Known lo (new ++ ls) := by
  rw [Line.Ascend,List.map_append]
  refine Ascends.repeated hl hlo (fun k hk => ?_) h
  obtain ⟨line, hline, rfl⟩ := List.mem_map.1 hk
  exact hnew line hline

end Line.Ascend

namespace Make

/-- What is put in the place of lines has the number of the first of them. -/
theorem Puts.number {m : Make} {l k : Line} {ls new : List Line} {found : List Pattern.Match}
    (h : Puts m (l :: ls) found new) (hk : k ∈ new) : k.number = l.number := by
  cases h with
  | window _ =>
    obtain ⟨t, -, rfl⟩ := List.mem_map.1 hk
    rfl
  | around _ _ =>
    obtain ⟨i, hi, rfl⟩ := List.mem_mapIdx.1 hk
    rfl
  | alone _ _ => simp [Line.trimmed?_some (Option.mem_toList.1 hk)]

theorem Passes.ascend {m : Make} {ls out : List Line} (h : Passes m ls out)
    (hls : Line.Ascend Known lo ls) : Line.Ascend Known lo out := by
  induction h generalizing lo with
  | done => exact hls
  | rewritten hfound hputs _ ih =>
    cases hfound with
    | cons _ _ =>
      obtain ⟨hl, hlo, hrest⟩ := Line.Ascend.cons_iff.1 hls
      exact Line.Ascend.made hl hlo (fun k hk => hputs.number hk)
        (ih (hrest.suffix (List.suffix_append _ _)))
  | kept _ _ ih =>
    obtain ⟨hl, hlo, hr⟩ := Line.Ascend.cons_iff.1 hls
    exact Line.Ascend.cons_iff.2 ⟨hl, hlo, ih hr⟩

/-- Rewritten lines ascend as the lines did. -/
theorem ascend_apply (m : Make) {ls : List Line} (h : Line.Ascend Known lo ls) :
    Line.Ascend Known lo (m.apply ls 0) := by
  obtain ⟨out, hpasses, happly⟩ := m.apply_passes ls 0
  rw [happly]
  exact hpasses.ascend h

end Make

/-- An error names a known line, and a result is as it should be. -/
def Located {α : Type} (Known : Nat → Prop) (P : α → Prop) : Except ParseError α → Prop
  | .error e => Known e.line
  | .ok a => P a

namespace Located

variable {α β : Type} {P : α → Prop} {Q : β → Prop} {r : Except ParseError α}

theorem of_error (h : Located Known P r) {e : ParseError} (hr : r = .error e) : Known e.line := by
  rw [hr] at h
  exact h

theorem of_ok (h : Located Known P r) {a : α} (hr : r = .ok a) : P a := by
  rw [hr] at h
  exact h

theorem imp {P' : α → Prop} (h : Located Known P r) (hp : ∀ a, P a → P' a) : Located Known P' r := by
  cases r with
  | error e => exact h
  | ok a => exact hp a h

theorem bind {f : α → Except ParseError β} (h : Located Known P r)
    (hf : ∀ a, P a → Located Known Q (f a)) : Located Known Q (r >>= f) := by
  cases r with
  | error e => exact h
  | ok a => exact hf a h

theorem map {f : α → β} (h : Located Known P r) (hf : ∀ a, P a → Q (f a)) :
    Located Known Q (r.map f) := by
  cases r with
  | error e => exact h
  | ok a => exact hf a h

end Located

theorem Pattern.compile_located (h : Known n) (source : String) (accept : CaptureClass) :
    Located Known (fun _ => True) (Pattern.compile source accept n) := by
  unfold Pattern.compile
  dsimp only
  split
  · exact h
  · split
    · trivial
    · exact h

namespace Make

/-- What a reader of a part of a declaration does: it takes lines from the front, and an error names a known
line. -/
def Takes {α : Type} (Known : Nat → Prop) (ls : List Line) (r : Except ParseError α × List Line) : Prop :=
  Located Known (fun _ => True) r.1 ∧ r.2 <:+ ls

theorem readTake_takes {ls : List Line} (hn : Known n) (h : ∀ l ∈ ls, Known l.number)
    (take : List (List Char)) : Takes Known ls (readTake n take ls) := by
  induction ls generalizing take with
  | nil => exact ⟨hn, List.suffix_rfl⟩
  | cons l r ih =>
    obtain ⟨hl, hr⟩ := List.forall_mem_cons.1 h
    unfold readTake
    split
    · split
      · exact ⟨trivial, List.suffix_cons l r⟩
      · exact ⟨hl, List.suffix_cons l r⟩
    · exact ⟨(ih hr _).1, (ih hr _).2.trans (List.suffix_cons l r)⟩

theorem readReplace_takes (hn : Known n) (ls : List Line) (replace : List (List Char)) :
    Takes Known ls (readReplace n replace ls) := by
  induction ls generalizing replace with
  | nil => exact ⟨hn, List.suffix_rfl⟩
  | cons l r ih =>
    unfold readReplace
    split
    · exact ⟨trivial, List.suffix_cons l r⟩
    · exact ⟨(ih _).1, (ih _).2.trans (List.suffix_cons l r)⟩

theorem ofTexts_located (hn : Known n) (take replace : List (List Char)) :
    Located Known (fun _ => True) (ofTexts n take replace) := by
  have hpatterns : Located Known (fun _ => True)
      (take.mapM fun t => Pattern.compile (String.ofList t) .nonBlank n) := by
    induction take with
    | nil => trivial
    | cons t ts ih =>
      rw [List.mapM_cons]
      exact .bind (Pattern.compile_located hn _ _) fun p _ => .bind ih fun ps _ => trivial
  refine .bind hpatterns fun patterns _ => ?_
  cases patterns with
  | nil => exact hn
  | cons p ps => trivial

theorem finish_takes (hn : Known n) (take : List (List Char)) (replace : List Char) (ls : List Line) :
    Takes Known ls (finish n take replace ls) := by
  have hreplace := readReplace_takes hn ls []
  unfold finish
  split
  · exact ⟨hn, List.suffix_rfl⟩
  · split
    · generalize readReplace n [] ls = r at hreplace
      obtain ⟨e | texts, rest⟩ := r
      · exact hreplace
      · exact ⟨ofTexts_located hn take texts, hreplace.2⟩
    · exact ⟨ofTexts_located hn take [replace], List.suffix_rfl⟩

theorem read_takes {header : Line} {tail : List Line} (h : ∀ l ∈ header :: tail, Known l.number) :
    Takes Known tail (read header tail) := by
  obtain ⟨hheader, htail⟩ := List.forall_mem_cons.1 h
  have htake := readTake_takes hheader htail []
  unfold read
  dsimp only
  split
  · split
    · generalize readTake header.number [] tail = r at htake
      obtain ⟨e | ⟨take, replace⟩, rest⟩ := r
      · exact htake
      · have hfinish := finish_takes hheader take replace rest
        exact ⟨hfinish.1, hfinish.2.trans htake.2⟩
    · split
      · exact finish_takes hheader _ _ tail
      · exact ⟨hheader, List.suffix_rfl⟩
  · exact ⟨hheader, List.suffix_rfl⟩

/-- A declaration is read off the lines, and those left are rewritten. -/
theorem ascend_expand {header : Line} {tail : List Line} (h : Line.Ascend Known lo (header :: tail)) :
    Located Known (fun _ => True) (expand header tail).1 ∧
      Line.Ascend Known header.number (expand header tail).2 := by
  obtain ⟨-, -, htail⟩ := Line.Ascend.cons_iff.1 h
  have hread := read_takes h.known
  unfold expand expandBehind
  generalize read header tail = r at hread
  obtain ⟨e | m, rest⟩ := r
  · exact ⟨hread.1, htail.suffix hread.2⟩
  · exact ⟨trivial, m.ascend_apply (htail.suffix hread.2)⟩

end Make

section Headers

variable {d : Declarations} {header : Line} {tail : List Line}

theorem Block.find_located (h : Known header.number) :
    Located Known (fun _ => True) (Block.find (header :: tail)) := by
  unfold Block.find
  dsimp only
  split
  · trivial
  · exact h
  · trivial

theorem takeBody_located (h : Known header.number) (tail : List Line) (construct : String) :
    Located Known (fun _ => True) (takeBody construct header tail).1 := by
  unfold takeBody
  split
  · next hf => exact (Block.find_located h).of_error hf
  · trivial
  · trivial
  · exact h

theorem Declarations.tokens_located (h : Known n) (text : String) :
    Located Known (fun _ => True) (d.tokens text n) := by
  unfold Declarations.tokens
  split
  · trivial
  · split
    · exact h
    · trivial

/-- Parameters have the number of the line that they are written on. -/
theorem readParams_located (h : Known n) (tokens : List Token) :
    Located Known (fun vs => ∀ v ∈ vs, v.line = n) (readParams d tokens n) := by
  unfold readParams
  generalize false = optional
  induction Token.commaGroups tokens generalizing optional with
  | nil => simp [paramsFrom,Located]
  | cons group r ih =>
    unfold paramsFrom
    dsimp only
    split
    · exact h
    · split
      · exact h
      · split
        · next hr => exact List.forall_mem_cons.2 ⟨rfl, (ih _).of_ok hr⟩
        · next hr => exact (ih _).of_error hr

/-- The condition of a statement is read from its header. -/
theorem StatementHead.read_located (h : Known header.number) (kind : StatementKind) :
    Located Known (fun head => ∀ ts, head.condition = some ts →
      ∃ text tokens, d.tokens text header.number = .ok tokens ∧ ts = tokens.drop 1)
      (StatementHead.read d kind header tail).1 := by
  have hsplit : Located Known (fun _ => True) (StatementHead.split kind header tail).1 := by
    unfold StatementHead.split
    dsimp only
    split
    · next hf => exact (Block.find_located h).of_error hf
    · trivial
    · split
      · split
        · exact h
        · trivial
      · trivial
      · exact h
  unfold StatementHead.read
  generalize StatementHead.split kind header tail = r at hsplit
  obtain ⟨e | ⟨head, body⟩, rest⟩ := r
  · exact hsplit
  · dsimp only
    split
    · next ht => exact (Declarations.tokens_located h head).of_error ht
    · next tokens ht =>
      split
      · exact nofun
      · split
        · exact h
        · exact fun ts hts => ⟨head, tokens, ht, (Option.some.inj hts).symm⟩

theorem MethodHead.ofText_located (h : Known n) (text : String) (body : List Line) :
    Located Known (fun head => ∀ v ∈ head.params, v.line = n) (MethodHead.ofText d n text body) := by
  have hsignature (tokens : List Token) :
      Located Known (fun vs => ∀ v ∈ vs, v.line = n) (readSignature d n tokens) := by
    unfold readSignature
    split
    · simp [Located]
    · split
      · exact readParams_located h _
      · exact h
  have hreturns (tokens : Option (List Token)) :
      Located Known (fun _ => True) (readReturns d n tokens) := by
    unfold readReturns
    split
    · trivial
    · dsimp only
      split
      · split
        · trivial
        · exact h
      · exact h
  unfold MethodHead.ofText
  split
  · split
    · exact .bind (hsignature _) fun vs hvs => .bind (hreturns _) fun _ _ => hvs
    · exact h
  · exact h

theorem MethodHead.read_located (h : Known header.number) :
    Located Known (fun head => ∀ v ∈ head.params, v.line = header.number)
      (MethodHead.read d header tail).1 := by
  have htake := takeBody_located h tail "method"
  unfold MethodHead.read
  generalize takeBody "method" header tail = r at htake
  obtain ⟨e | ⟨text, body⟩, rest⟩ := r
  · exact htake
  · exact MethodHead.ofText_located h text body

/-- A class starts on the line of its header and without parts. -/
theorem ClassHead.read_located (h : Known header.number) :
    Located Known (fun head => ∃ name modifiers length,
      head.start = ClassHead.emptyClass name header.number modifiers length)
      (ClassHead.read header tail).1 := by
  unfold ClassHead.read
  split
  · next hf => exact (Block.find_located h).of_error hf
  · exact h
  · dsimp only
    split
    · split
      · exact ⟨_, _, _, rfl⟩
      · exact h
    · exact h

theorem ConverterHead.read_located (h : Known header.number) :
    Located Known (fun _ => True) (ConverterHead.read d header tail).1 := by
  have htake := takeBody_located h tail "get"
  unfold ConverterHead.read
  generalize takeBody "get" header tail = r at htake
  obtain ⟨e | ⟨text, body⟩, rest⟩ := r
  · exact htake
  · dsimp only
    split
    · split
      · split
        · trivial
        · exact h
      · exact h
    · exact h

/-- An error may also name a line of the body, where a class is unknown. -/
theorem Container.read_located (h : ∀ l ∈ header :: tail, Known l.number) :
    Located Known (fun c => c.line = header.number) (Container.read d header tail).1 := by
  have hheader : Known header.number := h header (by simp)
  have hmembers (name : String) (tokens : List (Nat × Token)) (ht : ∀ t ∈ tokens, Known t.1) :
      Located Known (fun _ => True) (Container.members d name tokens) := by
    induction tokens with
    | nil => trivial
    | cons t r ih =>
      obtain ⟨ht, hr⟩ := List.forall_mem_cons.1 ht
      unfold Container.members
      split
      · split
        · trivial
        · next he => exact (ih hr).of_error he
      · exact ht
  unfold Container.read
  split
  · next hf => exact (Block.find_located hheader).of_error hf
  · exact hheader
  · next b hb =>
    have hbody : ∀ l ∈ b.body, Known l.number := by
      intro l hl
      have hnumber := (Block.cutOut_of_find hb).numbers.subset (List.mem_map_of_mem hl)
      obtain ⟨k, hk, hkl⟩ := List.mem_map.1 hnumber
      exact hkl ▸ h k hk
    dsimp only
    split
    · split
      · refine .map (hmembers _ _ fun t ht => ?_) fun _ _ => rfl
        obtain ⟨l, hl, ht⟩ := List.mem_flatMap.1 ht
        obtain ⟨_, -, rfl⟩ := List.mem_map.1 ht
        exact hbody l hl
      · exact hheader
    · exact hheader

/-- A reader of headers, by what it does to the numbers: the lines left ascend, and so does the body of a
header that is accepted. -/
theorem Line.Ascend.reads {α : Type} {ls : List Line} {body : α → List Line} {P : α → Prop}
    {r : Except ParseError α × List Line} (h : Line.Ascend Known n ls) (hreads : Reads ls body r)
    (hlocated : Located Known P r.1) :
    Line.Ascend Known n r.2 ∧ Located Known (fun a => Line.Ascend Known n (body a) ∧ P a) r.1 := by
  obtain ⟨e | a, rest⟩ := r
  · exact ⟨h.left hreads.1, hlocated⟩
  · have hcut := h.cutOut (hreads.2 a rfl)
    exact ⟨hcut.2, hcut.1, hlocated⟩

end Headers

end LineScript
