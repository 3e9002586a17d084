import LineScript.Proofs.Block.Location
import LineScript.Proofs.Block.Orderly
import LineScript.Proofs.Parser.Fuel
import LineScript.Proofs.Progress
import Mathlib.Logic.Relation
set_option autoImplicit false

/-!
Recovery of the tolerant reading. A construct whose block is closed leaves the lines behind its block, whether
it is accepted or refused, and reading goes on there. Only where the whole block stands on one line with more
text behind it, a refused construct takes that text away, too: as many lines are left as before, so one more is
dropped.
-/

namespace LineScript

variable {header : Line} {tail : List Line} {b : Block}

theorem first_ne_make {first : String} {more : List String} (hs : Lexer.split header.text = first :: more)
    (hopens : opensConstruct header.text = true) : first ≠ "make" := by
  rintro rfl
  have hkeyword : StatementKind.ofKeyword? "make" = none := by decide
  simp [opensConstruct,hs,hkeyword,declaresClass,declaresMethod,declares] at hopens

section readers

variable (hb : Block.find (header :: tail) = .ok (some b))
include hb

theorem takeBody_block (construct : String) :
    takeBody construct header tail = (.ok (b.head, b.body), b.rest) := by
  simp [takeBody,hb]

theorem StatementHead.read_rest (d : Declarations) (kind : StatementKind) :
    (StatementHead.read d kind header tail).2 = b.rest := by
  have hsplit : StatementHead.split kind header tail = (.ok (b.head, b.body), b.rest) := by
    simp [StatementHead.split,hb]
  unfold StatementHead.read
  rw [hsplit]
  dsimp only
  split
  · rfl
  · split
    · rfl
    · split
      · rfl
      · rfl

theorem MethodHead.read_rest (d : Declarations) : (MethodHead.read d header tail).2 = b.rest := by
  simp [MethodHead.read,takeBody_block hb]

theorem ClassHead.read_rest : (ClassHead.read header tail).2 = b.rest := by
  unfold ClassHead.read
  rw [hb]
  dsimp only
  split
  · split
    · rfl
    · rfl
  · rfl

theorem Container.read_rest (d : Declarations) : (Container.read d header tail).2 = b.rest := by
  unfold Container.read
  rw [hb]
  dsimp only
  split
  · split
    · rfl
    · rfl
  · rfl

end readers

namespace Parser

/-- The lines behind the construct. -/
def Construct.rest : Construct → List Line
  | .settled s => s.rest
  | .ofLines _ rest _ => rest
  | .ofMembers _ _ rest _ => rest

/-- A construct with a closed block leaves what is behind the block. -/
theorem front_rest (p : Parser) (hopens : opensConstruct header.text = true)
    (hb : Block.find (header :: tail) = .ok (some b)) : (front p header tail).rest = b.rest := by
  unfold front
  cases hs : Lexer.split header.text with
  | nil => simp [opensConstruct,hs] at hopens
  | cons first more =>
    dsimp only
    rw [if_neg (first_ne_make hs hopens)]
    cases hk : StatementKind.ofKeyword? first with
    | some kind =>
      have hread := StatementHead.read_rest hb p.declared kind
      dsimp only
      generalize StatementHead.read p.declared kind header tail = r at hread
      obtain ⟨e | head, rest⟩ := r
      · exact hread
      · exact hread
    | none =>
      dsimp only
      split
      · have hread := ClassHead.read_rest hb
        generalize ClassHead.read header tail = r at hread
        obtain ⟨e | head, rest⟩ := r
        · exact hread
        · exact hread
      · next hclass =>
        split
        · have hread := MethodHead.read_rest hb p.declared
          generalize MethodHead.read p.declared header tail = r at hread
          obtain ⟨e | head, rest⟩ := r
          · exact hread
          · exact hread
        · next hmethod =>
          have hcontainer : first = "container" := by
            simpa [opensConstruct,hs,hk,hclass,hmethod] using hopens
          have hread := Container.read_rest hb p.declared
          rw [if_pos hcontainer]
          generalize Container.read p.declared header tail = r at hread
          obtain ⟨e | c, rest⟩ := r
          · exact hread
          · exact hread

theorem nextLine_rest {fuel : Nat} {p : Parser} {s : Step}
    (hopens : opensConstruct header.text = true)
    (hb : Block.find (header :: tail) = .ok (some b)) (hs : nextLine fuel p (header :: tail) = some s) :
    s.rest = b.rest := by
  have hclose {α : Type} (rest : List Line) (finish : Parser → α → Parser × Row Token)
      (r : Parser × Except ParseError α) : (Step.close rest finish r).rest = rest := by
    obtain ⟨q, e | a⟩ := r <;> rfl
  have hrest := front_rest p hopens hb
  cases fuel with
  | zero => cases hs
  | succ fuel =>
    rw [nextLine_cons] at hs
    cases hf : front p header tail with
    | settled t =>
      rw [hf] at hs hrest
      obtain rfl := Option.some.inj hs
      exact hrest
    | ofLines body rest finish =>
      rw [hf] at hs hrest
      obtain ⟨r, -, rfl⟩ := Option.map_eq_some_iff.1 hs
      exact (hclose rest finish r).trans hrest
    | ofMembers start body rest finish =>
      rw [hf] at hs hrest
      obtain ⟨r, -, rfl⟩ := Option.map_eq_some_iff.1 hs
      exact (hclose rest finish r).trans hrest

theorem nextLine_unique {n k : Nat} {p : Parser} {ls : List Line} {s t : Step}
    (hs : nextLine n p ls = some s) (ht : nextLine k p ls = some t) : s = t := by
  have hmax := (outlasts (Nat.le_max_left n k)).nextLine hs
  have hmax' := (outlasts (Nat.le_max_right n k)).nextLine ht
  exact Option.some.inj (hmax.symm.trans hmax')

/-- More fuel gives the same tolerant reading. -/
theorem collectLines_mono {n k : Nat} (h : n ≤ k) {p : Parser} {ls : List Line}
    {r : Parser × List (Row Token) × List ParseError} (hr : collectLines n p ls = some r) :
    collectLines k p ls = some r := by
  induction n generalizing k p ls r with
  | zero => cases hr
  | succ n ih =>
    cases k with
    | zero => omega
    | succ k =>
      have hnk : n ≤ k := Nat.le_of_succ_le_succ h
      cases ls with
      | nil => exact hr
      | cons l ls =>
        rw [collectLines] at hr ⊢
        cases hn : nextLine n p (l :: ls) with
        | none => simp [hn] at hr
        | some s =>
          rw [hn] at hr
          rw [(outlasts hnk).nextLine hn]
          obtain ⟨q, rest, e | row⟩ := s
          · obtain ⟨t, ht, rfl⟩ := Option.map_eq_some_iff.1 hr
            exact Option.map_eq_some_iff.2 ⟨t, ih hnk ht, rfl⟩
          · obtain ⟨t, ht, rfl⟩ := Option.map_eq_some_iff.1 hr
            exact Option.map_eq_some_iff.2 ⟨t, ih hnk ht, rfl⟩

namespace Step

/-- The row that a step adds to a tolerant reading. -/
def rows (s : Step) : List (Row Token) :=
  match s.result with
  | .ok row => row.toList
  | .error _ => []

/-- The error that a step adds to it. -/
def errors (s : Step) : List ParseError :=
  match s.result with
  | .ok _ => []
  | .error e => [e]

/-- The lines with which it goes on, of which there were `given` before. -/
def onward (s : Step) (given : Nat) : List Line :=
  match s.result with
  | .ok _ => s.rest
  | .error _ => if s.rest.length = given then s.rest.drop 1 else s.rest

end Step

/-- A tolerant reading under way: the parser, the lines left, and the rows and errors so far. -/
structure Reading where
  parser : Parser
  lines : List Line
  rows : List (Row Token)
  errors : List ParseError

namespace Reading

variable {r r' : Reading} {rows : List (Row Token)} {errors : List ParseError}

/-- The reading with a step added. -/
def add (r : Reading) (s : Step) : Reading :=
  ⟨s.parser, s.onward r.lines.length, r.rows ++ s.rows, r.errors ++ s.errors⟩

/-- One turn of a reading takes the construct at the front of its lines. -/
def Turn (r r' : Reading) : Prop :=
  r.lines ≠ [] ∧ ∃ fuel s, nextLine fuel r.parser r.lines = some s ∧ r' = r.add s

/-- The reading of a source comes to this point. -/
def Reached (p : Parser) (source : String) (r : Reading) : Prop :=
  Relation.ReflTransGen Turn ⟨p, Line.ofSource source, [], []⟩ r

/-- The reading ends with these rows and errors. -/
def Ends (r : Reading) (rows : List (Row Token)) (errors : List ParseError) : Prop :=
  ∃ fuel q more found, collectLines fuel r.parser r.lines = some (q, more, found) ∧
    rows = r.rows ++ more ∧ errors = r.errors ++ found

theorem turn_iff (hne : r.lines ≠ []) {fuel : Nat} {s : Step}
    (hs : nextLine fuel r.parser r.lines = some s) : r.Turn r' ↔ r' = r.add s := by
  constructor
  · rintro ⟨-, k, t, ht, rfl⟩
    rw [nextLine_unique hs ht]
  · rintro rfl
    exact ⟨hne, fuel, s, hs, rfl⟩

/-- Collecting takes one step and goes on with what it leaves. -/
theorem collectLines_succ {fuel : Nat} {s : Step} (hne : r.lines ≠ [])
    (hs : nextLine fuel r.parser r.lines = some s) :
    collectLines (fuel + 1) r.parser r.lines =
      (collectLines fuel (r.add s).parser (r.add s).lines).map fun t =>
        (t.1, s.rows ++ t.2.1, s.errors ++ t.2.2) := by
  obtain ⟨p, _ | ⟨l, ls⟩, rows, errors⟩ := r
  · exact absurd rfl hne
  · obtain ⟨q, rest, e | row⟩ := s
    · simp [collectLines,hs,add,Step.onward,Step.rows,Step.errors]
    · simp [collectLines,hs,add,Step.onward,Step.rows,Step.errors]

/-- What a reading ends with does not change on the way. -/
theorem Turn.ends_iff (h : r.Turn r') : r.Ends rows errors ↔ r'.Ends rows errors := by
  obtain ⟨hne, fuel, s, hs, rfl⟩ := h
  constructor
  · rintro ⟨n, q, more, found, hc, rfl, rfl⟩
    have hlong := collectLines_mono (Nat.le_max_left n (fuel + 1)) hc
    obtain ⟨k, hk⟩ : ∃ k, max n (fuel + 1) = k + 1 := ⟨max n (fuel + 1) - 1, by omega⟩
    have hsk : nextLine k r.parser r.lines = some s := (outlasts (by omega)).nextLine hs
    rw [hk,collectLines_succ hne hsk] at hlong
    obtain ⟨⟨q', more', found'⟩, hrest, heq⟩ := Option.map_eq_some_iff.1 hlong
    obtain ⟨-, rfl, rfl⟩ : q' = q ∧ s.rows ++ more' = more ∧ s.errors ++ found' = found := by simpa using heq
    exact ⟨k, q', more', found', hrest, by simp [add], by simp [add]⟩
  · rintro ⟨n, q, more, found, hc, rfl, rfl⟩
    have hsk := (outlasts (Nat.le_max_left fuel n)).nextLine hs
    have hrest := collectLines_mono (Nat.le_max_right fuel n) hc
    refine ⟨max fuel n + 1, q, s.rows ++ more, s.errors ++ found, ?_, by simp [add], by simp [add]⟩
    rw [collectLines_succ hne hsk,hrest]
    rfl

theorem Reached.ends {p : Parser} {source : String} (h : Reached p source r) {fuel : Nat} {q : Parser}
    {program : Program} {found : Diagnostics}
    (hread : p.parseTolerantWith fuel source = some (q, program, found)) :
    r.Ends program.lines found.errors := by
  induction h with
  | refl =>
    unfold parseTolerantWith at hread
    cases hc : collectLines fuel p (Line.ofSource source) with
    | none => simp [hc] at hread
    | some t =>
      obtain ⟨q', rows, errors⟩ := t
      simp only [hc,Option.some.injEq,Prod.mk.injEq] at hread
      obtain ⟨-, rfl, rfl⟩ := hread
      exact ⟨fuel, q', rows, errors, hc, rfl, rfl⟩
  | tail _ hturn ih => exact hturn.ends_iff.1 ih

end Reading

end Parser

namespace Block

/-- A block closes at one place only. -/
theorem ClosesAt.unique {inner : List Line} {n n' i i' : Nat} {l l' : Line} (h : ClosesAt 1 inner n i l)
    (h' : ClosesAt 1 inner n' i' l') : n = n' ∧ i = i' ∧ l = l' := by
  have hle {n n' i i' : Nat} {l l' : Line} (h : ClosesAt 1 inner n i l) (h' : ClosesAt 1 inner n' i' l') :
      n' < n ∨ n' = n ∧ i' ≤ i := by
    by_contra hlt
    have hopen := h'.before n (i + 1) (by omega)
    have hzero := h.zero
    omega
  have hsame : n = n' ∧ i = i' := by
    have hge := hle h h'
    have hge' := hle h' h
    omega
  obtain ⟨rfl, rfl⟩ := hsame
  have hline := h.line
  rw [h'.line] at hline
  exact ⟨rfl, rfl, (Option.some.inj hline).symm⟩

/-- A block that closes is found, and what is left is the text behind its brace with the lines after it. -/
theorem Opens.left_of_closesAt {ls inner : List Line} {before : List Char} {start n i : Nat} {last : Line}
    (h : Opens ls before start inner) (hat : ClosesAt 1 inner n i last) :
    start + n < ls.length ∧ ∃ b, Block.find ls = .ok (some b) ∧
      b.rest = (Line.trimmed? last.number (last.text.toList.drop (i + 1))).toList ++
        ls.drop (start + n + 1) := by
  obtain ⟨b, hb⟩ : ∃ b, Block.find ls = .ok (some b) := by
    by_contra hnone
    have hdeep := (h.unclosed fun b hb => hnone ⟨b, hb⟩).1 n (i + 1)
    have hzero := hat.zero
    omega
  obtain ⟨hn, -⟩ := List.getElem?_eq_some_iff.1 hat.line
  have hlength := h.length_eq
  refine ⟨by omega, b, hb, ?_⟩
  obtain ⟨n', i', l, hat', rfl⟩ := h.closesAt hb
  obtain ⟨rfl, rfl, rfl⟩ := hat.unique hat'
  rfl

end Block

/-- A refused construct that leaves `behind` and the lines after `taken` ones: only if it took one line and left
something of it, there are as many lines as before, and then what it left of it is dropped. -/
theorem Parser.Step.onward_of_refused {s : Step} {e : ParseError} (he : s.result = .error e) {behind : Option Line}
    {tail : List Line} {taken : Nat} (hle : taken ≤ tail.length)
    (hrest : s.rest = behind.toList ++ tail.drop taken) :
    (1 ≤ taken ∨ behind = none → s.onward (tail.length + 1) = behind.toList ++ tail.drop taken) ∧
      (taken = 0 → s.onward (tail.length + 1) = tail) := by
  have hlength : s.rest.length = behind.toList.length + (tail.length - taken) := by simp [hrest]
  simp only [Step.onward,he]
  cases behind with
  | none =>
    have hshort : s.rest.length ≠ tail.length + 1 := by
      simp at hlength
      omega
    rw [if_neg hshort]
    refine ⟨fun _ => hrest, ?_⟩
    rintro rfl
    simpa using hrest
  | some l =>
    constructor
    · rintro (hone | hnone)
      · have hshort : s.rest.length ≠ tail.length + 1 := by
          simp at hlength
          omega
        rw [if_neg hshort,hrest]
      · cases hnone
    · rintro rfl
      simp [hrest]

/-- A refused construct whose block is closed, at any point of the tolerant reading of a source: the next turn is
the only one there is, it adds the error and goes on with the text behind the closing brace, as a line with the
number of its line, and the lines after that, unless the whole block stands on one line: then it goes on with the
next line, and text behind the brace is lost. How the reading goes on from there is how it ends. -/
theorem Parser.recovery_resumes (p : Parser) (source : String) (hfree : ¬"make".toList <:+: source.toList)
    {r : Reading} (hreached : Reading.Reached p source r) {header : Line} {tail : List Line}
    (hlines : r.lines = header :: tail) (hconstruct : opensConstruct header.text = true)
    {before : List Char} {start n i : Nat} {inner : List Line} {last : Line}
    (hopens : Block.Opens (header :: tail) before start inner) (hcloses : Block.ClosesAt 1 inner n i last)
    {fuel : Nat} {s : Step} {e : ParseError} (hs : nextLine fuel r.parser (header :: tail) = some s)
    (he : s.result = .error e) :
    ∃ r' : Reading, (∀ t, r.Turn t ↔ t = r') ∧ r'.parser = s.parser ∧ r'.rows = r.rows ∧
      r'.errors = r.errors ++ [e] ∧
      (1 ≤ start + n ∨ Line.trimmed? last.number (last.text.toList.drop (i + 1)) = none →
        r'.lines = (Line.trimmed? last.number (last.text.toList.drop (i + 1))).toList ++
          tail.drop (start + n)) ∧
      (start + n = 0 → r'.lines = tail) ∧
      ∃ k q program found, p.parseTolerantWith k source = some (q, program, found) ∧
        r'.Ends program.lines found.errors := by
  obtain ⟨hle, b, hb, hleft⟩ := hopens.left_of_closesAt hcloses
  have hrest := (nextLine_rest hconstruct hb hs).trans hleft
  obtain ⟨hkept, hlost⟩ := Step.onward_of_refused he (Nat.le_of_lt_succ hle) hrest
  rw [← hlines] at hs
  have hne : r.lines ≠ [] := by simp [hlines]
  have honward : (r.add s).lines = s.onward (tail.length + 1) := by simp [Reading.add,hlines]
  obtain ⟨-, q, program, found, hread⟩ := parseWith_ends p hfree (Nat.lt_succ_self _)
  have hends := Reading.Reached.ends (hreached.tail ((Reading.turn_iff hne hs).2 rfl)) hread
  refine ⟨r.add s, fun t => Reading.turn_iff hne hs, rfl, ?_, ?_, ?_, ?_, _, q, program, found, hread, hends⟩
  · simp [Reading.add,Step.rows,he]
  · simp [Reading.add,Step.errors,he]
  · intro h
    rw [honward,hkept h]
  · intro h
    rw [honward,hlost h]

/-- A class with a member that is none, text behind its block and a line after it. -/
def refusedClassSource : String := "class A \x7b\nprint : hi\n\x7d after\nnext"

theorem Parser.recovery_resumes_behind_class :
    ∃ r' : Reading, (∀ t, Reading.Turn ⟨empty, Line.ofSource refusedClassSource, [], []⟩ t ↔ t = r') ∧
      r'.lines = [⟨3, "after"⟩, ⟨4, "next"⟩] ∧ r'.errors = [⟨2, .invalidMember "print : hi"⟩] ∧
      ∃ k q program found, empty.parseTolerantWith k refusedClassSource = some (q, program, found) ∧
        r'.Ends program.lines found.errors := by
  have hlines : Line.ofSource refusedClassSource =
      ⟨1, "class A \x7b"⟩ :: [⟨2, "print : hi"⟩, ⟨3, "\x7d after"⟩, ⟨4, "next"⟩] := by decide +kernel
  have hopens : Block.Opens (⟨1, "class A \x7b"⟩ :: [⟨2, "print : hi"⟩, ⟨3, "\x7d after"⟩, ⟨4, "next"⟩])
      "class A ".toList 0 (⟨1, ""⟩ :: [⟨2, "print : hi"⟩, ⟨3, "\x7d after"⟩, ⟨4, "next"⟩]) :=
    .here ⟨by decide +kernel, by decide +kernel, by decide +kernel⟩
  have hfind : Block.find (⟨1, "class A \x7b"⟩ :: [⟨2, "print : hi"⟩, ⟨3, "\x7d after"⟩, ⟨4, "next"⟩]) =
      .ok (some ⟨"class A", [⟨2, "print : hi"⟩], 3, some ⟨3, "after"⟩, [⟨4, "next"⟩]⟩) := by decide +kernel
  have hrun : ((nextLine 9 empty (⟨1, "class A \x7b"⟩ :: [⟨2, "print : hi"⟩, ⟨3, "\x7d after"⟩, ⟨4, "next"⟩])).bind
      fun s => match s.result with
        | .error e => some e
        | .ok _ => none) = some ⟨2, .invalidMember "print : hi"⟩ := by decide +kernel
  obtain ⟨n, i, last, hcloses, hblock⟩ := hopens.closesAt hfind
  have htaken : 3 = 0 + n + 1 := congrArg Block.consumed hblock
  have hbehind : some ⟨3, "after"⟩ = Line.trimmed? last.number (last.text.toList.drop (i + 1)) :=
    congrArg Block.remainder hblock
  obtain rfl : n = 2 := by omega
  obtain ⟨s, hs, he⟩ := Option.bind_eq_some_iff.1 hrun
  cases hresult : s.result with
  | ok row => simp [hresult] at he
  | error e =>
    obtain rfl : e = ⟨2, .invalidMember "print : hi"⟩ := by simpa [hresult] using he
    obtain ⟨r', hturn, -, -, herrors, hkept, -, hends⟩ := recovery_resumes empty refusedClassSource
      (by decide +kernel) .refl hlines (by decide +kernel) hopens hcloses hs hresult
    refine ⟨r', hturn, ?_, by simpa using herrors, hends⟩
    rw [hkept (.inl (by omega)),← hbehind]
    rfl

/-- A refused statement whose block stands on one line with text behind it: the text is lost, though it is what
the block leaves and though the same text behind a block of two lines is read. -/
theorem Parser.recovery_loses_text :
    ((nextLine 9 empty [⟨1, "if \x7b \x7d after"⟩, ⟨2, "next"⟩]).map fun s => (s.result.toOption.isNone, s.rest)) =
      some (true, [⟨1, "after"⟩, ⟨2, "next"⟩]) ∧
    ((empty.parseTolerantWith 9 "if \x7b \x7d after\nnext").map fun r =>
      (r.2.1.lines.map fun row => row.line.text, r.2.2.errors)) =
        some (["next"], [⟨1, .missingCondition "if"⟩]) ∧
    ((empty.parseTolerantWith 9 "if \x7b\n\x7d after\nnext").map fun r =>
      (r.2.1.lines.map fun row => row.line.text, r.2.2.errors)) =
        some (["after", "next"], [⟨1, .missingCondition "if"⟩]) := by
  decide +kernel

end LineScript
