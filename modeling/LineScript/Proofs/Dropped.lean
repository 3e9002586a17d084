import LineScript.Proofs.Progress
set_option autoImplicit false

/-!
What a refused construct leaves in the tables. Declarations are registered as soon as they are read, also
those inside a body that is refused later on, so a dropped construct leaves nothing behind only if its
body declares nothing: then the parser is the one from before.
-/

namespace LineScript

/-- The words that declare something, and the one that can write them. -/
def declaringWords : List String := ["class", "method", "container", "make"]

/-- None of these words stands in the lines, not even as a part of another word. -/
def Quiet (ls : List Line) : Prop :=
  ∀ l ∈ ls, ∀ w ∈ declaringWords, ¬w.toList <:+: l.text.toList

instance (ls : List Line) : Decidable (Quiet ls) :=
  inferInstanceAs (Decidable (∀ l ∈ ls, ∀ w ∈ declaringWords, ¬w.toList <:+: l.text.toList))

namespace Quiet

variable {ls ks : List Line}

theorem of_within (h : Quiet ls) (hk : ∀ k ∈ ks, Line.Within ls k) : Quiet ks := by
  intro k hmem w hw hword
  obtain ⟨l, hl, hi⟩ := hk k hmem
  exact h l hl w hw (hword.trans hi)

theorem makeFree (h : Quiet ls) : MakeFree ls := fun l hl => h l hl "make" (by decide)

/-- A declaring word is no part of a line. -/
theorem ne_of_mem_split (h : Quiet ls) {l : Line} (hl : l ∈ ls) {part w : String}
    (hp : part ∈ Lexer.split l.text) (hw : w ∈ declaringWords) : part ≠ w := by
  rintro rfl
  exact h l hl part hw (Lexer.infix_of_mem_split hp)

end Quiet

theorem mem_of_declares {keyword : String} {modifiers parts : List String}
    (h : declares keyword modifiers parts = true) : keyword ∈ parts := by
  induction parts with
  | nil => simp [declares] at h
  | cons p r ih =>
    simp only [declares,Bool.or_eq_true,Bool.and_eq_true,beq_iff_eq] at h
    rcases h with rfl | ⟨-, h⟩
    · exact List.mem_cons_self
    · exact List.mem_cons_of_mem p (ih h)

namespace Parser

/-- Without declaring words, what stands at the front declares nothing. -/
def Construct.Keeps (p : Parser) : Construct → Prop
  | .settled s => s.parser = p
  | .ofLines _ _ finish => ∀ q rows, (finish q rows).1 = q
  | .ofMembers _ _ _ _ => False

def Membership.Keeps : Membership → Prop
  | .refused _ => True
  | .settled _ _ => True
  | .ofLines _ _ finish => ∀ q rows, (finish q rows).1 = q
  | .ofMembers _ _ _ _ => False

theorem front_keeps {header : Line} {tail : List Line} (h : Quiet (header :: tail)) (p : Parser) :
    (front p header tail).Keeps p := by
  have hpart {part w : String} (hp : part ∈ Lexer.split header.text) (hw : w ∈ declaringWords) :
      part ≠ w := h.ne_of_mem_split List.mem_cons_self hp hw
  unfold front
  cases hs : Lexer.split header.text with
  | nil => rfl
  | cons first more =>
    rw [hs] at hpart
    have hmake : first ≠ "make" := hpart List.mem_cons_self (by decide)
    have hcontainer : first ≠ "container" := hpart List.mem_cons_self (by decide)
    have hclass : ¬declaresClass (first :: more) = true :=
      fun hd => hpart (mem_of_declares hd) (by decide) rfl
    have hmethod : ¬declaresMethod (first :: more) = true :=
      fun hd => hpart (mem_of_declares hd) (by decide) rfl
    simp only [if_neg hmake,if_neg hclass,if_neg hmethod,if_neg hcontainer]
    cases StatementKind.ofKeyword? first with
    | some kind =>
      dsimp only
      rcases StatementHead.read p.declared kind header tail with ⟨e | head, rest⟩
      · rfl
      · exact fun q rows => rfl
    | none => rcases p.declared.tokens header.text header.number with e | _ | ⟨t, ts⟩ <;> rfl

theorem memberFront_keeps {line : Line} {tail : List Line} (h : Quiet (line :: tail)) (p : Parser)
    (c : Class Token) : (memberFront p c line tail).Keeps := by
  have hpart {part w : String} (hp : part ∈ Lexer.split line.text) (hw : w ∈ declaringWords) :
      part ≠ w := h.ne_of_mem_split List.mem_cons_self hp hw
  have hclass : ¬declaresClass (Lexer.split line.text) = true :=
    fun hd => hpart (mem_of_declares hd) (by decide) rfl
  have hmethod : ¬declaresMethod (Lexer.split line.text) = true :=
    fun hd => hpart (mem_of_declares hd) (by decide) rfl
  unfold memberFront
  simp only [if_neg hclass,if_neg hmethod]
  split
  · trivial
  · split
    · rcases ConverterHead.read p.declared line tail with ⟨e | head, rest⟩
      · trivial
      · exact fun q rows => rfl
    · rcases Member.addSimple p.declared c line (Token.codeOfText line.text) with e | c'
      · trivial
      · trivial

/-- With this fuel, reading quiet lines leaves the parser as it was. -/
structure KeepsWith (fuel : Nat) : Prop where
  nextLine : ∀ {p : Parser} {ls : List Line} {s : Step}, Quiet ls →
    nextLine fuel p ls = some s → s.parser = p
  parseLines : ∀ {p q : Parser} {ls : List Line} {r : Except ParseError (List (Row Token))},
    Quiet ls → parseLines fuel p ls = some (q, r) → q = p
  parseMembers : ∀ {p q : Parser} {c : Class Token} {ls : List Line}
    {r : Except ParseError (Class Token)}, Quiet ls → parseMembers fuel p c ls = some (q, r) → q = p

namespace KeepsWith

variable {fuel : Nat} (ih : KeepsWith fuel) {p q : Parser} {ls : List Line}
include ih

theorem nextLine_succ {s : Step} (hq : Quiet ls) (h : Parser.nextLine (fuel + 1) p ls = some s) :
    s.parser = p := by
  cases ls with
  | nil =>
    obtain rfl := Option.some.inj h
    rfl
  | cons header tail =>
    have hkeeps := front_keeps hq p
    have hfront := front_consumes hq.makeFree p
    rw [nextLine_cons] at h
    cases hf : front p header tail with
    | settled t =>
      rw [hf] at h hkeeps
      obtain rfl := Option.some.inj h
      exact hkeeps
    | ofLines body rest finish =>
      rw [hf] at h hkeeps hfront
      obtain ⟨⟨q, r⟩, hr, rfl⟩ := Option.map_eq_some_iff.1 h
      have hp : q = p := ih.parseLines (hq.of_within hfront.within) hr
      cases r with
      | error e => exact hp
      | ok rows => exact (hkeeps q rows).trans hp
    | ofMembers start body rest finish =>
      rw [hf] at hkeeps
      exact hkeeps.elim

theorem parseLines_succ {r : Except ParseError (List (Row Token))} (hq : Quiet ls)
    (h : Parser.parseLines (fuel + 1) p ls = some (q, r)) : q = p := by
  cases ls with
  | nil => exact (Prod.mk.inj (Option.some.inj h)).1.symm
  | cons l ls =>
    rw [Parser.parseLines] at h
    cases hn : Parser.nextLine fuel p (l :: ls) with
    | none => simp [hn] at h
    | some s =>
      have hp := ih.nextLine hq hn
      have hleft := (nextLine_left hq.makeFree hn).1
      rw [hn] at h
      obtain ⟨q', rest, e | row⟩ := s
      · obtain ⟨rfl, -⟩ := Prod.mk.inj (Option.some.inj h)
        exact hp
      · rcases hl : Parser.parseLines fuel q' rest with _ | ⟨q'', r'⟩
        · simp [hl] at h
        · have hp' : q'' = q' := ih.parseLines (hq.of_within fun l hl => hleft.within hl) hl
          have hqq : q'' = q := by
            cases r' with
            | error e => simpa [hl] using congrArg (Option.map Prod.fst) h
            | ok rows => simpa [hl] using congrArg (Option.map Prod.fst) h
          exact hqq.symm.trans (hp'.trans hp)

theorem parseMembers_succ {c : Class Token} {r : Except ParseError (Class Token)} (hq : Quiet ls)
    (h : Parser.parseMembers (fuel + 1) p c ls = some (q, r)) : q = p := by
  cases ls with
  | nil => exact (Prod.mk.inj (Option.some.inj h)).1.symm
  | cons line tail =>
    have hkeeps := memberFront_keeps hq p c
    have hfront := memberFront_consumes p c line tail
    rw [parseMembers_cons] at h
    cases hf : memberFront p c line tail with
    | refused e =>
      rw [hf] at h
      exact (Prod.mk.inj (Option.some.inj h)).1.symm
    | settled c' rest =>
      rw [hf] at h hfront
      exact ih.parseMembers (hq.of_within fun l hl => hfront.1.within hl) h
    | ofLines body rest finish =>
      rw [hf] at hkeeps hfront
      have hrest := hq.of_within fun l hl => hfront.left.within hl
      simp only [hf,Membership.run] at h
      rcases hl : Parser.parseLines fuel p body with _ | ⟨q', e | rows⟩
      · simp [hl] at h
      · have hp : q' = p := ih.parseLines (hq.of_within hfront.within) hl
        simp only [hl] at h
        obtain ⟨rfl, -⟩ := Prod.mk.inj (Option.some.inj h)
        exact hp
      · have hp : q' = p := ih.parseLines (hq.of_within hfront.within) hl
        simp only [hl] at h
        exact (ih.parseMembers hrest h).trans ((hkeeps q' rows).trans hp)
    | ofMembers start body rest finish =>
      rw [hf] at hkeeps
      exact hkeeps.elim

end KeepsWith

theorem keepsWith (fuel : Nat) : KeepsWith fuel := by
  induction fuel with
  | zero => exact ⟨nofun, nofun, nofun⟩
  | succ fuel ih => exact ⟨ih.nextLine_succ, ih.parseLines_succ, ih.parseMembers_succ⟩

/-- A construct that is refused before its body is read has registered nothing. -/
def Construct.Unlearned (p : Parser) : Construct → Prop
  | .settled s => ∀ e, s.result = .error e → s.parser = p
  | .ofLines _ _ _ => True
  | .ofMembers _ _ _ _ => True

theorem front_unlearned (p : Parser) (header : Line) (tail : List Line) :
    (front p header tail).Unlearned p := by
  unfold front
  cases Lexer.split header.text with
  | nil => exact fun e he => rfl
  | cons first more =>
    dsimp only
    split
    · rcases Make.expand header tail with ⟨e | _, rest⟩
      · exact fun e he => rfl
      · exact fun e he => rfl
    · cases StatementKind.ofKeyword? first with
      | some kind =>
        dsimp only
        rcases StatementHead.read p.declared kind header tail with ⟨e | head, rest⟩
        · exact fun e he => rfl
        · trivial
      | none =>
        dsimp only
        split
        · rcases ClassHead.read header tail with ⟨e | head, rest⟩
          · exact fun e he => rfl
          · trivial
        · split
          · rcases MethodHead.read p.declared header tail with ⟨e | head, rest⟩
            · exact fun e he => rfl
            · trivial
          · split
            -- only an accepted container has been registered already
            · rcases Container.read p.declared header tail with ⟨e | c, rest⟩
              · exact fun e he => rfl
              · exact nofun
            · rcases p.declared.tokens header.text header.number with e | _ | ⟨t, ts⟩
              · exact fun e he => rfl
              · exact nofun
              · exact nofun

/-- A refused construct leaves the parser as it was if its body declares nothing, and also if it was
refused before its body was read. -/
theorem refused_leaves_nothing (fuel : Nat) (p : Parser) (header : Line) (tail : List Line) (s : Step)
    (e : ParseError) (h : nextLine fuel p (header :: tail) = some s) (he : s.result = .error e)
    (hquiet : ∀ body rest, (front p header tail).nested? = some (body, rest) → Quiet body) :
    s.parser = p := by
  cases fuel with
  | zero => cases h
  | succ fuel =>
    rw [nextLine_cons] at h
    cases hf : front p header tail with
    | settled t =>
      rw [hf] at h
      obtain rfl := Option.some.inj h
      have hun := front_unlearned p header tail
      rw [hf] at hun
      exact hun e he
    | ofLines body rest finish =>
      rw [hf] at h hquiet
      obtain ⟨⟨q, r⟩, hr, rfl⟩ := Option.map_eq_some_iff.1 h
      cases r with
      | error e => exact (keepsWith fuel).parseLines (hquiet body rest rfl) hr
      | ok rows => cases he
    | ofMembers start body rest finish =>
      rw [hf] at h hquiet
      obtain ⟨⟨q, r⟩, hr, rfl⟩ := Option.map_eq_some_iff.1 h
      cases r with
      | error e => exact (keepsWith fuel).parseMembers (hquiet body rest rfl) hr
      | ok c => cases he

/-- A class with a member that is none. -/
theorem refused_leaves_nothing_member :
    ∃ s e, nextLine 9 empty [⟨1, "class A \x7b"⟩, ⟨2, "print : hi"⟩, ⟨3, "\x7d"⟩] = some s ∧
      s.result = .error e ∧ s.parser = empty := by
  have hrun : ((nextLine 9 empty [⟨1, "class A \x7b"⟩, ⟨2, "print : hi"⟩, ⟨3, "\x7d"⟩]).map
      fun s => s.result.toOption.isNone) = some true := by decide +kernel
  have hnested : (front empty ⟨1, "class A \x7b"⟩ [⟨2, "print : hi"⟩, ⟨3, "\x7d"⟩]).nested? =
      some ([⟨2, "print : hi"⟩], []) := by decide +kernel
  obtain ⟨⟨q, rest, r⟩, hs, hr⟩ := Option.map_eq_some_iff.1 hrun
  cases r with
  | ok row => simp [Except.toOption] at hr
  | error e =>
    refine ⟨_, e, hs, rfl, refused_leaves_nothing 9 empty _ _ _ e hs rfl ?_⟩
    intro body rest hb
    obtain ⟨rfl, -⟩ := Prod.mk.inj (Option.some.inj (hnested.symm.trans hb))
    decide +kernel

/-- A class that is refused because of its last member, behind a class inside it. -/
def nestedLines : List Line :=
  [⟨1, "class Outer \x7b"⟩, ⟨2, "class Inner \x7b"⟩, ⟨3, "\x7d"⟩, ⟨4, "bad"⟩, ⟨5, "\x7d"⟩]

theorem refused_class_leaves_inner_class :
    ∃ s, nextLine 9 empty nestedLines = some s ∧
      s.result = .error ⟨4, .invalidMember "bad"⟩ ∧ empty.declared.classes.keys = [] ∧
      s.parser.declared.classes.keys = ["Inner"] := by
  have hrun : ((nextLine 9 empty nestedLines).bind fun s =>
      match s.result with
      | .error e => some (e, s.parser.declared.classes.keys)
      | .ok _ => none) = some (⟨4, .invalidMember "bad"⟩, ["Inner"]) := by decide +kernel
  obtain ⟨⟨q, rest, r⟩, hs, hr⟩ := Option.bind_eq_some_iff.1 hrun
  cases r with
  | ok row => cases hr
  | error e =>
    obtain ⟨rfl, hkeys⟩ := Prod.mk.inj (Option.some.inj hr)
    exact ⟨_, hs, rfl, rfl, hkeys⟩

end Parser

end LineScript
