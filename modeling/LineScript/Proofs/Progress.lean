import LineScript.Proofs.Parser.Consumption
import LineScript.Proofs.Token.Standing
set_option autoImplicit false

/-!
Reading makes progress. Without a `make` among the lines, every step takes something from their front,
whatever body it reads is smaller than what it took, and so every reading ends; the fuel it takes is
linear in the size of the text.
-/

namespace LineScript

/-- The word `make` stands nowhere in the lines, not even as a part of another word. -/
def MakeFree (ls : List Line) : Prop := ∀ l ∈ ls, ¬"make".toList <:+: l.text.toList

instance (ls : List Line) : Decidable (MakeFree ls) :=
  inferInstanceAs (Decidable (∀ l ∈ ls, ¬"make".toList <:+: l.text.toList))

theorem MakeFree.of_within {ls ks : List Line} (h : MakeFree ls) (hk : ∀ k ∈ ks, Line.Within ls k) :
    MakeFree ks := by
  intro k hmem hmake
  obtain ⟨l, hl, hi⟩ := hk k hmem
  exact h l hl (hmake.trans hi)

theorem Line.infix_of_mem_ofTexts {n : Nat} {texts : List (List Char)} {l : Line}
    (h : l ∈ Line.ofTexts n texts) : ∃ t ∈ texts, l.text.toList <:+: t := by
  induction texts generalizing n with
  | nil => cases h
  | cons t texts ih =>
    have hlater (hl : l ∈ Line.ofTexts (n + 1) texts) : ∃ u ∈ t :: texts, l.text.toList <:+: u := by
      obtain ⟨u, hu, hi⟩ := ih hl
      exact ⟨u, List.mem_cons_of_mem t hu, hi⟩
    rw [Line.ofTexts] at h
    split at h
    · exact hlater h
    · rcases List.mem_cons.1 h with rfl | h
      · exact ⟨t, by simp, by simpa using Text.trim_infix t⟩
      · exact hlater h

theorem MakeFree.ofSource {source : String} (h : ¬"make".toList <:+: source.toList) :
    MakeFree (Line.ofSource source) := by
  intro l hl hmake
  obtain ⟨t, ht, hi⟩ := Line.infix_of_mem_ofTexts hl
  exact h (hmake.trans (hi.trans (Lexer.stands_of_mem_pieces rfl ht).isInfix))

namespace Parser

/-- What a construct takes from the lines. -/
def Construct.Consumes (ls : List Line) : Construct → Prop
  | .settled s => Left ls s.rest ∧ ∀ row, s.result = .ok row → Line.total s.rest < Line.total ls
  | .ofLines body rest _ => CutOut ls body rest
  | .ofMembers _ body rest _ => CutOut ls body rest

/-- What a member takes from the lines of a class. -/
def Membership.Consumes (ls : List Line) : Membership → Prop
  | .refused _ => True
  | .settled _ rest => Left ls rest ∧ Line.total rest < Line.total ls
  | .ofLines body rest _ => CutOut ls body rest
  | .ofMembers _ body rest _ => CutOut ls body rest

theorem Construct.Consumes.cutOut {ls body rest : List Line} {f : Construct} (h : f.Consumes ls)
    (hn : f.nested? = some (body, rest)) : CutOut ls body rest := by
  cases f with
  | settled s => cases hn
  | ofLines body' rest' finish =>
    obtain ⟨rfl, rfl⟩ := Prod.mk.inj (Option.some.inj hn)
    exact h
  | ofMembers start body' rest' finish =>
    obtain ⟨rfl, rfl⟩ := Prod.mk.inj (Option.some.inj hn)
    exact h

theorem Membership.Consumes.cutOut {ls body rest : List Line} {f : Membership} (h : f.Consumes ls)
    (hn : f.nested? = some (body, rest)) : CutOut ls body rest := by
  cases f with
  | refused e => cases hn
  | settled c rest' => cases hn
  | ofLines body' rest' finish =>
    obtain ⟨rfl, rfl⟩ := Prod.mk.inj (Option.some.inj hn)
    exact h
  | ofMembers start body' rest' finish =>
    obtain ⟨rfl, rfl⟩ := Prod.mk.inj (Option.some.inj hn)
    exact h

theorem Construct.Consumes.dropped (p : Parser) (header : Line) (tail : List Line)
    (r : Except ParseError (Option (Row Token))) :
    Construct.Consumes (header :: tail) (.settled ⟨p, tail, r⟩) := by
  refine ⟨.drop header tail, fun _ _ => ?_⟩
  have hpos := header.size_pos
  simp only [Line.total_cons]
  omega

theorem front_consumes {header : Line} {tail : List Line} (h : MakeFree (header :: tail))
    (p : Parser) : (front p header tail).Consumes (header :: tail) := by
  unfold front
  cases hs : Lexer.split header.text with
  | nil => exact .dropped p header tail _
  | cons first more =>
    have hmake : first ≠ "make" := by
      rintro rfl
      exact h header (by simp) (Lexer.infix_of_mem_split (by simp [hs]))
    dsimp only
    rw [if_neg hmake]
    cases StatementKind.ofKeyword? first with
    | some kind =>
      have hread := StatementHead.read_reads p.declared header tail kind
      dsimp only
      generalize StatementHead.read p.declared kind header tail = r at hread
      obtain ⟨e | head, rest⟩ := r
      · exact ⟨hread.1, nofun⟩
      · exact hread.2 head rfl
    | none =>
      dsimp only
      split
      · have hread := ClassHead.read_reads header tail
        generalize ClassHead.read header tail = r at hread
        obtain ⟨e | head, rest⟩ := r
        · exact ⟨hread.1, nofun⟩
        · exact hread.2 head rfl
      · split
        · have hread := MethodHead.read_reads p.declared header tail
          generalize MethodHead.read p.declared header tail = r at hread
          obtain ⟨e | head, rest⟩ := r
          · exact ⟨hread.1, nofun⟩
          · exact hread.2 head rfl
        · split
          · have hread := Container.read_reads p.declared header tail
            generalize Container.read p.declared header tail = r at hread
            obtain ⟨e | c, rest⟩ := r
            · exact ⟨hread.1, nofun⟩
            · refine ⟨hread.1, fun _ _ => ?_⟩
              have hsmaller := (hread.2 c rfl).smaller
              simpa only [Line.total_nil,Nat.zero_add] using hsmaller
          · rcases p.declared.tokens header.text header.number with e | _ | ⟨t, ts⟩
            · exact .dropped p header tail _
            · exact .dropped p header tail _
            · exact .dropped p header tail _

theorem memberFront_consumes (p : Parser) (c : Class Token) (line : Line) (tail : List Line) :
    (memberFront p c line tail).Consumes (line :: tail) := by
  have hdrop (c' : Class Token) : Membership.Consumes (line :: tail) (.settled c' tail) := by
    refine ⟨.drop line tail, ?_⟩
    have hpos := line.size_pos
    simp only [Line.total_cons]
    omega
  unfold memberFront
  dsimp only
  split
  · exact hdrop c
  · split
    · have hread := ClassHead.read_reads line tail
      generalize ClassHead.read line tail = r at hread
      obtain ⟨e | head, rest⟩ := r
      · trivial
      · exact hread.2 head rfl
    · split
      · have hread := MethodHead.read_reads p.declared line tail
        generalize MethodHead.read p.declared line tail = r at hread
        obtain ⟨e | head, rest⟩ := r
        · trivial
        · exact hread.2 head rfl
      · split
        · have hread := ConverterHead.read_reads p.declared line tail
          generalize ConverterHead.read p.declared line tail = r at hread
          obtain ⟨e | head, rest⟩ := r
          · trivial
          · exact hread.2 head rfl
        · rcases Member.addSimple p.declared c line (Token.codeOfText line.text) with e | c'
          · trivial
          · exact hdrop c'

/-- One step leaves what is left of the lines, and less of them if it ends well. -/
theorem nextLine_left {fuel : Nat} {p : Parser} {ls : List Line} {s : Step} (hfree : MakeFree ls)
    (h : nextLine fuel p ls = some s) :
    Left ls s.rest ∧ (ls ≠ [] → ∀ row, s.result = .ok row → Line.total s.rest < Line.total ls) := by
  cases fuel with
  | zero => cases h
  | succ fuel =>
    cases ls with
    | nil =>
      obtain rfl := Option.some.inj h
      exact ⟨.refl _, fun hnil => absurd rfl hnil⟩
    | cons header tail =>
      have hfront := front_consumes hfree p
      have hclose {α : Type} {body rest : List Line} (hcut : CutOut (header :: tail) body rest)
          (finish : Parser → α → Parser × Row Token) (r : Parser × Except ParseError α) :
          Left (header :: tail) (Step.close rest finish r).rest ∧
            Line.total (Step.close rest finish r).rest < Line.total (header :: tail) := by
        have hrest : (Step.close rest finish r).rest = rest := by
          obtain ⟨q, e | a⟩ := r <;> rfl
        have hsmaller := hcut.smaller
        rw [hrest]
        exact ⟨hcut.left, by omega⟩
      rw [nextLine_cons] at h
      cases hf : front p header tail with
      | settled t =>
        rw [hf] at h hfront
        obtain rfl := Option.some.inj h
        exact ⟨hfront.1, fun _ => hfront.2⟩
      | ofLines body rest finish =>
        rw [hf] at h hfront
        obtain ⟨r, -, rfl⟩ := Option.map_eq_some_iff.1 h
        obtain ⟨hleft, hlt⟩ := hclose hfront finish r
        exact ⟨hleft, fun _ _ _ => hlt⟩
      | ofMembers start body rest finish =>
        rw [hf] at h hfront
        obtain ⟨r, -, rfl⟩ := Option.map_eq_some_iff.1 h
        obtain ⟨hleft, hlt⟩ := hclose hfront finish r
        exact ⟨hleft, fun _ _ _ => hlt⟩

/-- With this fuel every reading ends whose lines are small enough for it. -/
structure EndsWith (fuel : Nat) : Prop where
  nextLine : ∀ {p : Parser} {ls : List Line}, MakeFree ls → 2 * Line.total ls < fuel →
    ∃ s, nextLine fuel p ls = some s
  parseLines : ∀ {p : Parser} {ls : List Line}, MakeFree ls → 2 * Line.total ls + 1 < fuel →
    ∃ q r, parseLines fuel p ls = some (q, r)
  parseMembers : ∀ {p : Parser} {c : Class Token} {ls : List Line}, MakeFree ls →
    2 * Line.total ls + 1 < fuel → ∃ q r, parseMembers fuel p c ls = some (q, r)

namespace EndsWith

variable {fuel : Nat} (ih : EndsWith fuel) {p : Parser} {ls : List Line}
include ih

theorem nextLine_succ (hfree : MakeFree ls) (hfuel : 2 * Line.total ls < fuel + 1) :
    ∃ s, Parser.nextLine (fuel + 1) p ls = some s := by
  cases ls with
  | nil => exact ⟨_, rfl⟩
  | cons header tail =>
    have hfront := front_consumes hfree p
    rw [nextLine_cons]
    cases hf : front p header tail with
    | settled s => exact ⟨s, rfl⟩
    | ofLines body rest finish =>
      rw [hf] at hfront
      have hsmaller := hfront.smaller
      obtain ⟨q, r, hr⟩ := ih.parseLines (p := p) (hfree.of_within hfront.within) (by omega)
      exact ⟨Step.close rest finish (q, r), by simp [Construct.run,hr]⟩
    | ofMembers start body rest finish =>
      rw [hf] at hfront
      have hsmaller := hfront.smaller
      obtain ⟨q, r, hr⟩ :=
        ih.parseMembers (p := p) (c := start) (hfree.of_within hfront.within) (by omega)
      exact ⟨Step.close rest finish (q, r), by simp [Construct.run,hr]⟩

theorem parseLines_succ (hfree : MakeFree ls) (hfuel : 2 * Line.total ls + 1 < fuel + 1) :
    ∃ q r, Parser.parseLines (fuel + 1) p ls = some (q, r) := by
  cases ls with
  | nil => exact ⟨p, .ok [], rfl⟩
  | cons l ls =>
    obtain ⟨⟨q, rest, r⟩, hn⟩ := ih.nextLine (p := p) hfree (by omega)
    obtain ⟨hleft, hlt⟩ := nextLine_left hfree hn
    rw [Parser.parseLines,hn]
    cases r with
    | error e => exact ⟨q, .error e, rfl⟩
    | ok row =>
      have hlt := hlt (by simp) row rfl
      obtain ⟨q', r', hl⟩ :=
        ih.parseLines (p := q) (hfree.of_within fun l hl => hleft.within hl) (by omega)
      simp only [hl]
      cases r' with
      | error e => exact ⟨q', .error e, rfl⟩
      | ok rows => exact ⟨q', .ok (row.toList ++ rows), rfl⟩

theorem parseMembers_succ {c : Class Token} (hfree : MakeFree ls)
    (hfuel : 2 * Line.total ls + 1 < fuel + 1) :
    ∃ q r, Parser.parseMembers (fuel + 1) p c ls = some (q, r) := by
  cases ls with
  | nil => exact ⟨p, .ok c, rfl⟩
  | cons line tail =>
    have hfront := memberFront_consumes p c line tail
    rw [parseMembers_cons]
    cases hf : memberFront p c line tail with
    | refused e => exact ⟨p, .error e, rfl⟩
    | settled c' rest =>
      rw [hf] at hfront
      obtain ⟨hleft, hlt⟩ := hfront
      exact ih.parseMembers (hfree.of_within fun l hl => hleft.within hl) (by omega)
    | ofLines body rest finish =>
      rw [hf] at hfront
      have hsmaller := hfront.smaller
      have hrest := hfree.of_within fun l hl => hfront.left.within hl
      obtain ⟨q, r, hr⟩ := ih.parseLines (p := p) (hfree.of_within hfront.within) (by omega)
      simp only [Membership.run,hr]
      cases r with
      | error e => exact ⟨q, .error e, rfl⟩
      | ok rows => exact ih.parseMembers hrest (by omega)
    | ofMembers start body rest finish =>
      rw [hf] at hfront
      have hsmaller := hfront.smaller
      have hrest := hfree.of_within fun l hl => hfront.left.within hl
      obtain ⟨q, r, hr⟩ :=
        ih.parseMembers (p := p) (c := start) (hfree.of_within hfront.within) (by omega)
      simp only [Membership.run,hr]
      cases r with
      | error e => exact ⟨q, .error e, rfl⟩
      | ok nested => exact ih.parseMembers hrest (by omega)

end EndsWith

theorem endsWith (fuel : Nat) : EndsWith fuel := by
  induction fuel with
  | zero => exact ⟨by omega, by omega, by omega⟩
  | succ fuel ih => exact ⟨ih.nextLine_succ, ih.parseLines_succ, ih.parseMembers_succ⟩

/-- Collecting ends, too: a refused construct that took no line loses its first one. -/
theorem collectLines_ends {fuel : Nat} {p : Parser} {ls : List Line} (hfree : MakeFree ls)
    (hfuel : 2 * Line.total ls + 1 < fuel) : ∃ r, collectLines fuel p ls = some r := by
  induction fuel generalizing p ls with
  | zero => omega
  | succ fuel ih =>
    cases ls with
    | nil => exact ⟨_, rfl⟩
    | cons l ls =>
      obtain ⟨⟨q, rest, r⟩, hn⟩ := (endsWith fuel).nextLine (p := p) hfree (by omega)
      obtain ⟨hleft, hlt⟩ := nextLine_left hfree hn
      have hrest := hfree.of_within fun l hl => hleft.within hl
      rw [collectLines,hn]
      cases r with
      | ok row =>
        have hlt := hlt (by simp) row rfl
        obtain ⟨t, ht⟩ := ih (p := q) hrest (by omega)
        simp only [ht]
        exact ⟨_, rfl⟩
      | error e =>
        have hgo : ∃ t, collectLines fuel q
            (if rest.length = (l :: ls).length then rest.drop 1 else rest) = some t := by
          have htotal := hleft.eq_or_total_lt
          split
          · next hlen =>
            refine ih (fun k hk => hrest k (List.mem_of_mem_drop hk)) ?_
            cases rest with
            | nil => simp at hlen
            | cons k rest =>
              have hpos := k.size_pos
              have hle : Line.total (k :: rest) ≤ Line.total (l :: ls) := by
                rcases htotal with heq | hlt
                · exact Nat.le_of_eq (congrArg Line.total heq)
                · exact Nat.le_of_lt hlt
              simp only [Line.total_cons,List.drop_succ_cons,List.drop_zero] at hle hfuel ⊢
              omega
          · next hlen =>
            refine ih hrest ?_
            rcases htotal with rfl | hlt
            · exact absurd rfl hlen
            · dsimp only at hlt ⊢
              omega
        obtain ⟨t, ht⟩ := hgo
        simp only [ht]
        exact ⟨_, rfl⟩

theorem parseWith_ends {fuel : Nat} {source : String} (p : Parser)
    (hfree : ¬"make".toList <:+: source.toList)
    (hfuel : 2 * Line.total (Line.ofSource source) + 1 < fuel) :
    (∃ q r, p.parseWith fuel source = some (q, r)) ∧
      ∃ q program found, p.parseTolerantWith fuel source = some (q, program, found) := by
  obtain ⟨q, r, hstrict⟩ := (endsWith fuel).parseLines (p := p) (.ofSource hfree) hfuel
  obtain ⟨⟨q', rows, errors⟩, htolerant⟩ := collectLines_ends (p := p) (.ofSource hfree) hfuel
  unfold parseWith parseTolerantWith
  rw [hstrict,htolerant]
  constructor
  · cases r with
    | error e => exact ⟨_, _, rfl⟩
    | ok rows => exact ⟨_, _, rfl⟩
  · exact ⟨_, _, _, rfl⟩

/-- Reading takes lines from the front only, and less remains of them whenever a construct is accepted;
the bodies that it reads on the way are smaller than the text they were cut from; so it ends. -/
theorem reading_progresses :
    (∀ fuel p ls s, MakeFree ls → nextLine fuel p ls = some s →
      Left ls s.rest ∧
        (ls ≠ [] → ∀ row, s.result = .ok row → Line.total s.rest < Line.total ls)) ∧
    (∀ p header tail, MakeFree (header :: tail) →
      (∀ fuel, nextLine (fuel + 1) p (header :: tail) = (front p header tail).run fuel p) ∧
      ∀ body rest, (front p header tail).nested? = some (body, rest) →
        Line.total body + Line.total rest < Line.total (header :: tail)) ∧
    (∀ p c line tail,
      (∀ fuel, parseMembers (fuel + 1) p c (line :: tail) = (memberFront p c line tail).run fuel p) ∧
      ∀ body rest, (memberFront p c line tail).nested? = some (body, rest) →
        Line.total body + Line.total rest < Line.total (line :: tail)) ∧
    ∀ (p : Parser) (source : String), ¬"make".toList <:+: source.toList →
      ∀ fuel, 2 * Line.total (Line.ofSource source) + 1 < fuel →
        (∃ q r, p.parseWith fuel source = some (q, r)) ∧
          ∃ q program found, p.parseTolerantWith fuel source = some (q, program, found) := by
  refine ⟨?_, ?_, ?_, ?_⟩
  · intro fuel p ls s hfree h
    exact nextLine_left hfree h
  · intro p header tail hfree
    refine ⟨fun fuel => nextLine_cons fuel p header tail, fun body rest h => ?_⟩
    exact ((front_consumes hfree p).cutOut h).smaller
  · intro p c line tail
    refine ⟨fun fuel => parseMembers_cons fuel p c line tail, fun body rest h => ?_⟩
    exact ((memberFront_consumes p c line tail).cutOut h).smaller
  · intro p source hfree fuel hfuel
    exact parseWith_ends p hfree hfuel

/-- A statement and what stands behind its block on the same line. -/
def crowdedLines : List Line := [⟨1, "if x \x7b y \x7d z"⟩, ⟨2, "w"⟩]

theorem reading_progresses_crowded :
    (∃ s row, nextLine 5 empty crowdedLines = some s ∧ s.result = .ok row ∧
      s.rest = [⟨1, "z"⟩, ⟨2, "w"⟩] ∧ Left crowdedLines s.rest ∧
      Line.total s.rest < Line.total crowdedLines) ∧
    ((front empty ⟨1, "if x \x7b y \x7d z"⟩ [⟨2, "w"⟩]).nested? =
        some ([⟨1, "y"⟩], [⟨1, "z"⟩, ⟨2, "w"⟩]) ∧
      Line.total [⟨1, "y"⟩] + Line.total [⟨1, "z"⟩, ⟨2, "w"⟩] < Line.total crowdedLines) ∧
    ((memberFront empty (ClassHead.emptyClass "A" 1 [] 3) ⟨2, "method f"⟩ [⟨3, "return x"⟩]).nested? =
        some ([⟨3, "return x"⟩], []) ∧
      Line.total [⟨3, "return x"⟩] + Line.total [] <
        Line.total [⟨2, "method f"⟩, ⟨3, "return x"⟩]) ∧
    ∃ q r, empty.parseWith 40 "if x \x7b y \x7d z\nw" = some (q, r) := by
  obtain ⟨hnext, hfront, hmember, hends⟩ := reading_progresses
  have hfree : MakeFree crowdedLines := by decide +kernel
  refine ⟨?_, ?_, ?_, ?_⟩
  · have hrun : ((nextLine 5 empty crowdedLines).map fun s => (s.rest, s.result.toOption.isSome)) =
        some ([⟨1, "z"⟩, ⟨2, "w"⟩], true) := by decide +kernel
    obtain ⟨⟨q, rest, r⟩, hs, he⟩ := Option.map_eq_some_iff.1 hrun
    cases r with
    | error e => simp [Except.toOption] at he
    | ok row =>
      obtain ⟨hleft, hlt⟩ := hnext 5 empty crowdedLines _ hfree hs
      have hrest : rest = [⟨1, "z"⟩, ⟨2, "w"⟩] := (Prod.mk.inj he).1
      exact ⟨_, row, hs, rfl, hrest, hleft, hlt (by decide) row rfl⟩
  · have hnested : (front empty ⟨1, "if x \x7b y \x7d z"⟩ [⟨2, "w"⟩]).nested? =
        some ([⟨1, "y"⟩], [⟨1, "z"⟩, ⟨2, "w"⟩]) := by decide +kernel
    exact ⟨hnested, (hfront empty _ _ hfree).2 _ _ hnested⟩
  · have hnested : (memberFront empty (ClassHead.emptyClass "A" 1 [] 3) ⟨2, "method f"⟩
        [⟨3, "return x"⟩]).nested? = some ([⟨3, "return x"⟩], []) := by decide +kernel
    exact ⟨hnested, (hmember empty _ _ _).2 _ _ hnested⟩
  · exact (hends empty _ (by decide +kernel) 40 (by decide +kernel)).1

end Parser

end LineScript
