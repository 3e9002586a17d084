import LineScript.Parser.Basic
set_option autoImplicit false

/-!
What reading can do to a parser, said once: it registers classes, methods and containers, each under its
own name, and notes warnings. Facts about all parsers are proved by induction over that.
-/

namespace LineScript

namespace Parser

inductive Learns : Parser → Parser → Prop where
  | refl (p : Parser) : Learns p p
  | trans {p q r : Parser} : Learns p q → Learns q r → Learns p r
  | warned (p : Parser) (replaced : Bool) (w : Warning) : Learns p (p.warnIf replaced w)
  | ofClass (p : Parser) (c : Class Token) : Learns p (p.registerClass c)
  | ofMethod (p : Parser) (m : Method Token) : Learns p (p.registerMethod m)
  | ofContainer (p : Parser) (c : Container) : Learns p (p.registerContainer c)
  | forgotten (p : Parser) : Learns p { p with warnings := [] }

theorem declared_warnIf (p : Parser) (replaced : Bool) (w : Warning) :
    (p.warnIf replaced w).declared = p.declared := by
  unfold warnIf
  split <;> rfl

/-- What holds of declarations and is kept when a class, a method or a container is entered under its name
holds of all that is learned. -/
theorem Learns.declared_induction {P : Declarations → Prop}
    (hclass : ∀ (d : Declarations) (c : Class Token), P d →
      P { d with classes := d.classes.insert c.name c })
    (hmethod : ∀ (d : Declarations) (m : Method Token), P d →
      P { d with methods := d.methods.insert m.name m })
    (hcontainer : ∀ (d : Declarations) (c : Container), P d →
      P { d with containers := d.containers.insert c.name c })
    {p q : Parser} (h : p.Learns q) (hp : P p.declared) : P q.declared := by
  induction h with
  | refl p => exact hp
  | trans _ _ ih ih' => exact ih' (ih hp)
  | warned p replaced w => rwa [declared_warnIf]
  | ofClass p c =>
    rw [registerClass,declared_warnIf]
    exact hclass _ c hp
  | ofMethod p m =>
    rw [registerMethod,declared_warnIf]
    exact hmethod _ m hp
  | ofContainer p c =>
    rw [registerContainer,declared_warnIf]
    exact hcontainer _ c hp
  | forgotten p => exact hp

/-- With this fuel, whatever is read is learned in that way. -/
structure LearnsWith (fuel : Nat) : Prop where
  nextLine : ∀ {p : Parser} {ls : List Line} {s : Step},
    nextLine fuel p ls = some s → p.Learns s.parser
  parseLines : ∀ {p q : Parser} {ls : List Line} {r : Except ParseError (List (Row Token))},
    parseLines fuel p ls = some (q, r) → p.Learns q
  parseMembers : ∀ {p q : Parser} {c : Class Token} {ls : List Line}
    {r : Except ParseError (Class Token)}, parseMembers fuel p c ls = some (q, r) → p.Learns q

namespace LearnsWith

variable {fuel : Nat} (ih : LearnsWith fuel) {p q : Parser} {ls : List Line}
include ih

theorem nextLine_succ {s : Step} (h : Parser.nextLine (fuel + 1) p ls = some s) :
    p.Learns s.parser := by
  cases ls with
  | nil =>
    obtain rfl := Option.some.inj h
    exact .refl p
  | cons header tail =>
    unfold Parser.nextLine at h
    split at h
    · obtain rfl := Option.some.inj h
      exact .refl p
    · next first more _ =>
      split at h
      -- a `make` line changes the lines left, not the parser
      · split at h
        · obtain rfl := Option.some.inj h
          exact .refl p
        · obtain rfl := Option.some.inj h
          exact .refl p
      · split at h
        -- a statement
        · split at h
          · obtain rfl := Option.some.inj h
            exact .refl p
          · split at h
            · cases h
            · next hl => obtain rfl := Option.some.inj h; exact ih.parseLines hl
            · next hl => obtain rfl := Option.some.inj h; exact ih.parseLines hl
        · split at h
          -- a class
          · split at h
            · obtain rfl := Option.some.inj h
              exact .refl p
            · split at h
              · cases h
              · next hm => obtain rfl := Option.some.inj h; exact ih.parseMembers hm
              · next hm =>
                obtain rfl := Option.some.inj h
                exact (ih.parseMembers hm).trans (.ofClass _ _)
          · split at h
            -- a method
            · split at h
              · obtain rfl := Option.some.inj h
                exact .refl p
              · split at h
                · cases h
                · next hl => obtain rfl := Option.some.inj h; exact ih.parseLines hl
                · next hl =>
                  obtain rfl := Option.some.inj h
                  exact (ih.parseLines hl).trans (.ofMethod _ _)
            · split at h
              -- a container
              · split at h
                · obtain rfl := Option.some.inj h
                  exact .refl p
                · obtain rfl := Option.some.inj h
                  exact .ofContainer _ _
              -- any other line
              · split at h
                · obtain rfl := Option.some.inj h
                  exact .refl p
                · obtain rfl := Option.some.inj h
                  exact .refl p
                · obtain rfl := Option.some.inj h
                  exact .refl p

theorem parseLines_succ {r : Except ParseError (List (Row Token))}
    (h : Parser.parseLines (fuel + 1) p ls = some (q, r)) : p.Learns q := by
  cases ls with
  | nil =>
    obtain ⟨rfl, -⟩ := Prod.mk.inj (Option.some.inj h)
    exact .refl p
  | cons l ls =>
    unfold Parser.parseLines at h
    split at h
    · cases h
    · next hn =>
      obtain ⟨rfl, -⟩ := Prod.mk.inj (Option.some.inj h)
      exact ih.nextLine hn
    · next hn =>
      split at h
      · cases h
      · next hl =>
        obtain ⟨rfl, -⟩ := Prod.mk.inj (Option.some.inj h)
        exact (ih.nextLine hn).trans (ih.parseLines hl)
      · next hl =>
        obtain ⟨rfl, -⟩ := Prod.mk.inj (Option.some.inj h)
        exact (ih.nextLine hn).trans (ih.parseLines hl)

theorem parseMembers_succ {c : Class Token} {r : Except ParseError (Class Token)}
    (h : Parser.parseMembers (fuel + 1) p c ls = some (q, r)) : p.Learns q := by
  cases ls with
  | nil =>
    obtain ⟨rfl, -⟩ := Prod.mk.inj (Option.some.inj h)
    exact .refl p
  | cons line tail =>
    unfold Parser.parseMembers at h
    dsimp only at h
    split at h
    · exact ih.parseMembers h
    · split at h
      -- a nested class
      · split at h
        · obtain ⟨rfl, -⟩ := Prod.mk.inj (Option.some.inj h)
          exact .refl p
        · split at h
          · cases h
          · next hm =>
            obtain ⟨rfl, -⟩ := Prod.mk.inj (Option.some.inj h)
            exact ih.parseMembers hm
          · next hm => exact ((ih.parseMembers hm).trans (.ofClass _ _)).trans (ih.parseMembers h)
      · split at h
        -- a method of the class
        · split at h
          · obtain ⟨rfl, -⟩ := Prod.mk.inj (Option.some.inj h)
            exact .refl p
          · split at h
            · cases h
            · next hl =>
              obtain ⟨rfl, -⟩ := Prod.mk.inj (Option.some.inj h)
              exact ih.parseLines hl
            · next hl => exact ((ih.parseLines hl).trans (.warned _ _ _)).trans (ih.parseMembers h)
        · split at h
          -- a converter
          · split at h
            · obtain ⟨rfl, -⟩ := Prod.mk.inj (Option.some.inj h)
              exact .refl p
            · split at h
              · cases h
              · next hl =>
                obtain ⟨rfl, -⟩ := Prod.mk.inj (Option.some.inj h)
                exact ih.parseLines hl
              · next hl => exact (ih.parseLines hl).trans (ih.parseMembers h)
          · split at h
            · obtain ⟨rfl, -⟩ := Prod.mk.inj (Option.some.inj h)
              exact .refl p
            · exact ih.parseMembers h

end LearnsWith

theorem learnsWith (fuel : Nat) : LearnsWith fuel := by
  induction fuel with
  | zero => exact ⟨nofun, nofun, nofun⟩
  | succ fuel ih => exact ⟨ih.nextLine_succ, ih.parseLines_succ, ih.parseMembers_succ⟩

theorem collectLines_learns {fuel : Nat} {p q : Parser} {ls : List Line} {rows : List (Row Token)}
    {errors : List ParseError} (h : collectLines fuel p ls = some (q, rows, errors)) :
    p.Learns q := by
  induction fuel generalizing p ls rows errors with
  | zero => cases h
  | succ fuel ih =>
    cases ls with
    | nil =>
      obtain ⟨rfl, -⟩ := Prod.mk.inj (Option.some.inj h)
      exact .refl p
    | cons l ls =>
      unfold collectLines at h
      split at h
      · cases h
      · next hn =>
        obtain ⟨⟨q', rows', errors'⟩, hc, he⟩ := Option.map_eq_some_iff.1 h
        obtain ⟨rfl, -⟩ := Prod.mk.inj he
        exact ((learnsWith fuel).nextLine hn).trans (ih hc)
      · next hn =>
        obtain ⟨⟨q', rows', errors'⟩, hc, he⟩ := Option.map_eq_some_iff.1 h
        obtain ⟨rfl, -⟩ := Prod.mk.inj he
        exact ((learnsWith fuel).nextLine hn).trans (ih hc)

/-- Strict reading, also where it fails. -/
theorem parseWith_learns {fuel : Nat} {p q : Parser} {source : String}
    {r : Except ParseError Program} (h : p.parseWith fuel source = some (q, r)) :
    p.Learns q ∧ ∀ program, r = .ok program → program.declared = q.declared := by
  unfold parseWith at h
  split at h
  · cases h
  · next hl =>
    obtain ⟨rfl, rfl⟩ := Prod.mk.inj (Option.some.inj h)
    exact ⟨(learnsWith fuel).parseLines hl, nofun⟩
  · next hl =>
    obtain ⟨rfl, rfl⟩ := Prod.mk.inj (Option.some.inj h)
    refine ⟨((learnsWith fuel).parseLines hl).trans (.forgotten _), ?_⟩
    rintro program ⟨⟩
    rfl

theorem parseTolerantWith_learns {fuel : Nat} {p q : Parser} {source : String} {program : Program}
    {diagnostics : Diagnostics}
    (h : p.parseTolerantWith fuel source = some (q, program, diagnostics)) :
    p.Learns q ∧ program.declared = q.declared := by
  unfold parseTolerantWith at h
  split at h
  · cases h
  · next hc =>
    obtain ⟨rfl, he⟩ := Prod.mk.inj (Option.some.inj h)
    obtain ⟨rfl, -⟩ := Prod.mk.inj he
    exact ⟨(collectLines_learns hc).trans (.forgotten _), rfl⟩

end Parser

/-- A parser that was new and has read some texts, strictly or tolerantly. -/
inductive Parser.Seasoned : Parser → Prop where
  | new : Parser.Seasoned .empty
  | strict {fuel : Nat} {p q : Parser} {source : String} {r : Except ParseError Program} :
    p.Seasoned → p.parseWith fuel source = some (q, r) → q.Seasoned
  | tolerant {fuel : Nat} {p q : Parser} {source : String} {program : Program}
    {diagnostics : Diagnostics} : p.Seasoned →
    p.parseTolerantWith fuel source = some (q, program, diagnostics) → q.Seasoned

/-- A program that such a parser read. -/
inductive Program.Parsed : Program → Prop where
  | strict {fuel : Nat} {p q : Parser} {source : String} {program : Program} : p.Seasoned →
    p.parseWith fuel source = some (q, .ok program) → program.Parsed
  | tolerant {fuel : Nat} {p q : Parser} {source : String} {program : Program}
    {diagnostics : Diagnostics} : p.Seasoned →
    p.parseTolerantWith fuel source = some (q, program, diagnostics) → program.Parsed

theorem Parser.Seasoned.learns {p : Parser} (h : p.Seasoned) : Parser.empty.Learns p := by
  induction h with
  | new => exact .refl _
  | strict _ hp ih => exact ih.trans (parseWith_learns hp).1
  | tolerant _ hp ih => exact ih.trans (parseTolerantWith_learns hp).1

/-- The declarations of a parsed program are those of a parser that learned them. -/
theorem Program.Parsed.learned {program : Program} (h : program.Parsed) :
    ∃ q, Parser.empty.Learns q ∧ program.declared = q.declared := by
  cases h with
  | strict hp hr =>
    obtain ⟨hl, hd⟩ := Parser.parseWith_learns hr
    exact ⟨_, hp.learns.trans hl, hd _ rfl⟩
  | tolerant hp hr =>
    obtain ⟨hl, hd⟩ := Parser.parseTolerantWith_learns hr
    exact ⟨_, hp.learns.trans hl, hd⟩

end LineScript
