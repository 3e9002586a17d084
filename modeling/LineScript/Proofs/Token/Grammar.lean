import LineScript.Proofs.Token.Parts
set_option autoImplicit false

/-!
The grammar of a line as a parsing expression. A choice takes its first alternative that reads something, a
repetition reads as often as it can, and neither is ever tried again. Spaces and tabs may stand between the parts
of a line, and inside none of them. Since reading is determined, the grammar has at most one answer for a text.
-/

namespace LineScript.Lexer

/-- Parsing expressions. A part keeps the text that it read, but not the parts inside. -/
inductive Peg where
  | empty
  | start
  | stop
  | any
  | char (c : Char)
  | seq (a b : Peg)
  | alt (a b : Peg)
  | star (a : Peg)
  | notAhead (a : Peg)
  | part (a : Peg)

/-- What was read, the parts kept in it and what is left. -/
structure Reading where
  read : List Char
  parts : List (List Char)
  rest : List Char

/-- How an expression reads a text, of which some characters were read before. Without a reading it fails. -/
inductive Peg.Reads : Peg → Nat → List Char → Option Reading → Prop
  | empty (place : Nat) (cs : List Char) : Reads .empty place cs (some ⟨[], [], cs⟩)
  | start (cs : List Char) : Reads .start 0 cs (some ⟨[], [], cs⟩)
  | startFails (place : Nat) (cs : List Char) : Reads .start (place + 1) cs none
  | stop (place : Nat) : Reads .stop place [] (some ⟨[], [], []⟩)
  | stopFails (place : Nat) (c : Char) (cs : List Char) : Reads .stop place (c :: cs) none
  | any (place : Nat) (c : Char) (cs : List Char) : Reads .any place (c :: cs) (some ⟨[c], [], cs⟩)
  | anyFails (place : Nat) : Reads .any place [] none
  | char (place : Nat) (c : Char) (cs : List Char) : Reads (.char c) place (c :: cs) (some ⟨[c], [], cs⟩)
  | charFails (place : Nat) {c : Char} {cs : List Char} :
    cs.head? ≠ some c → Reads (.char c) place cs none
  | seq {a b : Peg} {place : Nat} {cs : List Char} {x y : Reading} :
    Reads a place cs (some x) → Reads b (place + x.read.length) x.rest (some y) →
    Reads (.seq a b) place cs (some ⟨x.read ++ y.read, x.parts ++ y.parts, y.rest⟩)
  | seqFails {a b : Peg} {place : Nat} {cs : List Char} :
    Reads a place cs none → Reads (.seq a b) place cs none
  | seqFailsLater {a b : Peg} {place : Nat} {cs : List Char} {x : Reading} :
    Reads a place cs (some x) → Reads b (place + x.read.length) x.rest none →
    Reads (.seq a b) place cs none
  | altFirst {a b : Peg} {place : Nat} {cs : List Char} {x : Reading} :
    Reads a place cs (some x) → Reads (.alt a b) place cs (some x)
  | altSecond {a b : Peg} {place : Nat} {cs : List Char} {o : Option Reading} :
    Reads a place cs none → Reads b place cs o → Reads (.alt a b) place cs o
  | star {a : Peg} {place : Nat} {cs : List Char} {o : Option Reading} :
    Reads (.alt (.seq a (.star a)) .empty) place cs o → Reads (.star a) place cs o
  | notAhead {a : Peg} {place : Nat} {cs : List Char} :
    Reads a place cs none → Reads (.notAhead a) place cs (some ⟨[], [], cs⟩)
  | notAheadFails {a : Peg} {place : Nat} {cs : List Char} {x : Reading} :
    Reads a place cs (some x) → Reads (.notAhead a) place cs none
  | part {a : Peg} {place : Nat} {cs : List Char} {x : Reading} :
    Reads a place cs (some x) → Reads (.part a) place cs (some ⟨x.read, [x.read], x.rest⟩)
  | partFails {a : Peg} {place : Nat} {cs : List Char} :
    Reads a place cs none → Reads (.part a) place cs none

namespace Peg

/-- Reading is determined. -/
theorem Reads.unique {e : Peg} {place : Nat} {cs : List Char} {o p : Option Reading}
    (h : e.Reads place cs o) (h' : e.Reads place cs p) : o = p := by
  induction h generalizing p with
  | empty => cases h'; rfl
  | start => cases h'; rfl
  | startFails => cases h'; rfl
  | stop => cases h'; rfl
  | stopFails => cases h'; rfl
  | any => cases h'; rfl
  | anyFails => cases h'; rfl
  | char =>
    cases h' with
    | char => rfl
    | charFails _ hne => simp at hne
  | charFails _ hne =>
    cases h' with
    | char => simp at hne
    | charFails => rfl
  | seq _ _ iha ihb =>
    cases h' with
    | seq ha hb =>
      obtain rfl := Option.some.inj (iha ha)
      obtain rfl := Option.some.inj (ihb hb)
      rfl
    | seqFails ha => cases iha ha
    | seqFailsLater ha hb =>
      obtain rfl := Option.some.inj (iha ha)
      cases ihb hb
  | seqFails _ iha =>
    cases h' with
    | seq ha _ => cases iha ha
    | seqFails => rfl
    | seqFailsLater => rfl
  | seqFailsLater _ _ iha ihb =>
    cases h' with
    | seq ha hb =>
      obtain rfl := Option.some.inj (iha ha)
      cases ihb hb
    | seqFails => rfl
    | seqFailsLater => rfl
  | altFirst _ iha =>
    cases h' with
    | altFirst ha => exact iha ha
    | altSecond ha _ => cases iha ha
  | altSecond _ _ iha ihb =>
    cases h' with
    | altFirst ha => cases iha ha
    | altSecond _ hb => exact ihb hb
  | star _ ih =>
    cases h' with
    | star h => exact ih h
  | notAhead _ ih =>
    cases h' with
    | notAhead => rfl
    | notAheadFails h => cases ih h
  | notAheadFails _ ih =>
    cases h' with
    | notAhead h => cases ih h
    | notAheadFails => rfl
  | part _ ih =>
    cases h' with
    | part h =>
      obtain rfl := Option.some.inj (ih h)
      rfl
    | partFails h => cases ih h
  | partFails _ ih =>
    cases h' with
    | part h => cases ih h
    | partFails => rfl

def opt (a : Peg) : Peg := .alt a .empty

def plus (a : Peg) : Peg := .seq a (.star a)

def literal : List Char → Peg
  | [] => .empty
  | c :: cs => .seq (.char c) (literal cs)

/-- The first of some texts. -/
def choice : List (List Char) → Peg
  | [] => .notAhead .empty
  | s :: ss => .alt (literal s) (choice ss)

/-- The first of some characters. -/
def oneOf (marks : List Char) : Peg := choice (marks.map fun c => [c])

section

variable {a : Peg} {place : Nat} {w r cs : List Char}

theorem reads_literal (w r : List Char) (place : Nat) :
    (literal w).Reads place (w ++ r) (some ⟨w, [], r⟩) := by
  induction w generalizing place with
  | nil => exact .empty place r
  | cons c w ih => exact .seq (.char place c (w ++ r)) (ih (place + 1))

theorem literal_fails (h : ¬w <+: cs) (place : Nat) : (literal w).Reads place cs none := by
  induction w generalizing cs place with
  | nil => exact absurd (List.nil_prefix) h
  | cons c w ih =>
    by_cases hc : cs.head? = some c
    · obtain ⟨cs, rfl⟩ : ∃ r, cs = c :: r := by
        cases cs with
        | nil => cases hc
        | cons d r => exact ⟨r, by simpa using hc⟩
      refine .seqFailsLater (.char place c cs) (ih ?_ (place + 1))
      simpa using h
    · exact .seqFails (.charFails place hc)

theorem reads_choice {ss : List (List Char)} (h : ∃ s ∈ ss, s <+: cs) (place : Nat) :
    ∃ s ∈ ss, ∃ r, cs = s ++ r ∧ (choice ss).Reads place cs (some ⟨s, [], r⟩) := by
  induction ss with
  | nil => simp at h
  | cons s ss ih =>
    by_cases hs : s <+: cs
    · obtain ⟨r, rfl⟩ := hs
      exact ⟨s, List.mem_cons_self, r, rfl, .altFirst (reads_literal s r place)⟩
    · have hrest : ∃ t ∈ ss, t <+: cs := by simpa [hs] using h
      obtain ⟨t, ht, r, hcs, hreads⟩ := ih hrest
      exact ⟨t, List.mem_cons_of_mem s ht, r, hcs, .altSecond (literal_fails hs place) hreads⟩

theorem choice_fails {ss : List (List Char)} (h : ∀ s ∈ ss, ¬s <+: cs) (place : Nat) :
    (choice ss).Reads place cs none := by
  induction ss with
  | nil => exact .notAheadFails (.empty place cs)
  | cons s ss ih =>
    obtain ⟨hs, hss⟩ := List.forall_mem_cons.1 h
    exact .altSecond (literal_fails hs place) (ih hss)

theorem reads_oneOf {marks : List Char} {c : Char} (h : c ∈ marks) (r : List Char) (place : Nat) :
    (oneOf marks).Reads place (c :: r) (some ⟨[c], [], r⟩) := by
  have hsome : ∃ s ∈ marks.map fun c => [c], s <+: c :: r := ⟨[c], List.mem_map_of_mem h, r, rfl⟩
  obtain ⟨s, hs, rest, hcs, hreads⟩ := reads_choice hsome place
  obtain ⟨d, -, rfl⟩ := List.mem_map.1 hs
  obtain ⟨rfl, rfl⟩ := List.cons.inj hcs
  exact hreads

theorem oneOf_fails {marks : List Char} (h : ∀ c ∈ cs.head?, c ∉ marks) (place : Nat) :
    (oneOf marks).Reads place cs none := by
  refine choice_fails (fun s hs hprefix => ?_) place
  obtain ⟨c, hc, rfl⟩ := List.mem_map.1 hs
  obtain ⟨r, rfl⟩ := hprefix
  exact h c rfl hc

theorem star_stops (h : a.Reads place cs none) : (star a).Reads place cs (some ⟨[], [], cs⟩) :=
  .star (.altSecond (.seqFails h) (.empty place cs))

theorem star_goes_on {x y : Reading} (h : a.Reads place cs (some x))
    (hs : (star a).Reads (place + x.read.length) x.rest (some y)) :
    (star a).Reads place cs (some ⟨x.read ++ y.read, x.parts ++ y.parts, y.rest⟩) :=
  .star (.altFirst (.seq h hs))

/-- A repetition of what reads one character at a time. -/
theorem reads_star (hw : ∀ u c v, w = u ++ c :: v → ∀ place,
      a.Reads place (c :: (v ++ r)) (some ⟨[c], [], v ++ r⟩))
    (hr : ∀ place, a.Reads place r none) (place : Nat) :
    (star a).Reads place (w ++ r) (some ⟨w, [], r⟩) := by
  induction w generalizing place with
  | nil => exact star_stops (hr place)
  | cons c w ih =>
    have hrest := ih (fun u d v hv => hw (c :: u) d v (by rw [hv,List.cons_append])) (place + 1)
    exact star_goes_on (hw [] c w rfl place) hrest

end

end Peg

/-! The rules of the grammar. -/

namespace Grammar

open Peg

def whitespace : Peg := oneOf [' ', '\t']

def delimiters : List Char := ['\x7b', '\x7d', ':', ',', '?']

/-- Where one of these begins no word goes on. -/
def stops : List (List Char) :=
  [[' '], ['\t'], ['\x7b'], ['\x7d'], [':'], [','], ['?'], ['@'], ['/', '/'], ['=', '>']]

def comment : Peg := .part (.seq (literal ['/', '/']) (.star .any))

def arrow : Peg := .part (literal ['=', '>'])

def word : Peg := .part (plus (.seq (.notAhead (choice stops)) .any))

def dataType : Peg := .part (.seq (.char '@') (opt word))

def delimiter : Peg := .part (oneOf delimiters)

def anyPart : Peg := .alt comment (.alt arrow (.alt dataType (.alt delimiter word)))

/-- What may stand before, between and behind the parts. -/
def skip : Peg := .star whitespace

def allParts : Peg := opt (.seq anyPart (.star (.seq skip anyPart)))

def line : Peg := .seq .start (.seq skip (.seq allParts (.seq skip .stop)))

end Grammar

end LineScript.Lexer
