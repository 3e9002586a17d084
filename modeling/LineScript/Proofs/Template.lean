import LineScript.Template
import LineScript.Text.Blank
import Mathlib.Data.List.Chain
set_option autoImplicit false

/-!
Templates and their pieces. Reading a template loses nothing: writing out its pieces gives the template
back. The other way round, a list of pieces is what its text is read into exactly if every piece is one
that reading can make and no piece turns the next one into something else.
-/

namespace LineScript

namespace Template

/-- The text that a piece was read from. -/
def Piece.source : Piece → List Char
  | plain c => [c]
  | escaped c => ['\\', c]
  | hole name => '\x7b' :: name ++ ['\x7d']
  | unclosed name => '\x7b' :: name

/-- What is read already of a hole, with its brace. -/
def opened : Option (List Char) → List Char
  | none => []
  | some name => '\x7b' :: name.reverse

theorem source_readFrom (hole : Option (List Char)) (cs : List Char) :
    (readFrom hole cs).flatMap Piece.source = opened hole ++ cs := by
  fun_induction readFrom hole cs with
  | case1 => rfl
  | case2 name => simp [Piece.source,opened]
  | case3 name r ih => simp [Piece.source,opened,ih]
  | case4 name c r hc ih => simp [opened,ih]
  | case5 r ih => simp [Piece.source,opened,ih]
  | case6 r ih => simp [Piece.source,opened,ih]
  | case7 r _ _ ih => simp [opened,ih]
  | case8 c r _ _ hc ih => simp [Piece.source,opened,ih]

/-- Reading a template loses nothing. -/
theorem source_read (cs : List Char) : (read cs).flatMap Piece.source = cs := source_readFrom none cs

/-- The text begins with a brace. -/
def Braced (cs : List Char) : Prop := cs.head? = some '\x7b' ∨ cs.head? = some '\x7d'

namespace Piece

theorem head?_source (pieces : List Piece) :
    (pieces.flatMap source).head? = pieces.head?.bind fun piece => piece.source.head? := by
  cases pieces with
  | nil => rfl
  | cons piece pieces => cases piece <;> rfl

/-- A piece that reading can make: an opening brace is never plain, only braces are escaped, and a hole ends
at the first closing brace. -/
def Proper : Piece → Prop
  | plain c => c ≠ '\x7b'
  | escaped c => c = '\x7b' ∨ c = '\x7d'
  | hole name => '\x7d' ∉ name
  | unclosed name => '\x7d' ∉ name

/-- The first piece lets the second one be: a backslash would make a brace behind it plain, and a hole that
is not closed goes on to the end. -/
def Precedes : Piece → Piece → Prop
  | plain c, piece => c = '\\' → ¬Braced piece.source
  | unclosed _, _ => False
  | _, _ => True

end Piece

/-- Pieces that may be read from a template. -/
structure Readable (pieces : List Piece) : Prop where
  proper : ∀ piece ∈ pieces, piece.Proper
  precede : pieces.IsChain Piece.Precedes

namespace Readable

variable {piece : Piece} {pieces : List Piece}

theorem cons_iff : Readable (piece :: pieces) ↔
    piece.Proper ∧ (∀ next, pieces.head? = some next → piece.Precedes next) ∧ Readable pieces := by
  constructor
  · rintro ⟨hproper, hprecede⟩
    obtain ⟨hpiece, hproper⟩ := List.forall_mem_cons.1 hproper
    obtain ⟨hnext, hprecede⟩ := List.isChain_cons.1 hprecede
    exact ⟨hpiece, hnext, hproper, hprecede⟩
  · rintro ⟨hpiece, hnext, hproper, hprecede⟩
    exact ⟨List.forall_mem_cons.2 ⟨hpiece, hproper⟩, List.isChain_cons.2 ⟨hnext, hprecede⟩⟩

end Readable

/-- Reading makes readable pieces. In front of the pieces still to come only a plain backslash matters: had
a brace followed it, the two would be one escaped piece. -/
theorem readable_readFrom (hole : Option (List Char)) (cs : List Char)
    (hopen : ∀ name, hole = some name → '\x7d' ∉ name) : Readable (readFrom hole cs) := by
  fun_induction readFrom hole cs with
  | case1 => exact ⟨by simp, .nil⟩
  | case2 name =>
    have hname := hopen name rfl
    exact ⟨by simpa [Piece.Proper] using hname, .singleton _⟩
  | case3 name r ih =>
    have hname := hopen name rfl
    refine Readable.cons_iff.2 ⟨by simpa [Piece.Proper] using hname, fun _ _ => trivial, ih nofun⟩
  | case4 name c r hc ih =>
    refine ih fun other hother => ?_
    obtain rfl := Option.some.inj hother
    have hname := hopen name rfl
    simpa [Ne.symm hc] using hname
  | case5 r ih => exact Readable.cons_iff.2 ⟨.inl rfl, fun _ _ => trivial, ih nofun⟩
  | case6 r ih => exact Readable.cons_iff.2 ⟨.inr rfl, fun _ _ => trivial, ih nofun⟩
  | case7 r _ _ ih => exact ih fun name hname => by simp [← Option.some.inj hname]
  | case8 c r hopening hclosing hc ih =>
    refine Readable.cons_iff.2 ⟨hc, fun next hnext hslash hbraced => ?_, ih nofun⟩
    have hhead : r.head? = next.source.head? := by
      rw [← source_read r,Piece.head?_source]
      exact congrArg (Option.bind · fun piece => piece.source.head?) hnext
    rcases hbraced with hbrace | hbrace
    · obtain ⟨rest, hrest⟩ := List.head?_eq_some_iff.1 (hhead.trans hbrace)
      exact hopening rest hslash hrest
    · obtain ⟨rest, hrest⟩ := List.head?_eq_some_iff.1 (hhead.trans hbrace)
      exact hclosing rest hslash hrest

theorem readable_read (cs : List Char) : Readable (read cs) := readable_readFrom none cs nofun

/-- Only braces are ever escaped. -/
theorem not_isBlank_of_escaped {cs : List Char} {c : Char} (h : .escaped c ∈ read cs) :
    Text.isBlank c = false := by
  obtain rfl | rfl := (readable_read cs).proper _ h
  · decide
  · decide

theorem read_plain {c : Char} {cs : List Char} (hc : c ≠ '\x7b') (hcs : c = '\\' → ¬Braced cs) :
    read (c :: cs) = .plain c :: read cs := by
  unfold read
  rw [readFrom]
  · rw [if_neg hc]
  · rintro r rfl rfl
    exact hcs rfl (.inl rfl)
  · rintro r rfl rfl
    exact hcs rfl (.inr rfl)

theorem readFrom_name {name : List Char} (h : '\x7d' ∉ name) (before cs : List Char) :
    readFrom (some before) (name ++ cs) = readFrom (some (name.reverse ++ before)) cs := by
  induction name generalizing before with
  | nil => rfl
  | cons c name ih =>
    obtain ⟨hc, hname⟩ : '\x7d' ≠ c ∧ '\x7d' ∉ name := by simpa using h
    rw [List.cons_append,readFrom,if_neg hc.symm,ih hname]
    simp

theorem read_hole {name : List Char} (h : '\x7d' ∉ name) (cs : List Char) :
    read ('\x7b' :: name ++ '\x7d' :: cs) = .hole name :: read cs := by
  have hname := readFrom_name h [] ('\x7d' :: cs)
  refine hname.trans ?_
  rw [readFrom,if_pos rfl,List.append_nil,List.reverse_reverse]
  rfl

theorem read_unclosed {name : List Char} (h : '\x7d' ∉ name) :
    read ('\x7b' :: name) = [.unclosed name] := by
  have hname := readFrom_name h [] []
  rw [List.append_nil,List.append_nil] at hname
  refine hname.trans ?_
  rw [readFrom,List.reverse_reverse]

/-- Readable pieces are read again from their text. -/
theorem read_source {pieces : List Piece} (h : Readable pieces) :
    read (pieces.flatMap Piece.source) = pieces := by
  induction pieces with
  | nil => rfl
  | cons piece pieces ih =>
    obtain ⟨hproper, hnext, hpieces⟩ := Readable.cons_iff.1 h
    have ih := ih hpieces
    rw [List.flatMap_cons]
    cases piece with
    | plain c =>
      have hbehind : c = '\\' → ¬Braced (pieces.flatMap Piece.source) := by
        intro hslash hbraced
        rw [Braced,Piece.head?_source] at hbraced
        cases hhead : pieces.head? with
        | none => simp [hhead] at hbraced
        | some next => exact hnext next hhead hslash (by simpa [Braced,hhead] using hbraced)
      rw [Piece.source,List.singleton_append,read_plain hproper hbehind,ih]
    | escaped c =>
      obtain rfl | rfl := hproper
      · exact congrArg (.escaped '\x7b' :: ·) ih
      · exact congrArg (.escaped '\x7d' :: ·) ih
    | hole name =>
      rw [Piece.source,List.append_assoc,List.singleton_append,read_hole hproper,ih]
    | unclosed name =>
      obtain rfl : pieces = [] := by
        cases pieces with
        | nil => rfl
        | cons next pieces => exact (hnext next rfl).elim
      rw [Piece.source,List.flatMap_nil,List.append_nil,read_unclosed hproper]

end Template

end LineScript
