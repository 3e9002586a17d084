import LineScript.Proofs.Parser.Transparent
set_option autoImplicit false

/-!
Notes behind the lines of a source. A note put behind a line that holds something is not seen by the parser:
the program is the one without it, apart from the raw texts of that line and from the initial texts of
properties on it, which keep the note. Pattern rules see it, so the line must not hold one.
-/

namespace LineScript

open Text (IsNote)

/-- A comment to be put behind one of the lines of a source. -/
structure Annotation where
  before : List Char
  line : List Char
  note : List Char
  after : List Char
  starts : before = [] ∨ before.getLast? = some '\n'
  ends : after = [] ∨ after.head? = some '\n' ∨ ['\r', '\n'] <+: after
  oneLine : '\n' ∉ line ++ note

namespace Annotation

variable (a : Annotation)

def source : String := String.ofList (a.before ++ (a.line ++ a.after))

/-- The source with a space, two slashes and the note behind the line. -/
def noted : String := String.ofList (a.before ++ (a.line ++ ' ' :: '/' :: '/' :: a.note ++ a.after))

def number : Nat := a.before.count '\n' + 1

/-- Something stands on the line, and behind it at most spaces and tabs. -/
def Plain : Prop :=
  ∃ text gap, a.line = text ++ gap ∧ (∀ c ∈ gap, Lexer.isGap c = true) ∧
    ∃ c, text.getLast? = some c ∧ Text.isBlank c = false

/-- No pattern rule of a class stands on the line, neither at its start nor behind a brace. -/
def RuleFree : Prop := ∀ t ∈ Brace.reaches (Text.trim a.line), isRule t = false

instance : Decidable a.RuleFree :=
  inferInstanceAs (Decidable (∀ t ∈ Brace.reaches (Text.trim a.line), isRule t = false))

end Annotation

namespace Text

variable {c : Char} {before after : List Char}

theorem length_pieces (c : Char) (a : List Char) : (pieces c a).length = a.count c + 1 := by
  induction a with
  | nil => rfl
  | cons d a ih =>
    by_cases hd : d = c
    · simp [pieces,hd,ih]
    · obtain ⟨p, ps, hp⟩ := List.exists_cons_of_ne_nil (pieces_ne_nil c a)
      rw [hp] at ih
      simpa [pieces,hd,hp,attach] using ih

/-- The texts around one line of a source, whatever stands on that line. -/
theorem pieces_line (hbefore : before = [] ∨ before.getLast? = some c)
    (hafter : after = [] ∨ after.head? = some c) :
    ∃ front back, front.length = before.count c ∧
      ∀ line, c ∉ line → pieces c (before ++ (line ++ after)) = front ++ line :: back := by
  have hback : ∃ back, ∀ line, c ∉ line → pieces c (line ++ after) = line :: back := by
    rcases hafter with rfl | hafter
    · exact ⟨[], fun line hline => by rw [List.append_nil,pieces_of_not_mem hline]⟩
    · obtain ⟨later, rfl⟩ := List.head?_eq_some_iff.1 hafter
      exact ⟨pieces c later, fun line hline => by
        rw [pieces_append_sep,pieces_of_not_mem hline,List.singleton_append]⟩
  obtain ⟨back, hback⟩ := hback
  rcases hbefore with rfl | hbefore
  · exact ⟨[], back, rfl, hback⟩
  · obtain ⟨earlier, rfl⟩ := List.getLast?_eq_some_iff.1 hbefore
    refine ⟨pieces c earlier, back, ?_, fun line hline => ?_⟩
    · rw [length_pieces,List.count_append,List.count_singleton_self]
    · rw [List.append_assoc,List.singleton_append,pieces_append_sep,hback line hline]

theorem isNote_trimEnd {gap : List Char} (hgap : ∀ c ∈ gap, Lexer.isGap c = true) (text : List Char) :
    IsNote (gap ++ ' ' :: '/' :: '/' :: trimEnd text) := by
  refine ⟨⟨gap, trimEnd text, hgap, rfl⟩, fun c hc => ?_⟩
  rw [List.getLast?_append_of_ne_nil _ (by simp)] at hc
  cases ht : trimEnd text with
  | nil =>
    rw [ht] at hc
    obtain rfl : '/' = c := by simpa using hc
    decide
  | cons d t =>
    rw [ht] at hc
    have hlast : (trimEnd text).getLast? = some c := by
      rw [ht]
      simpa using hc
    exact getLast?_trimEnd hlast

end Text

namespace Line

theorem ofTexts_cons (n : Nat) (t : List Char) (ts : List (List Char)) :
    ofTexts n (t :: ts) = (trimmed? n t).toList ++ ofTexts (n + 1) ts := by
  simp only [ofTexts,trimmed?]
  split
  · rfl
  · rfl

theorem ofTexts_append (n : Nat) (ts us : List (List Char)) :
    ofTexts n (ts ++ us) = ofTexts n ts ++ ofTexts (n + ts.length) us := by
  induction ts generalizing n with
  | nil => rfl
  | cons t ts ih =>
    have hn : n + 1 + ts.length = n + (t :: ts).length := by simp; omega
    rw [List.cons_append,ofTexts_cons,ofTexts_cons,ih,hn,List.append_assoc]

/-- A line with blanks behind it, and the same line with a comment and blanks behind it. -/
theorem trimmed?_noted {n : Nat} {text gap ending : List Char} {c : Char}
    (hlast : text.getLast? = some c) (hc : Text.isBlank c = false)
    (hgap : ∀ c ∈ gap, Lexer.isGap c = true) (hending : ∀ c ∈ ending, Text.isBlank c = true)
    (hrule : ∀ t ∈ Brace.reaches (Text.trim (text ++ gap)), isRule t = false) (note : List Char) :
    List.Forall₂ (Noted n) (trimmed? n (text ++ gap ++ ending)).toList
      (trimmed? n (text ++ gap ++ ' ' :: '/' :: '/' :: note ++ ending)).toList := by
  have hblank : ∀ c ∈ gap, Text.isBlank c = true := fun c hc => Text.isBlank_of_isGap (hgap c hc)
  have hlast' : ∀ d, text.getLast? = some d → Text.isBlank d = false := by
    intro d hd
    obtain rfl := Option.some.inj (hlast.symm.trans hd)
    exact hc
  have hne : text ≠ [] := by
    rintro rfl
    cases hlast
  obtain ⟨bs, hbs, hnote⟩ := Text.eq_trimEnd_append note
  have hisNote := Text.isNote_trimEnd hgap note
  obtain ⟨hsome, hsome'⟩ := trimmed?_append_note hisNote hne hlast' n
  -- The note ends where the blanks at the end of the line begin.
  have htrim : Text.trim (text ++ gap ++ ending) = Text.trim text := by
    rw [Text.trim_append_blanks hending,Text.trim_append_blanks hblank]
  have htrim' : Text.trim (text ++ gap ++ ' ' :: '/' :: '/' :: note ++ ending) =
      Text.trim (text ++ (gap ++ ' ' :: '/' :: '/' :: Text.trimEnd note)) := by
    have hsplit : text ++ gap ++ ' ' :: '/' :: '/' :: note ++ ending =
        text ++ (gap ++ ' ' :: '/' :: '/' :: Text.trimEnd note) ++ bs ++ ending := by
      nth_rewrite 1 [hnote]
      simp
    rw [hsplit,Text.trim_append_blanks hending,Text.trim_append_blanks hbs]
  have hself : trimmed? n (text ++ gap ++ ending) = trimmed? n text := by simp only [trimmed?,htrim]
  have hself' : trimmed? n (text ++ gap ++ ' ' :: '/' :: '/' :: note ++ ending) =
      trimmed? n (text ++ (gap ++ ' ' :: '/' :: '/' :: Text.trimEnd note)) := by
    simp only [trimmed?,htrim']
  rw [hself,hself',hsome,hsome']
  rw [Text.trim_append_blanks hblank] at hrule
  refine .cons ⟨.note (fun d hd => Text.getLast?_trim hd) ?_ hisNote, .inr (tidy_of_trimmed? hsome)⟩ .nil
  rwa [Text.trim_trim]

end Line

namespace Annotation

/-- A carriage return in front of the line feed is a blank at the end of the line. -/
theorem after_cases (a : Annotation) :
    ∃ ending later, a.after = ending ++ later ∧ '\n' ∉ ending ∧
      (∀ c ∈ ending, Text.isBlank c = true) ∧ (later = [] ∨ later.head? = some '\n') := by
  rcases a.ends with h | h | ⟨later, h⟩
  · exact ⟨[], a.after, rfl, by simp, by simp, .inl h⟩
  · exact ⟨[], a.after, rfl, by simp, by simp, .inr h⟩
  · exact ⟨['\r'], '\n' :: later, h.symm, by decide, List.forall_mem_singleton.2 (by decide), .inr rfl⟩

/-- The lines of the two sources differ in the note only. -/
theorem lines_noted {a : Annotation} (hplain : a.Plain) (hrule : a.RuleFree) :
    List.Forall₂ (Line.Noted a.number) (Line.ofSource a.source) (Line.ofSource a.noted) := by
  obtain ⟨text, gap, hline, hgap, c, hc, hblank⟩ := hplain
  obtain ⟨ending, later, hafter, hending, hblanks, hlater⟩ := a.after_cases
  obtain ⟨front, back, hlength, hpieces⟩ := Text.pieces_line a.starts hlater
  obtain ⟨hlineBreak, hnoteBreak⟩ : '\n' ∉ a.line ∧ '\n' ∉ a.note := by
    simpa [not_or] using a.oneLine
  have hsource := hpieces (a.line ++ ending) (by simp [hlineBreak,hending])
  have hnoted := hpieces (a.line ++ ' ' :: '/' :: '/' :: a.note ++ ending)
    (by simp [hlineBreak,hnoteBreak,hending])
  have hnumber : 1 + front.length = a.number := by rw [hlength,number,Nat.add_comm]
  rw [Line.ofSource,Line.ofSource,source,noted,String.toList_ofList,String.toList_ofList,hafter]
  rw [← List.append_assoc a.line,← List.append_assoc (a.line ++ _),hsource,hnoted,Line.ofTexts_append,
    Line.ofTexts_append,Line.ofTexts_cons,Line.ofTexts_cons,hnumber]
  refine List.rel_append (Line.noted_self _ _) (List.rel_append ?_ (Line.noted_self _ _))
  rw [RuleFree,hline] at hrule
  rw [hline]
  exact Line.trimmed?_noted hc hblank hgap hblanks hrule a.note

end Annotation

namespace Parser

/-- A source with a note behind one of its lines is read if it is read without the note, with the same
program up to the raw texts of that line and the comments in initial texts on it. -/
theorem notes_transparent (a : Annotation) (hplain : a.Plain) (hrule : a.RuleFree)
    (hfree : ¬"make".toList <:+: a.source.toList) {p q : Parser} {program : Program} {fuel : Nat}
    (h : p.parseWith fuel a.source = some (q, .ok program)) :
    ∃ q' program', (∀ k, 2 * fuel ≤ k → p.parseWith k a.noted = some (q', .ok program')) ∧
      program'.bare a.number = program.bare a.number ∧ q'.bare a.number = q.bare a.number := by
  unfold parseWith at h
  rcases hl : parseLines fuel p (Line.ofSource a.source) with _ | ⟨r, e | rows⟩
  · simp [hl] at h
  · simp [hl] at h
  · obtain ⟨rfl, rfl⟩ : { r with warnings := [] } = q ∧ ⟨rows, r.declared⟩ = program := by
      simpa [hl] using h
    obtain ⟨r', rows', hl', hr, hrows⟩ := (transparent a.number fuel).parseLines (.ofSource hfree) rfl
      (.lines (a.lines_noted hplain hrule)) hl
    have hdeclared : r'.declared.bare a.number = r.declared.bare a.number := congrArg declared hr
    refine ⟨{ r' with warnings := [] }, ⟨rows', r'.declared⟩, fun k hk => ?_, ?_, ?_⟩
    · rw [parseWith,(outlasts hk).parseLines hl']
    · rw [Program.bare,Program.bare,hrows,hdeclared]
    · rw [bare,bare,hdeclared]

/-- A note behind an opening brace, with a brace of its own in it, which becomes the first line of the
block. -/
def blockNote : Annotation where
  before := "class A \x7b\n@int x new : 5\n".toList
  line := "method f : v \x7b".toList
  note := " \x7d done".toList
  after := "\r\nif v is x : return v\n\x7d\n\x7d".toList
  starts := .inr (by decide)
  ends := .inr (.inr (by decide))
  oneLine := by decide

theorem notes_transparent_block :
    blockNote.Plain ∧ blockNote.RuleFree ∧ ¬"make".toList <:+: blockNote.source.toList ∧
      blockNote.number = 3 ∧
      ∃ q q' program program', empty.parseWith 40 blockNote.source = some (q, .ok program) ∧
        empty.parseWith 80 blockNote.noted = some (q', .ok program') ∧
        program'.bare 3 = program.bare 3 := by
  have hplain : blockNote.Plain :=
    ⟨blockNote.line, [], (List.append_nil _).symm, by simp, '\x7b', by decide, by decide⟩
  have hrule : blockNote.RuleFree := by decide +kernel
  have hfree : ¬"make".toList <:+: blockNote.source.toList := by decide +kernel
  have hrun : ((empty.parseWith 40 blockNote.source).map fun r => r.2.toOption.isSome) = some true := by
    decide +kernel
  obtain ⟨⟨q, r⟩, hr, hok⟩ := Option.map_eq_some_iff.1 hrun
  refine ⟨hplain, hrule, hfree, by decide, ?_⟩
  cases r with
  | error e => cases hok
  | ok program =>
    obtain ⟨q', program', hnoted, hbare, -⟩ := notes_transparent blockNote hplain hrule hfree hr
    exact ⟨q, q', program, program', hr, hnoted 80 (by decide), hbare⟩

/-- A note behind a property. -/
def propertyNote : Annotation where
  before := "class A \x7b\n".toList
  line := "@int x new : 5".toList
  note := " note".toList
  after := "\n\x7d".toList
  starts := .inr (by decide)
  ends := .inr (.inl (by decide))
  oneLine := by decide

/-- The initial texts of all properties. -/
def defaults (program : Program) : List (Option String) :=
  program.declared.classes.values.flatMap fun c => c.properties.map Variable.default

/-- The initial text of a property is all that stands behind the colon, the note, too. -/
theorem default_keeps_note :
    ¬"make".toList <:+: propertyNote.source.toList ∧
      ∃ q q' program program', empty.parseWith 20 propertyNote.source = some (q, .ok program) ∧
        empty.parseWith 20 propertyNote.noted = some (q', .ok program') ∧
        defaults program = [some "5"] ∧ defaults program' = [some "5 // note"] := by
  have hread (source : String) (texts : List (Option String))
      (h : ((empty.parseWith 20 source).bind fun r => r.2.toOption.map defaults) = some texts) :
      ∃ q program, empty.parseWith 20 source = some (q, .ok program) ∧ defaults program = texts := by
    obtain ⟨⟨q, r⟩, hr, hok⟩ := Option.bind_eq_some_iff.1 h
    cases r with
    | error e => cases hok
    | ok program => exact ⟨q, program, hr, Option.some.inj hok⟩
  obtain ⟨q, program, hr, hd⟩ := hread propertyNote.source [some "5"] (by decide +kernel)
  obtain ⟨q', program', hr', hd'⟩ := hread propertyNote.noted [some "5 // note"] (by decide +kernel)
  exact ⟨by decide +kernel, q, q', program, program', hr, hr', hd, hd'⟩

end Parser

end LineScript
