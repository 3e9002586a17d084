import LineScript.HostCall
import LineScript.Proofs.Text.Note
import LineScript.Proofs.Token.Standing
set_option autoImplicit false

/-!
Host calls written out and read again. Writing puts a space in front of the path and of every argument, and
two slashes behind a space begin a comment. So a call that was read comes back whole unless its path or one of
its arguments begins with two slashes: behind the space before such a path nothing is read, and of the arguments
only those in front of the first such one.
-/

namespace LineScript

namespace HostCall

open Text

/-- The text begins with two slashes, which are a comment behind a space. -/
def slashed (s : String) : Bool := ['/', '/'].isPrefixOf s.toList

/-- What paths and arguments are: trimmed, not empty, and without a comment. -/
structure IsPart (cs : List Char) : Prop where
  ne_nil : cs ≠ []
  trimmed : trim cs = cs
  plain : ¬[' ', '/', '/'] <:+: cs

/-- The calls that are read from a text. -/
structure IsRead (c : HostCall) : Prop where
  path : IsPart c.path.toList
  bare : ¬['~', '>'] <:+: c.path.toList
  args : ∀ a ∈ c.args, IsPart a.toList ∧ ',' ∉ a.toList

/-- What is read back of a call: nothing, or the arguments up to the first that begins with two slashes. -/
def kept (c : HostCall) : Option HostCall :=
  if slashed c.path then none else some ⟨c.path, c.args.takeWhile fun a => !slashed a⟩

/-- The text before the first comment. -/
def uncommented (cs : List Char) : List Char := ((Text.cut [' ', '/', '/'] cs).map Prod.fst).getD cs

/-- The text before the wavy arrow, and the text behind it. -/
def sides (cs : List Char) : List Char × List Char := (Text.cut ['~', '>'] cs).getD (cs, [])

/-- Reading behind the arrow. -/
theorem ofTail_arrow {cs r : List Char} (h : trimStart cs = '=' :: '>' :: r) :
    ofTail cs = if (trim (sides (uncommented r)).1).isEmpty then .error .missingPath
      else .ok ⟨String.ofList (trim (sides (uncommented r)).1), readArgs (sides (uncommented r)).2⟩ := by
  unfold ofTail
  rw [h]
  rfl

section reading

variable {cs a b : List Char}

theorem plain_uncommented (cs : List Char) : ¬[' ', '/', '/'] <:+: uncommented cs := by
  unfold uncommented
  cases hcs : Text.cut [' ', '/', '/'] cs with
  | none => exact (cut_eq_none_iff (by decide)).1 hcs
  | some p => exact fun hi => not_infix_of_cut (by decide) hcs (hi.trans (List.prefix_append _ _).isInfix)

theorem uncommented_of_plain (h : ¬[' ', '/', '/'] <:+: cs) : uncommented cs = cs := by
  rw [uncommented,(cut_eq_none_iff (by decide)).2 h]
  rfl

theorem uncommented_append (h : ¬[' ', '/', '/'] <:+: a ++ [' ', '/']) (b : List Char) :
    uncommented (a ++ [' ', '/', '/'] ++ b) = a := by
  have hcut : Text.cut [' ', '/', '/'] (a ++ [' ', '/', '/'] ++ b) = some (a, b) := cut_of_first h b
  rw [uncommented,hcut]
  rfl

theorem bare_sides (cs : List Char) : ¬['~', '>'] <:+: (sides cs).1 := by
  unfold sides
  cases hcs : Text.cut ['~', '>'] cs with
  | none => exact (cut_eq_none_iff (by decide)).1 hcs
  | some p => exact fun hi => not_infix_of_cut (by decide) hcs (hi.trans (List.prefix_append _ _).isInfix)

theorem sides_infix (cs : List Char) : (sides cs).1 <:+: cs ∧ (sides cs).2 <:+: cs := by
  unfold sides
  cases hcs : Text.cut ['~', '>'] cs with
  | none => exact ⟨List.infix_rfl, List.nil_infix⟩
  | some p =>
    have happend := cut_append hcs
    exact ⟨⟨[], ['~', '>'] ++ p.2, by simpa using happend⟩, ⟨p.1 ++ ['~', '>'], [], by simpa using happend⟩⟩

theorem sides_of_bare (h : ¬['~', '>'] <:+: cs) : sides cs = (cs, []) := by
  rw [sides,(cut_eq_none_iff (by decide)).2 h]
  rfl

theorem sides_append (h : ¬['~', '>'] <:+: a ++ ['~']) (b : List Char) :
    sides (a ++ ['~', '>'] ++ b) = (a, b) := by
  have hcut : Text.cut ['~', '>'] (a ++ ['~', '>'] ++ b) = some (a, b) := cut_of_first h b
  rw [sides,hcut]
  rfl

theorem IsPart.of_trim (hne : trim cs ≠ []) (h : ¬[' ', '/', '/'] <:+: cs) : IsPart (trim cs) :=
  ⟨hne, trim_trim cs, fun hi => h (hi.trans (Lexer.stands_trim cs).isInfix)⟩

theorem not_mem_of_mem_pieces {sep : Char} {p : List Char} (h : p ∈ pieces sep cs) : sep ∉ p := by
  induction cs generalizing p with
  | nil =>
    obtain rfl : p = [] := by simpa [pieces] using h
    simp
  | cons c r ih =>
    rw [pieces] at h
    split at h
    · rcases List.mem_cons.1 h with rfl | h
      · simp
      · exact ih h
    · next hc =>
      have hne : sep ≠ c := by
        rintro rfl
        simp at hc
      obtain ⟨q, qs, hr⟩ := List.exists_cons_of_ne_nil (pieces_ne_nil sep r)
      rw [hr] at ih
      rcases List.mem_cons.1 (by simpa [hr,attach] using h) with rfl | h
      · simp [hne,ih List.mem_cons_self]
      · exact ih (List.mem_cons_of_mem _ h)

theorem isPart_of_mem_readArgs (h : ¬[' ', '/', '/'] <:+: cs) {a : String} (ha : a ∈ readArgs cs) :
    IsPart a.toList ∧ ',' ∉ a.toList := by
  obtain ⟨text, htext, ha⟩ := List.mem_filterMap.1 ha
  obtain ⟨piece, hpiece, rfl⟩ := List.mem_map.1 htext
  split at ha
  · cases ha
  · next hne =>
    obtain rfl := Option.some.inj ha
    have hinfix := (Lexer.stands_of_mem_pieces (by decide) hpiece).isInfix
    have htrim := (Lexer.stands_trim piece).isInfix
    rw [String.toList_ofList]
    exact ⟨.of_trim (by simpa using hne) fun hi => h (hi.trans hinfix),
      fun hmem => not_mem_of_mem_pieces hpiece (htrim.subset hmem)⟩

theorem isRead_of_ofTail {c : HostCall} (h : ofTail cs = .ok c) : c.IsRead := by
  have harrow : ∃ r, trimStart cs = '=' :: '>' :: r := by
    unfold ofTail at h
    split at h
    · next r hr => exact ⟨r, hr⟩
    · cases h
  obtain ⟨r, hr⟩ := harrow
  rw [ofTail_arrow hr] at h
  split at h
  · cases h
  · next hne =>
    obtain rfl := Except.ok.inj h
    have hplain := plain_uncommented r
    obtain ⟨hpath, hargs⟩ := sides_infix (uncommented r)
    have htrim := (Lexer.stands_trim (sides (uncommented r)).1).isInfix
    refine ⟨?_, ?_, fun a ha => isPart_of_mem_readArgs (fun hi => hplain (hi.trans hargs)) ha⟩
    · rw [String.toList_ofList]
      exact .of_trim (by simpa using hne) fun hi => hplain (hi.trans hpath)
    · rw [String.toList_ofList]
      exact fun hi => bare_sides (uncommented r) (hi.trans htrim)

theorem isRead_of_ofText? {t : String} {c : HostCall} (h : ofText? t = some c) : c.IsRead := by
  have htail {cs : List Char} (h : (ofTail cs).toOption = some c) : c.IsRead := by
    cases hr : ofTail cs with
    | error e => simp [hr,Except.toOption] at h
    | ok found =>
      obtain rfl : found = c := by simpa [hr,Except.toOption] using h
      exact isRead_of_ofTail hr
  unfold ofText? at h
  dsimp only at h
  split at h
  · exact htail h
  · cases h
  · exact htail h

end reading

section writing

variable {cs y : List Char} {args later : List String} {c : HostCall}

/-- The text of arguments with a comma and a space between them. -/
def joined (args : List String) : List Char := (", ".intercalate args).toList

/-- The text of arguments, each with a space in front of it and a comma behind it. -/
def listed (args : List String) : List Char := args.flatMap fun a => ' ' :: (a.toList ++ [','])

/-- What is written behind the path. -/
def tail (c : HostCall) : List Char :=
  if c.args.isEmpty then [] else [' ', '~', '>'] ++ ' ' :: joined c.args

theorem toList_text (c : HostCall) :
    c.text.toList = "runexec => ".toList ++ (c.path.toList ++ c.tail) := by
  unfold text tail
  split
  · simp
  · simp [joined]

theorem listed_cons (a : String) (args : List String) (y : List Char) :
    listed (a :: args) ++ y = (' ' :: a.toList) ++ ',' :: (listed args ++ y) := by
  simp [listed]

theorem joined_cons (a : String) (args : List String) : ∃ rest, joined (a :: args) = a.toList ++ rest := by
  cases args with
  | nil => exact ⟨[], by simp [joined]⟩
  | cons b args => exact ⟨", ".toList ++ joined (b :: args), by simp [joined]⟩

theorem joined_append (h : later ≠ []) (args : List String) :
    ' ' :: joined (args ++ later) = listed args ++ ' ' :: joined later := by
  induction args with
  | nil => rfl
  | cons a args ih =>
    obtain ⟨b, rest, hrest⟩ := List.exists_cons_of_ne_nil (List.append_ne_nil_of_right_ne_nil args h)
    rw [hrest] at ih
    have hjoined : joined (a :: b :: rest) = a.toList ++ ',' :: ' ' :: joined (b :: rest) := by
      simp [joined]
    rw [List.cons_append,hrest,hjoined,ih,listed_cons]
    rfl

theorem tail_append (h : c.args = args ++ later) (hlater : later ≠ []) :
    c.tail = [' ', '~', '>'] ++ (listed args ++ ' ' :: joined later) := by
  have hne : c.args.isEmpty = false := by simp [h,hlater]
  rw [tail,hne,h,← joined_append hlater]
  rfl

theorem readArgs_nil : readArgs [] = [] := rfl

theorem readArgs_append_comma (a b : List Char) : readArgs (a ++ ',' :: b) = readArgs a ++ readArgs b := by
  simp [readArgs,pieces_append_sep]

theorem readArgs_of_isPart {a : String} (h : IsPart a.toList) (hcomma : ',' ∉ a.toList) :
    readArgs (' ' :: a.toList) = [a] := by
  have hpiece : ',' ∉ ' ' :: a.toList := by simpa using hcomma
  have htrim : trim (' ' :: a.toList) = a.toList := by rw [trim_cons (by decide),h.trimmed]
  simp [readArgs,pieces_of_not_mem hpiece,htrim,h.ne_nil]

/-- Arguments are read from their text, and then those of the text behind it. -/
theorem readArgs_listed (h : ∀ a ∈ args, IsPart a.toList ∧ ',' ∉ a.toList) (y : List Char) :
    readArgs (listed args ++ y) = args ++ readArgs y := by
  induction args with
  | nil => rfl
  | cons a args ih =>
    obtain ⟨⟨ha, hcomma⟩, hargs⟩ := List.forall_mem_cons.1 h
    rw [listed_cons,readArgs_append_comma,readArgs_of_isPart ha hcomma,ih hargs]
    rfl

/-- The space in front of a part begins no comment unless the part begins with two slashes. -/
theorem IsPart.plain_space (h : IsPart cs) (hs : ['/', '/'].isPrefixOf cs = false) :
    ¬[' ', '/', '/'] <:+: ' ' :: cs := by
  rw [List.infix_cons_iff,List.cons_prefix_cons,← List.isPrefixOf_iff_prefix,hs]
  simpa using h.plain

theorem plain_listed (h : ∀ a ∈ args, IsPart a.toList ∧ slashed a = false)
    (hy : ¬[' ', '/', '/'] <:+: y) : ¬[' ', '/', '/'] <:+: listed args ++ y := by
  induction args with
  | nil => exact hy
  | cons a args ih =>
    obtain ⟨⟨ha, hs⟩, hargs⟩ := List.forall_mem_cons.1 h
    rw [listed_cons]
    intro hi
    rcases infix_append_of (by decide) hi with hi | hi
    · exact ha.plain_space hs hi
    · have hi : [' ', '/', '/'] <:+: listed args ++ y := by simpa [List.infix_cons_iff] using hi
      exact ih hargs hi

theorem plain_path (h : IsPart cs) (hs : ['/', '/'].isPrefixOf cs = false)
    (hy : ¬[' ', '/', '/'] <:+: y) : ¬[' ', '/', '/'] <:+: (' ' :: cs) ++ ([' ', '~', '>'] ++ y) := by
  intro hi
  rcases infix_append_of (by decide) hi with hi | hi
  · exact h.plain_space hs hi
  · have hi : [' ', '/', '/'] <:+: y := by simpa [List.infix_cons_iff] using hi
    exact hy hi

/-- The text of a call ends with its path or its last argument. -/
theorem ends_with_part (hc : c.IsRead) : ∃ front part, c.text.toList = front ++ part ∧ IsPart part := by
  rw [toList_text]
  rcases List.eq_nil_or_concat c.args with hnil | ⟨before, last, hlast⟩
  · exact ⟨"runexec => ".toList, c.path.toList, by simp [tail,hnil], hc.path⟩
  · rw [List.concat_eq_append] at hlast
    refine ⟨"runexec => ".toList ++ (c.path.toList ++ ([' ', '~', '>'] ++ (listed before ++ [' ']))),
      last.toList, ?_, (hc.args last (by simp [hlast])).1⟩
    simp [tail_append hlast (List.cons_ne_nil last []),joined]

theorem trim_text (hc : c.IsRead) : trim c.text.toList = c.text.toList := by
  obtain ⟨front, part, htext, hpart⟩ := ends_with_part hc
  refine trim_eq_self (fun d hd => ?_) (fun d hd => ?_)
  · obtain rfl : 'r' = d := by simpa [toList_text] using hd
    decide
  · rw [htext,List.getLast?_append_of_ne_nil front hpart.ne_nil,← hpart.trimmed] at hd
    exact getLast?_trim hd

/-- The word in front stands there, whatever is written behind it. -/
theorem cutWord_text (c : HostCall) :
    cutWord "runexec" c.text = some ([], " => ".toList ++ (c.path.toList ++ c.tail)) := by
  have hslash : '/' ∉ "runexec => ".toList := by decide
  rw [cutWord,toList_text,code_append_of_not_mem hslash]
  rfl

end writing

section again

variable {c : HostCall} {args later : List String}

/-- Reading what is written behind the word. -/
theorem ofTail_written (c : HostCall) : ofTail (" => ".toList ++ (c.path.toList ++ c.tail)) =
    if (trim (sides (uncommented (' ' :: (c.path.toList ++ c.tail)))).1).isEmpty then .error .missingPath
    else .ok ⟨String.ofList (trim (sides (uncommented (' ' :: (c.path.toList ++ c.tail)))).1),
      readArgs (sides (uncommented (' ' :: (c.path.toList ++ c.tail)))).2⟩ :=
  ofTail_arrow rfl

theorem ofTail_slashed (h : slashed c.path = true) :
    ofTail (" => ".toList ++ (c.path.toList ++ c.tail)) = .error .missingPath := by
  obtain ⟨rest, hrest⟩ := List.isPrefixOf_iff_prefix.1 h
  have hread : uncommented (' ' :: (c.path.toList ++ c.tail)) = [] := by
    rw [← hrest]
    exact uncommented_append (a := []) (by decide) (rest ++ c.tail)
  rw [ofTail_written,hread]
  rfl

/-- The path is read up to the wavy arrow, and the arguments behind it. -/
theorem ofTail_path (hc : c.IsRead) {x : List Char}
    (h : uncommented (' ' :: (c.path.toList ++ c.tail)) = (' ' :: c.path.toList) ++ ([' ', '~', '>'] ++ x)) :
    ofTail (" => ".toList ++ (c.path.toList ++ c.tail)) = .ok ⟨c.path, readArgs x⟩ := by
  have hbare : ¬['~', '>'] <:+: (' ' :: (c.path.toList ++ [' '])) ++ ['~'] := by
    intro hi
    have hi : ['~', '>'] <:+: c.path.toList ++ ' ' :: ['~'] := by simpa [List.infix_cons_iff] using hi
    rcases infix_append_of (by decide) hi with hi | hi
    · exact hc.bare hi
    · simp [List.infix_cons_iff] at hi
  have hsides : sides ((' ' :: c.path.toList) ++ ([' ', '~', '>'] ++ x)) = (' ' :: (c.path.toList ++ [' ']), x) := by
    simpa using sides_append hbare x
  have htrim : trim (' ' :: (c.path.toList ++ [' '])) = c.path.toList := by
    rw [trim_cons (by decide),trim_concat (by decide),hc.path.trimmed]
  rw [ofTail_written,h,hsides,htrim]
  simp [hc.path.ne_nil]

theorem ofTail_of_nil (hc : c.IsRead) (hpath : slashed c.path = false) (hargs : c.args = []) :
    ofTail (" => ".toList ++ (c.path.toList ++ c.tail)) = .ok c := by
  have htail : c.path.toList ++ c.tail = c.path.toList := by simp [tail,hargs]
  have hbare : ¬['~', '>'] <:+: ' ' :: c.path.toList := by simpa [List.infix_cons_iff] using hc.bare
  have htrim : trim (' ' :: c.path.toList) = c.path.toList := by rw [trim_cons (by decide),hc.path.trimmed]
  have hwhole : (⟨c.path, []⟩ : HostCall) = c := congrArg (HostCall.mk c.path) hargs.symm
  rw [ofTail_written,htail,uncommented_of_plain (hc.path.plain_space hpath),sides_of_bare hbare,htrim,readArgs_nil]
  simp [hc.path.ne_nil,hwhole]

/-- A call none of whose parts begins with two slashes is read again. -/
theorem ofTail_of_plain (hc : c.IsRead) (hpath : slashed c.path = false)
    (hargs : ∀ a ∈ c.args, slashed a = false) : ofTail (" => ".toList ++ (c.path.toList ++ c.tail)) = .ok c := by
  rcases List.eq_nil_or_concat c.args with hnil | ⟨front, last, hlast⟩
  · exact ofTail_of_nil hc hpath hnil
  · rw [List.concat_eq_append] at hlast
    have hall : ∀ a ∈ front ++ [last], (IsPart a.toList ∧ ',' ∉ a.toList) ∧ slashed a = false :=
      fun a ha => ⟨hc.args a (hlast ▸ ha), hargs a (hlast ▸ ha)⟩
    obtain ⟨hfront, hend⟩ := List.forall_mem_append.1 hall
    obtain ⟨⟨hpart, hcomma⟩, hslash⟩ := hend last List.mem_cons_self
    have hjoined : joined [last] = last.toList := by simp [joined]
    have htail : c.tail = [' ', '~', '>'] ++ (listed front ++ ' ' :: last.toList) := by
      rw [tail_append hlast (List.cons_ne_nil last []),hjoined]
    have hplain := plain_path hc.path hpath
      (plain_listed (fun a ha => ⟨(hfront a ha).1.1, (hfront a ha).2⟩) (hpart.plain_space hslash))
    rw [← htail] at hplain
    rw [ofTail_path hc ((uncommented_of_plain hplain).trans (by rw [htail])),
      readArgs_listed fun a ha => (hfront a ha).1,readArgs_of_isPart hpart hcomma,← hlast]

/-- The first argument that begins with two slashes is taken for a comment. -/
theorem ofTail_of_slashed (hc : c.IsRead) (hpath : slashed c.path = false) {a : String}
    (h : c.args = args ++ a :: later) (hargs : ∀ b ∈ args, slashed b = false) (ha : slashed a = true) :
    ofTail (" => ".toList ++ (c.path.toList ++ c.tail)) = .ok ⟨c.path, args⟩ := by
  have hall : ∀ b ∈ args, IsPart b.toList ∧ ',' ∉ b.toList :=
    fun b hb => hc.args b (h ▸ List.mem_append_left _ hb)
  obtain ⟨more, hmore⟩ := joined_cons a later
  obtain ⟨rest, hrest⟩ := List.isPrefixOf_iff_prefix.1 ha
  let front := (' ' :: c.path.toList) ++ ([' ', '~', '>'] ++ listed args)
  have hplain : ¬[' ', '/', '/'] <:+: front ++ [' ', '/'] := by
    have hlisted : ¬[' ', '/', '/'] <:+: listed args ++ [' ', '/'] :=
      plain_listed (fun b hb => ⟨(hall b hb).1, hargs b hb⟩) (by decide)
    simpa [front] using plain_path hc.path hpath hlisted
  have hwritten : ' ' :: (c.path.toList ++ c.tail) = front ++ [' ', '/', '/'] ++ (rest ++ more) := by
    simp [front,tail_append h (List.cons_ne_nil a later),hmore,← hrest]
  have hread : readArgs (listed args) = args := by simpa [readArgs_nil] using readArgs_listed hall []
  rw [ofTail_path hc (hwritten ▸ uncommented_append hplain (rest ++ more)),hread]

/-- Reading the text of a call. -/
theorem ofText?_text (hc : c.IsRead) : ofText? c.text = c.kept := by
  have htrimmed : trimmed c.text = c.text := by rw [trimmed,trim_text hc,String.ofList_toList]
  have htail : ofText? c.text = (ofTail (" => ".toList ++ (c.path.toList ++ c.tail))).toOption := by
    rw [ofText?,htrimmed,cutWord_text]
  rw [htail]
  by_cases hpath : slashed c.path = true
  · rw [ofTail_slashed hpath,kept,if_pos hpath]
    rfl
  rw [kept,if_neg hpath]
  rw [Bool.not_eq_true] at hpath
  -- the first argument that begins with two slashes ends what is read, if there is one
  have hargs := List.takeWhile_append_dropWhile (p := fun a => !slashed a) (l := c.args)
  have hfront : ∀ a ∈ c.args.takeWhile fun a => !slashed a, slashed a = false := by
    intro a ha
    simpa using List.mem_takeWhile_imp ha
  cases hlater : c.args.dropWhile (fun a => !slashed a) with
  | nil =>
    rw [hlater,List.append_nil] at hargs
    rw [hargs] at hfront ⊢
    rw [ofTail_of_plain hc hpath hfront]
    rfl
  | cons a later =>
    have ha : slashed a = true := by
      have hd := List.head?_dropWhile_not (fun a => !slashed a) c.args
      simpa [hlater] using hd
    rw [hlater] at hargs
    rw [ofTail_of_slashed hc hpath hargs.symm hfront ha]
    rfl

theorem kept_eq_some_iff (c : HostCall) :
    c.kept = some c ↔ slashed c.path = false ∧ ∀ a ∈ c.args, slashed a = false := by
  obtain ⟨path, args⟩ := c
  by_cases hpath : slashed path = true
  · simp [kept,hpath]
  · simp [kept,hpath,List.takeWhile_eq_self_iff]

end again

/-- A call that was read is the call that is read from its text, exactly if neither its path nor one of its
arguments begins with two slashes. Nothing comes back of such a path, and of the arguments those in front of the
first such one. -/
theorem read_again_iff {t : String} {c : HostCall} (h : ofText? t = some c) :
    (ofText? c.text = some c ↔ slashed c.path = false ∧ ∀ a ∈ c.args, slashed a = false) ∧
    ofText? c.text = if slashed c.path then none
      else some ⟨c.path, c.args.takeWhile fun a => !slashed a⟩ := by
  have hread := ofText?_text (isRead_of_ofText? h)
  exact ⟨hread ▸ kept_eq_some_iff c, hread⟩

/-- Odd paths and arguments come back: arrows, quotes, commas without an argument, and slashes that no space
stands before. -/
theorem read_again_iff_odd :
    ofText? "  =>'a~'/x//y  ~> 1 ,, => b~>c,a//b," = some ⟨"'a~'/x//y", ["1", "=> b~>c", "a//b"]⟩ ∧
    ofText? "runexec => 'a~'/x//y ~> 1, => b~>c, a//b" = some ⟨"'a~'/x//y", ["1", "=> b~>c", "a//b"]⟩ := by
  have hread : ofText? "  =>'a~'/x//y  ~> 1 ,, => b~>c,a//b," = some ⟨"'a~'/x//y", ["1", "=> b~>c", "a//b"]⟩ := by
    decide +kernel
  exact ⟨hread, (read_again_iff hread).1.2 (by decide)⟩

/-- The path and the second argument stand right behind their separators, but not in the text of the calls. -/
theorem not_read_again :
    (∃ c, ofText? "=>//path" = some c ∧ ofText? c.text ≠ some c) ∧
    ∃ c, ofText? "=> path ~> a,//b" = some c ∧ ofText? c.text ≠ some c := by
  refine ⟨⟨⟨"//path", []⟩, ?_, ?_⟩, ⟨⟨"path", ["a", "//b"]⟩, ?_, ?_⟩⟩
  · decide +kernel
  · decide +kernel
  · decide +kernel
  · decide +kernel

end HostCall

end LineScript
