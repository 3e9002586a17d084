import LineScript.Proofs.Text.Note
import LineScript.Proofs.Trace
set_option autoImplicit false

/-!
Root messages. Taking a wrapping off cuts the text at the first separator behind the header, and that is the one
that the wrapping put there unless the name of the construct holds a separator, or begins one that the real one
ends. So wrappings with other names are all taken off again, and the root message is that of the error unless
this already looks like a wrapping. Every other name spoils the root message of some error.
-/

namespace LineScript

namespace RuntimeError

open Text

/-- What stands in front of the name of a construct. -/
def header : List Char := "Error with \"".toList

/-- What stands between the name of a construct and the message of the error that left it. -/
def separator : List Char := "\", Error Message:\"".toList

/-- The first separator behind the name is the one that a wrapping puts there. -/
def Apart (name : String) : Prop := ¬separator <:+: name.toList ++ separator.dropLast

/-- The text looks like a wrapping: a header, and a separator somewhere behind it. -/
def Wrapped (text : List Char) : Prop := ∃ rest, text = header ++ rest ∧ separator <:+: rest

instance (name : String) : Decidable (Apart name) := inferInstanceAs (Decidable (¬_))

/-- The text without one quote at its end. -/
def stripped (cs : List Char) : List Char := if cs.getLast? = some '"' then cs.dropLast else cs

/-- What is left of a text when all that looks like wrappings is taken off. -/
def root (cs : List Char) : List Char := rootText cs.length cs

section unwrapping

variable {cs inner : List Char} {name : String}

theorem separator_ne_nil : separator ≠ [] := by decide +kernel

theorem stripped_concat (cs : List Char) : stripped (cs ++ ['"']) = cs := by
  simp [stripped]

theorem stripped_cases (cs : List Char) :
    cs = stripped cs ++ ['"'] ∨ stripped cs = cs ∧ cs.getLast? ≠ some '"' := by
  unfold stripped
  split
  · next h => exact .inl (List.dropLast_append_getLast? '"' h).symm
  · next h => exact .inr ⟨rfl, h⟩

theorem length_stripped_le (cs : List Char) : (stripped cs).length ≤ cs.length := by
  rcases stripped_cases cs with h | ⟨h, -⟩
  · rw [h,stripped_concat]
    simp
  · exact Nat.le_of_eq (congrArg List.length h)

theorem unwrapText?_header (rest : List Char) :
    unwrapText? (header ++ rest) = (cut separator rest).map fun p => stripped p.2 := by
  have hprefix : header.isPrefixOf (header ++ rest) = true :=
    List.isPrefixOf_iff_prefix.2 (List.prefix_append header rest)
  have hdrop : (header ++ rest).drop header.length = rest := List.drop_left
  calc unwrapText? (header ++ rest)
      = if header.isPrefixOf (header ++ rest) = true then
          (cut separator ((header ++ rest).drop header.length)).map fun p => stripped p.2
        else none := rfl
    _ = _ := by rw [if_pos hprefix,hdrop]

/-- A text is taken apart at the first separator behind its header. -/
theorem unwrapText?_eq_some_iff : unwrapText? cs = some inner ↔
    ∃ rest a b, cs = header ++ rest ∧ cut separator rest = some (a, b) ∧ inner = stripped b := by
  constructor
  · intro h
    have hheader : header <+: cs := by
      unfold unwrapText? at h
      dsimp only at h
      split at h
      · next hp => exact List.isPrefixOf_iff_prefix.1 hp
      · cases h
    obtain ⟨rest, rfl⟩ := hheader
    rw [unwrapText?_header] at h
    obtain ⟨⟨a, b⟩, hcut, rfl⟩ := Option.map_eq_some_iff.1 h
    exact ⟨rest, a, b, rfl, hcut, rfl⟩
  · rintro ⟨rest, a, b, rfl, hcut, rfl⟩
    rw [unwrapText?_header,hcut]
    rfl

theorem unwrapText?_eq_none_iff : unwrapText? cs = none ↔ ¬Wrapped cs := by
  constructor
  · rintro h ⟨rest, rfl, hinfix⟩
    rw [unwrapText?_header,Option.map_eq_none_iff] at h
    exact (cut_eq_none_iff separator_ne_nil).1 h hinfix
  · intro h
    refine Option.eq_none_iff_forall_ne_some.2 fun inner hinner => ?_
    obtain ⟨rest, a, b, rfl, hcut, -⟩ := unwrapText?_eq_some_iff.1 hinner
    exact h ⟨rest, rfl, ⟨a, b, cut_append hcut⟩⟩

instance (cs : List Char) : Decidable (Wrapped cs) :=
  decidable_of_iff (¬unwrapText? cs = none) ((not_congr unwrapText?_eq_none_iff).trans not_not)

theorem length_of_unwrapText? (h : unwrapText? cs = some inner) : inner.length < cs.length := by
  obtain ⟨rest, a, b, rfl, hcut, rfl⟩ := unwrapText?_eq_some_iff.1 h
  have hlen := length_stripped_le b
  have hpos : 0 < header.length := by decide
  rw [← cut_append hcut]
  simp only [List.length_append]
  omega

/-- Taking wrappings off ends before the length of the text is used up. -/
theorem rootText_eq_root (fuel : Nat) (h : cs.length ≤ fuel) : rootText fuel cs = root cs := by
  have hall (n : Nat) : ∀ fuel cs, cs.length ≤ n → n ≤ fuel → rootText fuel cs = rootText n cs := by
    induction n with
    | zero =>
      intro fuel cs hcs hfuel
      obtain rfl := List.length_eq_zero_iff.1 (Nat.le_zero.1 hcs)
      cases fuel with
      | zero => rfl
      | succ fuel => rfl
    | succ n ih =>
      intro fuel cs hcs hfuel
      cases fuel with
      | zero => omega
      | succ fuel =>
        rw [rootText,rootText]
        split
        · next inner hinner =>
          have hlen := length_of_unwrapText? hinner
          exact ih fuel inner (by omega) (by omega)
        · rfl
  exact hall cs.length fuel cs (Nat.le_refl _) h

theorem root_of_some (h : unwrapText? cs = some inner) : root cs = root inner := by
  have hlen := length_of_unwrapText? h
  obtain ⟨n, hn⟩ := Nat.exists_eq_succ_of_ne_zero (Nat.ne_of_gt (Nat.zero_lt_of_lt hlen))
  rw [root,hn,rootText,h]
  exact rootText_eq_root n (by omega)

theorem root_of_none (h : unwrapText? cs = none) : root cs = cs := by
  unfold root
  cases cs.length with
  | zero => rfl
  | succ n => rw [rootText,h]

/-- What taking one wrapping off preserves is true of the root. -/
theorem root_of_preserved {P : List Char → Prop}
    (hstep : ∀ cs inner, unwrapText? cs = some inner → P cs → P inner) (h : P cs) : P (root cs) := by
  unfold root
  generalize cs.length = fuel
  induction fuel generalizing cs with
  | zero => exact h
  | succ fuel ih =>
    rw [rootText]
    split
    · next inner hinner => exact ih (hstep cs inner hinner h)
    · exact h

theorem root_eq_self_iff (cs : List Char) : root cs = cs ↔ ¬Wrapped cs := by
  rw [← unwrapText?_eq_none_iff]
  refine ⟨fun hroot => Option.eq_none_iff_forall_ne_some.2 fun inner hinner => ?_, root_of_none⟩
  have hlen := length_of_unwrapText? hinner
  have hle : (root inner).length ≤ inner.length :=
    root_of_preserved (P := fun text => text.length ≤ inner.length)
      (fun _ _ h hle => Nat.le_trans (Nat.le_of_lt (length_of_unwrapText? h)) hle) (Nat.le_refl _)
  rw [← root_of_some hinner,hroot] at hle
  omega

end unwrapping

section wrapping

variable {e : RuntimeError} {name : String} {names : List String} {cs : List Char}

theorem rootMessage_eq (e : RuntimeError) : e.rootMessage = String.ofList (root e.message.toList) :=
  rfl

theorem wrap_cases (e : RuntimeError) (name : String) :
    (∃ limit, e = stackOverflow limit ∧ e.wrap name = e) ∨ e.wrap name = inside name e := by
  cases e with
  | stackOverflow limit => exact .inl ⟨limit, rfl, rfl⟩
  | _ => exact .inr rfl

/-- The text of a wrapping around a message. -/
theorem toList_message_inside (name : String) (e : RuntimeError) : (inside name e).message.toList =
    header ++ (name.toList ++ separator ++ (e.message.toList ++ ['"'])) := by
  have hmessage : (inside name e).message =
      "Error with \"" ++ name ++ "\", Error Message:\"" ++ e.message ++ "\"" := rfl
  have hheader : "Error with \"".toList = header := rfl
  have hseparator : "\", Error Message:\"".toList = separator := rfl
  have hquote : "\"".toList = ['"'] := by decide
  rw [hmessage]
  simp only [String.toList_append,List.append_assoc,hheader,hseparator,hquote]

theorem unwrapText?_apart (h : Apart name) (m : List Char) :
    unwrapText? (header ++ (name.toList ++ separator ++ (m ++ ['"']))) = some m := by
  rw [unwrapText?_header,cut_of_first h,Option.map_some,stripped_concat]

theorem rootMessage_wrap (h : Apart name) (e : RuntimeError) : (e.wrap name).rootMessage = e.rootMessage := by
  rcases wrap_cases e name with ⟨limit, -, hsame⟩ | hinside
  · rw [hsame]
  · rw [hinside,rootMessage_eq,toList_message_inside,root_of_some (unwrapText?_apart h _),rootMessage_eq]

theorem rootMessage_wrapAll (h : ∀ name ∈ names, Apart name) (e : RuntimeError) :
    (e.wrapAll names).rootMessage = e.rootMessage := by
  induction names generalizing e with
  | nil => rfl
  | cons name names ih =>
    obtain ⟨hname, hnames⟩ := List.forall_mem_cons.1 h
    exact (ih hnames (e.wrap name)).trans (rootMessage_wrap hname e)

theorem rootMessage_eq_message_iff (e : RuntimeError) :
    e.rootMessage = e.message ↔ ¬Wrapped e.message.toList := by
  rw [rootMessage_eq,← root_eq_self_iff,← String.toList_inj,String.toList_ofList]

theorem wrapAll_stackOverflow (limit : Nat) (names : List String) :
    (stackOverflow limit).wrapAll names = stackOverflow limit := by
  induction names with
  | nil => rfl
  | cons name names ih => exact ih

/-- A name without a quote, as the keywords are. -/
theorem apart_of_not_mem (h : '"' ∉ name.toList) : Apart name := by
  rintro ⟨a, b, hab⟩
  have hcount := congrArg (List.count '"') hab
  have hname := List.count_eq_zero_of_not_mem h
  have hsep : separator.count '"' = 2 := by decide
  have hlast : separator.dropLast.count '"' = 1 := by decide
  simp only [List.count_append] at hcount
  omega

end wrapping

section spoiling

variable {cs inner : List Char} {name : String}

/-- The text ends with three quotes. -/
def Quoted (cs : List Char) : Prop := ['"', '"', '"'] <:+ cs

theorem separator_concat : separator = separator.dropLast ++ ['"'] := by decide

/-- Behind a separator stand at most the quotes that are left when the wrapping is taken off, and one more. -/
theorem quoted_of_unwrapText? (h : unwrapText? cs = some inner) (hq : Quoted inner ∨ inner = ['"']) :
    Quoted cs := by
  obtain ⟨rest, a, b, rfl, hcut, rfl⟩ := unwrapText?_eq_some_iff.1 h
  have hsuffix : b <:+ header ++ rest :=
    ⟨header ++ (a ++ separator), by rw [List.append_assoc,cut_append hcut]⟩
  rcases stripped_cases b with hb | ⟨hb, hlast⟩
  · rcases hq with ⟨front, hfront⟩ | hq
    · have hquoted : ['"', '"', '"'] <:+ b := ⟨front ++ ['"'], by rw [hb,← hfront]; simp⟩
      exact hquoted.trans hsuffix
    · rw [hq] at hb
      refine ⟨header ++ (a ++ separator.dropLast), ?_⟩
      rw [← cut_append hcut,hb,separator_concat]
      simp
  · rw [hb] at hq
    rcases hq with hq | rfl
    · exact hq.trans hsuffix
    · simp at hlast

/-- A text that ends with fewer than three quotes, and is no single one, has no single quote as its root. -/
theorem root_ne_quote (hq : ¬Quoted cs) (hne : cs ≠ ['"']) : root cs ≠ ['"'] := by
  have hpreserved : ¬Quoted (root cs) ∧ root cs ≠ ['"'] :=
    root_of_preserved (P := fun text => ¬Quoted text ∧ text ≠ ['"'])
      (fun _ _ h hp => not_or.1 fun hor => hp.1 (quoted_of_unwrapText? h hor)) ⟨hq, hne⟩
  exact hpreserved.2

/-- A separator that begins in the name hides the real one, and the quote that ends the real one stays in
front of the message. -/
theorem unwrapText?_of_not_apart (h : ¬Apart name) : ∃ front, front <:+ name.toList ++ separator.dropLast ∧
    unwrapText? (header ++ (name.toList ++ separator ++ ['"', '"'])) = some (front ++ ['"', '"']) := by
  have hcut : cut separator (name.toList ++ separator.dropLast) ≠ none :=
    fun hnone => h ((cut_eq_none_iff separator_ne_nil).1 hnone)
  obtain ⟨⟨a, front⟩, hcut⟩ := Option.ne_none_iff_exists'.1 hcut
  refine ⟨front, ⟨a ++ separator, cut_append hcut⟩, ?_⟩
  have htext : name.toList ++ separator ++ ['"', '"'] =
      name.toList ++ separator.dropLast ++ (['"', '"'] ++ ['"']) := by
    nth_rewrite 1 [separator_concat]
    simp
  rw [htext,unwrapText?_header,cut_append_right hcut,Option.map_some,← List.append_assoc,stripped_concat]

/-- A name that gives the message of a single quote back is apart: behind any other, more is left than that. -/
theorem apart_of_restored (h : ((custom "\"").wrap name).rootMessage = "\"") : Apart name := by
  refine Decidable.byContradiction fun hapart => ?_
  obtain ⟨front, hfront, hunwrap⟩ := unwrapText?_of_not_apart hapart
  have hmessage : ((custom "\"").wrap name).message.toList =
      header ++ (name.toList ++ separator ++ ['"', '"']) := toList_message_inside name (custom "\"")
  have hroot : root (front ++ ['"', '"']) = ['"'] := by
    have htext := congrArg String.toList h
    rwa [rootMessage_eq,String.toList_ofList,hmessage,root_of_some hunwrap] at htext
  have hne : front ++ ['"', '"'] ≠ ['"'] := fun hone => by simpa using congrArg List.length hone
  refine root_ne_quote ?_ hne hroot
  rintro ⟨x, hx⟩
  -- a third quote would stand where the separator has a colon
  have hend : x ++ ['"'] = front := by
    rw [show ['"', '"', '"'] = ['"'] ++ ['"', '"'] from rfl,← List.append_assoc] at hx
    exact List.append_cancel_right hx
  obtain ⟨y, hy⟩ := hfront
  have hquote : (name.toList ++ separator.dropLast).getLast? = some '"' := by
    rw [← hy,← hend]
    simp
  have hcolon : separator.dropLast.getLast? = some ':' := by decide +kernel
  rw [List.getLast?_append,hcolon] at hquote
  simp at hquote

end spoiling

/-- Wrappings whose names are apart are taken off again: the root message is the message of the error unless that
looks like a wrapping itself. A stack overflow is never wrapped. No weaker condition on the names would do: one
that is not apart spoils the root message of some error whose message does not look like a wrapping. -/
theorem root_undoes_wrapping (e : RuntimeError) (names : List String) :
    ((∀ name ∈ names, Apart name) →
      ((e.wrapAll names).rootMessage = e.message ↔ ¬Wrapped e.message.toList)) ∧
    (∀ limit, (stackOverflow limit).wrapAll names = stackOverflow limit) ∧
    ∀ name ∈ names, Apart name ↔
      ∀ e : RuntimeError, ¬Wrapped e.message.toList → (e.wrap name).rootMessage = e.message := by
  refine ⟨fun h => ?_, fun limit => wrapAll_stackOverflow limit names, fun name _ => ⟨fun h e he => ?_, fun h => ?_⟩⟩
  · rw [rootMessage_wrapAll h,rootMessage_eq_message_iff]
  · rw [rootMessage_wrap h,rootMessage_eq_message_iff]
    exact he
  · exact apart_of_restored (h (custom "\"") (by decide +kernel))

/-- Quotes in a name and in the message do no harm. -/
theorem root_undoes_wrapping_quoted :
    ((undefined "\"x\"").wrapAll ["print : \"x\"", "if"]).rootMessage = "Could not find '\"x\"'" :=
  ((root_undoes_wrapping (undefined "\"x\"") ["print : \"x\"", "if"]).1 (by decide +kernel)).2 (by decide +kernel)

/-- The line holds a separator, and the message of the second error looks like a wrapping. -/
theorem root_behind_separator :
    ((undefined "a\"").wrap "a\", Error Message:\"b").rootMessage = "b\", Error Message:\"Could not find 'a\"'" ∧
    (undefined "a\"").message = "Could not find 'a\"'" ∧
    (custom "Error with \"a\", Error Message:\"b\"").rootMessage = "b" := by
  decide +kernel

end RuntimeError

end LineScript
