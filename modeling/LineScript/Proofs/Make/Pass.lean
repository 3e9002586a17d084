import LineScript.Make
set_option autoImplicit false

/-!
One pass of a declaration over the lines. `Passes` says what a pass is without a place to count: where the
take patterns are found on the lines at the front, their replacement comes out and the pass goes on behind
them, and any other line comes out as it is. Rewriting the lines where they stand, with a place that moves
over what was put there, is such a pass over the lines from the place on.
-/

namespace LineScript.Make

variable {m : Make}

/-- Every pattern is found on its line. -/
inductive Found : List Pattern → List Line → List Pattern.Match → Prop where
  | nil : Found [] [] []
  | cons {p : Pattern} {ps : List Pattern} {l : Line} {ls : List Line} {f : Pattern.Match}
    {fs : List Pattern.Match} : p.find l.text = some f → Found ps ls fs →
    Found (p :: ps) (l :: ls) (f :: fs)

/-- What comes in the place of the lines on which the take patterns are found, under the number of the first
of them. Of a single line the text around the match is kept: in front of the first replacement and behind
the last one, or alone if there is none and it is not blank. -/
inductive Puts (m : Make) : List Line → List Pattern.Match → List Line → Prop where
  | window {l : Line} {ls : List Line} {found : List Pattern.Match} : m.more ≠ [] →
    Puts m (l :: ls) found ((m.fill found).map (lineOf l.number))
  | around {l : Line} {f : Pattern.Match} : m.more = [] → m.fill [f] ≠ [] →
    Puts m [l] [f] ((m.fill [f]).mapIdx fun i text => lineOf l.number
      ((if i = 0 then f.before else []) ++ text ++
        if i + 1 = (m.fill [f]).length then f.after else []))
  | alone {l : Line} {f : Pattern.Match} : m.more = [] → m.fill [f] = [] →
    Puts m [l] [f] (Line.trimmed? l.number (f.before ++ ' ' :: f.after)).toList

/-- One pass over the lines, with the lines that come out of it. -/
inductive Passes (m : Make) : List Line → List Line → Prop where
  | done : Passes m [] []
  | rewritten {window later new out : List Line} {found : List Pattern.Match} :
    Found (m.first :: m.more) window found → Puts m window found new → Passes m later out →
    Passes m (window ++ later) (new ++ out)
  | kept {l : Line} {r out : List Line} :
    (∀ window later found, l :: r = window ++ later → ¬Found (m.first :: m.more) window found) →
    Passes m r out → Passes m (l :: r) (l :: out)

section Front

variable {ps : List Pattern} {window ls new : List Line} {l : Line} {found : List Pattern.Match}

theorem Found.length_eq (h : Found ps window found) : window.length = ps.length := by
  induction h with
  | nil => rfl
  | cons _ _ ih => simp [ih]

theorem matchWindow_eq_some_iff :
    matchWindow ps ls = some found ↔ ∃ window later, ls = window ++ later ∧ Found ps window found := by
  induction ps generalizing ls found with
  | nil =>
    constructor
    · intro h
      obtain rfl : [] = found := by simpa [matchWindow] using h
      exact ⟨[], ls, rfl, .nil⟩
    · intro h
      obtain ⟨window, later, -, hfound⟩ := h
      cases hfound
      simp [matchWindow]
  | cons p ps ih =>
    cases ls with
    | nil =>
      constructor
      · intro h
        simp [matchWindow] at h
      · intro h
        obtain ⟨window, later, hnil, hfound⟩ := h
        cases hfound
        simp at hnil
    | cons l ls =>
      constructor
      · intro h
        simp only [matchWindow,Option.bind_eq_bind,Option.bind_eq_some_iff] at h
        obtain ⟨f, hf, fs, hfs, h⟩ := h
        obtain rfl := Option.some.inj h
        obtain ⟨window, later, rfl, hfound⟩ := ih.1 hfs
        exact ⟨l :: window, later, rfl, .cons hf hfound⟩
      · intro h
        obtain ⟨window, later, hsplit, hfound⟩ := h
        cases hfound with
        | cons hf hfound =>
          obtain ⟨rfl, rfl⟩ := List.cons.inj hsplit
          simp [matchWindow,hf,ih.2 ⟨_, later, rfl, hfound⟩]

theorem surround_close (after : List Char) (texts : List (List Char)) :
    surround.close after texts = texts.mapIdx fun i text =>
      text ++ if i + 1 = texts.length then after else [] := by
  induction texts with
  | nil => rfl
  | cons t ts ih =>
    cases ts with
    | nil => simp [surround.close]
    | cons u us => simp [surround.close,ih,List.mapIdx_cons]

theorem surround_eq (before after : List Char) (texts : List (List Char)) :
    surround before after texts = texts.mapIdx fun i text =>
      (if i = 0 then before else []) ++ text ++ if i + 1 = texts.length then after else [] := by
  cases texts with
  | nil => rfl
  | cons t ts =>
    cases ts with
    | nil => simp [surround]
    | cons u us => simp [surround,surround_close,List.mapIdx_cons]

theorem rewriteLine_puts (hmore : m.more = []) (l : Line) (f : Pattern.Match) :
    Puts m [l] [f] (m.rewriteLine l f) := by
  unfold rewriteLine
  rw [surround_eq]
  cases hfill : m.fill [f] with
  | nil =>
    have hrest : Line.trimmed? l.number (f.before ++ ' ' :: f.after) =
        if (lineOf l.number (f.before ++ ' ' :: f.after)).text.isEmpty then none
        else some (lineOf l.number (f.before ++ ' ' :: f.after)) := by
      simp [Line.trimmed?,lineOf]
    have halone := Puts.alone (l := l) hmore hfill
    rw [hrest] at halone
    dsimp only [List.mapIdx_nil]
    split
    · next hblank => simpa [hblank] using halone
    · next hblank => simpa [hblank] using halone
  | cons t ts =>
    have haround := Puts.around (l := l) hmore (f := f) (by simp [hfill])
    rw [hfill] at haround
    simpa [List.mapIdx_eq_zipIdx_map,Function.comp_def] using haround

theorem Puts.window_eq (hmore : m.more ≠ []) (h : Puts m (l :: ls) found new) :
    new = (m.fill found).map (lineOf l.number) := by
  cases h with
  | window _ => rfl
  | around hnone _ => simp [hnone] at hmore
  | alone hnone _ => simp [hnone] at hmore

theorem Puts.line_eq {f : Pattern.Match} (hmore : m.more = []) (h : Puts m [l] [f] new) :
    new = m.rewriteLine l f := by
  have hline := rewriteLine_puts hmore l f
  generalize m.rewriteLine l f = new' at hline
  cases h with
  | window hsome => simp [hmore] at hsome
  | around _ hfill =>
    cases hline with
    | window hsome => simp [hmore] at hsome
    | around _ _ => rfl
    | alone _ hnil => simp [hnil] at hfill
  | alone _ hfill =>
    cases hline with
    | window hsome => simp [hmore] at hsome
    | around _ hsome => simp [hfill] at hsome
    | alone _ _ => rfl

/-- The lines at the front are rewritten if and only if the take patterns are found on them. -/
theorem rewrite?_eq_some_iff : m.rewrite? ls = some new ↔ ∃ window later found,
    ls = window ++ later ∧ Found (m.first :: m.more) window found ∧ Puts m window found new := by
  cases ls with
  | nil =>
    constructor
    · intro h
      simp [rewrite?] at h
    · intro h
      obtain ⟨window, later, found, hnil, hfound, -⟩ := h
      have hlength := hfound.length_eq
      simp [(List.append_eq_nil_iff.1 hnil.symm).1] at hlength
  | cons l r =>
    by_cases hmore : m.more = []
    · simp only [rewrite?,hmore,List.isEmpty_nil,if_true,Option.map_eq_some_iff]
      constructor
      · intro h
        obtain ⟨f, hf, rfl⟩ := h
        exact ⟨[l], r, [f], rfl, .cons hf .nil, rewriteLine_puts hmore l f⟩
      · intro h
        obtain ⟨window, later, found, hsplit, hfound, hputs⟩ := h
        cases hfound with
        | cons hf hrest =>
          cases hrest
          obtain ⟨rfl, rfl⟩ := List.cons.inj hsplit
          exact ⟨_, hf, (hputs.line_eq hmore).symm⟩
    · simp only [rewrite?,List.isEmpty_iff,hmore,if_false,Option.map_eq_some_iff,matchWindow_eq_some_iff]
      constructor
      · intro h
        obtain ⟨found, ⟨window, later, hsplit, hfound⟩, rfl⟩ := h
        cases hfound with
        | cons hf hrest =>
          obtain ⟨rfl, rfl⟩ := List.cons.inj hsplit
          exact ⟨_, later, _, rfl, .cons hf hrest, .window hmore⟩
      · intro h
        obtain ⟨window, later, found, hsplit, hfound, hputs⟩ := h
        cases hfound with
        | cons hf hrest =>
          obtain ⟨rfl, rfl⟩ := List.cons.inj hsplit
          exact ⟨_, ⟨_, later, rfl, .cons hf hrest⟩, (hputs.window_eq hmore).symm⟩

/-- A match of the take patterns on the lines at the front puts something in their place. -/
theorem Found.puts (h : Found (m.first :: m.more) window found) : ∃ new, Puts m window found new := by
  cases h with
  | @cons p ps l ls f fs hf hrest =>
    by_cases hmore : m.more = []
    · rw [hmore] at hrest
      cases hrest
      exact ⟨_, rewriteLine_puts hmore l f⟩
    · exact ⟨_, .window hmore⟩

theorem rewrite?_eq_none_iff : m.rewrite? ls = none ↔
    ∀ window later found, ls = window ++ later → ¬Found (m.first :: m.more) window found := by
  constructor
  · intro h window later found hsplit hfound
    obtain ⟨new, hputs⟩ := hfound.puts
    rw [rewrite?_eq_some_iff.2 ⟨window, later, found, hsplit, hfound, hputs⟩] at h
    cases h
  · intro h
    cases hr : m.rewrite? ls with
    | none => rfl
    | some new =>
      obtain ⟨window, later, found, hsplit, hfound, -⟩ := rewrite?_eq_some_iff.1 hr
      exact absurd hfound (h window later found hsplit)

end Front

section Pass

variable {ls out : List Line}

/-- The lines that come out are settled by the lines that go in. -/
theorem Passes.unique {out' : List Line} (h : Passes m ls out) (h' : Passes m ls out') : out = out' := by
  induction h generalizing out' with
  | done =>
    generalize hnil : ([] : List Line) = ls at h'
    cases h' with
    | done => rfl
    | rewritten hfound _ _ =>
      have hlength := hfound.length_eq
      simp [(List.append_eq_nil_iff.1 hnil.symm).1] at hlength
    | kept _ _ => cases hnil
  | @rewritten window later new out found hfound hputs _ ih =>
    have hnew := rewrite?_eq_some_iff.2 ⟨window, later, found, rfl, hfound, hputs⟩
    generalize hsplit : window ++ later = ls at h'
    cases h' with
    | done =>
      have hlength := hfound.length_eq
      simp [(List.append_eq_nil_iff.1 hsplit).1] at hlength
    | @rewritten window' later' new' out'' found' hfound' hputs' hrest' =>
      have hnew' := rewrite?_eq_some_iff.2 ⟨window', later', found', rfl, hfound', hputs'⟩
      rw [← hsplit,hnew] at hnew'
      obtain ⟨-, rfl⟩ := List.append_inj hsplit (hfound.length_eq.trans hfound'.length_eq.symm)
      rw [Option.some.inj hnew',ih hrest']
    | kept hnone _ => exact absurd hfound (hnone window later found hsplit.symm)
  | @kept l r out hnone _ ih =>
    generalize hsplit : l :: r = ls at h'
    cases h' with
    | done => cases hsplit
    | rewritten hfound _ _ => exact absurd hfound (hnone _ _ _ hsplit)
    | kept _ hrest =>
      obtain ⟨rfl, rfl⟩ := List.cons.inj hsplit
      rw [ih hrest]

/-- Rewriting in place from a place on leaves the lines before it and passes over the others. -/
theorem apply_passes (m : Make) (lines : List Line) (index : Nat) :
    ∃ out, m.Passes (lines.drop index) out ∧ m.apply lines index = lines.take index ++ out := by
  fun_induction m.apply lines index with
  | case1 lines index hlt new hnew ih =>
    obtain ⟨out, hout, happly⟩ := ih
    obtain ⟨window, later, found, hsplit, hfound, hputs⟩ := rewrite?_eq_some_iff.1 hnew
    have hwindow : window.length = m.width := hfound.length_eq
    have hlater : lines.drop (index + m.width) = later := by
      rw [← List.drop_drop,hsplit,← hwindow,List.drop_left]
    have hfront : (lines.take index ++ new).length = index + new.length := by
      simp
      omega
    rw [← hfront,List.drop_left,hlater] at hout
    refine ⟨new ++ out, ?_, ?_⟩
    · rw [hsplit]
      exact .rewritten hfound hputs hout
    · rw [happly,← hfront,List.take_left,List.append_assoc]
  | case2 lines index hlt hnone ih =>
    obtain ⟨out, hout, happly⟩ := ih
    have hdrop := List.drop_eq_getElem_cons hlt
    rw [hdrop] at hnone ⊢
    refine ⟨lines[index] :: out, .kept (rewrite?_eq_none_iff.1 hnone) hout, ?_⟩
    rw [happly,List.take_succ_eq_append_getElem hlt,List.append_assoc]
    rfl
  | case3 lines index hge =>
    have hdrop : lines.drop index = [] := List.drop_eq_nil_of_le (by omega)
    have htake : lines.take index = lines := List.take_of_length_le (by omega)
    exact ⟨[], by rw [hdrop]; exact .done, by rw [htake,List.append_nil]⟩

/-- A pass with a single take pattern goes line by line. -/
theorem Passes.flatMap (hmore : m.more = []) (h : Passes m ls out) :
    out = ls.flatMap fun l => (m.rewrite? [l]).getD [l] := by
  induction h with
  | done => rfl
  | @rewritten window later new out found hfound hputs _ ih =>
    have hnew : m.rewrite? window = some new :=
      rewrite?_eq_some_iff.2 ⟨window, [], found, by simp, hfound, hputs⟩
    have hlength : window.length = 1 := by simpa [hmore] using hfound.length_eq
    obtain ⟨l, rfl⟩ := List.length_eq_one_iff.1 hlength
    simp [hnew,ih]
  | @kept l r out hnone _ ih =>
    have hkept : m.rewrite? [l] = none := by
      refine rewrite?_eq_none_iff.2 fun window later found hsplit hfound => ?_
      exact hnone window (later ++ r) found (by rw [← List.append_assoc,← hsplit]; rfl) hfound
    simp [hkept,ih]

end Pass

/-- A declaration is applied from a place on: the lines before the place stay, those behind it become what
one pass over them makes of them, and that is one thing only. What is put anywhere is behind the pass, so it
makes no difference to the rest; with a single take pattern every line is rewritten by itself. -/
theorem rewriting_is_one_pass (m : Make) (lines : List Line) (index : Nat) :
    (∃ out, m.apply lines index = lines.take index ++ out ∧ m.Passes (lines.drop index) out ∧
      ∀ out', m.Passes (lines.drop index) out' → out' = out) ∧
    (∀ put, m.apply (put ++ lines) put.length = put ++ m.apply lines 0) ∧
    (m.more = [] → m.apply lines index =
      lines.take index ++ (lines.drop index).flatMap fun l => (m.rewrite? [l]).getD [l]) := by
  obtain ⟨out, hpasses, happly⟩ := m.apply_passes lines index
  refine ⟨⟨out, happly, hpasses, fun out' h => h.unique hpasses⟩, fun put => ?_, fun hmore => ?_⟩
  · obtain ⟨behind, hbehind, hput⟩ := m.apply_passes (put ++ lines) put.length
    obtain ⟨all, hall, hzero⟩ := m.apply_passes lines 0
    rw [List.drop_left] at hbehind
    simp [hput,hzero,hbehind.unique hall]
  · rw [happly,hpasses.flatMap hmore]

/-- Every replacement has the text to take in it again. -/
def doubling : Make := ⟨⟨"a", .nonBlank, [.literal ['a']]⟩, [], ["a", "b a"], 1⟩

theorem rewriting_is_one_pass_doubling :
    let lines : List Line := [⟨1, "a"⟩, ⟨2, "x a y"⟩, ⟨3, "z"⟩]
    doubling.more = [] ∧
    doubling.apply lines 1 = [⟨1, "a"⟩, ⟨2, "x a"⟩, ⟨2, "b a y"⟩, ⟨3, "z"⟩] ∧
    doubling.apply lines 1 =
      lines.take 1 ++ (lines.drop 1).flatMap (fun l => (doubling.rewrite? [l]).getD [l]) ∧
    ∃ out, doubling.apply lines 1 = lines.take 1 ++ out ∧ doubling.Passes (lines.drop 1) out := by
  intro lines
  obtain ⟨⟨out, happly, hpasses, -⟩, -, hsingle⟩ := rewriting_is_one_pass doubling lines 1
  exact ⟨rfl, by decide +kernel, hsingle rfl, out, happly, hpasses⟩

end LineScript.Make
