import LineScript.Proofs.Parser.Fuel
set_option autoImplicit false

/-!
Strict and tolerant reading agree. Both take one construct after the other from the same parser, and up
to the first error the two readings are in the same state; so a text without errors is read alike, and
otherwise the error of the strict reading is the first one that the tolerant reading collects.
-/

namespace LineScript

namespace Parser

/-- As long as no construct is refused, collecting goes along with strict reading. -/
theorem collectLines_of_parseLines {n : Nat} {p q : Parser} {ls : List Line}
    {rows : List (Row Token)} (h : parseLines n p ls = some (q, .ok rows)) :
    collectLines n p ls = some (q, rows, []) := by
  induction n generalizing p ls rows with
  | zero => cases h
  | succ n ih =>
    cases ls with
    | nil => simpa [parseLines,collectLines] using h
    | cons l ls =>
      rw [parseLines] at h
      rw [collectLines]
      cases hn : nextLine n p (l :: ls) with
      | none => simp [hn] at h
      | some s =>
        rw [hn] at h
        obtain ⟨p', rest, e | row⟩ := s
        · simp at h
        · rcases hl : parseLines n p' rest with _ | ⟨q', e | rows'⟩
          · simp [hl] at h
          · simp [hl] at h
          · obtain ⟨rfl, rfl⟩ : q' = q ∧ row.toList ++ rows' = rows := by simpa [hl] using h
            simp [ih hl]

/-- What strict reading gives, told from the errors of the tolerant one. -/
theorem parseLines_of_collectLines {n : Nat} {p q : Parser} {ls : List Line}
    {rows : List (Row Token)} {errors : List ParseError}
    (h : collectLines n p ls = some (q, rows, errors)) :
    (errors = [] ∧ parseLines n p ls = some (q, .ok rows)) ∨
      ∃ q' e, errors.head? = some e ∧ parseLines n p ls = some (q', .error e) := by
  induction n generalizing p ls rows errors with
  | zero => cases h
  | succ n ih =>
    cases ls with
    | nil =>
      obtain ⟨rfl, rfl, rfl⟩ : p = q ∧ rows = [] ∧ errors = [] := by simpa [collectLines] using h
      exact .inl ⟨rfl, rfl⟩
    | cons l ls =>
      rw [collectLines] at h
      rw [parseLines]
      cases hn : nextLine n p (l :: ls) with
      | none => simp [hn] at h
      | some s =>
        rw [hn] at h
        obtain ⟨p', rest, e | row⟩ := s
        · obtain ⟨⟨q', rows', errors'⟩, -, he⟩ := Option.map_eq_some_iff.1 h
          obtain ⟨-, -, rfl⟩ : q' = q ∧ rows' = rows ∧ e :: errors' = errors := by simpa using he
          exact .inr ⟨p', e, rfl, rfl⟩
        · obtain ⟨⟨q', rows', errors'⟩, hc, he⟩ := Option.map_eq_some_iff.1 h
          obtain ⟨rfl, rfl, rfl⟩ : q' = q ∧ row.toList ++ rows' = rows ∧ errors' = errors := by
            simpa using he
          rcases ih hc with ⟨rfl, hl⟩ | ⟨q'', e, hhead, hl⟩
          · exact .inl ⟨rfl, by simp [hl]⟩
          · exact .inr ⟨q'', e, hhead, by simp [hl]⟩

theorem parseTolerantWith_of_parseWith {n : Nat} {p q : Parser} {source : String}
    {program : Program} (h : p.parseWith n source = some (q, .ok program)) :
    ∃ warnings, p.parseTolerantWith n source = some (q, program, ⟨source, [], warnings⟩) := by
  unfold parseWith at h
  unfold parseTolerantWith
  rcases hl : parseLines n p (Line.ofSource source) with _ | ⟨p', e | rows⟩
  · simp [hl] at h
  · simp [hl] at h
  · rw [collectLines_of_parseLines hl]
    obtain ⟨rfl, rfl⟩ : { p' with warnings := [] } = q ∧ ⟨rows, p'.declared⟩ = program := by
      simpa [hl] using h
    exact ⟨p'.warnings, rfl⟩

theorem parseWith_of_parseTolerantWith {n : Nat} {p q : Parser} {source : String}
    {program : Program} {found : Diagnostics}
    (h : p.parseTolerantWith n source = some (q, program, found)) :
    (found.errors = [] ∧ p.parseWith n source = some (q, .ok program)) ∨
      ∃ q' e, found.errors.head? = some e ∧ p.parseWith n source = some (q', .error e) := by
  unfold parseTolerantWith at h
  unfold parseWith
  rcases hc : collectLines n p (Line.ofSource source) with _ | ⟨p', rows, errors⟩
  · simp [hc] at h
  · obtain ⟨rfl, rfl, rfl⟩ : { p' with warnings := [] } = q ∧ ⟨rows, p'.declared⟩ = program ∧
        ⟨source, errors, p'.warnings⟩ = found := by simpa [hc] using h
    rcases parseLines_of_collectLines hc with ⟨he, hl⟩ | ⟨q', e, he, hl⟩
    · exact .inl ⟨he, by simp [hl]⟩
    · exact .inr ⟨q', e, he, by simp [hl]⟩

/-- The answer of a strict reading does not depend on the fuel. -/
theorem parseWith_unique {n k : Nat} {p : Parser} {source : String}
    {r r' : Parser × Except ParseError Program} (h : p.parseWith n source = some r)
    (h' : p.parseWith k source = some r') : r = r' := by
  have houtlasts {i : Nat} {t : Parser × Except ParseError Program} (hi : i ≤ max n k)
      (ht : p.parseWith i source = some t) : p.parseWith (max n k) source = some t := by
    unfold parseWith at ht ⊢
    cases hl : parseLines i p (Line.ofSource source) with
    | none => simp [hl] at ht
    | some s =>
      rw [hl] at ht
      rwa [(outlasts hi).parseLines hl]
  have hn := houtlasts (Nat.le_max_left n k) h
  have hk := houtlasts (Nat.le_max_right n k) h'
  exact Option.some.inj (hn.symm.trans hk)

/-- A strict reading that ends well is a tolerant reading without errors, and a tolerant reading that
ends is preceded by a strict one; where both end, at whatever fuel, they agree. -/
theorem strict_agrees_with_tolerant (p : Parser) (source : String) :
    (∀ n q program, p.parseWith n source = some (q, .ok program) →
      ∃ k found, p.parseTolerantWith k source = some (q, program, found) ∧ found.errors = []) ∧
    (∀ k q program found, p.parseTolerantWith k source = some (q, program, found) →
      ∃ n q' r, p.parseWith n source = some (q', r)) ∧
    ∀ n k q r q' program found, p.parseWith n source = some (q, r) →
      p.parseTolerantWith k source = some (q', program, found) →
        ((∃ program', r = .ok program') ↔ found.errors = []) ∧
        (∀ program', r = .ok program' → program' = program ∧ q = q') ∧
        ∀ e, r = .error e → found.errors.head? = some e := by
  refine ⟨?_, ?_, ?_⟩
  · intro n q program h
    obtain ⟨warnings, ht⟩ := parseTolerantWith_of_parseWith h
    exact ⟨n, _, ht, rfl⟩
  · intro k q program found h
    rcases parseWith_of_parseTolerantWith h with ⟨-, hs⟩ | ⟨q', e, -, hs⟩
    · exact ⟨k, q, .ok program, hs⟩
    · exact ⟨k, q', .error e, hs⟩
  · intro n k q r q' program found h ht
    rcases parseWith_of_parseTolerantWith ht with ⟨he, hs⟩ | ⟨q'', e, he, hs⟩
    · obtain ⟨rfl, rfl⟩ : q = q' ∧ r = .ok program := Prod.mk.inj (parseWith_unique h hs)
      refine ⟨⟨fun _ => he, fun _ => ⟨program, rfl⟩⟩, ?_, nofun⟩
      rintro program' ⟨⟩
      exact ⟨rfl, rfl⟩
    · obtain ⟨rfl, rfl⟩ : q = q'' ∧ r = .error e := Prod.mk.inj (parseWith_unique h hs)
      refine ⟨⟨nofun, fun hnil => ?_⟩, nofun, ?_⟩
      · rw [hnil] at he
        cases he
      · rintro e' ⟨⟩
        exact he

/-- A class whose watch rule turns a later word into a call. -/
def watchSource : String :=
  "class A \x7b\nmethod hit : v\nreturn v\nexplicit watch \x7bv\x7d! => hit\n\x7d\nfound!"

/-- Two refused constructs with a line between them. -/
def refusedSource : String := "if \x7b\nx\n\x7d\nprint : y\ncontainer C \x7b\nNowhere\n\x7d"

theorem strict_agrees_with_tolerant_watch_and_refused :
    (∃ n k q program found, empty.parseWith n watchSource = some (q, .ok program) ∧
      program.lines.map Row.firstKind = [some .classWord, some .boundCall] ∧
      empty.parseTolerantWith k watchSource = some (q, program, found) ∧ found.errors = []) ∧
    ∃ n k q q' program found,
      empty.parseWith n refusedSource = some (q, .error ⟨1, .missingCondition "if"⟩) ∧
      empty.parseTolerantWith k refusedSource = some (q', program, found) ∧
      found.errors.length = 2 ∧ found.errors.head? = some ⟨1, .missingCondition "if"⟩ := by
  constructor
  · have hrun : ((empty.parseWith 12 watchSource).bind fun r => r.2.toOption.map fun program =>
        program.lines.map Row.firstKind) = some [some .classWord, some .boundCall] := by
      decide +kernel
    obtain ⟨⟨q, r⟩, hread, hrun⟩ := Option.bind_eq_some_iff.1 hrun
    obtain ⟨program, hr, hkinds⟩ := Option.map_eq_some_iff.1 hrun
    cases r with
    | error e => cases hr
    | ok found =>
      obtain rfl : found = program := Option.some.inj hr
      obtain ⟨k, diagnostics, ht, he⟩ :=
        (strict_agrees_with_tolerant empty watchSource).1 12 q found hread
      exact ⟨12, k, q, found, diagnostics, hread, hkinds, ht, he⟩
  · have hstrict : ((empty.parseWith 12 refusedSource).bind fun r =>
        match r.2 with
        | .error e => some e
        | .ok _ => none) = some ⟨1, .missingCondition "if"⟩ := by decide +kernel
    have htolerant : (empty.parseTolerantWith 20 refusedSource).map (fun r => r.2.2.errors.length) =
        some 2 := by decide +kernel
    obtain ⟨⟨q, r⟩, hread, he⟩ := Option.bind_eq_some_iff.1 hstrict
    obtain ⟨⟨q', program, found⟩, hcollect, hlength⟩ := Option.map_eq_some_iff.1 htolerant
    cases r with
    | ok program => cases he
    | error e =>
      obtain rfl := Option.some.inj he
      have hagree := (strict_agrees_with_tolerant empty refusedSource).2.2 12 20 q _ q' program found
        hread hcollect
      exact ⟨12, 20, q, q', program, found, hread, hcollect, hlength, hagree.2.2 _ rfl⟩

end Parser

end LineScript
