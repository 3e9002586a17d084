import LineScript.Proofs.Parser.Front
set_option autoImplicit false

/-!
Fuel does not decide what is read: a reader that gives an answer gives the same one with any more fuel.
Hence two readings of the same lines that both end are the same, whatever fuel each was given.
-/

namespace LineScript

namespace Parser

/-- Every answer that the readers give with the fuel `n`, they give with the fuel `k`. -/
structure Outlasts (n k : Nat) : Prop where
  nextLine : ∀ {p : Parser} {ls : List Line} {s : Step},
    nextLine n p ls = some s → nextLine k p ls = some s
  parseLines : ∀ {p : Parser} {ls : List Line} {r : Parser × Except ParseError (List (Row Token))},
    parseLines n p ls = some r → parseLines k p ls = some r
  parseMembers : ∀ {p : Parser} {c : Class Token} {ls : List Line}
    {r : Parser × Except ParseError (Class Token)},
    parseMembers n p c ls = some r → parseMembers k p c ls = some r

namespace Outlasts

variable {n k : Nat} (ih : Outlasts n k) {p : Parser} {ls : List Line}
include ih

theorem nextLine_succ {s : Step} (h : Parser.nextLine (n + 1) p ls = some s) :
    Parser.nextLine (k + 1) p ls = some s := by
  cases ls with
  | nil => exact h
  | cons header tail =>
    rw [nextLine_cons] at h ⊢
    cases hf : front p header tail with
    | settled t => rwa [hf] at h
    | ofLines body rest finish =>
      rw [hf] at h
      obtain ⟨r, hr, rfl⟩ := Option.map_eq_some_iff.1 h
      simp [Construct.run,ih.parseLines hr]
    | ofMembers start body rest finish =>
      rw [hf] at h
      obtain ⟨r, hr, rfl⟩ := Option.map_eq_some_iff.1 h
      simp [Construct.run,ih.parseMembers hr]

theorem parseLines_succ {r : Parser × Except ParseError (List (Row Token))}
    (h : Parser.parseLines (n + 1) p ls = some r) : Parser.parseLines (k + 1) p ls = some r := by
  cases ls with
  | nil => exact h
  | cons l ls =>
    rw [Parser.parseLines] at h ⊢
    cases hn : Parser.nextLine n p (l :: ls) with
    | none => simp [hn] at h
    | some s =>
      rw [hn] at h
      rw [ih.nextLine hn]
      obtain ⟨q, rest, e | row⟩ := s
      · exact h
      · cases hl : Parser.parseLines n q rest with
        | none => simp [hl] at h
        | some t =>
          simp only [hl] at h
          simp only [ih.parseLines hl]
          exact h

theorem parseMembers_succ {c : Class Token} {r : Parser × Except ParseError (Class Token)}
    (h : Parser.parseMembers (n + 1) p c ls = some r) :
    Parser.parseMembers (k + 1) p c ls = some r := by
  cases ls with
  | nil => exact h
  | cons line tail =>
    rw [parseMembers_cons] at h ⊢
    cases hf : memberFront p c line tail with
    | refused e => rwa [hf] at h
    | settled c rest =>
      rw [hf] at h
      exact ih.parseMembers h
    | ofLines body rest finish =>
      simp only [hf,Membership.run] at h ⊢
      cases hl : Parser.parseLines n p body with
      | none => simp [hl] at h
      | some t =>
        rw [hl] at h
        rw [ih.parseLines hl]
        obtain ⟨q, e | rows⟩ := t
        · exact h
        · exact ih.parseMembers h
    | ofMembers start body rest finish =>
      simp only [hf,Membership.run] at h ⊢
      cases hm : Parser.parseMembers n p start body with
      | none => simp [hm] at h
      | some t =>
        rw [hm] at h
        rw [ih.parseMembers hm]
        obtain ⟨q, e | nested⟩ := t
        · exact h
        · exact ih.parseMembers h

end Outlasts

theorem outlasts {n k : Nat} (h : n ≤ k) : Outlasts n k := by
  induction n generalizing k with
  | zero => exact ⟨nofun, nofun, nofun⟩
  | succ n ih =>
    cases k with
    | zero => omega
    | succ k =>
      have ih := ih (Nat.le_of_succ_le_succ h)
      exact ⟨ih.nextLine_succ, ih.parseLines_succ, ih.parseMembers_succ⟩

end Parser

end LineScript
