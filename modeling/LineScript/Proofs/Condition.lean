import Mathlib.Data.List.Forall2
import LineScript.Machine.Line
import LineScript.Proofs.Machine.Follows
set_option autoImplicit false

/-!
Conditions. A token run is cut into terms at its joins, and each term but the last keeps the join behind it, so
the run can be put together again from its terms. A condition asks every term in turn, whatever was found
before, and joins the truths from the left: no join binds tighter than another.
-/

namespace LineScript

/-- The kind of the token that a join was read from. -/
def Join.kind : Join → Kind
  | and => .and
  | or => .or

def Join.apply : Join → Bool → Bool → Bool
  | and, a, b => a && b
  | or, a, b => a || b

/-- Joins the truths to the first one, from left to right. -/
def Join.fold (first : Bool) (joins : List Join) (truths : List Bool) : Bool :=
  (joins.zip truths).foldl (fun found p => p.1.apply found p.2) first

theorem Join.ofKind?_eq_some_iff {kind : Kind} {j : Join} : ofKind? kind = some j ↔ kind = j.kind := by
  cases kind with
  | and => cases j <;> simp [ofKind?,Join.kind]
  | or => cases j <;> simp [ofKind?,Join.kind]
  | _ => cases j <;> simp [ofKind?,Join.kind]

/-- The joins among the tokens, in their order. -/
def Token.joins (tokens : List Token) : List Join := tokens.filterMap fun t => Join.ofKind? t.kind

namespace Term

/-- The kind of the token in front of a negated term. -/
def mark (t : Term) : List Kind := if t.negated then [.not] else []

/-- The kind of the token behind a joined term. -/
def link (t : Term) : List Kind := (t.join.map Join.kind).toList

/-- The kinds of the tokens that a term was read from. -/
def kinds (t : Term) : List Kind := t.mark ++ t.tokens.map Token.kind ++ t.link

/-- The term was read from these tokens. -/
def ReadFrom (t : Term) (tokens : List Token) : Prop :=
  ∃ front back, tokens = front ++ t.tokens ++ back ∧ front.map Token.kind = t.mark ∧ back.map Token.kind = t.link

/-- The terms are those of the tokens: one more than there are joins, each with the join behind it. Put together
again they are the tokens; no join is left inside of a term, and no leading `not` that does not negate it. -/
structure Cut (tokens : List Token) (terms : List Term) : Prop where
  length : terms.length = tokens.countP (fun t => t.kind = .and ∨ t.kind = .or) + 1
  joins : terms.map Term.join = (Token.joins tokens).map some ++ [none]
  kinds : terms.flatMap Term.kinds = tokens.map Token.kind
  parts : ∃ parts, parts.flatten = tokens ∧ List.Forall₂ ReadFrom terms parts
  plain : ∀ t ∈ terms, Token.joins t.tokens = []
  marked : ∀ t ∈ terms, t.negated = false → t.tokens.head?.map Token.kind ≠ some .not

variable {current tokens : List Token} {t : Term} {join : Option Join}

theorem join_ofTokens (tokens : List Token) (join : Option Join) : (ofTokens tokens join).join = join := by
  unfold ofTokens
  split
  · rfl
  · split
    · rfl
    · rfl

theorem readFrom_ofTokens {back : List Token} (hback : back.map Token.kind = (join.map Join.kind).toList) :
    (ofTokens tokens join).ReadFrom (tokens ++ back) := by
  have hlink : back.map Token.kind = (ofTokens tokens join).link := by rw [link,join_ofTokens,hback]
  cases tokens with
  | nil => exact ⟨[], back, rfl, rfl, hlink⟩
  | cons t r =>
    by_cases ht : t.kind = .not
    · exact ⟨[t], back, by simp [ofTokens,ht], by simp [ofTokens,mark,ht], hlink⟩
    · exact ⟨[], back, by simp [ofTokens,ht], by simp [ofTokens,mark,ht], hlink⟩

/-- A leading `not` that is left did not stand in front. -/
theorem head_ofTokens (h : (ofTokens tokens join).negated = false) :
    (ofTokens tokens join).tokens.head?.map Token.kind ≠ some .not := by
  cases tokens with
  | nil => simp [ofTokens]
  | cons t r =>
    by_cases ht : t.kind = .not
    · simp [ofTokens,ht] at h
    · simp [ofTokens,ht]

theorem joins_ofTokens (h : Token.joins tokens = []) : Token.joins (ofTokens tokens join).tokens = [] := by
  cases tokens with
  | nil => rfl
  | cons t r =>
    by_cases ht : t.kind = .not
    · simpa [ofTokens,ht,Token.joins,Join.ofKind?] using h
    · simpa [ofTokens,ht] using h

theorem map_join_splitFrom (current tokens : List Token) :
    (splitFrom current tokens).map Term.join = (Token.joins tokens).map some ++ [none] := by
  induction tokens generalizing current with
  | nil => simp [splitFrom,join_ofTokens,Token.joins]
  | cons t r ih =>
    rw [splitFrom]
    split
    · next j hj => simp [ih,join_ofTokens,Token.joins,hj]
    · next hj => simp [ih,Token.joins,hj]

/-- The tokens fall into the parts that the terms are read from. -/
theorem parts_of_splitFrom (current tokens : List Token) :
    ∃ parts, parts.flatten = current ++ tokens ∧ List.Forall₂ ReadFrom (splitFrom current tokens) parts := by
  induction tokens generalizing current with
  | nil =>
    have hlast : (ofTokens current none).ReadFrom (current ++ []) := readFrom_ofTokens rfl
    exact ⟨[current ++ []], by simp, .cons hlast .nil⟩
  | cons t r ih =>
    rw [splitFrom]
    split
    · next j hj =>
      obtain ⟨parts, hflat, hparts⟩ := ih []
      have hback : [t].map Token.kind = ((some j).map Join.kind).toList := by
        simp [Join.ofKind?_eq_some_iff.1 hj]
      exact ⟨(current ++ [t]) :: parts, by simp [hflat], .cons (readFrom_ofTokens hback) hparts⟩
    · obtain ⟨parts, hflat, hparts⟩ := ih (current ++ [t])
      exact ⟨parts, by simp [hflat], hparts⟩

/-- Every term is read from a run without a join. -/
theorem mem_splitFrom (hcurrent : Token.joins current = []) (h : t ∈ splitFrom current tokens) :
    ∃ run join, Token.joins run = [] ∧ t = ofTokens run join := by
  induction tokens generalizing current with
  | nil => exact ⟨current, none, hcurrent, by simpa [splitFrom] using h⟩
  | cons u r ih =>
    rw [splitFrom] at h
    split at h
    · next j hj =>
      rcases List.mem_cons.1 h with rfl | h
      · exact ⟨current, some j, hcurrent, rfl⟩
      · exact ih rfl h
    · next hj =>
      have hrun : Token.joins (current ++ [u]) = [] := by
        rw [Token.joins] at hcurrent
        simp [Token.joins,hcurrent,hj]
      exact ih hrun h

theorem kinds_of_readFrom {terms : List Term} {parts : List (List Token)}
    (h : List.Forall₂ ReadFrom terms parts) : terms.flatMap kinds = parts.flatten.map Token.kind := by
  induction h with
  | nil => rfl
  | cons hread _ ih =>
    obtain ⟨front, back, rfl, hfront, hback⟩ := hread
    simp [ih,kinds,hfront,hback]

theorem length_joins (tokens : List Token) :
    (Token.joins tokens).length = tokens.countP fun t => t.kind = .and ∨ t.kind = .or := by
  induction tokens with
  | nil => rfl
  | cons t r ih =>
    unfold Token.joins at ih ⊢
    cases hj : Join.ofKind? t.kind with
    | none =>
      have hand : t.kind ≠ .and := fun h => by simp [h,Join.ofKind?] at hj
      have hor : t.kind ≠ .or := fun h => by simp [h,Join.ofKind?] at hj
      simp [hj,ih,hand,hor]
    | some j =>
      have hkind := Join.ofKind?_eq_some_iff.1 hj
      have hcount : t.kind = .and ∨ t.kind = .or := by
        rw [hkind]
        cases j with
        | and => exact .inl rfl
        | or => exact .inr rfl
      simp [hj,ih,hcount]

theorem cut_split (tokens : List Token) : Cut tokens (split tokens) := by
  have hjoins := map_join_splitFrom [] tokens
  obtain ⟨parts, hflat, hparts⟩ := parts_of_splitFrom [] tokens
  refine ⟨?_, hjoins, ?_, ⟨parts, hflat, hparts⟩, fun t ht => ?_, fun t ht hmark => ?_⟩
  · have hlength := congrArg List.length hjoins
    rw [List.length_map,List.length_append,List.length_map,length_joins] at hlength
    exact hlength
  · rw [split,kinds_of_readFrom hparts,hflat]
    rfl
  · obtain ⟨run, join, hrun, rfl⟩ := mem_splitFrom rfl ht
    exact joins_ofTokens hrun
  · obtain ⟨run, join, -, rfl⟩ := mem_splitFrom rfl ht
    exact head_ofTokens hmark

theorem split_ne_nil (tokens : List Token) : split tokens ≠ [] := by
  intro hnil
  have hlength := (cut_split tokens).length
  simp [hnil] at hlength

end Term

namespace Calls

/-- The terms are evaluated in turn, each once and on the machine that the one before it left; these are their
truths, turned around for negated terms. -/
inductive Asked (k : Calls) : Machine → List Term → List Bool → Machine → Prop where
  | nil (m : Machine) : Asked k m [] [] m
  | cons {t : Term} {terms : List Term} {truths : List Bool} {v : Value} {b : Bool} {m n m' : Machine} :
    k.expression t.tokens none m = .ok v n → v.truth = .ok b → Asked k n terms truths m' →
    Asked k m (t :: terms) ((b != t.negated) :: truths) m'

/-- The truth of a term, turned around if it is negated. -/
def truthOf (k : Calls) (t : Term) : Exec Bool := do
  let v ← k.expression t.tokens none
  let b ← Exec.ofExcept v.truth
  pure (b != t.negated)

section

variable {k : Calls} {t : Term} {terms : List Term} {before : Option Bool} {join : Option Join} {b r : Bool}
  {e : RuntimeError} {m m' : Machine}

theorem truthOf_apply (k : Calls) (t : Term) (m : Machine) : k.truthOf t m =
    match k.expression t.tokens none m with
    | .ok v n =>
      match v.truth with
      | .ok b => .ok (b != t.negated) n
      | .error e => .error e (n.raise e)
    | .error e n => .error e n
    | .outOfFuel n => .outOfFuel n := by
  rw [truthOf,Exec.bind_apply,Exec.bind]
  cases k.expression t.tokens none m with
  | ok v n =>
    dsimp only
    cases v.truth with
    | ok b => rfl
    | error e => rfl
  | error e n => rfl
  | outOfFuel n => rfl

theorem truthOf_eq_ok_iff : k.truthOf t m = .ok r m' ↔
    ∃ v b, k.expression t.tokens none m = .ok v m' ∧ v.truth = .ok b ∧ r = (b != t.negated) := by
  rw [truthOf_apply]
  cases k.expression t.tokens none m with
  | ok v n =>
    cases hv : v.truth with
    | ok b =>
      simp only [hv,Outcome.ok.injEq]
      constructor
      · rintro ⟨rfl, rfl⟩
        exact ⟨v, b, ⟨rfl, rfl⟩, hv, rfl⟩
      · rintro ⟨w, c, ⟨rfl, rfl⟩, hc, rfl⟩
        obtain rfl := Except.ok.inj (hv.symm.trans hc)
        exact ⟨rfl, rfl⟩
    | error e => simp [hv]
  | error e n => simp
  | outOfFuel n => simp

/-- The term raises the error, or its value is no truth literal. -/
theorem truthOf_eq_error_iff : k.truthOf t m = .error e m' ↔
    k.expression t.tokens none m = .error e m' ∨
      ∃ v n, k.expression t.tokens none m = .ok v n ∧ v.truth = .error e ∧ m' = n.raise e := by
  rw [truthOf_apply]
  cases k.expression t.tokens none m with
  | ok v n =>
    cases hv : v.truth with
    | ok b => simp [hv]
    | error e => simp [hv]; grind
  | error e n => simp
  | outOfFuel n => simp

theorem truthOf_eq_outOfFuel_iff :
    k.truthOf t m = .outOfFuel m' ↔ k.expression t.tokens none m = .outOfFuel m' := by
  rw [truthOf_apply]
  cases k.expression t.tokens none m with
  | ok v n =>
    cases hv : v.truth with
    | ok b => simp [hv]
    | error e => simp [hv]
  | error e n => simp
  | outOfFuel n => simp

/-- One step: the term in front is asked, and its truth is joined to what was found before. -/
theorem conditionFrom_cons (before : Option Bool) (join : Option Join) (t : Term) (terms : List Term) :
    k.conditionFrom before join (t :: terms) =
      k.truthOf t >>= fun b => k.conditionFrom (some (joinTruth before join b)) t.join terms := by
  funext m
  rw [Exec.bind_apply,Exec.bind,truthOf_apply,conditionFrom,Exec.bind_apply,Exec.bind]
  cases k.expression t.tokens none m with
  | ok v n =>
    dsimp only
    cases v.truth with
    | ok b => rfl
    | error e => rfl
  | error e n => rfl
  | outOfFuel n => rfl

/-- With a truth found before, and joins pending for the terms that are left. -/
theorem conditionFrom_eq_ok_iff {joins : List Join}
    (h : join :: terms.map Term.join = joins.map some ++ [none]) :
    k.conditionFrom (some b) join terms m = .ok r m' ↔
      ∃ truths, Asked k m terms truths m' ∧ r = Join.fold b joins truths := by
  induction terms generalizing b join joins m with
  | nil =>
    obtain rfl : joins = [] := by
      cases joins with
      | nil => rfl
      | cons j joins => simp at h
    constructor
    · intro hok
      cases hok
      exact ⟨[], .nil _, rfl⟩
    · rintro ⟨truths, hasked, rfl⟩
      cases hasked
      rfl
  | cons t terms ih =>
    obtain ⟨j, joins, rfl⟩ := List.exists_cons_of_ne_nil (l := joins) (by rintro rfl; simp at h)
    obtain ⟨rfl, hrest⟩ : join = some j ∧ t.join :: terms.map Term.join = joins.map some ++ [none] := by
      simpa using h
    have hjoin (now : Bool) : joinTruth (some b) (some j) now = j.apply b now := by
      cases j <;> rfl
    rw [conditionFrom_cons,Exec.bind_eq_ok_iff]
    constructor
    · rintro ⟨now, n, hnow, hok⟩
      obtain ⟨v, c, hv, hc, rfl⟩ := truthOf_eq_ok_iff.1 hnow
      obtain ⟨truths, hasked, rfl⟩ := (ih hrest).1 hok
      exact ⟨_, .cons hv hc hasked, by rw [hjoin]; rfl⟩
    · rintro ⟨truths, hasked, rfl⟩
      cases hasked with
      | @cons _ _ truths v c _ n _ hv hc hasked =>
        refine ⟨c != t.negated, n, truthOf_eq_ok_iff.2 ⟨v, c, hv, hc, rfl⟩, (ih hrest).2 ⟨truths, hasked, ?_⟩⟩
        rw [hjoin]
        rfl

/-- A condition ends without a truth where the first of its terms does. -/
theorem conditionFrom_eq_stopped_iff {o : Outcome Bool} (ho : o.finished? = none)
    (h : before = none → terms ≠ []) :
    k.conditionFrom before join terms m = o ↔ ∃ front t back truths n,
      terms = front ++ t :: back ∧ Asked k m front truths n ∧ k.truthOf t n = o := by
  induction terms generalizing before join m with
  | nil =>
    obtain ⟨b, rfl⟩ := Option.ne_none_iff_exists'.1 fun hnone => h hnone rfl
    constructor
    · rintro rfl
      cases ho
    · rintro ⟨front, t, back, truths, n, hterms, -⟩
      simp at hterms
  | cons t terms ih =>
    rw [conditionFrom_cons,Exec.bind_eq_stopped_iff ho]
    constructor
    · rintro (hstopped | ⟨now, n, hnow, hstopped⟩)
      · exact ⟨[], t, terms, [], m, rfl, .nil m, hstopped⟩
      · obtain ⟨v, b, hv, hb, rfl⟩ := truthOf_eq_ok_iff.1 hnow
        obtain ⟨front, u, back, truths, n', rfl, hasked, hu⟩ := (ih (by simp)).1 hstopped
        exact ⟨t :: front, u, back, _, n', rfl, .cons hv hb hasked, hu⟩
    · rintro ⟨front, u, back, truths, n', hterms, hasked, hu⟩
      cases hasked with
      | nil =>
        obtain ⟨rfl, rfl⟩ : t = u ∧ terms = back := by simpa using hterms
        exact .inl hu
      | @cons s front truths v b _ n _ hv hb hasked =>
        obtain ⟨rfl, rfl⟩ : t = s ∧ terms = front ++ u :: back := by simpa using hterms
        exact .inr ⟨_, n, truthOf_eq_ok_iff.2 ⟨v, b, hv, hb, rfl⟩,
          (ih (by simp)).2 ⟨front, u, back, truths, n', rfl, hasked, hu⟩⟩

theorem condition_eq_ok_iff (tokens : List Token) : k.condition tokens m = .ok r m' ↔
    ∃ first rest, Asked k m (Term.split tokens) (first :: rest) m' ∧
      r = Join.fold first (Token.joins tokens) rest := by
  have hjoins := (Term.cut_split tokens).joins
  obtain ⟨t, terms, hterms⟩ := List.exists_cons_of_ne_nil (Term.split_ne_nil tokens)
  rw [hterms,List.map_cons] at hjoins
  rw [condition,hterms,conditionFrom_cons,Exec.bind_eq_ok_iff]
  constructor
  · rintro ⟨first, n, hfirst, hok⟩
    obtain ⟨v, b, hv, hb, rfl⟩ := truthOf_eq_ok_iff.1 hfirst
    obtain ⟨rest, hasked, rfl⟩ := (conditionFrom_eq_ok_iff hjoins).1 hok
    exact ⟨_, rest, .cons hv hb hasked, rfl⟩
  · rintro ⟨first, rest, hasked, rfl⟩
    cases hasked with
    | @cons _ _ _ v b _ n _ hv hb hasked =>
      exact ⟨_, n, truthOf_eq_ok_iff.2 ⟨v, b, hv, hb, rfl⟩,
        (conditionFrom_eq_ok_iff hjoins).2 ⟨rest, hasked, rfl⟩⟩

theorem condition_eq_stopped_iff {o : Outcome Bool} (ho : o.finished? = none) (tokens : List Token) :
    k.condition tokens m = o ↔ ∃ front t back truths n,
      Term.split tokens = front ++ t :: back ∧ Asked k m front truths n ∧ k.truthOf t n = o :=
  conditionFrom_eq_stopped_iff ho fun _ => Term.split_ne_nil tokens

end

/-- A condition is cut into terms at its joins, and its truth is `((t₁ j₁ t₂) j₂ t₃) …`: all terms are evaluated
in turn, each on the machine that the one before it left, and no join binds tighter than another. It fails where
the first term raises an error or has a value that is no truth literal. -/
theorem conditions_fold_left (tokens : List Token) :
    Term.Cut tokens (Term.split tokens) ∧ ∀ (k : Calls) (m : Machine),
      (∀ r m', k.condition tokens m = .ok r m' ↔
        ∃ first rest, Asked k m (Term.split tokens) (first :: rest) m' ∧
          r = Join.fold first (Token.joins tokens) rest) ∧
      (∀ e m', k.condition tokens m = .error e m' ↔ ∃ front t back truths n,
        Term.split tokens = front ++ t :: back ∧ Asked k m front truths n ∧
          (k.expression t.tokens none n = .error e m' ∨
            ∃ v n', k.expression t.tokens none n = .ok v n' ∧ v.truth = .error e ∧ m' = n'.raise e)) ∧
      ∀ m', k.condition tokens m = .outOfFuel m' ↔ ∃ front t back truths n,
        Term.split tokens = front ++ t :: back ∧ Asked k m front truths n ∧
          k.expression t.tokens none n = .outOfFuel m' := by
  refine ⟨Term.cut_split tokens, fun k m => ⟨fun r m' => condition_eq_ok_iff tokens, fun e m' => ?_, fun m' => ?_⟩⟩
  · rw [condition_eq_stopped_iff (o := .error e m') rfl]
    simp only [truthOf_eq_error_iff]
  · rw [condition_eq_stopped_iff (o := .outOfFuel m') rfl]
    simp only [truthOf_eq_outOfFuel_iff]

/-- `and` binds no tighter than `or` in front of it. -/
example : ((Calls.upTo 3).condition (Token.ofText "1 or 1 and not 1") (.new .standard .standard)).finished?.map
    Prod.fst = some false := by
  decide +kernel

end Calls

end LineScript
