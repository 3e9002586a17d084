import LineScript.Machine.Line
import LineScript.Proofs.Machine.Follows
import LineScript.Proofs.Numeral.Whole
set_option autoImplicit false

/-!
The passes of a loop. A turn is a pass that lets the loop go on; a loop takes turns up to a limit or up to
the first pass that ends it, and nothing else. Both forms of the loop are of this sort: one has the number
of passes for its limit and asks nothing, the other asks its condition before every pass.
-/

namespace LineScript

namespace Loop

section turns

variable (ask : Exec Bool) (pass : Exec Flow)

/-- A pass that lets the loop go on. -/
def Turn (m m' : Machine) : Prop := ∃ n v, ask m = .ok true n ∧ pass n = .ok (.normal v) m'

/-- So many of them, one after the other. -/
inductive Turns : Nat → Machine → Machine → Prop where
  | zero (m : Machine) : Turns 0 m m
  | succ {j : Nat} {m m' p : Machine} : Turn ask pass m m' → Turns j m' p → Turns (j + 1) m p

/-- The ways out of a loop, without another turn. -/
inductive Exit : Machine → Outcome Flow → Prop where
  | declined {m m' : Machine} : ask m = .ok false m' → Exit m (.ok (.normal .empty) m')
  | broken {m n m' : Machine} : ask m = .ok true n → pass n = .ok .break_ m' →
    Exit m (.ok (.normal .empty) m')
  | yielded {m n m' : Machine} : ask m = .ok true n → pass n = .ok .yieldBreak m' →
    Exit m (.ok (.normal .empty) m')
  | returned {m n m' : Machine} {v : Value} : ask m = .ok true n → pass n = .ok (.return_ v) m' →
    Exit m (.ok (.return_ v) m')
  | failed {m n m' : Machine} {e : RuntimeError} : ask m = .ok true n → pass n = .error e m' →
    Exit m (.error e m')
  | undecided {m m' : Machine} {e : RuntimeError} : ask m = .error e m' → Exit m (.error e m')
  | endless {m n m' : Machine} : ask m = .ok true n → pass n = .outOfFuel m' → Exit m (.outOfFuel m')
  | unanswered {m m' : Machine} : ask m = .outOfFuel m' → Exit m (.outOfFuel m')

/-- The loop takes a turn or a way out, and has a limit for its turns. -/
structure Repeats (limit : Machine → Outcome Flow) (loop : Nat → Machine → Outcome Flow) : Prop where
  zero (m : Machine) : loop 0 m = limit m
  succ (n : Nat) (m : Machine) (o : Outcome Flow) :
    loop (n + 1) m = o ↔ (∃ m', Turn ask pass m m' ∧ loop n m' = o) ∨ Exit ask pass m o

end turns

variable {ask : Exec Bool} {pass : Exec Flow} {limit : Machine → Outcome Flow}
  {loop : Nat → Machine → Outcome Flow}

/-- What a loop comes to: all turns up to the limit, or less and then a way out. -/
theorem Repeats.eq_iff (h : Repeats ask pass limit loop) (n : Nat) (m : Machine) (o : Outcome Flow) :
    loop n m = o ↔ (∃ p, Turns ask pass n m p ∧ o = limit p) ∨
      ∃ j p, j < n ∧ Turns ask pass j m p ∧ Exit ask pass p o := by
  induction n generalizing m with
  | zero =>
    rw [h.zero]
    constructor
    · rintro rfl
      exact .inl ⟨m, .zero m, rfl⟩
    · rintro (⟨p, ⟨⟩, rfl⟩ | ⟨j, p, hj, -⟩)
      · rfl
      · omega
  | succ n ih =>
    rw [h.succ]
    constructor
    · rintro (⟨m', hturn, ho⟩ | hexit)
      · rcases (ih m').1 ho with ⟨p, hp, ho⟩ | ⟨j, p, hj, hp, hexit⟩
        · exact .inl ⟨p, .succ hturn hp, ho⟩
        · exact .inr ⟨j + 1, p, by omega, .succ hturn hp, hexit⟩
      · exact .inr ⟨0, m, by omega, .zero m, hexit⟩
    · rintro (⟨p, hp, ho⟩ | ⟨j, p, hj, hp, hexit⟩)
      · cases hp with
        | succ hturn hp => exact .inl ⟨_, hturn, (ih _).2 (.inl ⟨p, hp, ho⟩)⟩
      · cases hp with
        | zero => exact .inr hexit
        | @succ j _ m' _ hturn hp =>
          exact .inl ⟨m', hturn, (ih m').2 (.inr ⟨j, p, by omega, hp, hexit⟩)⟩

theorem Repeats.ne_break (h : Repeats ask pass limit loop)
    (hlimit : ∀ p m', limit p ≠ .ok .break_ m' ∧ limit p ≠ .ok .yieldBreak m') (n : Nat) (m m' : Machine) :
    loop n m ≠ .ok .break_ m' ∧ loop n m ≠ .ok .yieldBreak m' := by
  rcases (h.eq_iff n m (loop n m)).1 rfl with ⟨p, -, hp⟩ | ⟨j, p, -, -, hexit⟩
  · rw [hp]
    exact hlimit p m'
  · generalize loop n m = o at hexit
    cases hexit <;> simp

end Loop

namespace Calls

open Loop

variable (k : Calls)

theorem countLoop_repeats (body : List (Row Token)) :
    Repeats (pure true) (k.runBlock body) (.ok (.normal .empty)) (k.countLoop body) := by
  refine ⟨fun m => rfl, fun n m o => ⟨?_, ?_⟩⟩
  · rintro rfl
    have hask : (pure true : Exec Bool) m = .ok true m := rfl
    rw [countLoop]
    cases hr : k.runBlock body m with
    | ok flow m' =>
      cases flow with
      | normal v => exact .inl ⟨m', ⟨m, v, hask, hr⟩, rfl⟩
      | return_ v => exact .inr (.returned hask hr)
      | break_ => exact .inr (.broken hask hr)
      | yieldBreak => exact .inr (.yielded hask hr)
    | error e m' => exact .inr (.failed hask hr)
    | outOfFuel m' => exact .inr (.endless hask hr)
  · rintro (⟨m', ⟨p, v, hask, hr⟩, ho⟩ | hexit)
    · cases hask
      simpa [countLoop,hr] using ho
    · cases hexit with
      | declined hask => cases hask
      | broken hask hr => cases hask; simp [countLoop,hr]
      | yielded hask hr => cases hask; simp [countLoop,hr]
      | returned hask hr => cases hask; simp [countLoop,hr]
      | failed hask hr => cases hask; simp [countLoop,hr]
      | undecided hask => cases hask
      | endless hask hr => cases hask; simp [countLoop,hr]
      | unanswered hask => cases hask

theorem whileLoop_repeats (tokens : List Token) (body : List (Row Token)) :
    Repeats (k.condition tokens) (k.runBlock body) .outOfFuel (k.whileLoop tokens body) := by
  refine ⟨fun m => rfl, fun n m o => ⟨?_, ?_⟩⟩
  · rintro rfl
    rw [whileLoop]
    cases hask : k.condition tokens m with
    | ok truth p =>
      cases truth with
      | false => exact .inr (.declined hask)
      | true =>
        dsimp only
        cases hr : k.runBlock body p with
        | ok flow m' =>
          cases flow with
          | normal v => exact .inl ⟨m', ⟨p, v, hask, hr⟩, rfl⟩
          | return_ v => exact .inr (.returned hask hr)
          | break_ => exact .inr (.broken hask hr)
          | yieldBreak => exact .inr (.yielded hask hr)
        | error e m' => exact .inr (.failed hask hr)
        | outOfFuel m' => exact .inr (.endless hask hr)
    | error e m' => exact .inr (.undecided hask)
    | outOfFuel m' => exact .inr (.unanswered hask)
  · rintro (⟨m', ⟨p, v, hask, hr⟩, ho⟩ | hexit)
    · simpa [whileLoop,hask,hr] using ho
    · cases hexit with
      | declined hask => simp [whileLoop,hask]
      | broken hask hr => simp [whileLoop,hask,hr]
      | yielded hask hr => simp [whileLoop,hask,hr]
      | returned hask hr => simp [whileLoop,hask,hr]
      | failed hask hr => simp [whileLoop,hask,hr]
      | undecided hask => simp [whileLoop,hask]
      | endless hask hr => simp [whileLoop,hask,hr]
      | unanswered hask => simp [whileLoop,hask]

section count

theorem passes_eq {v : Value} {n : Int} {x : Float} (hplain : v.reference? = none) (htag : v.tag = .int)
    (hn : Numeral.int32.holds n = true) (hnumber : v.number? = some x)
    (hx : Numeral.wholeOfDouble? x = some n) : passes v = .ok (some (max n 0).toNat) := by
  have hclamp : Numeral.uint64.clamp n = max n 0 := by
    obtain ⟨hlow, hhigh⟩ := (Numeral.int32.holds_iff n).1 hn
    simp only [Numeral.int32] at hlow hhigh
    simp only [Numeral.Range.clamp,Numeral.uint64]
    omega
  simp [passes,hplain,htag,Tag.isNumeric,hnumber,hx,hclamp]

/-- A value tagged as a whole number is one of 32 bits, and so many passes it stands for, none if it is
below zero. -/
theorem passes_of_int {v : Value} (hplain : v.reference? = none) (htag : v.tag = .int) :
    ∃ n, v.whole? = some n ∧ Numeral.int32.holds n = true ∧ passes v = .ok (some (max n 0).toNat) := by
  have hsize {n : Int} (hn : Numeral.int32.holds n = true) : n.natAbs < 2 ^ 53 := by
    obtain ⟨hlow, hhigh⟩ := (Numeral.int32.holds_iff n).1 hn
    simp only [Numeral.int32] at hlow hhigh
    omega
  cases v with
  | int i =>
    have hi : Numeral.int32.holds i.toInt = true :=
      (Numeral.int32.holds_iff _).2 ⟨i.le_toInt, Int.le_of_lt_add_one i.toInt_lt⟩
    exact ⟨i.toInt, rfl, hi, passes_eq hplain htag hi rfl (Numeral.wholeOfDouble?_doubleOfInt (hsize hi))⟩
  | text s =>
    have hint : ((Numeral.signed? (Text.trim s.toList)).bind Numeral.int32?).isSome = true := by
      by_cases h : ((Numeral.signed? (Text.trim s.toList)).bind Numeral.int32?).isSome = true
      · exact h
      · have hother : Tag.ofText s ≠ .int := by
          unfold Tag.ofText
          dsimp only
          rw [if_neg h]
          split
          · decide
          · split <;> decide
        exact absurd htag hother
    obtain ⟨n, hn, hi⟩ := Numeral.signed?_of_int hint
    obtain ⟨x, hx, hwhole⟩ := Numeral.double?_of_signed? hn (hsize hi)
    refine ⟨n, ?_, hi, passes_eq hplain htag hi hx hwhole⟩
    have hwide : Numeral.int64.holds n = true := by
      obtain ⟨hlow, hhigh⟩ := (Numeral.int32.holds_iff n).1 hi
      simp only [Numeral.int32] at hlow hhigh
      refine (Numeral.int64.holds_iff n).2 ?_
      simp only [Numeral.int64]
      omega
    simp [Value.whole?,hn,hwide]
  | «instance» r => cases hplain
  | _ => cases htag

/-- A value that is no number stands for no number of passes. -/
theorem passes_of_not_numeric {v : Value} (h : v.reference?.isSome = true ∨ v.tag.isNumeric = false) :
    passes v = .ok none := by
  have hother : (v.reference?.isSome || !v.tag.isNumeric) = true := by simpa using h
  simp only [passes,hother,if_true]

theorem splitFrom_ne_nil (current tokens : List Token) : Term.splitFrom current tokens ≠ [] := by
  induction tokens generalizing current with
  | nil => simp [Term.splitFrom]
  | cons t ts ih =>
    rw [Term.splitFrom]
    cases Join.ofKind? t.kind with
    | none => exact ih _
    | some j => simp

/-- Without a join there is one term, of all tokens. -/
theorem eq_of_splitFrom {current tokens : List Token} {t : Term}
    (h : Term.splitFrom current tokens = [t]) : t = Term.ofTokens (current ++ tokens) none := by
  induction tokens generalizing current with
  | nil => simpa [Term.splitFrom,eq_comm] using h
  | cons u us ih =>
    rw [Term.splitFrom] at h
    cases hj : Join.ofKind? u.kind with
    | none =>
      simp only [hj] at h
      simpa using ih h
    | some j =>
      simp only [hj] at h
      exact absurd (List.cons.inj h).2 (splitFrom_ne_nil [] us)

theorem tokens_of_ofTokens {tokens : List Token} {join : Option Join}
    (h : (Term.ofTokens tokens join).negated = false) : (Term.ofTokens tokens join).tokens = tokens := by
  cases tokens with
  | nil => rfl
  | cons t ts =>
    by_cases hnot : t.kind = .not
    · simp [Term.ofTokens,hnot] at h
    · simp [Term.ofTokens,hnot]

theorem countWord?_eq_some_iff {tokens : List Token} {name : String} :
    countWord? tokens = some name ↔ tokens = [.word .identifier name] := by
  constructor
  · intro h
    unfold countWord? at h
    split at h
    · next t ht =>
      have hterm : t = Term.ofTokens tokens none := eq_of_splitFrom ht
      split at h
      · next word hnegated htokens =>
        obtain rfl : word = name := Option.some.inj h
        rw [hterm] at hnegated htokens
        rwa [tokens_of_ofTokens hnegated] at htokens
      · cases h
    · cases h
  · rintro rfl
    rfl

/-- The bound of a loop is a single word that is neither a method nor a class. -/
def CountWord (m : Machine) (tokens : List Token) (name : String) : Prop :=
  tokens = [.word .identifier name] ∧ m.findMethod? name = none ∧ m.declared.classes.get? name = none

variable {m : Machine} {tokens : List Token}

theorem loopCount_of_word {name : String} (h : CountWord m tokens name) :
    k.loopCount tokens m =
      (k.resolveToken (.word .identifier name) none >>= fun v => Exec.ofExcept (passes v)) m := by
  obtain ⟨htokens, hmethod, hclass⟩ := h
  have hcall : ((m.findMethod? name).isSome || m.declared.classes.contains name) = false := by
    simp [hmethod,Table.contains,hclass]
  unfold loopCount
  rw [countWord?_eq_some_iff.2 htokens]
  change (if ((m.findMethod? name).isSome || m.declared.classes.contains name) = true then _ else _ :
    Exec (Option Nat)) m = _
  rw [hcall]
  rfl

theorem loopCount_of_other (h : ∀ name, ¬ CountWord m tokens name) : k.loopCount tokens m = .ok none m := by
  unfold loopCount
  cases hw : countWord? tokens with
  | none => rfl
  | some name =>
    have hcall : ((m.findMethod? name).isSome || m.declared.classes.contains name) = true := by
      by_cases hmethod : m.findMethod? name = none
      · have hclass : m.declared.classes.get? name ≠ none := fun hclass =>
          h name ⟨countWord?_eq_some_iff.1 hw, hmethod, hclass⟩
        simpa [hmethod,Table.contains,Option.isSome_iff_ne_none] using hclass
      · simp [Option.isSome_iff_ne_none.2 hmethod]
    change (if ((m.findMethod? name).isSome || m.declared.classes.contains name) = true then _ else _ :
      Exec (Option Nat)) m = _
    rw [hcall]
    rfl

end count

section statement

variable {s : Statement Token} {tokens : List Token} {m n : Machine}

theorem runLoop_of_count {count : Nat} (hs : s.condition = some tokens)
    (h : k.loopCount tokens m = .ok (some count) n) : k.runLoop s m = k.countLoop s.body count n := by
  simp only [runLoop,hs,Exec.bind_apply,Exec.bind,h]

theorem runLoop_of_condition (hs : s.condition = some tokens)
    (h : k.loopCount tokens m = .ok none n) : k.runLoop s m = k.whileLoop tokens s.body k.fuel n := by
  simp only [runLoop,hs,Exec.bind_apply,Exec.bind,h]

/-- A loop is no way out of the loop around it. -/
theorem runLoop_ne (s : Statement Token) (m m' : Machine) :
    k.runLoop s m ≠ .ok .break_ m' ∧ k.runLoop s m ≠ .ok .yieldBreak m' := by
  cases hs : s.condition with
  | none =>
    simp [runLoop,hs,Exec.fail]
  | some tokens =>
    cases hcount : k.loopCount tokens m with
    | ok count n =>
      cases count with
      | some count =>
        rw [k.runLoop_of_count hs hcount]
        exact (k.countLoop_repeats s.body).ne_break (by simp) count n m'
      | none =>
        rw [k.runLoop_of_condition hs hcount]
        exact (k.whileLoop_repeats tokens s.body).ne_break (by simp) k.fuel n m'
    | error e n => simp [runLoop,hs,Exec.bind_apply,Exec.bind,hcount]
    | outOfFuel n => simp [runLoop,hs,Exec.bind_apply,Exec.bind,hcount]

/-- The word stands for a whole number: that is how many passes there are, whatever they do to the word. -/
theorem runLoop_counted {name : String} {v : Value} (hs : s.condition = some tokens)
    (hword : CountWord m tokens name) (hv : k.resolveToken (.word .identifier name) none m = .ok v n)
    (hplain : v.reference? = none) (htag : v.tag = .int) :
    ∃ i, v.whole? = some i ∧ ∀ o, k.runLoop s m = o ↔
      (∃ p, Turns (pure true) (k.runBlock s.body) (max i 0).toNat n p ∧ o = .ok (.normal .empty) p) ∨
      ∃ j p, j < (max i 0).toNat ∧ Turns (pure true) (k.runBlock s.body) j n p ∧
        Exit (pure true) (k.runBlock s.body) p o := by
  obtain ⟨i, hi, -, hpasses⟩ := passes_of_int hplain htag
  have hcount : k.loopCount tokens m = .ok (some (max i 0).toNat) n := by
    rw [k.loopCount_of_word hword,Exec.bind_apply,Exec.bind,hv]
    simp only [hpasses]
    rfl
  refine ⟨i, hi, fun o => ?_⟩
  rw [k.runLoop_of_count hs hcount]
  exact (k.countLoop_repeats s.body).eq_iff _ n o

/-- The bound is no such word, or one that stands for no number: it is asked before every pass. -/
theorem runLoop_asked (hs : s.condition = some tokens) (hbound : (∀ name, ¬ CountWord m tokens name) ∧ n = m ∨
      ∃ name v, CountWord m tokens name ∧ k.resolveToken (.word .identifier name) none m = .ok v n ∧
        (v.reference?.isSome = true ∨ v.tag.isNumeric = false)) (o : Outcome Flow) :
    k.runLoop s m = o ↔
      (∃ p, Turns (k.condition tokens) (k.runBlock s.body) k.fuel n p ∧ o = .outOfFuel p) ∨
      ∃ j p, j < k.fuel ∧ Turns (k.condition tokens) (k.runBlock s.body) j n p ∧
        Exit (k.condition tokens) (k.runBlock s.body) p o := by
  have hcount : k.loopCount tokens m = .ok none n := by
    rcases hbound with ⟨hother, rfl⟩ | ⟨name, v, hword, hv, hnumber⟩
    · exact k.loopCount_of_other hother
    · rw [k.loopCount_of_word hword,Exec.bind_apply,Exec.bind,hv]
      simp only [passes_of_not_numeric hnumber]
      rfl
  rw [k.runLoop_of_condition hs hcount]
  exact (k.whileLoop_repeats tokens s.body).eq_iff _ n o

end statement

end Calls

end LineScript
