import LineScript.Proofs.Arithmetic
import LineScript.Proofs.Numeral.Order
set_option autoImplicit false

/-!
Comparisons of whole numbers. Differences are exact, but comparisons are those of decimals, so two whole numbers
compare as they do once rounded: the wrong way if they differ and are rounded alike, and the right way otherwise,
in particular as soon as one of them fits a mantissa.
-/

namespace LineScript.Host

open Numeral

/-- What a comparison of two values answers. -/
def Answers (path : String) (a b : Value) (answer : Bool) : Prop :=
  standard.call path [a, b] = ([], .ok (.bool answer))

/-- The difference of two values is a zero of an integer type. -/
def NoDifference (a b : Value) : Prop :=
  ∃ w t, standard.call "EZCode.subtract" [a, b] = ([], .ok w) ∧ w.Counts t 0

section

variable {a b : Value} {m n : Int}

theorem compares_rounded (ha : a.whole? = some m) (hb : b.whole? = some n) :
    Answers "EZCode.equals" a b (rounded m = rounded n) ∧
      Answers "EZCode.less" a b (rounded m < rounded n) ∧
      Answers "EZCode.greater" a b (rounded n < rounded m) := by
  obtain ⟨hleft, hleftRange⟩ := Value.isWhole_of_whole? ha
  obtain ⟨hright, hrightRange⟩ := Value.isWhole_of_whole? hb
  obtain ⟨x, hx, hnearx⟩ := hleft.near
  obtain ⟨y, hy, hneary⟩ := hright.near
  have hm := lt_firstInfinite hleftRange
  have hn := lt_firstInfinite hrightRange
  obtain ⟨hless, hequal⟩ := hnearx.compares hneary hm hn
  obtain ⟨hgreater, -⟩ := hneary.compares hnearx hn hm
  refine ⟨?_, ?_, ?_⟩
  · change ([], Except.ok (Value.bool (equals a b))) = _
    have heq : equals a b = decide (rounded m = rounded n) := by
      simp only [equals,hx,hy]
      rw [Bool.eq_iff_iff,hequal,decide_eq_true_iff]
    rw [heq]
  · change ([], less a b) = _
    simp [less,number,hx,hy,bind,Except.bind,pure,Except.pure,hless]
  · change ([], greater a b) = _
    simp [greater,number,hx,hy,bind,Except.bind,pure,Except.pure,hgreater]

/-- A difference is zero exactly if the numbers are equal. -/
theorem noDifference_iff (ha : a.whole? = some m) (hb : b.whole? = some n) : NoDifference a b ↔ m = n := by
  have hcall : standard.call "EZCode.subtract" [a, b] =
      ([], stored (width a b) (m - n) (overflow m "-" n)) :=
    (call_operator .subtract a b).trans (congrArg (Prod.mk []) (arithmetic_eq ha hb .subtract))
  obtain ⟨range, hrange, -, -, -⟩ := width_holds ha hb
  obtain ⟨other, hother, hin, hout⟩ := stored_exact hrange (m - n) (overflow m "-" n)
  constructor
  · rintro ⟨w, t, hsubtract, -, hzero⟩
    have hstored := (Prod.ext_iff.1 (hcall.symm.trans hsubtract)).2
    cases hholds : other.holds (m - n) with
    | true =>
      obtain ⟨v, hv, -, hcount⟩ := hin hholds
      obtain rfl : v = w := Except.ok.inj (hv.symm.trans hstored)
      have : m - n = 0 := Option.some.inj (hcount.symm.trans hzero)
      omega
    | false => cases (hout hholds).symm.trans hstored
  · rintro rfl
    have hzero : other.holds (m - m) = true := by
      rw [Int.sub_self]
      obtain rfl := Option.some.inj (hrange.symm.trans hother)
      rcases Tag.range_cases hrange with ⟨-, rfl⟩ | ⟨-, rfl⟩ | ⟨-, rfl⟩ | ⟨-, rfl⟩ <;> decide
    obtain ⟨w, hw, hcounts⟩ := hin hzero
    rw [Int.sub_self] at hcounts
    exact ⟨w, _, by rw [hcall,hw], hcounts⟩

end

/-- Two whole numbers of 64 bits are compared exactly, and equal exactly if their difference is zero, unless they
differ and are rounded alike: then they are equal, and neither is less or greater, but there is a difference. No
other number is rounded like one of fewer than 54 bits. -/
theorem comparisons_round (a b : Value) (m n : Int) (ha : a.whole? = some m) (hb : b.whole? = some n) :
    (m = n ∨ rounded m ≠ rounded n →
      Answers "EZCode.equals" a b (m = n) ∧ Answers "EZCode.less" a b (m < n) ∧
        Answers "EZCode.greater" a b (n < m) ∧
        (Answers "EZCode.equals" a b true ↔ NoDifference a b)) ∧
    (m ≠ n → rounded m = rounded n →
      Answers "EZCode.equals" a b true ∧ Answers "EZCode.less" a b false ∧
        Answers "EZCode.greater" a b false ∧ ¬NoDifference a b) ∧
    (m.natAbs < 2 ^ 53 ∨ n.natAbs < 2 ^ 53 → m = n ∨ rounded m ≠ rounded n) := by
  obtain ⟨hequals, hless, hgreater⟩ := compares_rounded ha hb
  refine ⟨fun hexact => ?_, fun hne halike => ?_, ?_⟩
  · have hsame : rounded m = rounded n ↔ m = n :=
      ⟨fun halike => hexact.resolve_right (not_not.2 halike), congrArg rounded⟩
    have hanswer : Answers "EZCode.equals" a b (m = n) := by rwa [decide_eq_decide.2 hsame] at hequals
    refine ⟨hanswer, ?_, ?_, ?_⟩
    · rwa [decide_eq_decide.2 (rounded_lt_iff hexact)] at hless
    · rwa [decide_eq_decide.2 (rounded_lt_iff (hexact.imp Eq.symm Ne.symm))] at hgreater
    · rw [noDifference_iff ha hb]
      constructor
      · intro htrue
        have hbool := hanswer.symm.trans htrue
        simpa using hbool
      · rintro rfl
        simpa using hanswer
  · rw [halike] at hequals hless hgreater
    refine ⟨by simpa using hequals, by simpa using hless, by simpa using hgreater, ?_⟩
    rwa [noDifference_iff ha hb]
  · rintro (hm | hn)
    · exact eq_or_rounded_ne hm
    · exact (eq_or_rounded_ne hn).imp Eq.symm Ne.symm

/-- The greatest long is greater than a text of 53 bits, and two texts spell the same number. -/
theorem comparisons_round_mixed :
    Answers "EZCode.greater" (.long 9223372036854775807) (.text "9007199254740991") true ∧
      Answers "EZCode.equals" (.text " +9007199254740993") (.ulong 9007199254740993) true ∧
      NoDifference (.text " +9007199254740993") (.ulong 9007199254740993) := by
  obtain ⟨hexact, -, hfits⟩ := comparisons_round (.long 9223372036854775807) (.text "9007199254740991")
    9223372036854775807 9007199254740991 rfl (by decide +kernel)
  obtain ⟨hequal, -, -⟩ := comparisons_round (.text " +9007199254740993") (.ulong 9007199254740993)
    9007199254740993 9007199254740993 (by decide +kernel) rfl
  obtain ⟨-, -, hgreater, -⟩ := hexact (hfits (.inr (by decide)))
  obtain ⟨hanswer, -, -, hagree⟩ := hequal (.inl rfl)
  exact ⟨by simpa using hgreater, by simpa using hanswer, hagree.1 (by simpa using hanswer)⟩

/-- The first number beyond 53 bits that is rounded is equal to its neighbour, though one is subtracted from the
other. -/
theorem comparisons_confuse_neighbours :
    (Value.long 9007199254740993).whole? = some 9007199254740993 ∧
      (Value.long 9007199254740992).whole? = some 9007199254740992 ∧
      Answers "EZCode.equals" (.long 9007199254740993) (.long 9007199254740992) true ∧
      Answers "EZCode.greater" (.long 9007199254740993) (.long 9007199254740992) false ∧
      standard.call "EZCode.subtract" [.long 9007199254740993, .long 9007199254740992] =
        ([], .ok (.long 1)) := by
  have halike : rounded 9007199254740993 = rounded 9007199254740992 := by decide +kernel
  obtain ⟨hequals, -, hgreater⟩ := compares_rounded
    (show (Value.long 9007199254740993).whole? = some 9007199254740993 from rfl)
    (show (Value.long 9007199254740992).whole? = some 9007199254740992 from rfl)
  rw [halike] at hequals hgreater
  exact ⟨rfl, rfl, by simpa using hequals, by simpa using hgreater, rfl⟩

end LineScript.Host
