import LineScript.Host.Standard
import LineScript.Proofs.WholeValue
set_option autoImplicit false

/-!
Arithmetic of whole numbers. Two operands that are whole numbers of 64 bits give the exact result, as an int if
both are tagged so and as a long otherwise, or an overflow if the type does not have it. A quotient is exact if
there is one, and overflows in one case only; without one the division is a decimal.
-/

namespace LineScript.Host

open Numeral

/-- The type in which two operands are counted. -/
def width (a b : Value) : Tag := if a.tag = .int ∧ b.tag = .int then .int else .long

/-- The outcome is the number in its type, or the failure if the type does not have it. -/
def Exact (t : Tag) (n : Int) (failure : HostError) (outcome : Except HostError Value) : Prop :=
  ∃ range, t.range? = some range ∧
    (range.holds n = true → ∃ w, outcome = .ok w ∧ w.Counts t n) ∧
    (range.holds n = false → outcome = .error failure)

def Operator.path : Operator → String
  | add => "EZCode.add"
  | subtract => "EZCode.subtract"
  | multiply => "EZCode.multiply"

theorem call_operator (op : Operator) (a b : Value) :
    standard.call op.path [a, b] = ([], arithmetic op a b) := by
  cases op <;> rfl

theorem call_divide (a b : Value) : standard.call "EZCode.divide" [a, b] = ([], divide a b) := rfl

/-- The outcome of counting in a type. -/
def stored (t : Tag) (n : Int) (failure : HostError) : Except HostError Value :=
  match Value.ofCount? t n with
  | some w => .ok w
  | none => .error failure

theorem asInt_eq (n : Int) (failure : HostError) : asInt n failure = stored .int n failure := by
  cases h : int32? n <;> simp [asInt,stored,Value.ofCount?,h]

theorem asLong_eq (n : Int) (failure : HostError) : asLong n failure = stored .long n failure := by
  cases h : int64? n <;> simp [asLong,stored,Value.ofCount?,h]

theorem stored_exact {t : Tag} {range : Range} (ht : t.range? = some range) (n : Int)
    (failure : HostError) : Exact t n failure (stored t n failure) := by
  refine ⟨range, ht, fun hin => ?_, fun hout => ?_⟩
  · obtain ⟨w, hw, hcounts⟩ := Value.counts_of_holds ht hin
    exact ⟨w, by simp [stored,hw], hcounts⟩
  · simp [stored,Value.ofCount?_eq_none ht hout]

section

variable {a b : Value} {m n : Int}

/-- What is tagged as an int fits one. -/
theorem holds_of_tag (ha : a.whole? = some m) (h : a.tag = .int) : int32.holds m = true := by
  cases a with
  | text s =>
    obtain ⟨hread, -⟩ := Option.filter_eq_some_iff.1 ha
    have hfits : ((signed? (Text.trim s.toList)).bind int32?).isSome = true := by
      by_contra hnot
      simp only [Value.tag,Tag.ofText,hnot,if_false] at h
      split at h
      · cases h
      · split at h <;> cases h
    obtain ⟨k, hk, hholds⟩ := signed?_of_int hfits
    obtain rfl : m = k := Option.some.inj (hread.symm.trans hk)
    exact hholds
  | int i =>
    have hcount : (Value.int i).count? = some m := ha
    obtain ⟨range, hrange, hholds⟩ := Value.range_of_count? hcount
    obtain rfl := Option.some.inj hrange
    exact hholds
  | long i => cases h
  | uint i => cases h
  | ulong i => cases h
  | _ => cases ha

theorem int?_eq (ha : a.whole? = some m) : int? a = if a.tag = .int then some m else none := by
  unfold int?
  split
  · next h => simp [ha,Option.filter,holds_of_tag ha h]
  · rfl

theorem long?_eq (ha : a.whole? = some m) : long? a = some m := by
  cases a with
  | int i => exact ha
  | long i => exact ha
  | uint i => exact ha
  | ulong i => exact ha
  | text s => exact ha
  | _ => cases ha

theorem arithmetic_eq (ha : a.whole? = some m) (hb : b.whole? = some n) (op : Operator) :
    arithmetic op a b = stored (width a b) (op.onInts m n) (overflow m op.sign n) := by
  unfold arithmetic width
  rw [int?_eq ha,int?_eq hb,long?_eq ha,long?_eq hb]
  by_cases hta : a.tag = .int
  · by_cases htb : b.tag = .int
    · simp [hta,htb,asInt_eq]
    · simp [hta,htb,asLong_eq]
  · simp [hta,asLong_eq]

theorem divide_eq (ha : a.whole? = some m) (hb : b.whole? = some n) :
    divide a b = if n = 0 then .error .divisionByZero
      else if m % n = 0 then stored (width a b) (m / n) (overflow m "/" n)
      else divideDoubles a b := by
  unfold divide width
  rw [int?_eq ha,int?_eq hb,long?_eq ha,long?_eq hb]
  by_cases hta : a.tag = .int
  · by_cases htb : b.tag = .int
    · simp [hta,htb,asInt_eq]
    · simp [hta,htb,asLong_eq]
  · simp [hta,asLong_eq]

/-- The operands are in the range in which they are counted. -/
theorem width_holds (ha : a.whole? = some m) (hb : b.whole? = some n) :
    ∃ range, (width a b).range? = some range ∧ range.low = -range.high - 1 ∧
      range.holds m = true ∧ range.holds n = true := by
  unfold width
  split
  · next h => exact ⟨int32, rfl, rfl, holds_of_tag ha h.1, holds_of_tag hb h.2⟩
  · exact ⟨int64, rfl, rfl, (Value.isWhole_of_whole? ha).2, (Value.isWhole_of_whole? hb).2⟩

/-- A quotient leaves the range of its operands only where the least number is divided by minus one. -/
theorem quotient_holds {range : Range} {q : Int} (hlow : range.low = -range.high - 1)
    (hm : range.holds m = true) (hn : n ≠ 0) (hq : q * n = m) :
    range.holds q = false ↔ m = range.low ∧ n = -1 := by
  rw [Range.holds_iff] at hm
  rw [← Bool.not_eq_true,Range.holds_iff]
  by_cases hone : n = 1
  · subst hone
    omega
  · by_cases hminus : n = -1
    · subst hminus
      omega
    · have hhalf : 2 * q.natAbs ≤ m.natAbs := by
        rw [← hq,Int.natAbs_mul,Nat.mul_comm]
        exact Nat.mul_le_mul_left _ (by omega)
      omega

theorem lt_firstInfinite (h : int64.holds n = true) : n.natAbs < firstInfinite := by
  have hpow : 2 ^ 64 ≤ 2 ^ 53 * 2 ^ 970 := two_pow_le_mul (by omega)
  rw [Range.holds_iff] at h
  simp only [int64] at h
  unfold firstInfinite
  generalize 2 ^ 970 = u at hpow ⊢
  omega

/-- Without an exact quotient the division is that of the nearest decimals. -/
theorem divideDoubles_eq (ha : a.whole? = some m) (hb : b.whole? = some n) (hm : m ≠ 0) (hn : n ≠ 0) :
    divideDoubles a b = .ok (.float (singleOfDouble (doubleOfInt m / doubleOfInt n))) := by
  obtain ⟨hwhole, -⟩ := Value.isWhole_of_whole? ha
  obtain ⟨hdivisor, hrange⟩ := Value.isWhole_of_whole? hb
  obtain ⟨x, hx, hnearx⟩ := hwhole.near
  obtain ⟨y, hy, hneary⟩ := hdivisor.near
  have hzero := hneary.ne_zero hn (lt_firstInfinite hrange)
  rw [← hnearx.eq_doubleOfInt hm,← hneary.eq_doubleOfInt hn]
  simp [divideDoubles,number,hx,hy,hzero,bind,Except.bind,pure,Except.pure]

end

/-- Arithmetic on two whole numbers of 64 bits is exact or an overflow, in the type that both operands fit. A
division by zero is refused, an exact quotient is given, unless the least number is divided by minus one, and any
other quotient is a decimal. -/
theorem whole_arithmetic_exact (a b : Value) (m n : Int) (ha : a.whole? = some m)
    (hb : b.whole? = some n) :
    (∀ op : Operator, ∃ outcome, standard.call op.path [a, b] = ([], outcome) ∧
      Exact (width a b) (op.onInts m n) (overflow m op.sign n) outcome) ∧
    ∃ outcome, standard.call "EZCode.divide" [a, b] = ([], outcome) ∧
      (n = 0 → outcome = .error .divisionByZero) ∧
      (∀ q, n ≠ 0 → q * n = m → Exact (width a b) q (overflow m "/" n) outcome ∧
        ∀ range, (width a b).range? = some range →
          (range.holds q = false ↔ m = range.low ∧ n = -1)) ∧
      (¬n ∣ m → n ≠ 0 → outcome = .ok (.float (singleOfDouble (doubleOfInt m / doubleOfInt n)))) := by
  obtain ⟨range, hrange, hlow, hm, -⟩ := width_holds ha hb
  refine ⟨fun op => ⟨_, call_operator op a b, ?_⟩, _, call_divide a b, fun hn => ?_, fun q hn hq => ?_,
    fun hnot hn => ?_⟩
  · rw [arithmetic_eq ha hb]
    exact stored_exact hrange _ _
  · simp [divide_eq ha hb,hn]
  · refine ⟨?_, fun other hother => ?_⟩
    · have hmod : m % n = 0 := by simp [← hq]
      have hdiv : m / n = q := by rw [← hq,Int.mul_ediv_cancel _ hn]
      rw [divide_eq ha hb,if_neg hn,if_pos hmod,hdiv]
      exact stored_exact hrange _ _
    · obtain rfl : range = other := Option.some.inj (hrange.symm.trans hother)
      exact quotient_holds hlow hm hn hq
  · have hmod : ¬ m % n = 0 := fun h => hnot (Int.dvd_of_emod_eq_zero h)
    have hzero : m ≠ 0 := by
      rintro rfl
      exact hnot (Int.dvd_zero n)
    rw [divide_eq ha hb,if_neg hn,if_neg hmod,divideDoubles_eq ha hb hzero hn]

/-- The least int divided by minus one overflows, and so does a sum that is one too great for a long; an unsigned
long and a text are divided as longs. -/
theorem whole_arithmetic_exact_at_limits :
    standard.call "EZCode.divide" [.text " -2147483648", .int (-1)] =
      ([], .error (.invalidOperation "integer overflow in -2147483648 / -1")) ∧
    standard.call "EZCode.add" [.text "9223372036854775807", .uint 1] =
      ([], .error (.invalidOperation "integer overflow in 9223372036854775807 + 1")) ∧
    ∃ w, standard.call "EZCode.divide" [.ulong 9000000000, .text "-3"] = ([], .ok w) ∧
      w.Counts .long (-3000000000) := by
  refine ⟨?_, ?_, ?_⟩
  · have hwidth : width (.text " -2147483648") (.int (-1)) = .int := by decide +kernel
    have hfailure : overflow (-2147483648) "/" (-1) =
        .invalidOperation "integer overflow in -2147483648 / -1" := by decide +kernel
    obtain ⟨-, outcome, hcall, -, hquotient, -⟩ := whole_arithmetic_exact (.text " -2147483648") (.int (-1))
      (-2147483648) (-1) (by decide +kernel) rfl
    obtain ⟨⟨range, hrange, -, hout⟩, -⟩ := hquotient 2147483648 (by decide) (by decide)
    rw [hwidth] at hrange
    obtain rfl := Option.some.inj hrange
    rw [hcall,hout (by decide),hfailure]
  · have hwidth : width (.text "9223372036854775807") (.uint 1) = .long := by decide +kernel
    have hfailure : overflow 9223372036854775807 Operator.add.sign 1 =
        .invalidOperation "integer overflow in 9223372036854775807 + 1" := by decide +kernel
    obtain ⟨hops, -⟩ := whole_arithmetic_exact (.text "9223372036854775807") (.uint 1)
      9223372036854775807 1 (by decide +kernel) rfl
    obtain ⟨outcome, hcall, range, hrange, -, hout⟩ := hops .add
    rw [hwidth] at hrange
    obtain rfl := Option.some.inj hrange
    rw [show "EZCode.add" = Operator.add.path from rfl,hcall,hout (by decide),hfailure]
  · have hwidth : width (.ulong 9000000000) (.text "-3") = .long := by decide +kernel
    obtain ⟨-, outcome, hcall, -, hquotient, -⟩ := whole_arithmetic_exact (.ulong 9000000000) (.text "-3")
      9000000000 (-3) (by decide +kernel) (by decide +kernel)
    obtain ⟨⟨range, hrange, hin, -⟩, -⟩ := hquotient (-3000000000) (by decide) (by decide)
    rw [hwidth] at hrange hin
    obtain rfl := Option.some.inj hrange
    obtain ⟨w, rfl, hcounts⟩ := hin (by decide)
    exact ⟨w, hcall, hcounts⟩

end LineScript.Host
