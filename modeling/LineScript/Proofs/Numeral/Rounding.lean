import LineScript.Proofs.Numeral.Whole
set_option autoImplicit false

/-!
Whole numbers of any size as binary floating point. One that does not fit the mantissa is rounded: it may
become another number, but every power of two that it reached is still reached, and it is infinite from
`firstInfinite` on. Hence what is read from a text or made from an integer value is known up to rounding.
-/

namespace LineScript.Numeral

open Float.Model.UnpackedFloat

theorem le_roundDiv (num den : Nat) : num / den ≤ roundDiv num den := by
  unfold roundDiv
  dsimp only
  split
  · omega
  · split <;> omega

theorem roundDiv_le (num den : Nat) : roundDiv num den ≤ num / den + 1 := by
  unfold roundDiv
  dsimp only
  split
  · omega
  · split <;> omega

/-- Up to half a unit above it an odd number is not passed. -/
theorem roundDiv_le_iff {num den t : Nat} (hden : 0 < den) (ht : t % 2 = 1) :
    roundDiv num den ≤ t ↔ 2 * num < (2 * t + 1) * den := by
  have hnum := Nat.div_add_mod num den
  have hmod := Nat.mod_lt num hden
  unfold roundDiv
  dsimp only
  generalize num / den = q at hnum ⊢
  generalize num % den = r at hnum hmod ⊢
  subst hnum
  rcases Nat.lt_trichotomy q t with hlt | rfl | hgt
  · have hle : den * q + den ≤ den * t := by
      calc den * q + den = den * (q + 1) := by ring
        _ ≤ den * t := Nat.mul_le_mul_left den hlt
    have hbelow : 2 * (den * q + r) < (2 * t + 1) * den := by
      rw [Nat.add_mul,Nat.mul_assoc,Nat.mul_comm t]
      omega
    split
    · omega
    · split <;> omega
  · rw [Nat.add_mul,Nat.mul_assoc,Nat.mul_comm q]
    split
    · omega
    · split <;> omega
  · have hle : den * t + den ≤ den * q := by
      calc den * t + den = den * (t + 1) := by ring
        _ ≤ den * q := Nat.mul_le_mul_left den hgt
    have habove : ¬ 2 * (den * q + r) < (2 * t + 1) * den := by
      rw [Nat.add_mul,Nat.mul_assoc,Nat.mul_comm t]
      omega
    split
    · omega
    · split <;> omega

theorem two_pow_le_mul {a b c : Nat} (h : a ≤ b + c) : 2 ^ a ≤ 2 ^ b * 2 ^ c := by
  rw [← Nat.pow_add]
  exact Nat.pow_le_pow_right (by decide) h

theorem mul_le_two_pow {a b c : Nat} (h : b + c ≤ a) : 2 ^ b * 2 ^ c ≤ 2 ^ a := by
  rw [← Nat.pow_add]
  exact Nat.pow_le_pow_right (by decide) h

section large

variable {n : Nat}

/-- The mantissa of a whole number beyond it, before a carry. -/
def mantissa (n : Nat) : Nat := roundDiv n (2 ^ (n.log2 - 52))

/-- The first whole number that is rounded to infinity: half a unit above the greatest finite one. -/
def firstInfinite : Nat := (2 ^ 54 - 1) * 2 ^ 970

theorem le_log2 (h : 2 ^ 53 ≤ n) : 53 ≤ n.log2 := (Nat.le_log2 (by omega)).2 h

theorem mantissa_bounds (h : 2 ^ 53 ≤ n) : 2 ^ 52 ≤ mantissa n ∧ mantissa n ≤ 2 ^ 53 := by
  have hlog := le_log2 h
  have hle : 2 ^ n.log2 ≤ n := Nat.log2_self_le (by omega)
  have hlt : n < 2 ^ (n.log2 + 1) := Nat.lt_log2_self
  have hpos : 0 < 2 ^ (n.log2 - 52) := Nat.two_pow_pos _
  have hlow : 2 ^ 52 ≤ n / 2 ^ (n.log2 - 52) := by
    rw [Nat.le_div_iff_mul_le hpos]
    exact (mul_le_two_pow (by omega)).trans hle
  have hhigh : n / 2 ^ (n.log2 - 52) < 2 ^ 53 := by
    rw [Nat.div_lt_iff_lt_mul hpos]
    exact hlt.trans_le (two_pow_le_mul (by omega))
  have hdown := le_roundDiv n (2 ^ (n.log2 - 52))
  have hup := roundDiv_le n (2 ^ (n.log2 - 52))
  unfold mantissa
  omega

theorem nearest_large (h : 2 ^ 53 ≤ n) :
    double.nearest n 1 = min double.infinity ((n.log2 + 1022) * 2 ^ 52 + mantissa n) := by
  have hlog := le_log2 h
  have hn : n ≠ 0 := by omega
  have hq : max (-1074) ((n.log2 : Int) - 53 + 1) = n.log2 - 52 := by omega
  have hscale : scale2 n 1 (-((n.log2 : Int) - 52)) = (n, 2 ^ (n.log2 - 52)) := by
    have hexponent : (-(-((n.log2 : Int) - 52))).toNat = n.log2 - 52 := by omega
    have hneg : ¬ 0 ≤ -((n.log2 : Int) - 52) := by omega
    simp only [scale2,hneg,if_false,hexponent,Nat.one_mul]
    rfl
  have hfield : ((n.log2 : Int) - 52 - -1074).toNat = n.log2 + 1022 := by omega
  simp only [Format.nearest,double,hn,if_false,floorLog2_one hn,Nat.cast_ofNat,hq,hscale,hfield,mantissa]
  rfl

/-- A whole number is finite up to half a unit above the greatest finite one. -/
theorem nearest_lt_iff (n : Nat) : double.nearest n 1 < double.infinity ↔ n < firstInfinite := by
  by_cases hsmall : n < 2 ^ 53
  · have hreach : n < firstInfinite := by
      have hunit : 0 < 2 ^ 970 := by positivity
      unfold firstInfinite
      generalize 2 ^ 970 = u at hunit ⊢
      omega
    simp [nearest_lt hsmall,hreach]
  · have h : 2 ^ 53 ≤ n := by omega
    obtain ⟨hlow, hhigh⟩ := mantissa_bounds h
    rw [nearest_large h]
    simp only [double]
    rcases Nat.lt_trichotomy n.log2 1023 with hlog | hlog | hlog
    · -- below the last binade
      have hlt : n < 2 ^ (n.log2 + 1) := Nat.lt_log2_self
      have hpow : 2 ^ (n.log2 + 1) ≤ 2 ^ 53 * 2 ^ 970 := two_pow_le_mul (by omega)
      unfold firstInfinite
      generalize 2 ^ 970 = u at hpow ⊢
      omega
    · -- in the last binade the mantissa decides
      have hround : mantissa n ≤ 2 ^ 53 - 1 ↔ 2 * n < (2 * (2 ^ 53 - 1) + 1) * (2 * 2 ^ 970) := by
        have hden : 2 ^ (n.log2 - 52) = 2 * 2 ^ 970 := by
          rw [hlog,← Nat.pow_succ']
        unfold mantissa
        rw [hden]
        exact roundDiv_le_iff (by positivity) (by decide)
      rw [hlog]
      unfold firstInfinite
      generalize 2 ^ 970 = u at hround ⊢
      omega
    · have hle : 2 ^ n.log2 ≤ n := Nat.log2_self_le (by omega)
      have hpow : 2 ^ 54 * 2 ^ 970 ≤ 2 ^ n.log2 := mul_le_two_pow (by omega)
      unfold firstInfinite
      generalize 2 ^ 970 = u at hpow ⊢
      omega

theorem whole?_nearest_large (h : 2 ^ 53 ≤ n) (hfinite : n < firstInfinite) :
    double.whole? (double.nearest n 1) = some (mantissa n * 2 ^ (n.log2 - 52)) := by
  have hlog := le_log2 h
  obtain ⟨hlow, hhigh⟩ := mantissa_bounds h
  have hlt := (nearest_lt_iff n).2 hfinite
  have hnearest := nearest_large h
  have hpattern : double.nearest n 1 = (n.log2 + 1022) * 2 ^ 52 + mantissa n := by omega
  have hunit : Nat.pow 2 (double.precision - 1) = 4503599627370496 := rfl
  have hleast : double.least = -1074 := rfl
  unfold Format.whole?
  rw [if_neg (by omega),hpattern]
  obtain ⟨rest, hrest⟩ : ∃ rest, mantissa n = 4503599627370496 + rest :=
    ⟨mantissa n - 4503599627370496, by omega⟩
  rw [hrest]
  by_cases hcarry : rest < 4503599627370496
  · have hparts := Format.parts_of_field hunit hcarry (n.log2 + 1022)
    rw [show (n.log2 + 1022) * 2 ^ 52 + (4503599627370496 + rest) =
      (n.log2 + 1022 + 1) * 4503599627370496 + rest by ring,hparts,hleast]
    have hexponent : (-1074 + ((n.log2 + 1022 : Nat) : Int)).toNat = n.log2 - 52 := by omega
    have hnonneg : 0 ≤ -1074 + ((n.log2 + 1022 : Nat) : Int) := by omega
    simp only [hnonneg,if_true,hexponent]
    rfl
  · -- a full mantissa carries into the exponent
    obtain rfl : rest = 4503599627370496 := by omega
    have hparts := Format.parts_of_field hunit (show 0 < 4503599627370496 by decide) (n.log2 + 1023)
    rw [show (n.log2 + 1022) * 2 ^ 52 + (4503599627370496 + 4503599627370496) =
      (n.log2 + 1023 + 1) * 4503599627370496 + 0 by ring,hparts,hleast]
    have hexponent : (-1074 + ((n.log2 + 1023 : Nat) : Int)).toNat = n.log2 - 52 + 1 := by omega
    have hnonneg : 0 ≤ -1074 + ((n.log2 + 1023 : Nat) : Int) := by omega
    simp only [hnonneg,if_true,hexponent]
    change some ((4503599627370496 + 0) * 2 ^ (n.log2 - 52 + 1)) = _
    rw [Nat.pow_succ,Option.some_inj]
    generalize 2 ^ (n.log2 - 52) = unit
    omega

/-- Rounding keeps every power of two below a number that does not fit the mantissa. -/
theorem exists_whole?_nearest (hfinite : n < firstInfinite) :
    ∃ w, double.whole? (double.nearest n 1) = some w ∧ (n < 2 ^ 53 → w = n) ∧
      ∀ k, 53 ≤ k → 2 ^ k ≤ n → 2 ^ k ≤ w := by
  by_cases h : n < 2 ^ 53
  · refine ⟨n, whole?_nearest h, by simp, by simp⟩
  · have hlarge : 2 ^ 53 ≤ n := by omega
    have hlog := le_log2 hlarge
    obtain ⟨hlow, -⟩ := mantissa_bounds hlarge
    refine ⟨_, whole?_nearest_large hlarge hfinite, fun hn => absurd hn h, fun k _ hpow => ?_⟩
    have hle : k ≤ n.log2 := (Nat.le_log2 (by omega)).2 hpow
    calc 2 ^ k ≤ 2 ^ 52 * 2 ^ (n.log2 - 52) := two_pow_le_mul (by omega)
      _ ≤ mantissa n * 2 ^ (n.log2 - 52) := Nat.mul_le_mul_right _ hlow

theorem nearest_infinite (h : firstInfinite ≤ n) : double.nearest n 1 = double.infinity := by
  have hnot := (nearest_lt_iff n).not.2 (by omega)
  have hle : double.nearest n 1 ≤ double.infinity := by
    unfold Format.nearest
    split
    · simp
    · exact Nat.min_le_left _ _
  omega

end large

/-- What a whole number may be rounded to: a small one to itself, a great one to one that reaches the same powers
of two. -/
structure Rounded (n w : Int) : Prop where
  small : n.natAbs < 2 ^ 53 → w = n
  above : ∀ k, 53 ≤ k → (2 ^ k : Int) ≤ n → 2 ^ k ≤ w
  below : ∀ k, 53 ≤ k → n ≤ -(2 ^ k : Int) → w ≤ -2 ^ k

theorem eq_zero_of_beq {u : Float.Model.UnpackedFloat} (h : u.beq (.zero .positive) = true) :
    ∃ s, u = .zero s := by
  cases u with
  | infinity s => cases s <;> cases h
  | notANumber => cases h
  | zero s => exact ⟨s, rfl⟩
  | finite s m e hm => cases s <;> cases h

/-- Only zeros are equal to zero. -/
theorem pattern_of_beq_zero {x : Float} (h : (x == 0.0) = true) :
    (signedPattern 63 x.toBits.toNat).2 = 0 := by
  have hzero : (0.0 : Float).toBits = ⟨packed false 0 0⟩ := by decide +kernel
  have hbeq : (x == 0.0) = (unpack Float.Model.Format.binary64 x.toBits.toBitVec).beq
    (unpack Float.Model.Format.binary64 (0.0 : Float).toBits.toBitVec) := rfl
  have hunpack : unpack Float.Model.Format.binary64 (packed false 0 0) = .zero .positive := by
    simp [unpack,packed]
  rw [hbeq,hzero,hunpack] at h
  obtain ⟨s, hs⟩ := eq_zero_of_beq h
  change x.toBits.toBitVec.toNat % 2 ^ 63 = 0
  generalize x.toBits.toBitVec = bits at hs ⊢
  unfold Float.Model.UnpackedFloat.unpack at hs
  dsimp only at hs
  split at hs
  · split at hs <;> cases hs
  · split at hs
    · split at hs
      · next hexponent hmantissa =>
        have he := congrArg BitVec.toNat hexponent
        have hm := congrArg BitVec.toNat hmantissa
        simp [unpackExponent,unpackMantissa,Nat.shiftRight_eq_div_pow] at he hm
        omega
      · cases hs
    · cases hs

theorem natAbs_signed (negative : Bool) (k : Nat) : (if negative then -(k : Int) else k).natAbs = k := by
  cases negative <;> simp

/-- Rounding a magnitude rounds the number with either sign. -/
theorem rounded_signed {k w : Nat} (hsmall : k < 2 ^ 53 → w = k) (hpow : ∀ j, 53 ≤ j → 2 ^ j ≤ k → 2 ^ j ≤ w)
    (negative : Bool) :
    Rounded (if negative then -(k : Int) else k) (if negative then -(w : Int) else w) := by
  have hpos (j : Nat) : (0 : Int) < 2 ^ j := by positivity
  have hcast (j : Nat) (hj : 53 ≤ j) (hle : (2 ^ j : Int) ≤ k) : (2 ^ j : Int) ≤ w := by
    exact_mod_cast hpow j hj (by exact_mod_cast hle)
  cases negative with
  | false =>
    simp only [Bool.false_eq_true,if_false]
    refine ⟨by simpa using hsmall, hcast, fun j hj hle => ?_⟩
    have := hpos j
    omega
  | true =>
    simp only [if_true]
    refine ⟨by simpa using hsmall, fun j hj hle => ?_, fun j hj hle => ?_⟩
    · have := hpos j
      omega
    · have := hcast j hj (by omega)
      omega

/-- The value nearest to a whole number; only of zero there are two. -/
def Near (n : Int) (x : Float) : Prop :=
  ∃ (negative : Bool) (k : Nat), x = doubleOfPattern negative (double.nearest k 1) ∧
    n = if negative then -(k : Int) else k

theorem near_doubleOfInt (n : Int) : Near n (doubleOfInt n) := by
  refine ⟨n < 0, n.natAbs, rfl, ?_⟩
  by_cases hn : n < 0
  · simp only [hn,decide_true,if_true]
    omega
  · simp only [hn,decide_false,Bool.false_eq_true,if_false]
    omega

namespace Near

variable {n : Int} {x : Float}

theorem eq_doubleOfInt (h : Near n x) (hn : n ≠ 0) : x = doubleOfInt n := by
  obtain ⟨negative, k, rfl, rfl⟩ := h
  unfold doubleOfInt
  cases negative with
  | false =>
    have hk : ¬ (k : Int) < 0 := by omega
    simp [hk]
  | true =>
    have hk : 0 < k := by
      simp at hn
      omega
    simp [hk]

/-- A whole number that is not too great is rounded, and beyond there is none. -/
theorem whole (h : Near n x) :
    (n.natAbs < firstInfinite → ∃ w, wholeOfDouble? x = some w ∧ Rounded n w) ∧
      (firstInfinite ≤ n.natAbs → wholeOfDouble? x = none) := by
  obtain ⟨negative, k, rfl, rfl⟩ := h
  rw [natAbs_signed]
  constructor
  · intro hfinite
    obtain ⟨w, hw, hsmall, hpow⟩ := exists_whole?_nearest hfinite
    refine ⟨_, ?_, rounded_signed hsmall hpow negative⟩
    simp only [wholeOfDouble?,signedPattern_doubleOfPattern negative ((nearest_lt_iff k).2 hfinite),hw]
    rfl
  · intro hinfinite
    rw [nearest_infinite hinfinite]
    cases negative <;> decide +kernel

theorem ne_zero (h : Near n x) (hn : n ≠ 0) (hfinite : n.natAbs < firstInfinite) :
    (x == 0.0) = false := by
  obtain ⟨negative, k, rfl, rfl⟩ := h
  rw [natAbs_signed] at hfinite
  by_contra hzero
  have hpattern := pattern_of_beq_zero (by simpa using hzero)
  rw [signedPattern_doubleOfPattern negative ((nearest_lt_iff k).2 hfinite)] at hpattern
  obtain ⟨w, hw, hsmall, hpow⟩ := exists_whole?_nearest hfinite
  rw [show double.nearest k 1 = 0 from hpattern,show double.whole? 0 = some 0 by decide +kernel] at hw
  obtain rfl := Option.some.inj hw
  by_cases hk : k < 2 ^ 53
  · simp [← hsmall hk] at hn
  · have := hpow 53 (by decide) (by omega)
    omega

end Near

section text

variable {cs : List Char}

theorem firstInfinite_le {k : Nat} (h : 1024 ≤ 3 * k) : firstInfinite ≤ 10 ^ k := by
  calc firstInfinite ≤ 2 ^ 54 * 2 ^ 970 := Nat.mul_le_mul_right _ (by decide)
    _ ≤ 2 ^ (3 * k) := mul_le_two_pow (by omega)
    _ = (2 ^ 3) ^ k := Nat.pow_mul 2 3 k
    _ ≤ 10 ^ k := Nat.pow_le_pow_left (by decide) k

/-- What is too long to be read is infinite anyway. -/
theorem ofMagnitude_whole (n : Nat) : double.ofMagnitude (.finite n 0) = double.nearest n 1 := by
  have hlow : ¬ ((ofNat n).length : Int) + 0 < -400 := by omega
  by_cases hhigh : 400 < ((ofNat n).length : Int) + 0
  · have hlong : 10 ^ 400 ≤ n := by
      have hlength : ¬ (Nat.toDigits 10 n).length ≤ 400 := by
        unfold ofNat at hhigh
        omega
      rwa [Nat.length_toDigits_le_iff (by decide) (by decide),Nat.not_lt] at hlength
    have hinfinite : firstInfinite ≤ n := (firstInfinite_le (by decide)).trans hlong
    have hn : n ≠ 0 := by
      rintro rfl
      simp [ofNat] at hhigh
    simp only [Format.ofMagnitude,hn,hlow,hhigh,or_self,if_false,if_true,nearest_infinite hinfinite]
  · by_cases hn : n = 0
    · simp [Format.ofMagnitude,Format.nearest,hn]
    · have hscale : scale10 n 1 0 = (n, 1) := by simp [scale10]
      simp only [Format.ofMagnitude,hn,hlow,hhigh,or_self,if_false,hscale]

theorem near_of_signed? {i : Int} (h : signed? cs = some i) : ∃ x, double? cs = some x ∧ Near i x := by
  obtain ⟨negative, n, hcs, rfl⟩ := decimal?_of_signed? h
  refine ⟨doubleOfPattern negative (double.nearest n 1), ?_, negative, n, rfl, rfl⟩
  simp [double?,hcs,ofMagnitude_whole]

end text

end LineScript.Numeral
