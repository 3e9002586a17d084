import LineScript.Proofs.Numeral.Rounding
set_option autoImplicit false

/-!
The order of binary floating point. Finite values stand in the order of their patterns with the signs, and the
patterns nearest to whole numbers in the order of what these are rounded to. Rounding never reverses an order,
so two whole numbers compare as decimals the way they do themselves, unless they differ and are rounded alike.
-/

namespace LineScript.Numeral

open Float.Model.UnpackedFloat

def withSign (negative : Bool) (k : Nat) : Int := if negative then -(k : Int) else k

section patterns

/-- What a finite value is taken apart into: a zero, or an exponent and a mantissa that make up its pattern. -/
inductive Parted (negative : Bool) (pattern : Nat) : Float.Model.UnpackedFloat → Prop
  | zero : pattern = 0 → Parted negative pattern (.zero (if negative then .negative else .positive))
  | finite (field : Nat) {m : Nat} {e : Int} (hm : 0 < m) : e = field - 1074 → pattern = field * 2 ^ 52 + m →
      m < 2 ^ 53 → field = 0 ∨ 2 ^ 52 ≤ m →
      Parted negative pattern (.finite (if negative then .negative else .positive) m e hm)

theorem parted_doubleOfPattern (negative : Bool) {pattern : Nat} (h : pattern < double.infinity) :
    Parted negative pattern
      (unpack Float.Model.Format.binary64 (doubleOfPattern negative pattern).toBits.toBitVec) := by
  rw [toBits_doubleOfPattern negative h]
  have hne := exponent_ne h
  have hfields := fields_eq h
  generalize BitVec.ofNat 11 (pattern / 2 ^ 52) = e at hne hfields ⊢
  generalize BitVec.ofNat 52 (pattern % 2 ^ 52) = m at hfields ⊢
  have hm : m.toNat < 2 ^ 52 := m.isLt
  unfold Float.Model.UnpackedFloat.unpack packed
  simp only [unpackMantissa_packComponents,unpackExponent_packComponents,unpackSign_packComponents,
    Sign.ofBitVec_toBitVec]
  split
  · next hall => exact absurd hall hne
  · split
    · next hzero =>
      obtain rfl : e = 0#11 := hzero
      simp only [BitVec.toNat_ofNat,Nat.zero_mod,Nat.zero_mul,Nat.zero_add] at hfields
      split
      · next hnone =>
        obtain rfl : m = 0#52 := hnone
        exact .zero (by simpa using hfields.symm)
      · exact .finite 0 _ (by rfl) (by omega) (by omega) (.inl rfl)
    · next hsome =>
      have hpos : e.toNat ≠ 0 := fun hzero => hsome (BitVec.eq_of_toNat_eq (by simpa using hzero))
      have hfull : (1#1 ++ m).toNat = 2 ^ 52 + m.toNat := by
        rw [BitVec.toNat_append,← Nat.shiftLeft_add_eq_or_of_lt m.isLt,Nat.shiftLeft_eq]
        rfl
      refine .finite (e.toNat - 1) _ ?_ (by omega) (by omega) (.inr (by omega))
      change (e.toNat : Int) - 1075 = _
      omega

/-- The greater exponent has the greater pattern, whatever the mantissas are. -/
theorem compare_fields {f g m n : Nat} {e d : Int} (he : e = f - 1074) (hd : d = g - 1074)
    (hm : m < 2 ^ 53) (hn : n < 2 ^ 53) (hf : f = 0 ∨ 2 ^ 52 ≤ m) (hg : g = 0 ∨ 2 ^ 52 ≤ n) :
    (compare e d).then (compare m n) = compare (f * 2 ^ 52 + m) (g * 2 ^ 52 + n) := by
  rcases Nat.lt_trichotomy f g with hlt | rfl | hgt
  · rw [compare_lt_iff_lt.2 (show e < d by omega),
      compare_lt_iff_lt.2 (show f * 2 ^ 52 + m < g * 2 ^ 52 + n by omega)]
    rfl
  · rw [compare_eq_iff_eq.2 (show e = d by omega)]
    rcases Nat.lt_trichotomy m n with hlt | rfl | hgt
    · rw [compare_lt_iff_lt.2 hlt,compare_lt_iff_lt.2 (by omega)]
      rfl
    · rw [compare_eq_iff_eq.2 rfl,compare_eq_iff_eq.2 rfl]
      rfl
    · rw [compare_gt_iff_gt.2 hgt,compare_gt_iff_gt.2 (by omega)]
      rfl
  · rw [compare_gt_iff_gt.2 (show d < e by omega),
      compare_gt_iff_gt.2 (show g * 2 ^ 52 + n < f * 2 ^ 52 + m by omega)]
    rfl

theorem compare_natCast (p q : Nat) : compare (p : Int) q = compare p q := by
  rcases Nat.lt_trichotomy p q with hlt | rfl | hgt
  · rw [compare_lt_iff_lt.2 hlt,compare_lt_iff_lt.2 (by omega)]
  · rw [compare_eq_iff_eq.2 rfl,compare_eq_iff_eq.2 rfl]
  · rw [compare_gt_iff_gt.2 hgt,compare_gt_iff_gt.2 (by omega)]

theorem compare_neg_natCast (p q : Nat) : compare (-(p : Int)) (-q) = (compare p q).swap := by
  rcases Nat.lt_trichotomy p q with hlt | rfl | hgt
  · rw [compare_lt_iff_lt.2 hlt,compare_gt_iff_gt.2 (by omega)]
    rfl
  · rw [compare_eq_iff_eq.2 rfl,compare_eq_iff_eq.2 rfl]
    rfl
  · rw [compare_gt_iff_gt.2 hgt,compare_lt_iff_lt.2 (by omega)]
    rfl

/-- Finite values compare as their patterns with the signs. -/
theorem Parted.compare_eq {negative other : Bool} {p q : Nat} {u v : Float.Model.UnpackedFloat}
    (hu : Parted negative p u) (hv : Parted other q v) :
    u.compare v = some (compare (withSign negative p) (withSign other q)) := by
  cases hu with
  | zero hp =>
    cases hv with
    | zero hq =>
      subst hp hq
      cases negative <;> cases other <;> rfl
    | finite g hn _ hq _ _ =>
      subst hp
      cases other with
      | false => cases negative <;> exact congrArg some (compare_lt_iff_lt.2 (by simp [withSign]; omega)).symm
      | true => cases negative <;> exact congrArg some (compare_gt_iff_gt.2 (by simp [withSign]; omega)).symm
  | finite f hm he hp hmax hf =>
    cases hv with
    | zero hq =>
      subst hq
      cases negative with
      | false => cases other <;> exact congrArg some (compare_gt_iff_gt.2 (by simp [withSign]; omega)).symm
      | true => cases other <;> exact congrArg some (compare_lt_iff_lt.2 (by simp [withSign]; omega)).symm
    | finite g hn hd hq hnax hg =>
      have hfields := compare_fields he hd hmax hnax hf hg
      rw [← hp,← hq] at hfields
      cases negative with
      | false =>
        cases other with
        | false => exact congrArg some (hfields.trans (compare_natCast p q).symm)
        | true => exact congrArg some (compare_gt_iff_gt.2 (by simp [withSign]; omega)).symm
      | true =>
        cases other with
        | false => exact congrArg some (compare_lt_iff_lt.2 (by simp [withSign]; omega)).symm
        | true =>
          exact congrArg some ((congrArg Ordering.swap hfields).trans (compare_neg_natCast p q).symm)

section

variable {p q : Nat} (hp : p < double.infinity) (hq : q < double.infinity) (negative other : Bool)
include hp hq

theorem doubleOfPattern_lt_iff :
    doubleOfPattern negative p < doubleOfPattern other q ↔ withSign negative p < withSign other q := by
  have hcompare := (parted_doubleOfPattern negative hp).compare_eq (parted_doubleOfPattern other hq)
  generalize doubleOfPattern negative p = x at hcompare ⊢
  generalize doubleOfPattern other q = y at hcompare ⊢
  change decide (((unpack Float.Model.Format.binary64 x.toBits.toBitVec).compare
    (unpack Float.Model.Format.binary64 y.toBits.toBitVec) == some .lt) = true) = true ↔ _
  rw [hcompare]
  simp [compare_lt_iff_lt]

theorem doubleOfPattern_beq_iff :
    (doubleOfPattern negative p == doubleOfPattern other q) = true ↔
      withSign negative p = withSign other q := by
  have hcompare := (parted_doubleOfPattern negative hp).compare_eq (parted_doubleOfPattern other hq)
  generalize doubleOfPattern negative p = x at hcompare ⊢
  generalize doubleOfPattern other q = y at hcompare ⊢
  change ((unpack Float.Model.Format.binary64 x.toBits.toBitVec).compare
    (unpack Float.Model.Format.binary64 y.toBits.toBitVec) == some .eq) = true ↔ _
  rw [hcompare]
  simp

end

end patterns

section magnitudes

/-- What a whole number without a sign is rounded to, if it is not too great. -/
def roundedNat (n : Nat) : Nat := if n < 2 ^ 53 then n else mantissa n * 2 ^ (n.log2 - 52)

variable {m n : Nat}

theorem roundedNat_zero : roundedNat 0 = 0 := rfl

/-- A pattern and the number it stands for have the same exponent and mantissa, up to a carry. -/
theorem nearest_fields (hn : n ≠ 0) (hfinite : n < firstInfinite) :
    ∃ k, 2 ^ 52 ≤ k ∧ k ≤ 2 ^ 53 ∧ double.nearest n 1 = (n.log2 + 1022) * 2 ^ 52 + k ∧
      roundedNat n * 2 ^ 52 = k * 2 ^ n.log2 := by
  by_cases hsmall : n < 2 ^ 53
  · obtain ⟨hnearest, hlow, hhigh⟩ := nearest_whole hn hsmall
    have hlog : n.log2 ≤ 52 := by
      have := (Nat.log2_lt hn).2 hsmall
      omega
    refine ⟨_, hlow, by omega, hnearest, ?_⟩
    rw [roundedNat,if_pos hsmall,Nat.mul_assoc,← Nat.pow_add]
    congr 2
    omega
  · have hlarge : 2 ^ 53 ≤ n := by omega
    have hlog := le_log2 hlarge
    obtain ⟨hlow, hhigh⟩ := mantissa_bounds hlarge
    have hlt := (nearest_lt_iff n).2 hfinite
    have hnearest := nearest_large hlarge
    refine ⟨_, hlow, hhigh, by omega, ?_⟩
    rw [roundedNat,if_neg hsmall,Nat.mul_assoc,← Nat.pow_add]
    congr 2
    omega

/-- Patterns stand in the order of their numbers. -/
theorem fields_lt_iff {e d j k : Nat} (hj : 2 ^ 52 ≤ j ∧ j ≤ 2 ^ 53) (hk : 2 ^ 52 ≤ k ∧ k ≤ 2 ^ 53) :
    e * 2 ^ 52 + j < d * 2 ^ 52 + k ↔ j * 2 ^ e < k * 2 ^ d := by
  have hscale (c : Nat) {a b : Nat} (x : Nat) : a * 2 ^ c < b * 2 ^ (c + 1 + x) ↔ a < 2 * (b * 2 ^ x) := by
    rw [show b * 2 ^ (c + 1 + x) = 2 * (b * 2 ^ x) * 2 ^ c by ring]
    exact Nat.mul_lt_mul_right (Nat.two_pow_pos c)
  have hgrows (b x : Nat) : b ≤ b * 2 ^ x ∧ (x ≠ 0 → 2 * b ≤ b * 2 ^ x) := by
    refine ⟨Nat.le_mul_of_pos_right b (Nat.two_pow_pos x), fun hx => ?_⟩
    obtain ⟨y, rfl⟩ := Nat.exists_eq_succ_of_ne_zero hx
    rw [Nat.pow_succ,Nat.mul_comm 2 b,Nat.mul_comm (2 ^ y)]
    exact Nat.mul_le_mul_left b (Nat.le_mul_of_pos_right 2 (Nat.two_pow_pos y))
  rcases Nat.lt_trichotomy e d with hlt | rfl | hgt
  · obtain ⟨x, rfl⟩ := Nat.exists_eq_add_of_lt hlt
    rw [Nat.add_right_comm,hscale]
    have := hgrows k x
    by_cases hx : x = 0
    · subst hx
      omega
    · omega
  · rw [Nat.mul_lt_mul_right (Nat.two_pow_pos e)]
    omega
  · obtain ⟨x, rfl⟩ := Nat.exists_eq_add_of_lt hgt
    have hle : k * 2 ^ d ≤ j * 2 ^ (d + 1 + x) := by
      have := hgrows j x
      rw [show j * 2 ^ (d + 1 + x) = 2 * (j * 2 ^ x) * 2 ^ d by ring]
      exact Nat.mul_le_mul_right _ (by omega)
    rw [Nat.add_right_comm]
    omega

/-- Nearest patterns stand in the order of what numbers are rounded to. -/
theorem nearest_lt_nearest_iff (hm : m < firstInfinite) (hn : n < firstInfinite) :
    double.nearest m 1 < double.nearest n 1 ↔ roundedNat m < roundedNat n := by
  have hzero : double.nearest 0 1 = 0 := rfl
  have hunit : (0 : Nat) < 2 ^ 52 := by decide
  by_cases hm0 : m = 0
  · subst hm0
    by_cases hn0 : n = 0
    · simp [hn0]
    · obtain ⟨k, hlow, -, hnearest, hrounded⟩ := nearest_fields hn0 hn
      have hpos : 0 < roundedNat n * 2 ^ 52 := by
        rw [hrounded]
        exact Nat.mul_pos (by omega) (Nat.two_pow_pos _)
      have hpositive := Nat.pos_of_mul_pos_right hpos
      rw [hzero,roundedNat_zero]
      omega
  · obtain ⟨j, hlow, hhigh, hnearest, hrounded⟩ := nearest_fields hm0 hm
    by_cases hn0 : n = 0
    · subst hn0
      simp [hzero,roundedNat_zero]
    · obtain ⟨k, hlow', hhigh', hnearest', hrounded'⟩ := nearest_fields hn0 hn
      have hscaled : roundedNat m < roundedNat n ↔ roundedNat m * 2 ^ 52 < roundedNat n * 2 ^ 52 :=
        (Nat.mul_lt_mul_right hunit).symm
      rw [hscaled,hrounded,hrounded',← fields_lt_iff ⟨hlow, hhigh⟩ ⟨hlow', hhigh'⟩,hnearest,hnearest']
      omega

theorem roundDiv_mono (den : Nat) (h : m ≤ n) : roundDiv m den ≤ roundDiv n den := by
  rcases Nat.lt_or_eq_of_le (Nat.div_le_div_right (c := den) h) with hlt | heq
  · calc roundDiv m den ≤ m / den + 1 := roundDiv_le m den
      _ ≤ n / den := hlt
      _ ≤ roundDiv n den := le_roundDiv n den
  · -- the same quotient, and no smaller a remainder
    have hmod : m % den ≤ n % den := by
      have hm := Nat.div_add_mod m den
      have hn := Nat.div_add_mod n den
      rw [heq] at hm
      omega
    unfold roundDiv
    dsimp only
    rw [heq]
    generalize n / den = q
    generalize m % den = r at hmod ⊢
    generalize n % den = r' at hmod ⊢
    by_cases hlow : 2 * r < den
    · rw [if_pos hlow]
      split
      · exact Nat.le_refl q
      · split <;> omega
    · rw [if_neg hlow,if_neg (show ¬ 2 * r' < den by omega)]
      split
      · split <;> omega
      · rw [if_neg (by omega)]

theorem roundedNat_bounds (h : 2 ^ 53 ≤ n) : 2 ^ n.log2 ≤ roundedNat n ∧ roundedNat n ≤ 2 ^ (n.log2 + 1) := by
  have hlog := le_log2 h
  obtain ⟨hlow, hhigh⟩ := mantissa_bounds h
  rw [roundedNat,if_neg (by omega)]
  constructor
  · calc 2 ^ n.log2 ≤ 2 ^ 52 * 2 ^ (n.log2 - 52) := two_pow_le_mul (by omega)
      _ ≤ mantissa n * 2 ^ (n.log2 - 52) := Nat.mul_le_mul_right _ hlow
  · calc mantissa n * 2 ^ (n.log2 - 52) ≤ 2 ^ 53 * 2 ^ (n.log2 - 52) := Nat.mul_le_mul_right _ hhigh
      _ ≤ 2 ^ (n.log2 + 1) := mul_le_two_pow (by omega)

theorem le_roundedNat (h : 2 ^ 53 ≤ n) : 2 ^ 53 ≤ roundedNat n :=
  (Nat.pow_le_pow_right (by decide) (le_log2 h)).trans (roundedNat_bounds h).1

theorem roundedNat_mono (h : m ≤ n) : roundedNat m ≤ roundedNat n := by
  by_cases hn : n < 2 ^ 53
  · rw [roundedNat,roundedNat,if_pos hn,if_pos (by omega)]
    exact h
  · by_cases hm : m < 2 ^ 53
    · have := le_roundedNat (show 2 ^ 53 ≤ n by omega)
      rw [roundedNat,if_pos hm]
      omega
    · have hlog : m.log2 ≤ n.log2 := (Nat.le_log2 (by omega)).2 ((Nat.log2_self_le (by omega)).trans h)
      rcases Nat.lt_or_eq_of_le hlog with hlt | heq
      · calc roundedNat m ≤ 2 ^ (m.log2 + 1) := (roundedNat_bounds (by omega)).2
          _ ≤ 2 ^ n.log2 := Nat.pow_le_pow_right (by decide) hlt
          _ ≤ roundedNat n := (roundedNat_bounds (by omega)).1
      · rw [roundedNat,roundedNat,if_neg hm,if_neg hn,mantissa,mantissa,heq]
        exact Nat.mul_le_mul_right _ (roundDiv_mono _ h)

end magnitudes

/-- What a whole number is rounded to, if it is not too great. -/
def rounded (n : Int) : Int := withSign (n < 0) (roundedNat n.natAbs)

section signed

variable {m n : Int}

theorem rounded_withSign (negative : Bool) (k : Nat) :
    rounded (withSign negative k) = withSign negative (roundedNat k) := by
  cases negative with
  | false =>
    have hk : ¬ (k : Int) < 0 := by omega
    simp [rounded,withSign,hk]
  | true =>
    by_cases hk : k = 0
    · subst hk
      rfl
    · have hneg : 0 < k := by omega
      simp [rounded,withSign,hneg]

theorem rounded_small (h : n.natAbs < 2 ^ 53) : rounded n = n := by
  rw [rounded,roundedNat,if_pos h]
  by_cases hn : n < 0
  · simp only [withSign,hn,decide_true,if_true]
    omega
  · simp only [withSign,hn,decide_false,Bool.false_eq_true,if_false]
    omega

/-- Rounding never reverses an order. -/
theorem rounded_mono (h : m ≤ n) : rounded m ≤ rounded n := by
  by_cases hm : m < 0
  · by_cases hn : n < 0
    · have := roundedNat_mono (show n.natAbs ≤ m.natAbs by omega)
      simp only [rounded,withSign,hm,hn,decide_true,if_true]
      omega
    · simp only [rounded,withSign,hm,hn,decide_true,decide_false,Bool.false_eq_true,if_true,if_false]
      omega
  · have hn : ¬ n < 0 := by omega
    have := roundedNat_mono (show m.natAbs ≤ n.natAbs by omega)
    simp [rounded,withSign,hm,hn]
    omega

theorem rounded_lt_iff (h : m = n ∨ rounded m ≠ rounded n) : rounded m < rounded n ↔ m < n := by
  constructor
  · intro hlt
    by_contra hle
    have := rounded_mono (show n ≤ m by omega)
    omega
  · intro hlt
    have := rounded_mono (show m ≤ n by omega)
    omega

/-- A number that fits the mantissa is rounded like no other. -/
theorem eq_or_rounded_ne (h : m.natAbs < 2 ^ 53) : m = n ∨ rounded m ≠ rounded n := by
  by_cases hn : n.natAbs < 2 ^ 53
  · rw [rounded_small h,rounded_small hn]
    exact em _
  · right
    have hlarge := le_roundedNat (show 2 ^ 53 ≤ n.natAbs by omega)
    rw [rounded_small h,rounded]
    by_cases hneg : n < 0
    · simp [withSign,hneg]
      omega
    · simp [withSign,hneg]
      omega

end signed

namespace Near

variable {m n : Int} {x y : Float}

/-- Values nearest to whole numbers compare as these do once rounded. -/
theorem compares (hx : Near m x) (hy : Near n y) (hm : m.natAbs < firstInfinite)
    (hn : n.natAbs < firstInfinite) :
    (x < y ↔ rounded m < rounded n) ∧ ((x == y) = true ↔ rounded m = rounded n) := by
  obtain ⟨negative, j, rfl, hj⟩ := hx
  obtain ⟨other, k, rfl, hk⟩ := hy
  change m = withSign negative j at hj
  change n = withSign other k at hk
  subst hj hk
  have hjfinite : j < firstInfinite := by rwa [withSign,natAbs_signed] at hm
  have hkfinite : k < firstInfinite := by rwa [withSign,natAbs_signed] at hn
  rw [doubleOfPattern_lt_iff ((nearest_lt_iff j).2 hjfinite) ((nearest_lt_iff k).2 hkfinite),
    doubleOfPattern_beq_iff ((nearest_lt_iff j).2 hjfinite) ((nearest_lt_iff k).2 hkfinite),
    rounded_withSign,rounded_withSign]
  -- the signed patterns stand as the signed numbers, since the magnitudes do, also beside zero
  have hzero : (0 : Nat) < firstInfinite := by omega
  have hjk := nearest_lt_nearest_iff hjfinite hkfinite
  have hkj := nearest_lt_nearest_iff hkfinite hjfinite
  have hposj := nearest_lt_nearest_iff hzero hjfinite
  have hposk := nearest_lt_nearest_iff hzero hkfinite
  rw [show double.nearest 0 1 = 0 from rfl,roundedNat_zero] at hposj hposk
  cases negative <;> cases other <;> simp [withSign] <;> omega

end Near

end LineScript.Numeral
