import Mathlib
import LineScript.Numeral.Conversion
set_option autoImplicit false

/-!
Whole numbers as binary floating point. A pattern with its sign is read back from the bits of the value that
it makes; a whole number that fits the mantissa has a pattern of its own, which stands for it exactly. Hence
a text that spells such a number gives the same whole number when it is read as a decimal.
-/

namespace LineScript.Numeral

open Float.Model.UnpackedFloat

/-- The bits of a value: its sign, the field of its exponent and that of its mantissa. -/
def packed (negative : Bool) (e : BitVec 11) (m : BitVec 52) : BitVec 64 :=
  packComponents Float.Model.Format.binary64 (if negative then .negative else .positive) e m

theorem toNat_packed (negative : Bool) (e : BitVec 11) (m : BitVec 52) :
    (packed negative e m).toNat = (if negative then 2 ^ 63 else 0) + (e.toNat * 2 ^ 52 + m.toNat) := by
  have hsign : (Sign.toBitVec (if negative then .negative else .positive)).toNat = negative.toNat := by
    cases negative <;> rfl
  unfold packed packComponents
  rw [BitVec.toNat_append,BitVec.toNat_append,← Nat.shiftLeft_add_eq_or_of_lt m.isLt,
    ← Nat.shiftLeft_add_eq_or_of_lt e.isLt,hsign]
  simp only [Nat.shiftLeft_eq]
  cases negative with
  | false => simp
  | true => simp; omega

theorem signedPattern_packed (negative : Bool) (e : BitVec 11) (m : BitVec 52) :
    signedPattern 63 (packed negative e m).toNat = (negative, e.toNat * 2 ^ 52 + m.toNat) := by
  have he : e.toNat < 2 ^ 11 := e.isLt
  have hm : m.toNat < 2 ^ 52 := m.isLt
  rw [toNat_packed]
  simp only [signedPattern,Prod.mk.injEq]
  cases negative with
  | false => exact ⟨decide_eq_false (by simp; omega), by simp; omega⟩
  | true => exact ⟨decide_eq_true (by simp), by simp; omega⟩

section bits

variable {e : BitVec 11} (he : e ≠ -1#11) (negative : Bool) (m : BitVec 52)

/-- The sign is all that negation changes. -/
theorem unpack_packed_not (e : BitVec 11) :
    unpack Float.Model.Format.binary64 (packed (!negative) e m) =
      (unpack Float.Model.Format.binary64 (packed negative e m)).neg := by
  unfold Float.Model.UnpackedFloat.unpack packed
  simp only [unpackMantissa_packComponents,unpackExponent_packComponents,unpackSign_packComponents,
    Sign.ofBitVec_toBitVec]
  split
  · split
    · cases negative <;> rfl
    · rfl
  · split
    · split
      · cases negative <;> rfl
      · cases negative <;> rfl
    · cases negative <;> rfl

include he

/-- A finite value has the bits that it was made from. -/
theorem pack_unpack_packed : pack Float.Model.Format.binary64
    (unpack Float.Model.Format.binary64 (packed negative e m)) = packed negative e m := by
  have hnan : @isNaNBits Float.Model.Format.binary64 (packed negative e m) = false := by
    unfold isNaNBits packed
    rw [unpackMantissa_packComponents,unpackExponent_packComponents]
    simp only [decide_eq_false_iff_not]
    exact fun h => he h.1
  rw [pack_unpack,hnan]
  rfl

theorem toBits_ofBits : (Float.ofBits ⟨packed negative e m⟩).toBits = ⟨packed negative e m⟩ :=
  congrArg UInt64.ofBitVec (pack_unpack_packed he negative m)

theorem toBits_neg_ofBits : (-Float.ofBits ⟨packed negative e m⟩).toBits = ⟨packed (!negative) e m⟩ := by
  have hneg : (-Float.ofBits ⟨packed negative e m⟩).toBits = UInt64.ofBitVec (pack
      Float.Model.Format.binary64 (unpack Float.Model.Format.binary64
        (Float.ofBits ⟨packed negative e m⟩).toBits.toBitVec).neg) := rfl
  rw [hneg,toBits_ofBits he,← unpack_packed_not,pack_unpack_packed he]

end bits

/-- A finite pattern does not fill the field of its exponent. -/
theorem exponent_ne {pattern : Nat} (h : pattern < double.infinity) :
    BitVec.ofNat 11 (pattern / 2 ^ 52) ≠ -1#11 := by
  simp only [double] at h
  intro hall
  have htop : pattern / 2 ^ 52 % 2048 = 2047 := by simpa using congrArg BitVec.toNat hall
  omega

theorem fields_eq {pattern : Nat} (h : pattern < double.infinity) :
    (BitVec.ofNat 11 (pattern / 2 ^ 52)).toNat * 2 ^ 52 + (BitVec.ofNat 52 (pattern % 2 ^ 52)).toNat =
      pattern := by
  simp only [double] at h
  simp only [BitVec.toNat_ofNat]
  omega

theorem toBits_doubleOfPattern (negative : Bool) {pattern : Nat} (h : pattern < double.infinity) :
    (doubleOfPattern negative pattern).toBits =
      ⟨packed negative (.ofNat 11 (pattern / 2 ^ 52)) (.ofNat 52 (pattern % 2 ^ 52))⟩ := by
  have hbits : UInt64.ofNat pattern =
      ⟨packed false (.ofNat 11 (pattern / 2 ^ 52)) (.ofNat 52 (pattern % 2 ^ 52))⟩ := by
    apply UInt64.toNat_inj.1
    change pattern % 2 ^ 64 = (packed _ _ _).toNat
    rw [toNat_packed,fields_eq h]
    simp only [double] at h
    simp only [Bool.false_eq_true,if_false]
    omega
  cases negative with
  | false => simp only [doubleOfPattern,hbits,Bool.false_eq_true,if_false,toBits_ofBits (exponent_ne h)]
  | true => simp only [doubleOfPattern,hbits,if_true,toBits_neg_ofBits (exponent_ne h),Bool.not_false]

/-- A finite pattern with a sign is read back as it was. -/
theorem signedPattern_doubleOfPattern (negative : Bool) {pattern : Nat} (h : pattern < double.infinity) :
    signedPattern 63 (doubleOfPattern negative pattern).toBits.toNat = (negative, pattern) := by
  rw [toBits_doubleOfPattern negative h]
  exact (signedPattern_packed _ _ _).trans (by rw [fields_eq h])

/-- A pattern with something in the field of its exponent. -/
theorem Format.parts_of_field {f : Format} {unit rest : Nat} (hunit : Nat.pow 2 (f.precision - 1) = unit)
    (h : rest < unit) (field : Nat) :
    f.parts ((field + 1) * unit + rest) = (unit + rest, f.least + field) := by
  have hpos : 0 < unit := by omega
  have hdiv : ((field + 1) * unit + rest) / unit = field + 1 := by
    rw [Nat.add_comm,Nat.add_mul_div_right _ _ hpos,Nat.div_eq_of_lt h,Nat.zero_add]
  have hmod : ((field + 1) * unit + rest) % unit = rest := by
    rw [Nat.add_comm,Nat.add_mul_mod_self_right,Nat.mod_eq_of_lt h]
  simp only [Format.parts,hunit,hdiv,hmod]
  rw [if_neg (by omega)]
  congr 1
  push_cast
  ring

section whole

variable {n : Nat}

theorem floorLog2_one (hn : n ≠ 0) : floorLog2 n 1 = n.log2 := by
  have hle : 2 ^ n.log2 ≤ n := Nat.log2_self_le hn
  have hsmall : ¬ (scale2 n 1 (-(n.log2 : Int))).1 < (scale2 n 1 (-(n.log2 : Int))).2 := by
    unfold scale2
    split
    · have hzero : n.log2 = 0 := by omega
      simp [hzero]
      omega
    · simpa using hle
  have hone : Nat.log2 1 = 0 := rfl
  simp only [floorLog2,hone,Nat.cast_zero,sub_zero,hsmall,if_false]

theorem roundDiv_one (n : Nat) : roundDiv n 1 = n := by
  simp [roundDiv,Nat.mod_one]

/-- A whole number that fits the mantissa, shifted up to its first bit. -/
theorem nearest_whole (hn : n ≠ 0) (h : n < 2 ^ 53) :
    double.nearest n 1 = (n.log2 + 1022) * 2 ^ 52 + n * 2 ^ (52 - n.log2) ∧
      2 ^ 52 ≤ n * 2 ^ (52 - n.log2) ∧ n * 2 ^ (52 - n.log2) < 2 ^ 53 := by
  have hlog : n.log2 ≤ 52 := by
    have := (Nat.log2_lt hn).2 h
    omega
  have hle : 2 ^ n.log2 ≤ n := Nat.log2_self_le hn
  have hlt : n < 2 ^ (n.log2 + 1) := Nat.lt_log2_self
  have hlow : 2 ^ 52 ≤ n * 2 ^ (52 - n.log2) := by
    calc 2 ^ 52 = 2 ^ n.log2 * 2 ^ (52 - n.log2) := by rw [← Nat.pow_add,Nat.add_sub_cancel' hlog]
      _ ≤ n * 2 ^ (52 - n.log2) := Nat.mul_le_mul_right _ hle
  have hhigh : n * 2 ^ (52 - n.log2) < 2 ^ 53 := by
    calc n * 2 ^ (52 - n.log2) < 2 ^ (n.log2 + 1) * 2 ^ (52 - n.log2) :=
          Nat.mul_lt_mul_of_pos_right hlt (Nat.two_pow_pos _)
      _ = 2 ^ 53 := by
          rw [← Nat.pow_add]
          congr 1
          omega
  refine ⟨?_, hlow, hhigh⟩
  have hq : max (-1074) ((n.log2 : Int) - 53 + 1) = n.log2 - 52 := by omega
  have hscale : scale2 n 1 (-((n.log2 : Int) - 52)) = (n * 2 ^ (52 - n.log2), 1) := by
    have hexponent : (-((n.log2 : Int) - 52)).toNat = 52 - n.log2 := by omega
    have hnonneg : 0 ≤ -((n.log2 : Int) - 52) := by omega
    simp only [scale2,hnonneg,if_true,hexponent]
    rfl
  have hfield : ((n.log2 : Int) - 52 - -1074).toNat = n.log2 + 1022 := by omega
  simp only [Format.nearest,double,hn,if_false,floorLog2_one hn,Nat.cast_ofNat,hq,hscale,roundDiv_one,hfield]
  change min _ ((n.log2 + 1022) * 2 ^ 52 + _) = _
  omega

theorem nearest_lt (h : n < 2 ^ 53) : double.nearest n 1 < double.infinity := by
  by_cases hn : n = 0
  · simp [hn,Format.nearest,double]
  · obtain ⟨hnearest, -, hhigh⟩ := nearest_whole hn h
    have hlog : n.log2 < 53 := (Nat.log2_lt hn).2 h
    rw [hnearest]
    simp only [double]
    omega

theorem parts_nearest (hn : n ≠ 0) (h : n < 2 ^ 53) :
    double.parts (double.nearest n 1) = (n * 2 ^ (52 - n.log2), (n.log2 : Int) - 52) := by
  obtain ⟨hnearest, hlow, hhigh⟩ := nearest_whole hn h
  generalize n * 2 ^ (52 - n.log2) = m at hnearest hlow hhigh ⊢
  have hunit : Nat.pow 2 (double.precision - 1) = 4503599627370496 := rfl
  have hleast : double.least = -1074 := rfl
  obtain ⟨rest, rfl⟩ : ∃ rest, m = 4503599627370496 + rest := ⟨m - 4503599627370496, by omega⟩
  have hpattern : double.nearest n 1 = (n.log2 + 1022 + 1) * 4503599627370496 + rest := by
    rw [hnearest]
    ring
  have hsmall : rest < 4503599627370496 := by omega
  rw [hpattern,Format.parts_of_field hunit hsmall,hleast]
  simp only [Prod.mk.injEq,true_and]
  push_cast
  ring

/-- A whole number that fits the mantissa is exact. -/
theorem whole?_nearest (h : n < 2 ^ 53) : double.whole? (double.nearest n 1) = some n := by
  have hfinite : ¬ double.infinity ≤ double.nearest n 1 := by simpa using nearest_lt h
  unfold Format.whole?
  rw [if_neg hfinite]
  by_cases hn : n = 0
  · subst hn
    have hzero : double.parts (double.nearest 0 1) = (0, -1074) := rfl
    have hneg : ¬ (0 : Int) ≤ -1074 := by omega
    simp only [hzero,hneg,if_false,Nat.zero_mod,Nat.zero_div,if_true]
  · have hlog : n.log2 < 53 := (Nat.log2_lt hn).2 h
    rw [parts_nearest hn h]
    by_cases htop : n.log2 = 52
    · simp [htop]
    · have hexponent : (-((n.log2 : Int) - 52)).toNat = 52 - n.log2 := by omega
      have hneg : ¬ 0 ≤ (n.log2 : Int) - 52 := by omega
      simp only [hneg,if_false,hexponent]
      simp

end whole

theorem wholeOfDouble?_doubleOfPattern (negative : Bool) {n : Nat} (h : n < 2 ^ 53) :
    wholeOfDouble? (doubleOfPattern negative (double.nearest n 1)) =
      some (if negative then -(n : Int) else n) := by
  simp only [wholeOfDouble?,signedPattern_doubleOfPattern negative (nearest_lt h),whole?_nearest h]
  rfl

theorem wholeOfDouble?_doubleOfInt {n : Int} (h : n.natAbs < 2 ^ 53) :
    wholeOfDouble? (doubleOfInt n) = some n := by
  rw [doubleOfInt,wholeOfDouble?_doubleOfPattern _ h]
  by_cases hn : n < 0
  · simp only [hn,decide_true,if_true]
    congr 1
    omega
  · simp only [hn,decide_false,Bool.false_eq_true,if_false]
    congr 1
    omega

section text

variable {cs : List Char} {n : Nat}

theorem isDigit_of_digitsFrom {start : Nat} (h : digitsFrom start cs = some n) :
    ∀ c ∈ cs, c.isDigit = true := by
  induction cs generalizing start with
  | nil => simp
  | cons c cs ih =>
    obtain ⟨d, hd, hrest⟩ := Option.bind_eq_some_iff.1 h
    have hc : c.isDigit = true := by
      by_cases hc : c.isDigit
      · exact hc
      · simp [digit?,hc] at hd
    simpa [hc] using ih hrest

theorem lowerAscii_ne {c d : Char} (hc : c.isDigit = true) (hd : d.isDigit = false) (cs w : List Char) :
    lowerAscii (c :: cs) ≠ d :: w := by
  intro heq
  have hcd : c.toLower = d := by simpa [lowerAscii] using (List.cons.inj heq).1
  have hlower : c.toLower = c := by
    refine Char.toLower_eq_of_not_isUpper ?_
    simp only [Char.isDigit,Char.isUpper,Bool.and_eq_true,decide_eq_true_eq] at hc ⊢
    exact fun hupper => absurd (UInt32.le_trans hupper.1 hc.2) (by decide)
  rw [← hcd,hlower,hc] at hd
  cases hd

/-- Digits are a magnitude without a fraction. -/
theorem magnitude?_of_natural? (h : natural? cs = some n) : magnitude? cs = some (.finite n 0) := by
  cases cs with
  | nil => cases h
  | cons c cs =>
    have hread : digitsFrom 0 (c :: cs) = some n := h
    have hdigits := isDigit_of_digitsFrom hread
    have hall : (c :: cs).takeWhile Char.isDigit = c :: cs := List.takeWhile_eq_self_iff.2 hdigits
    have hnone : (c :: cs).dropWhile Char.isDigit = [] := List.dropWhile_eq_nil_iff.2 hdigits
    have hc : c.isDigit = true := hdigits c List.mem_cons_self
    have hfinite : finite? (c :: cs) = some (.finite n 0) := by
      simp only [finite?,hall,hnone]
      simp [hread,exponent?]
    have hinf : lowerAscii (c :: cs) ≠ "inf".toList := lowerAscii_ne hc (by decide) cs _
    have hinfinity : lowerAscii (c :: cs) ≠ "infinity".toList := lowerAscii_ne hc (by decide) cs _
    have hnan : lowerAscii (c :: cs) ≠ "nan".toList := lowerAscii_ne hc (by decide) cs _
    simp only [magnitude?,hinf,hinfinity,hnan,or_self,if_false,hfinite]

theorem ofMagnitude_finite (h : n < 2 ^ 53) : double.ofMagnitude (.finite n 0) = double.nearest n 1 := by
  have hlength : (ofNat n).length ≤ 16 := by
    unfold ofNat
    rw [Nat.length_toDigits_le_iff (by decide) (by decide)]
    omega
  by_cases hn : n = 0
  · simp [Format.ofMagnitude,Format.nearest,hn]
  · have hlow : ¬ ((ofNat n).length : Int) + 0 < -400 := by omega
    have hhigh : ¬ 400 < ((ofNat n).length : Int) + 0 := by omega
    have hscale : scale10 n 1 0 = (n, 1) := by simp [scale10]
    simp only [Format.ofMagnitude,hn,hlow,hhigh,or_self,if_false,hscale]

/-- A text that spells a whole number is a decimal without a fraction. -/
theorem decimal?_of_signed? {i : Int} (h : signed? cs = some i) :
    ∃ (negative : Bool) (n : Nat), decimal? cs = some (negative, .finite n 0) ∧
      i = if negative then -(n : Int) else n := by
  have hread {r : List Char} {n : Nat} (negative : Bool) (hr : natural? r = some n)
      (hcs : decimal? cs = (magnitude? r).map ((negative, ·))) :
      decimal? cs = some (negative, .finite n 0) := by
    simp [hcs,magnitude?_of_natural? hr]
  unfold signed? at h
  split at h
  · next r =>
    cases hr : natural? r with
    | none => simp [hr] at h
    | some n => exact ⟨true, n, hread true hr rfl, by simpa [hr] using h.symm⟩
  · next r =>
    obtain ⟨n, hr, rfl⟩ := Option.map_eq_some_iff.1 h
    exact ⟨false, n, hread false hr rfl, rfl⟩
  · next hminus hplus =>
    obtain ⟨n, hr, rfl⟩ := Option.map_eq_some_iff.1 h
    refine ⟨false, n, hread false hr ?_, rfl⟩
    unfold decimal?
    split
    · exact absurd rfl (hminus _)
    · exact absurd rfl (hplus _)
    · rfl

/-- A text that spells a whole number spells it as a decimal, too. -/
theorem double?_of_signed? {i : Int} (h : signed? cs = some i) (hi : i.natAbs < 2 ^ 53) :
    ∃ x, double? cs = some x ∧ wholeOfDouble? x = some i := by
  obtain ⟨negative, n, hcs, rfl⟩ := decimal?_of_signed? h
  have hn : n < 2 ^ 53 := by
    cases negative <;> simpa using hi
  refine ⟨doubleOfPattern negative (double.nearest n 1), ?_, wholeOfDouble?_doubleOfPattern negative hn⟩
  simp [double?,hcs,ofMagnitude_finite hn]

end text

theorem Range.holds_iff (r : Range) (n : Int) : r.holds n = true ↔ r.low ≤ n ∧ n ≤ r.high := by
  simp [holds]

theorem signed?_of_int {cs : List Char} (h : ((signed? cs).bind int32?).isSome = true) :
    ∃ n, signed? cs = some n ∧ int32.holds n = true := by
  cases hn : signed? cs with
  | none => simp [hn] at h
  | some n =>
    refine ⟨n, rfl, ?_⟩
    by_cases hi : int32.holds n = true
    · exact hi
    · simp [hn,int32?,hi] at h

end LineScript.Numeral
