import LineScript.Proofs.Numeral.Rounding
import LineScript.Proofs.Text.Trim
import LineScript.Value
set_option autoImplicit false

/-!
Whole numbers as values. A whole number is a value of one of the four integer types, or a text that spells it.
Its text reads as that number, and its number as a decimal is the nearest one.
-/

namespace LineScript

namespace Numeral

section spelling

variable {cs : List Char}

theorem digitsFrom_eq (hcs : ∀ c ∈ cs, c.isDigit = true) (n : Nat) :
    digitsFrom n cs = some (Nat.ofDigitChars 10 cs n) := by
  induction cs generalizing n with
  | nil => rfl
  | cons c cs ih =>
    obtain ⟨hc, hcs⟩ := List.forall_mem_cons.1 hcs
    simp [digitsFrom,digit?,hc,ih hcs,Nat.ofDigitChars_cons]

theorem natural?_ofNat (n : Nat) : natural? (ofNat n) = some n := by
  have hdigits : ∀ c ∈ ofNat n, c.isDigit = true := fun c hc =>
    Nat.isDigit_of_mem_toDigits (by decide) (by decide) hc
  have hread := digitsFrom_eq hdigits 0
  rw [show Nat.ofDigitChars 10 (ofNat n) 0 = n from Nat.ofDigitChars_ten_toDigits] at hread
  cases hn : ofNat n with
  | nil => exact absurd hn Nat.toDigits_ne_nil
  | cons c cs => rwa [hn] at hread

/-- Digits spell a number that has no sign. -/
theorem signed?_of_natural? {n : Nat} (h : natural? cs = some n) :
    signed? cs = some (n : Int) ∧ unsigned? cs = some n := by
  have hmark {c : Char} {r : List Char} (hc : c.isDigit = false) : natural? (c :: r) = none := by
    simp [natural?,digitsFrom,digit?,hc]
  unfold signed? unsigned?
  split
  · simp [hmark (show '-'.isDigit = false by decide)] at h
  · simp [hmark (show '+'.isDigit = false by decide)] at h
  · simp [h]

theorem signed?_ofInt (n : Int) : signed? (ofInt n) = some n := by
  cases n with
  | ofNat n => exact (signed?_of_natural? (natural?_ofNat n)).1
  | negSucc n =>
    simp [ofInt,signed?,natural?_ofNat]
    omega

theorem not_isBlank_of_isDigit {c : Char} (h : c.isDigit = true) : Text.isBlank c = false := by
  have hcode : 48 ≤ c.toNat ∧ c.toNat ≤ 57 := by
    simpa [Char.isDigit,UInt32.le_iff_toNat_le] using h
  simp [Text.isBlank,Text.inRanges,Text.blankRanges]
  omega

theorem trim_ofInt (n : Int) : Text.trim (ofInt n) = ofInt n := by
  have hdigits (k : Nat) : ∀ c ∈ ofNat k, Text.isBlank c = false := fun c hc =>
    not_isBlank_of_isDigit (Nat.isDigit_of_mem_toDigits (by decide) (by decide) hc)
  have hplain : ∀ c ∈ ofInt n, Text.isBlank c = false := by
    cases n with
    | ofNat k => exact hdigits k
    | negSucc k => exact List.forall_mem_cons.2 ⟨by decide, hdigits (k + 1)⟩
  exact Text.trim_eq_self (fun c hc => hplain c (List.mem_of_head? hc))
    fun c hc => hplain c (List.mem_of_getLast? hc)

/-- Only a minus sign keeps a whole number from being read without a sign. -/
theorem unsigned?_of_signed? {n : Int} (h : signed? cs = some n) :
    unsigned? cs = none ∧ n ≤ 0 ∨ ∃ k : Nat, unsigned? cs = some k ∧ n = k := by
  unfold signed? at h
  split at h
  · next r =>
    cases hr : natural? r with
    | none => simp [hr] at h
    | some k =>
      obtain rfl : -(k : Int) = n := by simpa [hr] using h
      refine .inl ⟨?_, by omega⟩
      simp [unsigned?,natural?,digitsFrom,digit?]
  · next r =>
    obtain ⟨k, hr, rfl⟩ := Option.map_eq_some_iff.1 h
    exact .inr ⟨k, hr, rfl⟩
  · obtain ⟨k, hr, rfl⟩ := Option.map_eq_some_iff.1 h
    exact .inr ⟨k, (signed?_of_natural? hr).2, rfl⟩

end spelling

end Numeral

open Numeral

/-- The numbers of an integer type. -/
def Tag.range? : Tag → Option Range
  | int => some int32
  | long => some int64
  | uint => some uint32
  | ulong => some uint64
  | _ => none

theorem Tag.range_cases {t : Tag} {r : Range} (h : t.range? = some r) :
    t = .int ∧ r = int32 ∨ t = .long ∧ r = int64 ∨ t = .uint ∧ r = uint32 ∨ t = .ulong ∧ r = uint64 := by
  cases t with
  | int => simpa [range?,eq_comm] using h
  | long => simpa [range?,eq_comm] using h
  | uint => simpa [range?,eq_comm] using h
  | ulong => simpa [range?,eq_comm] using h
  | _ => cases h

namespace Value

/-- The number of a value of an integer type. -/
def count? : Value → Option Int
  | int n => some n.toInt
  | long n => some n.toInt
  | uint n => some n.toNat
  | ulong n => some n.toNat
  | _ => none

/-- The value is that number, and of that type. -/
def Counts (v : Value) (t : Tag) (n : Int) : Prop := v.isExactly t = true ∧ v.count? = some n

/-- The value is that whole number, or its text spells it. -/
inductive IsWhole : Value → Int → Prop
  | text {s : String} {n : Int} : signed? (Text.trim s.toList) = some n → IsWhole (.text s) n
  | count {v : Value} {n : Int} : v.count? = some n → IsWhole v n

/-- The value of an integer type that is a given number, if the type has it. -/
def ofCount? : Tag → Int → Option Value
  | .int, n => (int32? n).map .int
  | .long, n => (int64? n).map .long
  | .uint, n => (uint32? n).map .uint
  | .ulong, n => (uint64? n).map .ulong
  | _, _ => none

section ofCount

variable {t : Tag} {r : Range} {n : Int}

theorem counts_of_holds (ht : t.range? = some r) (h : r.holds n = true) :
    ∃ w, ofCount? t n = some w ∧ w.Counts t n := by
  have hrange := (r.holds_iff n).1 h
  rcases Tag.range_cases ht with ⟨rfl, rfl⟩ | ⟨rfl, rfl⟩ | ⟨rfl, rfl⟩ | ⟨rfl, rfl⟩
  · refine ⟨.int (Int32.ofInt n), by simp [ofCount?,int32?,h], rfl, ?_⟩
    simp only [int32] at hrange
    rw [count?,Int32.toInt_ofInt_of_le (by omega) (by omega)]
  · refine ⟨.long (Int64.ofInt n), by simp [ofCount?,int64?,h], rfl, ?_⟩
    simp only [int64] at hrange
    rw [count?,Int64.toInt_ofInt_of_le (by omega) (by omega)]
  · refine ⟨.uint (UInt32.ofNat n.toNat), by simp [ofCount?,uint32?,h], rfl, ?_⟩
    simp only [uint32] at hrange
    simp only [count?,UInt32.toNat_ofNat',Option.some_inj]
    omega
  · refine ⟨.ulong (UInt64.ofNat n.toNat), by simp [ofCount?,uint64?,h], rfl, ?_⟩
    simp only [uint64] at hrange
    simp only [count?,UInt64.toNat_ofNat',Option.some_inj]
    omega

theorem ofCount?_eq_none (ht : t.range? = some r) (h : r.holds n = false) : ofCount? t n = none := by
  rcases Tag.range_cases ht with ⟨rfl, rfl⟩ | ⟨rfl, rfl⟩ | ⟨rfl, rfl⟩ | ⟨rfl, rfl⟩
  · simp [ofCount?,int32?,h]
  · simp [ofCount?,int64?,h]
  · simp [ofCount?,uint32?,h]
  · simp [ofCount?,uint64?,h]

/-- The type of a value has its number. -/
theorem range_of_count? {v : Value} (h : v.count? = some n) :
    ∃ r, v.tag.range? = some r ∧ r.holds n = true := by
  simp only [Range.holds_iff]
  cases v with
  | int i =>
    obtain rfl := Option.some.inj h
    have hlow := i.le_toInt
    have hhigh := i.toInt_lt
    exact ⟨int32, rfl, by simp only [int32]; omega⟩
  | long i =>
    obtain rfl := Option.some.inj h
    have hlow := i.le_toInt
    have hhigh := i.toInt_lt
    exact ⟨int64, rfl, by simp only [int64]; omega⟩
  | uint i =>
    obtain rfl := Option.some.inj h
    have hhigh := i.toNat_lt
    exact ⟨uint32, rfl, by simp only [uint32]; omega⟩
  | ulong i =>
    obtain rfl := Option.some.inj h
    have hhigh := i.toNat_lt
    exact ⟨uint64, rfl, by simp only [uint64]; omega⟩
  | _ => cases h

end ofCount

namespace IsWhole

variable {v : Value} {n : Int}

theorem ofInt (n : Int) : IsWhole (.text (String.ofList (Numeral.ofInt n))) n := by
  refine .text ?_
  rw [String.toList_ofList,trim_ofInt,signed?_ofInt]

theorem signed (h : v.IsWhole n) : signed? (Text.trim v.toText.toList) = some n := by
  cases h with
  | text h => exact h
  | count h =>
    cases v with
    | int i =>
      obtain rfl := Option.some.inj h
      rw [toText,String.toList_ofList,trim_ofInt,signed?_ofInt]
    | long i =>
      obtain rfl := Option.some.inj h
      rw [toText,String.toList_ofList,trim_ofInt,signed?_ofInt]
    | uint i =>
      obtain rfl := Option.some.inj h
      rw [toText,show ofNat i.toNat = Numeral.ofInt i.toNat from rfl,String.toList_ofList,trim_ofInt,
        signed?_ofInt]
    | ulong i =>
      obtain rfl := Option.some.inj h
      rw [toText,show ofNat i.toNat = Numeral.ofInt i.toNat from rfl,String.toList_ofList,trim_ofInt,
        signed?_ofInt]
    | _ => cases h

theorem near (h : v.IsWhole n) : ∃ x, v.number? = some x ∧ Near n x := by
  cases h with
  | text h => exact near_of_signed? h
  | count h =>
    have hnumber : v.number? = some (doubleOfInt n) := by
      cases v with
      | int i => obtain rfl := Option.some.inj h; rfl
      | long i => obtain rfl := Option.some.inj h; rfl
      | uint i => obtain rfl := Option.some.inj h; rfl
      | ulong i => obtain rfl := Option.some.inj h; rfl
      | _ => cases h
    exact ⟨_, hnumber, near_doubleOfInt n⟩

end IsWhole

/-- What is read as a whole number of 64 bits is one. -/
theorem isWhole_of_whole? {v : Value} {n : Int} (h : v.whole? = some n) :
    v.IsWhole n ∧ int64.holds n = true := by
  cases v with
  | text s =>
    obtain ⟨hread, hrange⟩ := Option.filter_eq_some_iff.1 h
    exact ⟨.text hread, hrange⟩
  | int i =>
    have hcount : (Value.int i).count? = some n := h
    obtain ⟨r, hr, hrange⟩ := range_of_count? hcount
    obtain rfl := Option.some.inj hr
    simp only [Range.holds_iff,int32,int64] at hrange ⊢
    exact ⟨.count hcount, by omega⟩
  | long i =>
    have hcount : (Value.long i).count? = some n := h
    obtain ⟨r, hr, hrange⟩ := range_of_count? hcount
    obtain rfl := Option.some.inj hr
    exact ⟨.count hcount, hrange⟩
  | uint i =>
    have hcount : (Value.uint i).count? = some n := h
    obtain ⟨r, hr, hrange⟩ := range_of_count? hcount
    obtain rfl := Option.some.inj hr
    simp only [Range.holds_iff,uint32,int64] at hrange ⊢
    exact ⟨.count hcount, by omega⟩
  | ulong i =>
    rw [whole?] at h
    split at h
    · next hrange =>
      obtain rfl := Option.some.inj h
      exact ⟨.count rfl, hrange⟩
    · cases h
  | _ => cases h

end Value

end LineScript
