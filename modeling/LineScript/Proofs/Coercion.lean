import LineScript.Proofs.WholeValue
set_option autoImplicit false

/-!
Whole numbers converted to integer types. A number that the type has is converted exactly, and one that it does
not have is refused, but for two sides: what is out of the range of a long, or above that of an unsigned long, is
read as a decimal, clamped to 64 signed bits and stored, as long as the decimal is finite.
-/

namespace LineScript.Value

open Numeral

/-- How the text of a value is read for an integer type. -/
def reader : Tag → List Char → Option Int
  | .uint | .ulong => readUnsigned
  | _ => signed?

section

variable {v : Value} {n : Int} {t : Tag} {r : Range}

theorem ofText?_eq (ht : t.range? = some r) :
    v.ofText? t = (v.integral? r (reader t)).bind (ofCount? t) := by
  rcases Tag.range_cases ht with ⟨rfl, rfl⟩ | ⟨rfl, rfl⟩ | ⟨rfl, rfl⟩ | ⟨rfl, rfl⟩
  · exact Option.map_bind
  · exact Option.map_bind
  · exact Option.map_bind
  · exact Option.map_bind

/-- The text of a whole number is read as that number, but for a type without signs only if it has none. -/
theorem reader_cases (hv : v.IsWhole n) (t : Tag) :
    reader t (Text.trim v.toText.toList) = some n ∨
      reader t (Text.trim v.toText.toList) = none ∧ (t = .uint ∨ t = .ulong) ∧ n ≤ 0 := by
  have hunsigned : readUnsigned (Text.trim v.toText.toList) = some n ∨
      readUnsigned (Text.trim v.toText.toList) = none ∧ n ≤ 0 := by
    rcases unsigned?_of_signed? hv.signed with ⟨hnone, hn⟩ | ⟨k, hk, rfl⟩
    · exact .inr ⟨by simp [readUnsigned,hnone], hn⟩
    · exact .inl (by simp [readUnsigned,hk])
  cases t with
  | uint => simpa [reader] using hunsigned
  | ulong => simpa [reader] using hunsigned
  | _ => exact .inl hv.signed

/-- Rounding a number out of the range makes no difference once it is clamped: either both are still out of the
range or both are the same end of it. -/
theorem clamp_rounded {w : Int} (ht : t.range? = some r) (hout : r.holds n = false) (h : Rounded n w) :
    (some (int64.clamp w)).filter r.holds = (some (int64.clamp n)).filter r.holds := by
  have hsmall := h.small
  have habove := h.above 53 (by decide)
  have hbelow := h.below 53 (by decide)
  have hhigh := h.above 63 (by decide)
  have hlow := h.below 63 (by decide)
  have hsame : int64.clamp w = int64.clamp n ∨
      ¬ (r.low ≤ int64.clamp w ∧ int64.clamp w ≤ r.high) ∧
        ¬ (r.low ≤ int64.clamp n ∧ int64.clamp n ≤ r.high) := by
    rw [← Bool.not_eq_true,Range.holds_iff] at hout
    simp only [Range.clamp,int64]
    rcases Tag.range_cases ht with ⟨rfl, rfl⟩ | ⟨rfl, rfl⟩ | ⟨rfl, rfl⟩ | ⟨rfl, rfl⟩
    · simp only [int32] at hout ⊢
      omega
    · simp only [int64] at hout ⊢
      omega
    · simp only [uint32] at hout ⊢
      omega
    · simp only [uint64] at hout ⊢
      omega
  rcases hsame with heq | ⟨hw, hn⟩
  · rw [heq]
  · rw [← Range.holds_iff] at hw hn
    simp [Option.filter,hw,hn]

/-- Which whole number a conversion finds. -/
theorem integral?_eq (hv : v.IsWhole n) (ht : t.range? = some r) :
    v.integral? r (reader t) =
      if r.holds n then some n
      else if n.natAbs < firstInfinite then (some (int64.clamp n)).filter r.holds
      else none := by
  obtain ⟨x, hx, hnear⟩ := hv.near
  obtain ⟨hfinite, hinfinite⟩ := hnear.whole
  unfold integral?
  rw [hx,Option.bind_some]
  by_cases hr : r.holds n = true
  · rw [if_pos hr]
    rcases reader_cases hv t with hread | ⟨hread, hunsigned, hn⟩
    · simp [hread,Option.filter,hr]
    · -- a zero with a minus sign
      obtain rfl : n = 0 := by
        rw [Range.holds_iff] at hr
        rcases hunsigned with rfl | rfl
        · obtain rfl : uint32 = r := Option.some.inj ht
          simp only [uint32] at hr
          omega
        · obtain rfl : uint64 = r := Option.some.inj ht
          simp only [uint64] at hr
          omega
      obtain ⟨w, hw, hrounded⟩ := hfinite ((nearest_lt_iff 0).1 (nearest_lt (by decide)))
      obtain rfl := hrounded.small (by decide)
      have hzero : int64.clamp 0 = 0 := rfl
      simp [hread,hw,Option.filter,hzero,hr]
  · have hnone : (reader t (Text.trim v.toText.toList)).filter r.holds = none := by
      rcases reader_cases hv t with hread | ⟨hread, -⟩ <;> simp [hread,hr]
    rw [if_neg hr,hnone]
    dsimp only
    split
    · next hlt =>
      obtain ⟨w, hw, hrounded⟩ := hfinite hlt
      rw [hw]
      exact clamp_rounded ht (by simpa using hr) hrounded
    · next hge => simp [hinfinite (by omega)]

theorem tag_of_isExactly (h : v.isExactly t = true) : v.tag = t := by
  cases v with
  | text s => cases h
  | «instance» o => cases h
  | _ => simpa [isExactly] using h

/-- A whole number that is of the type already. -/
theorem counts_of_isExactly (hv : v.IsWhole n) (ht : t.range? = some r) (h : v.isExactly t = true) :
    r.holds n = true ∧ v.Counts t n := by
  cases hv with
  | text hread => cases h
  | count hcount =>
    obtain ⟨range, hrange, hholds⟩ := range_of_count? hcount
    rw [tag_of_isExactly h,ht] at hrange
    obtain rfl := Option.some.inj hrange
    exact ⟨hholds, h, hcount⟩

theorem coerce_eq (ht : t.range? = some r) (h : v.isExactly t = false) :
    v.coerce t = match (v.integral? r (reader t)).bind (ofCount? t) with
      | some w => .ok w
      | none => .error (.typeMismatch t.name v.toText) := by
  have hprimitive : t.isPrimitive = true := by
    rcases Tag.range_cases ht with ⟨rfl, -⟩ | ⟨rfl, -⟩ | ⟨rfl, -⟩ | ⟨rfl, -⟩ <;> rfl
  rw [coerce,hprimitive,h,ofText?_eq ht]
  rfl

end

/-- A number out of the range is stored as another one: as a long on either side, as an unsigned long above its
range, unless it is too great for a finite decimal. -/
def Slips (t : Tag) (n : Int) : Prop := (t = .long ∨ t = .ulong ∧ 0 ≤ n) ∧ n.natAbs < firstInfinite

/-- Clamping brings a number into the range of the type just where it slips. -/
theorem holds_clamp_iff {t : Tag} {r : Range} {n : Int} (ht : t.range? = some r) (hout : r.holds n = false) :
    (t = .long ∨ t = .ulong ∧ 0 ≤ n) ↔ r.holds (int64.clamp n) = true := by
  rw [← Bool.not_eq_true,Range.holds_iff] at hout
  rw [Range.holds_iff]
  simp only [Range.clamp,int64]
  rcases Tag.range_cases ht with ⟨rfl, rfl⟩ | ⟨rfl, rfl⟩ | ⟨rfl, rfl⟩ | ⟨rfl, rfl⟩
  · simp only [int32] at hout ⊢
    simp
    omega
  · simp only [int64] at hout ⊢
    simp
  · simp only [uint32] at hout ⊢
    simp
    omega
  · simp only [uint64] at hout ⊢
    simp

/-- Every whole number has a text, and however it is given, a conversion to an integer type makes the value of
that type that is the number, if the type has it. Out of the range it is refused, unless it slips: then it is
stored as the nearest number of 64 signed bits. -/
theorem coercion_exact_but_slips (n : Int) :
    IsWhole (.text (String.ofList (Numeral.ofInt n))) n ∧
    ∀ v : Value, v.IsWhole n → ∀ t r, t.range? = some r →
      (r.holds n = true → ∃ w, v.coerce t = .ok w ∧ w.Counts t n) ∧
      (r.holds n = false → ¬Slips t n → v.coerce t = .error (.typeMismatch t.name v.toText)) ∧
      (r.holds n = false → Slips t n → ∃ w, v.coerce t = .ok w ∧ w.Counts t (int64.clamp n)) := by
  refine ⟨.ofInt n, fun v hv t r ht => ?_⟩
  cases hexact : v.isExactly t with
  | true =>
    obtain ⟨hholds, hcounts⟩ := counts_of_isExactly hv ht hexact
    have hcoerce : v.coerce t = .ok v := by simp [coerce,hexact]
    exact ⟨fun _ => ⟨v, hcoerce, hcounts⟩, by simp [hholds], by simp [hholds]⟩
  | false =>
    rw [coerce_eq ht hexact,integral?_eq hv ht]
    refine ⟨fun hin => ?_, fun hout hslips => ?_, fun hout hslips => ?_⟩
    · obtain ⟨w, hw, hcounts⟩ := counts_of_holds ht hin
      exact ⟨w, by simp [hin,hw], hcounts⟩
    · rw [Slips,holds_clamp_iff ht hout] at hslips
      by_cases hfinite : n.natAbs < firstInfinite
      · have hclamp : ¬ r.holds (int64.clamp n) = true := fun h => hslips ⟨h, hfinite⟩
        simp [hout,hfinite,Option.filter,hclamp]
      · simp [hout,hfinite]
    · obtain ⟨hside, hfinite⟩ := hslips
      have hclamp := (holds_clamp_iff ht hout).1 hside
      obtain ⟨w, hw, hcounts⟩ := counts_of_holds ht hclamp
      exact ⟨w, by simp [hout,hfinite,Option.filter,hclamp,hw], hcounts⟩

/-- An unsigned long above the signed range slips, too; a zero with a sign is an unsigned zero, and a number below
the range is refused. -/
theorem coercion_exact_but_slips_unsigned :
    (∃ w, (ulong 18446744073709551615).coerce .long = .ok w ∧ w.Counts .long 9223372036854775807) ∧
    (∃ w, (text " -0 ").coerce .uint = .ok w ∧ w.Counts .uint 0) ∧
    (text "-1").coerce .ulong = .error (.typeMismatch "ulong" "-1") := by
  obtain ⟨-, hwide⟩ := coercion_exact_but_slips 18446744073709551615
  obtain ⟨-, hzero⟩ := coercion_exact_but_slips 0
  obtain ⟨-, hminus⟩ := coercion_exact_but_slips (-1)
  refine ⟨?_, ?_, ?_⟩
  · obtain ⟨-, -, hslips⟩ := hwide (ulong 18446744073709551615) (.count rfl) .long _ rfl
    exact hslips (by decide) ⟨.inl rfl, by decide +kernel⟩
  · obtain ⟨hin, -⟩ := hzero (text " -0 ") (.text (by decide +kernel)) .uint _ rfl
    exact hin (by decide)
  · obtain ⟨-, hrefused, -⟩ := hminus (text "-1") (.text (by decide +kernel)) .ulong _ rfl
    exact hrefused (by decide) (by simp [Slips])

/-- The first number above the range of a long is stored as the last one in it. -/
theorem coercion_stores_another_number :
    IsWhole (text "9223372036854775808") 9223372036854775808 ∧
      int64.holds 9223372036854775808 = false ∧
      ∃ w, (text "9223372036854775808").coerce .long = .ok w ∧ w.count? = some 9223372036854775807 := by
  have hrun : ((text "9223372036854775808").coerce .long).toOption.bind count? =
      some 9223372036854775807 := by decide +kernel
  obtain ⟨w, hw, hcount⟩ := Option.bind_eq_some_iff.1 hrun
  refine ⟨.text (by decide +kernel), by decide, w, ?_, hcount⟩
  cases hc : (text "9223372036854775808").coerce .long with
  | error e => simp [hc,Except.toOption] at hw
  | ok found => simpa [hc,Except.toOption] using hw

end LineScript.Value
