import LineScript.Machine.Typing
import LineScript.Proofs.Coercion
set_option autoImplicit false

/-!
Whole numbers in slots of the integer types. A slot asks what a text is tagged as before it converts it, and a
text that spells a whole number is tagged as an int within 32 bits and as a float beyond. A float widens to no
integer type, so of the numbers that a type has its slots take only those of 32 signed bits.
-/

namespace LineScript

open Numeral

section spelling

variable {cs : List Char} {n : Int}

theorem Numeral.any_isDigit_of_natural? {k : Nat} (h : natural? cs = some k) :
    cs.any Char.isDigit = true := by
  cases cs with
  | nil => cases h
  | cons c cs => simp [isDigit_of_digitsFrom h c List.mem_cons_self]

theorem Numeral.any_isDigit_of_signed? (h : signed? cs = some n) : cs.any Char.isDigit = true := by
  unfold signed? at h
  split at h
  · next r =>
    cases hr : natural? r with
    | none => simp [hr] at h
    | some k => simp [any_isDigit_of_natural? hr]
  · next r =>
    obtain ⟨k, hk, -⟩ := Option.map_eq_some_iff.1 h
    simp [any_isDigit_of_natural? hk]
  · obtain ⟨k, hk, -⟩ := Option.map_eq_some_iff.1 h
    exact any_isDigit_of_natural? hk

end spelling

section slots

variable {s : String} {n : Int} {t : Tag} {r : Range}

theorem Tag.ofText_of_signed? (h : signed? (Text.trim s.toList) = some n) :
    Tag.ofText s = if int32.holds n then .int else .float := by
  obtain ⟨negative, k, hdecimal, -⟩ := decimal?_of_signed? h
  have hsingle : (single? (Text.trim s.toList)).isSome = true := by simp [single?,hdecimal]
  have hdigit := any_isDigit_of_signed? h
  unfold Tag.ofText
  dsimp only
  by_cases hn : int32.holds n = true
  · simp [h,int32?,hn]
  · simp [h,int32?,hn,hsingle,hdigit]

theorem Value.tag_of_isWhole (h : (Value.text s).IsWhole n) :
    (Value.text s).tag = if int32.holds n then .int else .float :=
  Tag.ofText_of_signed? h.signed

/-- An int widens to every integer type, and a float to none. -/
theorem Declarations.compatible_text (d : Declarations) (h : (Value.text s).IsWhole n)
    (ht : t.range? = some r) : d.compatible (.plain t) (.text s) = int32.holds n := by
  have htag := Value.tag_of_isWhole h
  have hslot : d.compatible (.plain t) (.text s) =
      ((Value.text s).tag == t || (Value.text s).tag.widensTo t) := by
    rcases Tag.range_cases ht with ⟨rfl, -⟩ | ⟨rfl, -⟩ | ⟨rfl, -⟩ | ⟨rfl, -⟩ <;> rfl
  rw [hslot,htag]
  cases hn : int32.holds n with
  | true => rcases Tag.range_cases ht with ⟨rfl, -⟩ | ⟨rfl, -⟩ | ⟨rfl, -⟩ | ⟨rfl, -⟩ <;> rfl
  | false => rcases Tag.range_cases ht with ⟨rfl, -⟩ | ⟨rfl, -⟩ | ⟨rfl, -⟩ | ⟨rfl, -⟩ <;> rfl

theorem Declarations.fit_eq_coerce (ht : t.range? = some r) (v : Value) : fit (.plain t) v = v.coerce t := by
  rcases Tag.range_cases ht with ⟨rfl, -⟩ | ⟨rfl, -⟩ | ⟨rfl, -⟩ | ⟨rfl, -⟩ <;> rfl

/-- Within 32 signed bits nothing is clamped, so what is out of the range of the type stays out of it. -/
theorem Value.coerce_text_of_int32 (h : (Value.text s).IsWhole n) (ht : t.range? = some r)
    (hn : int32.holds n = true) :
    (r.holds n = true → ∃ w, (Value.text s).coerce t = .ok w ∧ w.Counts t n) ∧
      (r.holds n = false → (Value.text s).coerce t = .error (.typeMismatch t.name s)) := by
  have hclamp : int64.clamp n = n := by
    rw [Range.holds_iff] at hn
    simp only [int32] at hn
    simp only [Range.clamp,int64]
    omega
  rw [coerce_eq ht rfl,integral?_eq h ht,hclamp]
  constructor
  · intro hin
    obtain ⟨w, hw, hcounts⟩ := counts_of_holds ht hin
    exact ⟨w, by simp [hin,hw], hcounts⟩
  · intro hout
    simp [hout,Option.filter,toText]

end slots

/-- Every whole number has a text, and however a text spells it, a slot of an integer type takes it if it has 32
signed bits and the type has it, and then as exactly that number. Any other is refused, also where the type has
it. -/
theorem slots_take_small_numbers (n : Int) :
    (Value.text (String.ofList (Numeral.ofInt n))).IsWhole n ∧
    ∀ (d : Declarations) (s : String), (Value.text s).IsWhole n → ∀ t r, t.range? = some r →
      (int32.holds n = true → r.holds n = true →
        ∃ w, d.conform (.plain t) (.text s) = .ok w ∧ w.Counts t n) ∧
      (int32.holds n = true → r.holds n = false →
        d.conform (.plain t) (.text s) = .error (.typeMismatch t.name s)) ∧
      (int32.holds n = false →
        d.conform (.plain t) (.text s) = .error (.typeMismatch (DataType.plain t).text s)) := by
  refine ⟨.ofInt n, fun d s hs t r ht => ?_⟩
  unfold Declarations.conform
  rw [d.compatible_text hs ht,Declarations.fit_eq_coerce ht]
  refine ⟨fun hn hin => ?_, fun hn hout => ?_, fun hn => ?_⟩
  · rw [if_pos hn]
    exact (Value.coerce_text_of_int32 hs ht hn).1 hin
  · rw [if_pos hn]
    exact (Value.coerce_text_of_int32 hs ht hn).2 hout
  · simp [hn,Value.toText]

/-- The least int goes into a slot for longs, minus one into none for unsigned numbers. -/
theorem slots_take_small_numbers_signed :
    (∃ w, Declarations.empty.conform (.plain .long) (.text "-2147483648") = .ok w ∧
      w.Counts .long (-2147483648)) ∧
    Declarations.empty.conform (.plain .ulong) (.text "-1") = .error (.typeMismatch "ulong" "-1") ∧
    Declarations.empty.conform (.plain .int) (.text "2147483648") =
      .error (.typeMismatch "@int" "2147483648") := by
  obtain ⟨-, hleast⟩ := slots_take_small_numbers (-2147483648)
  obtain ⟨-, hminus⟩ := slots_take_small_numbers (-1)
  obtain ⟨-, hgreat⟩ := slots_take_small_numbers 2147483648
  refine ⟨?_, ?_, ?_⟩
  · obtain ⟨hin, -⟩ := hleast .empty "-2147483648" (.text (by decide +kernel)) .long _ rfl
    exact hin (by decide) (by decide)
  · obtain ⟨-, hout, -⟩ := hminus .empty "-1" (.text (by decide +kernel)) .ulong _ rfl
    exact hout (by decide) (by decide)
  · obtain ⟨-, -, hwide⟩ := hgreat .empty "2147483648" (.text (by decide +kernel)) .int _ rfl
    exact hwide (by decide)

/-- A slot for longs refuses the first long that is no int, and one for unsigned ints the same number. -/
theorem slots_refuse_wide_numbers :
    (Value.text "2147483648").IsWhole 2147483648 ∧
      int64.holds 2147483648 = true ∧ uint32.holds 2147483648 = true ∧
      (Declarations.empty.conform (.plain .long) (.text "2147483648")).toOption.isNone = true ∧
      (Declarations.empty.conform (.plain .uint) (.text "2147483648")).toOption.isNone = true :=
  ⟨.text (by decide +kernel), by decide, by decide, by decide +kernel, by decide +kernel⟩

end LineScript
