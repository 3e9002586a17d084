set_option autoImplicit false

/-!
Binary floating point on its bit pattern. A finite magnitude is `mantissa · 2 ^ exponent`; patterns of
growing magnitude are consecutive numbers, so rounding a fraction to the nearest pattern is one
division, and what overflows the mantissa carries into the exponent by itself.
-/

namespace LineScript.Numeral

/-- `precision` counts the bits of a mantissa, `least` is the exponent of the smallest positive
magnitude, and `infinity` is the pattern of the infinite magnitude. -/
structure Format where
  precision : Nat
  least : Int
  infinity : Nat

def single : Format := ⟨24, -149, 0x7F800000⟩
def double : Format := ⟨53, -1074, 0x7FF0000000000000⟩

/-- The quotient rounded to the nearest whole number, a half to the even neighbour. -/
def roundDiv (num den : Nat) : Nat :=
  let q := num / den
  let twice := 2 * (num % den)
  if twice < den then q
  else if twice = den then q + q % 2
  else q + 1

/-- The fraction `num / den · 2 ^ e`, as a numerator and a denominator. -/
def scale2 (num den : Nat) (e : Int) : Nat × Nat :=
  if 0 ≤ e then (num * Nat.pow 2 e.toNat, den) else (num, den * Nat.pow 2 (-e).toNat)

/-- The fraction `num / den · 10 ^ e`, as a numerator and a denominator. -/
def scale10 (num den : Nat) (e : Int) : Nat × Nat :=
  if 0 ≤ e then (num * Nat.pow 10 e.toNat, den) else (num, den * Nat.pow 10 (-e).toNat)

/-- The exponent `k` with `2 ^ k ≤ num / den < 2 ^ (k + 1)`, for a positive fraction. -/
def floorLog2 (num den : Nat) : Int :=
  let k : Int := (num.log2 : Int) - den.log2
  let p := scale2 num den (-k)
  if p.1 < p.2 then k - 1 else k

/-- The pattern nearest to a fraction, a half to the even mantissa. -/
def Format.nearest (f : Format) (num den : Nat) : Nat :=
  if num = 0 then 0
  else
    let q := max f.least (floorLog2 num den - f.precision + 1)
    let p := scale2 num den (-q)
    min f.infinity ((q - f.least).toNat * Nat.pow 2 (f.precision - 1) + roundDiv p.1 p.2)

/-- Mantissa and exponent of a finite pattern without its sign. -/
def Format.parts (f : Format) (pattern : Nat) : Nat × Int :=
  let unit := Nat.pow 2 (f.precision - 1)
  let field := pattern / unit
  if field = 0 then (pattern, f.least) else (unit + pattern % unit, f.least + field - 1)

end LineScript.Numeral
