import LineScript.Numeral.Decimal
set_option autoImplicit false

/-!
Conversions between whole numbers and binary floating point, all on the bit patterns: whole numbers and
wider patterns round to the nearest value, and a pattern is a whole number only if it is one exactly.
-/

namespace LineScript.Numeral

/-- The whole number that a finite pattern stands for, if it has no fraction. -/
def Format.whole? (f : Format) (pattern : Nat) : Option Nat :=
  if f.infinity ≤ pattern then none
  else
    let (m, q) := f.parts pattern
    if 0 ≤ q then some (m * Nat.pow 2 q.toNat)
    else if m % Nat.pow 2 (-q).toNat = 0 then some (m / Nat.pow 2 (-q).toNat)
    else none

/-- The pattern of the format `f` nearest to a pattern of the format `g`. -/
def Format.convert (f g : Format) (pattern : Nat) : Nat :=
  if pattern = g.infinity then f.infinity
  else if g.infinity < pattern then f.ofMagnitude .undefined
  else
    let (m, q) := g.parts pattern
    let p := scale2 m 1 q
    f.nearest p.1 p.2

def doubleOfInt (n : Int) : Float := doubleOfPattern (n < 0) (double.nearest n.natAbs 1)

def doubleOfSingle (x : Float32) : Float :=
  let p := signedPattern 31 x.toBits.toNat
  doubleOfPattern p.1 (double.convert single p.2)

def singleOfDouble (x : Float) : Float32 :=
  let p := signedPattern 63 x.toBits.toNat
  singleOfPattern p.1 (single.convert double p.2)

/-- The whole number that a finite value without a fraction stands for. -/
def wholeOfDouble? (x : Float) : Option Int :=
  let p := signedPattern 63 x.toBits.toNat
  (double.whole? p.2).map fun n => if p.1 then -(n : Int) else n

/-- The nearest number of a range. -/
def Range.clamp (r : Range) (n : Int) : Int := max r.low (min r.high n)

end LineScript.Numeral
