import LineScript.Numeral.Integer
import LineScript.Numeral.Binary
set_option autoImplicit false

/-!
Decimal fractions as text. Reading rounds to the nearest binary value; writing takes the fewest digits
that read back, the nearest of those, and lays them out without an exponent.
-/

namespace LineScript.Numeral

/-- An unsigned decimal magnitude as it is read. -/
inductive Magnitude where
  | infinite
  | undefined
  | finite (digits : Nat) (exponent : Int)
  deriving DecidableEq, Repr

def lowerAscii (cs : List Char) : List Char := cs.map Char.toLower

/-- The exponent mark with its number, or nothing. -/
def exponent? : List Char → Option Int
  | [] => some 0
  | c :: r => if c = 'e' ∨ c = 'E' then signed? r else none

/-- Digits with an optional point and exponent; at least one digit stands beside the point. -/
def finite? (cs : List Char) : Option Magnitude :=
  let whole := cs.takeWhile Char.isDigit
  let rest := cs.dropWhile Char.isDigit
  let afterPoint := match rest with
    | '.' :: r => r
    | r => r
  let hasPoint := rest.head? == some '.'
  let places := if hasPoint then afterPoint.takeWhile Char.isDigit else []
  let tail := if hasPoint then afterPoint.dropWhile Char.isDigit else rest
  if whole.isEmpty && places.isEmpty then none
  else do
    let e ← exponent? tail
    let n ← digitsFrom 0 (whole ++ places)
    return .finite n (e - places.length)

def magnitude? (cs : List Char) : Option Magnitude :=
  if lowerAscii cs = "inf".toList ∨ lowerAscii cs = "infinity".toList then some .infinite
  else if lowerAscii cs = "nan".toList then some .undefined
  else finite? cs

/-- The sign (true for a minus) and the magnitude of a decimal. -/
def decimal? : List Char → Option (Bool × Magnitude)
  | '-' :: r => (magnitude? r).map ((true, ·))
  | '+' :: r => (magnitude? r).map ((false, ·))
  | cs => (magnitude? cs).map ((false, ·))

/-- The pattern of a magnitude. Decimal orders beyond 400 lie outside every format, so the powers of
ten stay small. -/
def Format.ofMagnitude (f : Format) : Magnitude → Nat
  | .infinite => f.infinity
  | .undefined => f.infinity + Nat.pow 2 (f.precision - 2)
  | .finite n e =>
    let order := ((ofNat n).length : Int) + e
    if n = 0 ∨ order < -400 then 0
    else if 400 < order then f.infinity
    else
      let p := scale10 n 1 e
      f.nearest p.1 p.2

def doubleOfPattern (negative : Bool) (pattern : Nat) : Float :=
  let x := Float.ofBits (UInt64.ofNat pattern)
  if negative then -x else x

def singleOfPattern (negative : Bool) (pattern : Nat) : Float32 :=
  let x := Float32.ofBits (UInt32.ofNat pattern)
  if negative then -x else x

/-- The sign and the magnitude of a pattern with `width` bits below the sign. -/
def signedPattern (width bits : Nat) : Bool × Nat := (Nat.pow 2 width ≤ bits, bits % Nat.pow 2 width)

def double? (cs : List Char) : Option Float :=
  (decimal? cs).map fun p => doubleOfPattern p.1 (double.ofMagnitude p.2)

def single? (cs : List Char) : Option Float32 :=
  (decimal? cs).map fun p => singleOfPattern p.1 (single.ofMagnitude p.2)

/-- The number of decimal digits before the point of `num / den`: the least `e` with
`num / den < 10 ^ e`, found by walking up from a start below it. -/
def orderFrom (num den : Nat) : Nat → Int → Int
  | 0, e => e
  | fuel + 1, e =>
    let p := scale10 num den (-e)
    if p.1 < p.2 then e else orderFrom num den fuel (e + 1)

/-- The two grid points around `num / den` with the digits that stand above `10 ^ place`, kept if they
lie between the fractions `low` and `high`; of two the nearer, of equally near ones the upper. -/
def gridPoint? (value low high : Nat) (den : Nat) (closed : Bool) (place : Int) : Option Nat :=
  let unit := scale10 den 1 place
  let below := value * unit.2 / unit.1
  let lowOk := if closed then low * unit.2 ≤ below * unit.1 else low * unit.2 < below * unit.1
  let highOk :=
    if closed then (below + 1) * unit.1 ≤ high * unit.2 else (below + 1) * unit.1 < high * unit.2
  if lowOk && highOk then
    if unit.1 ≤ 2 * (value * unit.2 % unit.1) then some (below + 1) else some below
  else if lowOk then some below
  else if highOk then some (below + 1)
  else none

/-- The digits and the power of ten of the shortest decimal that rounds to a positive finite pattern.
Quarters of the mantissa's unit measure the interval: it reaches half a unit up and half a unit down, a
quarter below a power of two, and holds its ends when the mantissa is even. -/
def Format.shortest (f : Format) (pattern : Nat) : Nat × Int :=
  let (m, q) := f.parts pattern
  let closed := m % 2 = 0
  let minus := if m = Nat.pow 2 (f.precision - 1) then 1 else 2
  let s := scale2 1 1 (q - 2)
  let value := 4 * m * s.1
  let low := (4 * m - minus) * s.1
  let high := (4 * m + 2) * s.1
  let start : Int := (floorLog2 value s.2 * 30103) / 100000 - 1
  let order := orderFrom value s.2 4 start
  let places := (List.range 18).map fun n : Nat => order - n
  (places.findSome? fun place =>
    (gridPoint? value low high s.2 closed place).map fun d => (d, place)).getD (0, 0)

/-- Removes trailing zeros of the digits while the power of ten is below zero. -/
def dropZeros : Nat → Nat → Int → Nat × Int
  | 0, d, e => (d, e)
  | fuel + 1, d, e => if e < 0 && d % 10 = 0 then dropZeros fuel (d / 10) (e + 1) else (d, e)

/-- The digits `d · 10 ^ e` without an exponent: zeros fill the places up to the point, and a zero
stands before a leading point. -/
def positional (d : Nat) (e : Int) : List Char :=
  let (d, e) := dropZeros 20 d e
  let ds := ofNat d
  if 0 ≤ e then ds ++ List.replicate e.toNat '0'
  else
    let places := (-e).toNat
    let padded := List.replicate (places + 1 - ds.length) '0' ++ ds
    let whole := padded.length - places
    padded.take whole ++ '.' :: padded.drop whole

/-- The text of a pattern with its sign. -/
def Format.text (f : Format) (negative : Bool) (pattern : Nat) : List Char :=
  if f.infinity < pattern then "NaN".toList
  else
    let body :=
      if pattern = f.infinity then "inf".toList
      else if pattern = 0 then ['0']
      else
        let (d, e) := f.shortest pattern
        positional d e
    if negative then '-' :: body else body

def ofDouble (x : Float) : List Char :=
  let p := signedPattern 63 x.toBits.toNat
  double.text p.1 p.2

def ofSingle (x : Float32) : List Char :=
  let p := signedPattern 31 x.toBits.toNat
  single.text p.1 p.2

end LineScript.Numeral
