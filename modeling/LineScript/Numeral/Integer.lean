set_option autoImplicit false

/-!
Whole numbers in decimal. Only the ASCII digits are digits, a sign may stand once in front, and nothing
else is allowed: no blank, no separator.
-/

namespace LineScript.Numeral

def digit? (c : Char) : Option Nat := if c.isDigit then some (c.toNat - '0'.toNat) else none

/-- Reads digits after a number already read, most significant first. -/
def digitsFrom (n : Nat) : List Char → Option Nat
  | [] => some n
  | c :: r => (digit? c).bind fun d => digitsFrom (10 * n + d) r

/-- Reads one or more digits. -/
def natural? : List Char → Option Nat
  | [] => none
  | cs => digitsFrom 0 cs

/-- A whole number with an optional sign. -/
def signed? : List Char → Option Int
  | '-' :: r => (natural? r).map fun n => -(n : Int)
  | '+' :: r => (natural? r).map Int.ofNat
  | cs => (natural? cs).map Int.ofNat

/-- A whole number that only a plus sign may precede. -/
def unsigned? : List Char → Option Nat
  | '+' :: r => natural? r
  | cs => natural? cs

def ofNat (n : Nat) : List Char := Nat.toDigits 10 n

def ofInt : Int → List Char
  | .ofNat n => ofNat n
  | .negSucc n => '-' :: ofNat (n + 1)

/-- The whole numbers of a fixed width, both ends included. -/
structure Range where
  low : Int
  high : Int

def Range.holds (r : Range) (n : Int) : Bool := r.low ≤ n && n ≤ r.high

def int32 : Range := ⟨-2147483648, 2147483647⟩
def int64 : Range := ⟨-9223372036854775808, 9223372036854775807⟩
def uint32 : Range := ⟨0, 4294967295⟩
def uint64 : Range := ⟨0, 18446744073709551615⟩

def int32? (n : Int) : Option Int32 := if int32.holds n then some (Int32.ofInt n) else none
def int64? (n : Int) : Option Int64 := if int64.holds n then some (Int64.ofInt n) else none
def uint32? (n : Int) : Option UInt32 := if uint32.holds n then some (UInt32.ofNat n.toNat) else none
def uint64? (n : Int) : Option UInt64 := if uint64.holds n then some (UInt64.ofNat n.toNat) else none

end LineScript.Numeral
