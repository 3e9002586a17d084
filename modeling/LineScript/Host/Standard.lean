import LineScript.Host.Basic
set_option autoImplicit false

/-!
The standard host functions. Whole numbers of 32 bits stay so, wider ones are counted in 64 bits, and a
result that does not fit is an error; everything else is arithmetic on 64-bit floating point, rounded to
32 bits.
-/

namespace LineScript.Host

inductive Operator where
  | add
  | subtract
  | multiply
  deriving DecidableEq, Repr

namespace Operator

def sign : Operator → String
  | add => "+"
  | subtract => "-"
  | multiply => "*"

def onInts : Operator → Int → Int → Int
  | add, a, b => a + b
  | subtract, a, b => a - b
  | multiply, a, b => a * b

def onDoubles : Operator → Float → Float → Float
  | add, a, b => a + b
  | subtract, a, b => a - b
  | multiply, a, b => a * b

end Operator

def number (v : Value) : Except HostError Float :=
  match v.number? with
  | some x => .ok x
  | none => .error (.typeMismatch "number" v.toText)

/-- A whole number of 32 bits: an int, or text that looks like one. -/
def int? (v : Value) : Option Int :=
  if v.tag = .int then v.whole?.filter Numeral.int32.holds else none

/-- A whole number of 64 bits. -/
def long? (v : Value) : Option Int :=
  match v with
  | .int _ | .long _ | .uint _ | .ulong _ | .text _ => v.whole?
  | _ => none

def overflow (a : Int) (sign : String) (b : Int) : HostError :=
  .invalidOperation ("integer overflow in " ++ String.ofList (Numeral.ofInt a) ++ " " ++ sign ++ " " ++
    String.ofList (Numeral.ofInt b))

def asInt (n : Int) (failure : HostError) : Except HostError Value :=
  match Numeral.int32? n with
  | some i => .ok (.int i)
  | none => .error failure

def asLong (n : Int) (failure : HostError) : Except HostError Value :=
  match Numeral.int64? n with
  | some i => .ok (.long i)
  | none => .error failure

def arithmetic (op : Operator) (left right : Value) : Except HostError Value :=
  match int? left, int? right with
  | some a, some b => asInt (op.onInts a b) (overflow a op.sign b)
  | _, _ =>
    match long? left, long? right with
    | some a, some b => asLong (op.onInts a b) (overflow a op.sign b)
    | _, _ => do
      let x ← number left
      let y ← number right
      return .float (Numeral.singleOfDouble (op.onDoubles x y))

def divideDoubles (left right : Value) : Except HostError Value := do
  let divisor ← number right
  if divisor == 0.0 then throw .divisionByZero
  let x ← number left
  return .float (Numeral.singleOfDouble (x / divisor))

/-- A quotient without a remainder is whole; any other is a decimal. -/
def divide (left right : Value) : Except HostError Value :=
  match int? left, int? right with
  | some a, some b =>
    if b = 0 then .error .divisionByZero
    else if a % b = 0 then asInt (a / b) (overflow a "/" b)
    else divideDoubles left right
  | _, _ =>
    match long? left, long? right with
    | some a, some b =>
      if b = 0 then .error .divisionByZero
      else if a % b = 0 then asLong (a / b) (overflow a "/" b)
      else divideDoubles left right
    | _, _ => divideDoubles left right

/-- Numbers are compared as numbers, anything else by its text. -/
def equals (left right : Value) : Bool :=
  match left.number?, right.number? with
  | some a, some b => a == b
  | _, _ => left.toText == right.toText

def less (left right : Value) : Except HostError Value := do
  let a ← number left
  let b ← number right
  return .bool (a < b)

def greater (left right : Value) : Except HostError Value := do
  let a ← number left
  let b ← number right
  return .bool (b < a)

def negate (v : Value) : Except HostError Value :=
  match v.truth with
  | .ok b => .ok (.bool !b)
  | .error _ => .error (.typeMismatch "bool" v.toText)

def length (v : Value) : Except HostError Value :=
  asInt v.toText.toList.length (.invalidOperation "length does not fit in an int")

/-- A function of one value that writes nothing. -/
def unary (f : Value → Except HostError Value) : HostFunction :=
  ⟨some 1, fun args => ([], f (args.headD .empty))⟩

/-- A function of two values that writes nothing. -/
def binary (f : Value → Value → Except HostError Value) : HostFunction :=
  ⟨some 2, fun args => ([], f (args.headD .empty) ((args.drop 1).headD .empty))⟩

def standard : Host :=
  [("EZCode.print", ⟨none, fun args => ([" ".intercalate (args.map Value.toText)], .ok .empty)⟩),
   ("EZCode.add", binary (arithmetic .add)),
   ("EZCode.subtract", binary (arithmetic .subtract)),
   ("EZCode.multiply", binary (arithmetic .multiply)),
   ("EZCode.divide", binary divide),
   ("EZCode.equals", binary fun a b => .ok (.bool (equals a b))),
   ("EZCode.greater", binary greater),
   ("EZCode.less", binary less),
   ("EZCode.concat", ⟨none, fun args => ([], .ok (.text (String.join (args.map Value.toText))))⟩),
   ("EZCode.not", unary negate),
   ("EZCode.length", unary length)]

end LineScript.Host
