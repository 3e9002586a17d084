import LineScript.Numeral.Conversion
import LineScript.RuntimeError
import LineScript.Token.Basic
set_option autoImplicit false

/-!
Values. Text has no fixed type and is tagged by what it looks like; an instance is a reference to its
property table together with its class, which it keeps for good.
-/

namespace LineScript

structure Reference where
  id : Nat
  ofClass : Class Token

inductive Value where
  | empty
  | text (s : String)
  | int (n : Int32)
  | float (x : Float32)
  | bool (b : Bool)
  | char (c : Char)
  | double (x : Float)
  | decimal (x : Float)
  | long (n : Int64)
  | uint (n : UInt32)
  | ulong (n : UInt64)
  | instance (r : Reference)

/-- A named place for a value. -/
structure Binding where
  name : String
  value : Value
  type : DataType
  required : Bool
  line : Nat

instance : Inhabited Value := ⟨.empty⟩

/-- The tag of a text: a whole number, a decimal with a digit in it, a truth value, or plain text. -/
def Tag.ofText (s : String) : Tag :=
  let cs := Text.trim s.toList
  if ((Numeral.signed? cs).bind Numeral.int32?).isSome then .int
  else if (Numeral.single? cs).isSome && cs.any Char.isDigit then .float
  else if cs = "true".toList || cs = "false".toList then .bool
  else .string

namespace Value

def isEmpty : Value → Bool
  | empty => true
  | _ => false

def reference? : Value → Option Reference
  | .instance r => some r
  | _ => none

def tag : Value → Tag
  | empty => .untyped
  | text s => .ofText s
  | int _ => .int
  | float _ => .float
  | bool _ => .bool
  | char _ => .char
  | double _ => .double
  | decimal _ => .decimal
  | long _ => .long
  | uint _ => .uint
  | ulong _ => .ulong
  | .instance r => r.ofClass.instanceType.tag

/-- The name of the value's type in messages. -/
def typeName : Value → String
  | .instance r => r.ofClass.name
  | v => v.tag.name

def toText : Value → String
  | empty => ""
  | text s => s
  | int n => String.ofList (Numeral.ofInt n.toInt)
  | float x => String.ofList (Numeral.ofSingle x)
  | bool b => if b then "true" else "false"
  | char c => String.ofList [c]
  | double x => String.ofList (Numeral.ofDouble x)
  | decimal x => String.ofList (Numeral.ofDouble x)
  | long n => String.ofList (Numeral.ofInt n.toInt)
  | uint n => String.ofList (Numeral.ofNat n.toNat)
  | ulong n => String.ofList (Numeral.ofNat n.toNat)
  | .instance r => r.ofClass.name

/-- The value as a number. -/
def number? : Value → Option Float
  | int n => some (Numeral.doubleOfInt n.toInt)
  | float x => some (Numeral.doubleOfSingle x)
  | double x => some x
  | decimal x => some x
  | long n => some (Numeral.doubleOfInt n.toInt)
  | uint n => some (Numeral.doubleOfInt n.toNat)
  | ulong n => some (Numeral.doubleOfInt n.toNat)
  | text s => Numeral.double? (Text.trim s.toList)
  | _ => none

/-- The value as a whole number of 64 bits. -/
def whole? : Value → Option Int
  | int n => some n.toInt
  | long n => some n.toInt
  | uint n => some n.toNat
  | ulong n => if Numeral.int64.holds n.toNat then some n.toNat else none
  | text s => (Numeral.signed? (Text.trim s.toList)).filter Numeral.int64.holds
  | _ => none

/-- The truth value that a text spells, in any case. -/
def truthOfText? (s : String) : Option Bool :=
  let word := String.ofList (Numeral.lowerAscii (Text.trim s.toList))
  if ["true", "y", "yes", "1"].contains word then some true
  else if ["false", "n", "no", "0"].contains word then some false
  else none

def truth (v : Value) : Except RuntimeError Bool :=
  match v with
  | bool b => .ok b
  | v =>
    match truthOfText? v.toText with
    | some b => .ok b
    | none => .error (.notBoolean v.toText)

/-- Is the value of exactly this primitive type? Text and instances never are. -/
def isExactly (v : Value) (t : Tag) : Bool :=
  match v with
  | text _ => false
  | .instance _ => false
  | v => v.tag == t

/-- A whole number out of the value: its text read as one, or else its number without a fraction,
clamped to 64 bits. The result is not yet checked against the type. -/
def integral? (v : Value) (range : Numeral.Range) (read : List Char → Option Int) : Option Int :=
  match (read (Text.trim v.toText.toList)).filter range.holds with
  | some n => some n
  | none =>
    ((v.number?.bind Numeral.wholeOfDouble?).map Numeral.int64.clamp).filter range.holds

def readUnsigned (cs : List Char) : Option Int := (Numeral.unsigned? cs).map Int.ofNat

/-- The value of the given type that the value's text spells, for a primitive type. -/
def ofText? (v : Value) : Tag → Option Value
  | .string => some (.text v.toText)
  | .int => (v.integral? Numeral.int32 Numeral.signed?).bind Numeral.int32? |>.map .int
  | .long => (v.integral? Numeral.int64 Numeral.signed?).bind Numeral.int64? |>.map .long
  | .uint => (v.integral? Numeral.uint32 readUnsigned).bind Numeral.uint32? |>.map .uint
  | .ulong => (v.integral? Numeral.uint64 readUnsigned).bind Numeral.uint64? |>.map .ulong
  | .float => (Numeral.single? (Text.trim v.toText.toList)).map .float
  | .double => (Numeral.double? (Text.trim v.toText.toList)).map .double
  | .decimal => (Numeral.double? (Text.trim v.toText.toList)).map .decimal
  | .bool => v.truth.toOption.map .bool
  | .char =>
    match Text.trim v.toText.toList with
    | [c] => some (.char c)
    | _ => none
  | .untyped => some v
  | .object => some v

/-- Converts to a primitive type; other types leave the value alone. -/
def coerce (v : Value) (t : Tag) : Except RuntimeError Value :=
  if !t.isPrimitive || v.isExactly t then .ok v
  else
    match v.ofText? t with
    | some w => .ok w
    | none => .error (.typeMismatch t.name v.toText)

/-- Equality of values of one type; instances are equal if they are the same one. -/
def same : Value → Value → Bool
  | empty, empty => true
  | text a, text b => a == b
  | int a, int b => a == b
  | float a, float b => a == b
  | bool a, bool b => a == b
  | char a, char b => a == b
  | double a, double b => a == b
  | decimal a, decimal b => a == b
  | long a, long b => a == b
  | uint a, uint b => a == b
  | ulong a, ulong b => a == b
  | .instance a, .instance b => a.id == b.id
  | _, _ => false

end Value

end LineScript
