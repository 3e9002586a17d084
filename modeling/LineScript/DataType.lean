import LineScript.Text.Basic
set_option autoImplicit false

/-! Declared types: a primitive type, a class or a container, named as they are written. -/

namespace LineScript

inductive Tag where
  | untyped
  | object
  | string
  | int
  | float
  | bool
  | char
  | double
  | decimal
  | long
  | uint
  | ulong
  deriving DecidableEq, Repr, Inhabited

namespace Tag

def name : Tag → String
  | untyped => "untyped"
  | object => "object"
  | string => "string"
  | int => "int"
  | float => "float"
  | bool => "bool"
  | char => "char"
  | double => "double"
  | decimal => "decimal"
  | long => "long"
  | uint => "uint"
  | ulong => "ulong"

/-- The tags that can be written, `str` being short for `string`. -/
def ofName? (name : String) : Option Tag :=
  if name = "str" then some string
  else [string, int, float, bool, char, double, decimal, long, uint, ulong, object].find?
    fun t => t.name == name

def isPrimitive : Tag → Bool
  | untyped | object => false
  | _ => true

def isNumeric : Tag → Bool
  | int | float | double | decimal | long | uint | ulong => true
  | _ => false

end Tag

/-- A class is known by its name and the tag its instances stand for. -/
inductive DataType where
  | plain (tag : Tag)
  | ofClass (tag : Tag) (name : String)
  | ofContainer (name : String)
  deriving DecidableEq, Repr

namespace DataType

def untyped : DataType := plain .untyped

instance : Inhabited DataType := ⟨untyped⟩

def tag : DataType → Tag
  | plain t => t
  | ofClass t _ => t
  | ofContainer _ => .object

def className? : DataType → Option String
  | ofClass _ n => some n
  | _ => none

def containerName? : DataType → Option String
  | ofContainer n => some n
  | _ => none

def isUntyped (t : DataType) : Bool := t == untyped

def text : DataType → String
  | plain .untyped => "untyped"
  | plain t => "@" ++ t.name
  | ofClass _ n => "@" ++ n
  | ofContainer n => "@" ++ n

/-- A written type name without blanks around it and without at signs before it. -/
def bareName (written : String) : String :=
  String.ofList ((Text.trim written.toList).dropWhile (· == '@'))

end DataType

end LineScript
