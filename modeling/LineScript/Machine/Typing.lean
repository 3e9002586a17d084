import LineScript.Machine.Basic
set_option autoImplicit false

/-! Which values fill which slots: variables and properties widen numbers, arguments do not. -/

namespace LineScript

/-- A type that asks for something. -/
def DataType.typed? (t : DataType) : Option DataType := if t.isUntyped then none else some t

/-- The tag of a type that is neither a class nor a container. -/
def DataType.plainTag? : DataType → Option Tag
  | .plain t => some t
  | _ => none

/-- The primitive type that instances of the class stand for. -/
def Class.primitiveTag? (c : Class Token) : Option Tag :=
  c.typeOf.bind fun t =>
    if t.tag.isPrimitive && t.className?.isNone then some t.tag else none

def Tag.widensTo : Tag → Tag → Bool
  | .int, .long | .int, .uint | .int, .ulong | .int, .float | .int, .double | .int, .decimal => true
  | .uint, .ulong | .uint, .long | .uint, .float | .uint, .double | .uint, .decimal => true
  | .long, .float | .long, .double | .long, .decimal => true
  | .ulong, .float | .ulong, .double | .ulong, .decimal => true
  | .float, .double | .float, .decimal => true
  | .double, .decimal | .decimal, .double => true
  | _, _ => false

namespace Declarations

def containerHolds (d : Declarations) (container name : String) : Bool :=
  (d.containers.get? container).elim false fun c => c.classes.contains name

/-- Is an instance of the class of the wanted type already: its class, a container with it, or any
object? -/
def satisfies (d : Declarations) (c : Class Token) : DataType → Bool
  | .ofClass _ name => name == c.name
  | .ofContainer name => d.containerHolds name c.name
  | .plain t => t == .object

/-- May the value fill a variable or property of the type? -/
def compatible (d : Declarations) (declared : DataType) (v : Value) : Bool :=
  match declared with
  | .plain .untyped => true
  | .plain .object => v.reference?.isSome
  | .plain .string => v.reference?.isNone
  | .plain .char => v.toText.toList.length == 1
  | .plain t => v.tag == t || v.tag.widensTo t
  | t => v.reference?.elim false fun r => d.satisfies r.ofClass t

/-- May the value be passed for a parameter of the type? -/
def acceptsArgument (d : Declarations) (declared : DataType) (v : Value) : Bool :=
  match declared with
  | .plain .untyped => true
  | .plain .char => v.tag == .char || (v.tag == .string && v.toText.toList.length == 1)
  | .plain t => v.tag == t
  | t => d.compatible t v

/-- Converts to a primitive type; classes and containers take the value as it is. -/
def fit (declared : DataType) (v : Value) : Except RuntimeError Value :=
  match declared.typed?.bind DataType.plainTag? with
  | some t => v.coerce t
  | none => .ok v

/-- The value as it is stored in a variable or property of the type. -/
def conform (d : Declarations) (declared : DataType) (v : Value) : Except RuntimeError Value :=
  if d.compatible declared v then fit declared v
  else .error (.typeMismatch declared.text v.toText)

/-- The value as a parameter of the method takes it. -/
def bindParam (d : Declarations) (method : Method Token) (param : Variable) (v : Value) :
    Except RuntimeError Value :=
  let mismatch : RuntimeError := .parameterType method.name param.name param.type.text v.typeName
  if d.acceptsArgument param.type v then
    match fit param.type v with
    | .ok w => .ok w
    | .error _ => .error mismatch
  else .error mismatch

end Declarations

namespace Machine

/-- A method by its name: of the running instance's class, or else a global one. -/
def findMethod? (m : Machine) (name : String) : Option (Method Token × Option Reference) :=
  let global := (m.declared.methods.get? name).map fun f => (f, none)
  match m.memory.currentInstance? with
  | none => global
  | some r =>
    match Table.get? r.ofClass.methods name with
    | some f => some (f, some r)
    | none => global

/-- May a variable have that name? Methods and classes keep theirs. -/
def checkNameFree (m : Machine) (name : String) : Except RuntimeError Unit :=
  if (m.findMethod? name).isSome then
    .error (.declaration ("'" ++ name ++ "' is already the name of a method"))
  else if m.declared.classes.contains name then
    .error (.declaration ("'" ++ name ++ "' is already the name of a class"))
  else if name = "exception" then
    .error (.declaration "'exception' is reserved for 'fail' bodies")
  else .ok ()

/-- May an instance of the class be made where the machine stands? -/
def checkInside (m : Machine) (c : Class Token) : Except RuntimeError Unit :=
  let allowed := m.memory.currentInstance?.elim false fun r =>
    c.insideOf.any fun t => m.declared.satisfies r.ofClass t
  if c.insideOf.isEmpty || allowed then .ok ()
  else
    .error (.declaration ("'" ++ c.name ++ "' can only be created inside of " ++
      ", ".intercalate (c.insideOf.map DataType.text)))

end Machine

end LineScript
