import LineScript.Token.Basic
set_option autoImplicit false

/-! The declared classes, methods and containers, and what names mean under them. -/

namespace LineScript

structure Declarations where
  classes : Table (Class Token)
  methods : Table (Method Token)
  containers : Table Container

namespace Declarations

def empty : Declarations := ⟨[], [], []⟩

instance : Inhabited Declarations := ⟨empty⟩

/-- Adds declarations; a later one replaces an earlier one of its name. -/
def merge (d e : Declarations) : Declarations :=
  ⟨d.classes.merge e.classes, d.methods.merge e.methods, d.containers.merge e.containers⟩

/-- The type of a name: a primitive type, then a class, then a container. -/
def typeOf? (d : Declarations) (written : String) : Option DataType :=
  let name := DataType.bareName written
  match Tag.ofName? name with
  | some t => some (.plain t)
  | none =>
    match d.classes.get? name with
    | some c => some c.instanceType
    | none => if d.containers.contains name then some (.ofContainer name) else none

/-- The type of a written name, an unknown name being a class declared later. -/
def writtenType (d : Declarations) (written : String) : DataType :=
  let name := DataType.bareName written
  if name.isEmpty then .untyped else (d.typeOf? name).getD (.ofClass .object name)

/-- The call that the first matching watch rule makes of a word. -/
def watchCall? (d : Declarations) (word : String) : Option BoundCall :=
  (d.classes.values.flatMap Class.watch).findSome? fun rule =>
    (rule.pattern.matchWhole word).map fun m =>
      ⟨rule.className, rule.method, rule.bind d.typeOf? m, word⟩

end Declarations

/-- Lines to execute with the declarations known after them. -/
structure Program where
  lines : List (Row Token)
  declared : Declarations

end LineScript
