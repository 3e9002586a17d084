import LineScript.Parser.Basic
set_option autoImplicit false

/-!
Programs without the raw text of one line. The tokens of a program hold beside what was read from a line
also its text, and the defaults of properties are such texts, too; `bare n` drops the texts of line `n` and
keeps of the defaults on it what stands before a comment. What the parser does next does not depend on
these texts.
-/

namespace LineScript

def Line.bare (n : Nat) (l : Line) : Line := if l.number = n then ⟨n, ""⟩ else l

/-- A property without the comment in its default. -/
def Variable.bare (n : Nat) (v : Variable) : Variable :=
  if v.line = n then
    { v with default := v.default.map fun t => String.ofList (Text.trim (Text.code t.toList)) }
  else v

mutual

def bareRow (n : Nat) : Row Token → Row Token
  | ⟨line, tokens⟩ => ⟨line.bare n, bareTokens n tokens⟩

def bareRows (n : Nat) : List (Row Token) → List (Row Token)
  | [] => []
  | row :: rows => bareRow n row :: bareRows n rows

def bareTokens (n : Nat) : List Token → List Token
  | [] => []
  | t :: ts => bareToken n t :: bareTokens n ts

def bareToken (n : Nat) : Token → Token
  | .statement s => .statement (bareStatement n s)
  | .ofClass c => .ofClass (bareClass n c)
  | .ofMethod m => .ofMethod (bareMethod n m)
  | t => t

def bareStatement (n : Nat) : Statement Token → Statement Token
  | ⟨kind, line, text, condition, body⟩ =>
    ⟨kind, line, if line = n then "" else text, condition, bareRows n body⟩

def bareMethod (n : Nat) : Method Token → Method Token
  | ⟨name, line, isStatic, nocol, params, returns, body⟩ =>
    ⟨name, line, isStatic, nocol, params, returns, bareRows n body⟩

def bareConverter (n : Nat) : Converter Token → Converter Token
  | ⟨type, method⟩ => ⟨type, bareMethod n method⟩

def bareClass (n : Nat) : Class Token → Class Token
  | ⟨name, line, isStatic, semi, ontop, properties, methods, classes, watch, params, typeOf,
      converters, insideOf, length⟩ =>
    ⟨name, line, isStatic, semi, ontop, properties.map (Variable.bare n), bareMethods n methods,
      bareClasses n classes, watch, params, typeOf, bareConverters n converters, insideOf, length⟩

def bareMethods (n : Nat) : List (String × Method Token) → List (String × Method Token)
  | [] => []
  | (name, m) :: ms => (name, bareMethod n m) :: bareMethods n ms

def bareConverters (n : Nat) : List (Converter Token) → List (Converter Token)
  | [] => []
  | c :: cs => bareConverter n c :: bareConverters n cs

def bareClasses (n : Nat) : List (Class Token) → List (Class Token)
  | [] => []
  | c :: cs => bareClass n c :: bareClasses n cs

end

section Equations

variable (n : Nat)

theorem bareRows_eq (rows : List (Row Token)) : bareRows n rows = rows.map (bareRow n) := by
  induction rows with
  | nil => rw [bareRows,List.map_nil]
  | cons row rows ih => rw [bareRows,ih,List.map_cons]

theorem bareMethods_eq (ms : List (String × Method Token)) :
    bareMethods n ms = ms.map fun e => (e.1, bareMethod n e.2) := by
  induction ms with
  | nil => rw [bareMethods,List.map_nil]
  | cons e ms ih => rw [bareMethods,ih,List.map_cons]

theorem bareConverters_eq (cs : List (Converter Token)) :
    bareConverters n cs = cs.map (bareConverter n) := by
  induction cs with
  | nil => rw [bareConverters,List.map_nil]
  | cons c cs ih => rw [bareConverters,ih,List.map_cons]

theorem bareClasses_eq (cs : List (Class Token)) : bareClasses n cs = cs.map (bareClass n) := by
  induction cs with
  | nil => rw [bareClasses,List.map_nil]
  | cons c cs ih => rw [bareClasses,ih,List.map_cons]

theorem bareMethod_eq (m : Method Token) :
    bareMethod n m = { m with body := m.body.map (bareRow n) } := by
  cases m
  rw [bareMethod,bareRows_eq]

theorem bareClass_eq (c : Class Token) :
    bareClass n c =
      { c with
        properties := c.properties.map (Variable.bare n)
        methods := c.methods.map fun e => (e.1, bareMethod n e.2)
        classes := c.classes.map (bareClass n)
        converters := c.converters.map (bareConverter n) } := by
  cases c
  rw [bareClass,bareMethods_eq,bareConverters_eq,bareClasses_eq]

end Equations

namespace Table

variable {α β : Type}

/-- Changes the entries under their names. -/
def mapValues (f : α → β) (t : Table α) : Table β := t.map fun e => (e.1, f e.2)

theorem get?_mapValues (f : α → β) (t : Table α) (name : String) :
    (t.mapValues f).get? name = (t.get? name).map f := by
  induction t with
  | nil => rfl
  | cons e t ih =>
    by_cases h : e.1 = name
    · simp [mapValues,get?,h]
    · simpa [mapValues,get?,h] using ih

theorem contains_mapValues (f : α → β) (t : Table α) (name : String) :
    (t.mapValues f).contains name = t.contains name := by
  rw [contains,get?_mapValues,Option.isSome_map,contains]

theorem insert_mapValues (f : α → β) (t : Table α) (name : String) (v : α) :
    (t.insert name v).mapValues f = (t.mapValues f).insert name (f v) := by
  induction t with
  | nil => rfl
  | cons e t ih =>
    by_cases h : e.1 = name
    · simp [mapValues,insert,h]
    · simpa [mapValues,insert,h] using ih

end Table

namespace Declarations

/-- The declarations without the raw texts of line `n`. -/
def bare (n : Nat) (d : Declarations) : Declarations :=
  ⟨d.classes.mapValues (bareClass n), d.methods.mapValues (bareMethod n), d.containers⟩

section Bare

variable (n : Nat) (d : Declarations)

theorem typeOf?_bare : (d.bare n).typeOf? = d.typeOf? := by
  funext written
  simp only [typeOf?,bare,Table.get?_mapValues]
  cases Tag.ofName? (DataType.bareName written) with
  | some t => rfl
  | none =>
    cases d.classes.get? (DataType.bareName written) with
    | none => rfl
    | some c => simp [Class.instanceType,bareClass_eq]

theorem writtenType_bare : (d.bare n).writtenType = d.writtenType := by
  funext written
  rw [writtenType,typeOf?_bare,writtenType]

theorem watchCall?_bare : (d.bare n).watchCall? = d.watchCall? := by
  funext word
  have hrules : (d.bare n).classes.values.flatMap Class.watch = d.classes.values.flatMap Class.watch := by
    simp [bare,Table.values,Table.mapValues,List.flatMap_map,bareClass_eq]
  rw [watchCall?,hrules,typeOf?_bare,watchCall?]

theorem tokens_bare : (d.bare n).tokens = d.tokens := by
  have hbind : (d.bare n).bindWord = d.bindWord := by
    funext t
    simp only [bindWord,watchCall?_bare]
  funext text line
  simp only [tokens,hbind]

end Bare

/-- What the readers ask the declarations for is the same. -/
structure Agree (d d' : Declarations) : Prop where
  tokens : d'.tokens = d.tokens
  writtenType : d'.writtenType = d.writtenType
  classNames : ∀ name, d'.classes.contains name = d.classes.contains name
  methodNames : ∀ name, d'.methods.contains name = d.methods.contains name

theorem agree_of_bare {n : Nat} {d d' : Declarations} (h : d'.bare n = d.bare n) : d.Agree d' where
  tokens := by rw [← tokens_bare n d',h,tokens_bare]
  writtenType := by rw [← writtenType_bare n d',h,writtenType_bare]
  classNames name := by
    have hc := congrArg (fun d => d.classes.contains name) h
    simpa only [bare,Table.contains_mapValues] using hc
  methodNames name := by
    have hm := congrArg (fun d => d.methods.contains name) h
    simpa only [bare,Table.contains_mapValues] using hm

theorem Agree.tokenType? {d d' : Declarations} (h : d.Agree d') : d'.tokenType? = d.tokenType? := by
  funext t
  simp only [Declarations.tokenType?,h.writtenType]

end Declarations

namespace Parser

/-- The parser without the raw texts of line `n`. -/
def bare (n : Nat) (p : Parser) : Parser := { p with declared := p.declared.bare n }

variable (n : Nat) (p : Parser)

theorem bare_warnIf (replaced : Bool) (w : Warning) :
    (p.warnIf replaced w).bare n = (p.bare n).warnIf replaced w := by
  cases replaced <;> rfl

theorem bare_registerClass (c : Class Token) :
    (p.registerClass c).bare n = (p.bare n).registerClass (bareClass n c) := by
  have hname : (bareClass n c).name = c.name := by rw [bareClass_eq]
  have hline : (bareClass n c).line = c.line := by rw [bareClass_eq]
  dsimp only [registerClass]
  rw [bare_warnIf,hname,hline]
  simp only [bare,Declarations.bare,Table.contains_mapValues,Table.insert_mapValues]

theorem bare_registerMethod (m : Method Token) :
    (p.registerMethod m).bare n = (p.bare n).registerMethod (bareMethod n m) := by
  have hname : (bareMethod n m).name = m.name := by rw [bareMethod_eq]
  have hline : (bareMethod n m).line = m.line := by rw [bareMethod_eq]
  dsimp only [registerMethod]
  rw [bare_warnIf,hname,hline]
  simp only [bare,Declarations.bare,Table.contains_mapValues,Table.insert_mapValues]

theorem bare_registerContainer (c : Container) :
    (p.registerContainer c).bare n = (p.bare n).registerContainer c := by
  dsimp only [registerContainer]
  rw [bare_warnIf]
  rfl

theorem bare_addMethod (c : Class Token) (m : Method Token) :
    (p.addMethod c m).1.bare n = ((p.bare n).addMethod (bareClass n c) (bareMethod n m)).1 ∧
      bareClass n (p.addMethod c m).2 = ((p.bare n).addMethod (bareClass n c) (bareMethod n m)).2 := by
  have hname : (bareMethod n m).name = m.name := by rw [bareMethod_eq]
  have hline : (bareMethod n m).line = m.line := by rw [bareMethod_eq]
  have hclass : (bareClass n c).name = c.name := by rw [bareClass_eq]
  have hmethods : (bareClass n c).methods = Table.mapValues (bareMethod n) c.methods := by
    rw [bareClass_eq]
    rfl
  dsimp only [addMethod]
  rw [bare_warnIf,hname,hline,hclass,hmethods,Table.contains_mapValues,← Table.insert_mapValues,
    bareClass_eq,bareClass_eq n c]
  exact ⟨rfl, rfl⟩

end Parser

/-- The program without the raw texts of line `n`. -/
def Program.bare (n : Nat) (p : Program) : Program := ⟨p.lines.map (bareRow n), p.declared.bare n⟩

end LineScript
