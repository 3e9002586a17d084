import Mathlib.Data.Fintype.Order
import Mathlib.Order.RelClasses
import LineScript.Proofs.Memory.Peopled
import LineScript.Text.Word
set_option autoImplicit false

/-!
Code without loops, and classes whose defaults do not need each other in a circle. A memory is free of
loops if every instance that it can come by is of a class without loops; all that code writes to a memory
keeps it so.
-/

namespace LineScript

mutual

/-- No line of the body is a loop or holds one. -/
def loopFreeBody : List (Row Token) → Bool
  | [] => true
  | row :: rows => loopFreeRow row && loopFreeBody rows

def loopFreeRow : Row Token → Bool
  | ⟨_, .statement s :: _⟩ => loopFreeStatement s
  | _ => true

def loopFreeStatement : Statement Token → Bool
  | ⟨kind, _, _, _, body⟩ => kind != .loop && loopFreeBody body

end

theorem loopFreeBody_iff {rows : List (Row Token)} :
    loopFreeBody rows = true ↔ ∀ row ∈ rows, loopFreeRow row = true := by
  induction rows with
  | nil => simp [loopFreeBody]
  | cons row rows ih => simp [loopFreeBody,ih]

def Class.loopFree (c : Class Token) : Bool :=
  (c.methods.all fun e => loopFreeBody e.2.body) && c.converters.all fun v => loopFreeBody v.method.body

def Declarations.loopFree (d : Declarations) : Bool :=
  (d.methods.all fun e => loopFreeBody e.2.body) && d.classes.all fun e => e.2.loopFree

/-- No loop at the top level, in a method or in a converter. -/
def Program.loopFree (p : Program) : Bool := loopFreeBody p.lines && p.declared.loopFree

/-- The value is no instance of a class with a loop in it. -/
def Value.loopFree (v : Value) : Bool := v.reference?.all fun r => r.ofClass.loopFree

/-- The functions of the host give back no instance of a class with a loop in it, unless they are given
one. -/
def Host.LoopFree (h : Host) : Prop :=
  ∀ path args v, (∀ a ∈ args, a.loopFree) → (h.call path args).2 = .ok v → v.loopFree

theorem Host.loopFree_standard : standard.LoopFree := by
  intro path args v _ h
  simp [Value.loopFree,plain_of_standard h]

/-- A default of the class needs the class of that name: the property is declared with it, or the text
has its name in it as a word. -/
def Class.needs (c : Class Token) (name : String) : Bool :=
  c.properties.any fun p => p.default.any fun text =>
    p.type.className? == some name || (Text.wordAt name.toList none text.toList).isSome

namespace Declarations

variable {d : Declarations}

def DependsOn (d : Declarations) (name other : String) : Prop :=
  ∃ c, (name, c) ∈ d.classes ∧ c.needs other = true

/-- No class needs itself, be it through others. -/
def Acyclic (d : Declarations) : Prop := ∀ name, ¬Relation.TransGen d.DependsOn name name

theorem Acyclic.wellFounded (h : d.Acyclic) :
    WellFounded fun other name => d.DependsOn name other := by
  -- only the names in the table depend on any, and they are finitely many
  let Known := { name : String // name ∈ d.classes.keys }
  have hfinite : Finite Known := List.finite_toSet d.classes.keys
  let below : Known → Known → Prop := fun other name => Relation.TransGen d.DependsOn name.1 other.1
  have htrans : IsTrans Known below := ⟨fun _ _ _ hab hbc => hbc.trans hab⟩
  have hirrefl : Std.Irrefl below := ⟨fun a => h a.1⟩
  have hwf : WellFounded below := Finite.wellFounded_of_trans_of_irrefl below
  have hacc (name : String) (hn : ∀ hk : name ∈ d.classes.keys,
      Acc (fun other name => d.DependsOn name other) (⟨name, hk⟩ : Known).1) :
      Acc (fun other name => d.DependsOn name other) name := by
    by_cases hk : name ∈ d.classes.keys
    · exact hn hk
    · refine ⟨_, fun other ⟨c, hc, _⟩ => absurd ?_ hk⟩
      exact List.mem_map.2 ⟨_, hc, rfl⟩
  refine ⟨fun name => hacc name fun hk => ?_⟩
  generalize (⟨name, hk⟩ : Known) = known
  induction known using hwf.induction with
  | _ known ih =>
    exact ⟨_, fun other hdep => hacc other fun hk => ih ⟨other, hk⟩ (.single hdep)⟩

theorem loopFree_method (h : d.loopFree = true) {name : String} {f : Method Token}
    (hf : d.methods.get? name = some f) : loopFreeBody f.body = true := by
  obtain ⟨hm, -⟩ := Bool.and_eq_true_iff.1 h
  exact List.all_eq_true.1 hm _ (Table.mem_of_get? hf)

theorem loopFree_class (h : d.loopFree = true) {name : String} {c : Class Token}
    (hc : d.classes.get? name = some c) : c.loopFree = true := by
  obtain ⟨-, hc'⟩ := Bool.and_eq_true_iff.1 h
  exact List.all_eq_true.1 hc' _ (Table.mem_of_get? hc)

end Declarations

namespace Class

variable {c : Class Token}

theorem loopFree_method (h : c.loopFree = true) {name : String} {f : Method Token}
    (hf : Table.get? c.methods name = some f) : loopFreeBody f.body = true := by
  obtain ⟨hm, -⟩ := Bool.and_eq_true_iff.1 h
  exact List.all_eq_true.1 hm _ (Table.mem_of_get? hf)

theorem loopFree_converter (h : c.loopFree = true) {target : DataType} {v : Converter Token}
    (hv : c.converter? target = some v) : loopFreeBody v.method.body = true := by
  obtain ⟨-, hc⟩ := Bool.and_eq_true_iff.1 h
  exact List.all_eq_true.1 hc _ (List.mem_of_find?_eq_some hv)

end Class

/-- A value that came out of another one is free of loops if that was: it is the same, or no instance. -/
theorem Value.loopFree_of_stems {v w : Value} (hv : v.loopFree = true) (h : w.Stems v) :
    w.loopFree = true := by
  rcases h with rfl | h
  · exact hv
  · simp [loopFree,h]

/-- No variable, no property and no running method is of a class with a loop in it. -/
abbrev Memory.LoopFree (s : Memory) : Prop := s.Peopled fun v => v.loopFree = true

theorem Calls.loopFree_bindParams {d : Declarations} {method : Method Token} {ps : List Variable}
    {values : List Value} {bs : List Binding} (hv : ∀ v ∈ values, v.loopFree = true)
    (h : bindParams d method ps values = .ok bs) : ∀ b ∈ bs, b.value.loopFree = true :=
  forall_of_bindParams (fun _ _ => rfl)
    (fun _ _ v hmem _ hw => Value.loopFree_of_stems (hv v hmem) (Declarations.stems_of_bindParam hw)) h

end LineScript
