import LineScript.Host.Standard
import LineScript.Proofs.Memory.Barrier
import LineScript.Proofs.Memory.Typed
set_option autoImplicit false

/-!
What sort of instances there are in a memory. A value that is converted stays the same or becomes plain,
the standard host gives back plain values only, and every write keeps a memory of the sort that the value
written is of.
-/

namespace LineScript

namespace Value

theorem eq_of_reference? {v : Value} {r : Reference} (h : v.reference? = some r) : v = .instance r := by
  unfold reference? at h
  split at h
  · obtain rfl := Option.some.inj h
    rfl
  · cases h

/-- The value is the other one, or no instance. -/
def Stems (w v : Value) : Prop := w = v ∨ w.reference? = none

theorem stems_of_coerce {v w : Value} {t : Tag} (h : v.coerce t = .ok w) : w.Stems v := by
  unfold coerce at h
  split at h
  · exact .inl (Except.ok.inj h).symm
  · next hne =>
    have ht : t.isPrimitive = true := by
      cases hp : t.isPrimitive with
      | true => rfl
      | false => simp [hp] at hne
    split at h
    · next u hu =>
      obtain rfl := Except.ok.inj h
      -- a value of a primitive type is no instance
      cases Declarations.holds_of_ofText? (d := .empty) ht hu with
      | untyped => cases ht
      | object => cases ht
      | _ => exact .inr rfl
    · cases h

end Value

namespace Declarations

variable {d : Declarations}

theorem stems_of_fit {t : DataType} {v w : Value} (h : fit t v = .ok w) : w.Stems v := by
  unfold fit at h
  split at h
  · exact Value.stems_of_coerce h
  · exact .inl (Except.ok.inj h).symm

theorem stems_of_conform {t : DataType} {v w : Value} (h : d.conform t v = .ok w) : w.Stems v := by
  unfold conform at h
  split at h
  · exact stems_of_fit h
  · cases h

theorem stems_of_bindParam {method : Method Token} {p : Variable} {v w : Value}
    (h : d.bindParam method p v = .ok w) : w.Stems v := by
  unfold bindParam at h
  dsimp only at h
  split at h
  · split at h
    · next hf =>
      obtain rfl := Except.ok.inj h
      exact stems_of_fit hf
    · cases h
  · cases h

end Declarations

namespace Calls

theorem stems_of_returned {method : Method Token} {v w : Value} (h : returned method v = .ok w) :
    w.Stems v := by
  unfold returned at h
  split at h
  · split at h
    · exact Value.stems_of_coerce h
    · exact .inl (Except.ok.inj h).symm
  · exact .inl (Except.ok.inj h).symm

theorem stems_of_coerceTo {requested : Option DataType} {v w : Value}
    (h : coerceTo requested v = .ok w) : w.Stems v := by
  unfold coerceTo at h
  split at h
  · exact Value.stems_of_coerce h
  · exact .inl (Except.ok.inj h).symm

end Calls

namespace Host

/-- The result is no instance. -/
def GivesPlain (r : Except HostError Value) : Prop := ∀ v, r = .ok v → v.reference? = none

theorem givesPlain_error (e : HostError) : GivesPlain (.error e) := nofun

theorem givesPlain_ok {v : Value} (hv : v.reference? = none) : GivesPlain (.ok v) := by
  rintro _ ⟨⟩
  exact hv

theorem givesPlain_bind {α : Type} {x : Except HostError α} {f : α → Except HostError Value}
    (h : ∀ a, GivesPlain (f a)) : GivesPlain (x >>= f) := by
  cases x with
  | error e => exact givesPlain_error e
  | ok a => exact h a

theorem givesPlain_asInt (n : Int) (e : HostError) : GivesPlain (asInt n e) := by
  unfold asInt
  split
  · exact givesPlain_ok rfl
  · exact givesPlain_error e

theorem givesPlain_asLong (n : Int) (e : HostError) : GivesPlain (asLong n e) := by
  unfold asLong
  split
  · exact givesPlain_ok rfl
  · exact givesPlain_error e

theorem givesPlain_arithmetic (op : Operator) (a b : Value) : GivesPlain (arithmetic op a b) := by
  unfold arithmetic
  split
  · exact givesPlain_asInt _ _
  · split
    · exact givesPlain_asLong _ _
    · exact givesPlain_bind fun _ => givesPlain_bind fun _ => givesPlain_ok rfl

theorem givesPlain_divideDoubles (a b : Value) : GivesPlain (divideDoubles a b) := by
  unfold divideDoubles
  refine givesPlain_bind fun x => ?_
  split
  · exact givesPlain_error _
  · exact givesPlain_bind fun _ => givesPlain_ok rfl

theorem givesPlain_divide (a b : Value) : GivesPlain (divide a b) := by
  unfold divide
  split
  · split
    · exact givesPlain_error _
    · split
      · exact givesPlain_asInt _ _
      · exact givesPlain_divideDoubles a b
  · split
    · split
      · exact givesPlain_error _
      · split
        · exact givesPlain_asLong _ _
        · exact givesPlain_divideDoubles a b
    · exact givesPlain_divideDoubles a b

theorem givesPlain_negate (a : Value) : GivesPlain (negate a) := by
  unfold negate
  split
  · exact givesPlain_ok rfl
  · exact givesPlain_error _

/-- The standard functions make no instances. -/
theorem plain_of_standard {path : String} {args : List Value} {v : Value}
    (h : (standard.call path args).2 = .ok v) : v.reference? = none := by
  have hall : ∀ e ∈ standard, ∀ args, GivesPlain (e.2.run args).2 := by
    simp only [standard,List.forall_mem_cons]
    refine ⟨?_, ?_, ?_, ?_, ?_, ?_, ?_, ?_, ?_, ?_, ?_, by simp⟩
    · exact fun _ => givesPlain_ok rfl
    · exact fun _ => givesPlain_arithmetic .add _ _
    · exact fun _ => givesPlain_arithmetic .subtract _ _
    · exact fun _ => givesPlain_arithmetic .multiply _ _
    · exact fun _ => givesPlain_divide _ _
    · exact fun _ => givesPlain_ok rfl
    · exact fun _ => givesPlain_bind fun _ => givesPlain_bind fun _ => givesPlain_ok rfl
    · exact fun _ => givesPlain_bind fun _ => givesPlain_bind fun _ => givesPlain_ok rfl
    · exact fun _ => givesPlain_ok rfl
    · exact fun _ => givesPlain_negate _
    · exact fun _ => givesPlain_asInt _ _
  unfold call at h
  split at h
  · cases h
  · next f hf =>
    have hf := hall _ (Table.mem_of_get? hf)
    split at h
    · exact hf args v h
    · split at h
      · exact hf args v h
      · cases h

end Host

namespace Memory

/-- Every variable and every property holds a value of that sort, and every running method belongs to an
instance of that sort. -/
structure Peopled (P : Value → Prop) (s : Memory) : Prop where
  bindings : s.All fun b => P b.value
  running : ∀ r, .ofInstance r ∈ s.frames.map Frame.kind → P (.instance r)

theorem kinds_assign {s t : Memory} {name : String} {v : Value} (h : s.assign name v = .ok t) :
    t.frames.map Frame.kind = s.frames.map Frame.kind := by
  obtain ⟨hf, -⟩ := List.append_inj' (layout_assign h) rfl
  simpa [Function.comp_def] using congrArg (List.filterMap Prod.fst) hf

namespace Peopled

variable {P : Value → Prop} {s t : Memory}

theorem empty : Memory.empty.Peopled P := ⟨.empty, by simp [Memory.empty]⟩

theorem get? (h : s.Peopled P) {name : String} {b : Binding} (hb : s.get? name = some b) :
    P b.value := h.bindings.get? hb

theorem reference (h : s.Peopled P) {name : String} {b : Binding} {r : Reference}
    (hb : s.get? name = some b) (hr : b.value.reference? = some r) : P (.instance r) :=
  Value.eq_of_reference? hr ▸ h.get? hb

theorem currentInstance? (h : s.Peopled P) {r : Reference} (hr : s.currentInstance? = some r) :
    P (.instance r) := by
  obtain ⟨f, hf, hk⟩ := List.exists_of_findSome?_eq_some hr
  cases hkind : f.kind with
  | ofInstance q =>
    obtain rfl : q = r := by simpa [hkind] using hk
    exact h.running q (List.mem_map.2 ⟨f, hf, hkind⟩)
  | call => simp [hkind] at hk
  | block => simp [hkind] at hk

theorem primitiveValue (h : s.Peopled P) (hempty : P .empty) (r : Reference) :
    P (s.primitiveValue r) := by
  unfold Memory.primitiveValue
  dsimp only
  cases hb : (Bindings.get? (s.properties r) "value").orElse
      fun _ => Bindings.get? (s.properties r) "Value" with
  | none => exact hempty
  | some b =>
    have hmem : b ∈ s.properties r := by
      cases hv : Bindings.get? (s.properties r) "value" with
      | some c =>
        obtain rfl : c = b := by simpa [hv] using hb
        exact Bindings.mem_of_get? hv
      | none => exact Bindings.mem_of_get? (by simpa [hv] using hb)
    exact h.bindings.properties r b hmem

theorem push (h : s.Peopled P) {kind : FrameKind}
    (hk : ∀ r, kind = .ofInstance r → P (.instance r)) : (s.push kind).Peopled P := by
  refine ⟨h.bindings.push kind, fun r hr => ?_⟩
  rcases List.mem_cons.1 hr with hr | hr
  · exact hk r hr.symm
  · exact h.running r hr

theorem pop (h : s.Peopled P) : s.pop.Peopled P := by
  refine ⟨h.bindings.pop, fun r hr => h.running r ?_⟩
  rw [Memory.pop,List.map_drop] at hr
  exact List.mem_of_mem_drop hr

theorem bind (h : s.Peopled P) {b : Binding} (hb : P b.value) : (s.bind b).Peopled P :=
  ⟨h.bindings.bind hb, fun r hr => h.running r (Shield.Covers.kinds_bind s b ▸ hr)⟩

theorem foldl_bind (h : s.Peopled P) {bs : List Binding} (hbs : ∀ b ∈ bs, P b.value) :
    (bs.foldl Memory.bind s).Peopled P := by
  induction bs generalizing s with
  | nil => exact h
  | cons b bs ih =>
    obtain ⟨hb, hbs⟩ := List.forall_mem_cons.1 hbs
    exact ih (h.bind hb) hbs

theorem declare (h : s.Peopled P) {b : Binding} (hd : s.declare b = .ok t)
    (hb : P b.value) : t.Peopled P := by
  obtain rfl := bind_of_declare hd
  exact h.bind hb

theorem assign (h : s.Peopled P) {name : String} {v : Value} (ha : s.assign name v = .ok t)
    (hv : P v) : t.Peopled P :=
  ⟨h.bindings.assign ha fun _ _ => hv, fun r hr => h.running r (kinds_assign ha ▸ hr)⟩

theorem allocate (h : s.Peopled P) (c : Class Token) {bs : List Binding}
    (hbs : ∀ b ∈ bs, P b.value) : (s.allocate c bs).2.Peopled P :=
  ⟨h.bindings.allocate c hbs, h.running⟩

theorem setProperty (h : s.Peopled P) {r : Reference} {name : String} {v : Value}
    (hv : P v) : (s.setProperty r name v).Peopled P :=
  ⟨h.bindings.setProperty fun _ _ => hv, h.running⟩

end Peopled

end Memory

end LineScript
