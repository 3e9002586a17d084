import LineScript.Proofs.Memory.All
import LineScript.Proofs.Memory.Path
set_option autoImplicit false

/-!
Typed slots. `Declarations.Holds` says which values are of which declared type; a memory is typed if every
binding is empty or holds a value of its type. Every path of running code keeps a memory typed, provided
that each class is declared under its own name.
-/

namespace LineScript

namespace Declarations

/-- The values of a type. -/
inductive Holds (d : Declarations) : DataType → Value → Prop where
  | untyped (v : Value) : d.Holds (.plain .untyped) v
  | object (r : Reference) : d.Holds (.plain .object) (.instance r)
  | string (s : String) : d.Holds (.plain .string) (.text s)
  | int (n : Int32) : d.Holds (.plain .int) (.int n)
  | float (x : Float32) : d.Holds (.plain .float) (.float x)
  | bool (b : Bool) : d.Holds (.plain .bool) (.bool b)
  | char (c : Char) : d.Holds (.plain .char) (.char c)
  | double (x : Float) : d.Holds (.plain .double) (.double x)
  | decimal (x : Float) : d.Holds (.plain .decimal) (.decimal x)
  | long (n : Int64) : d.Holds (.plain .long) (.long n)
  | uint (n : UInt32) : d.Holds (.plain .uint) (.uint n)
  | ulong (n : UInt64) : d.Holds (.plain .ulong) (.ulong n)
  | ofClass (tag : Tag) (r : Reference) : d.Holds (.ofClass tag r.ofClass.name) (.instance r)
  | ofContainer {name : String} {c : Container} (r : Reference)
    (hc : d.containers.get? name = some c) (hr : r.ofClass.name ∈ c.classes) :
    d.Holds (.ofContainer name) (.instance r)

/-- Each class is declared under its own name. -/
def Named (d : Declarations) : Prop := ∀ e ∈ d.classes, e.2.name = e.1

variable {d : Declarations}

theorem holds_of_isExactly {v : Value} {t : Tag} (h : v.isExactly t = true) :
    d.Holds (.plain t) v := by
  cases v with
  | text s => simp [Value.isExactly] at h
  | «instance» r => simp [Value.isExactly] at h
  | empty => obtain rfl : Tag.untyped = t := eq_of_beq h; exact .untyped _
  | int n => obtain rfl : Tag.int = t := eq_of_beq h; exact .int n
  | float x => obtain rfl : Tag.float = t := eq_of_beq h; exact .float x
  | bool b => obtain rfl : Tag.bool = t := eq_of_beq h; exact .bool b
  | char c => obtain rfl : Tag.char = t := eq_of_beq h; exact .char c
  | double x => obtain rfl : Tag.double = t := eq_of_beq h; exact .double x
  | decimal x => obtain rfl : Tag.decimal = t := eq_of_beq h; exact .decimal x
  | long n => obtain rfl : Tag.long = t := eq_of_beq h; exact .long n
  | uint n => obtain rfl : Tag.uint = t := eq_of_beq h; exact .uint n
  | ulong n => obtain rfl : Tag.ulong = t := eq_of_beq h; exact .ulong n

theorem holds_of_ofText? {v w : Value} {t : Tag} (ht : t.isPrimitive = true)
    (h : v.ofText? t = some w) : d.Holds (.plain t) w := by
  cases t with
  | untyped => cases ht
  | object => cases ht
  | string =>
    obtain rfl := Option.some.inj h
    exact .string _
  | char =>
    rw [Value.ofText?] at h
    split at h
    · obtain rfl := Option.some.inj h
      exact .char _
    · cases h
  | int => obtain ⟨n, -, rfl⟩ := Option.map_eq_some_iff.1 h; exact .int n
  | long => obtain ⟨n, -, rfl⟩ := Option.map_eq_some_iff.1 h; exact .long n
  | uint => obtain ⟨n, -, rfl⟩ := Option.map_eq_some_iff.1 h; exact .uint n
  | ulong => obtain ⟨n, -, rfl⟩ := Option.map_eq_some_iff.1 h; exact .ulong n
  | float => obtain ⟨x, -, rfl⟩ := Option.map_eq_some_iff.1 h; exact .float x
  | double => obtain ⟨x, -, rfl⟩ := Option.map_eq_some_iff.1 h; exact .double x
  | decimal => obtain ⟨x, -, rfl⟩ := Option.map_eq_some_iff.1 h; exact .decimal x
  | bool => obtain ⟨b, -, rfl⟩ := Option.map_eq_some_iff.1 h; exact .bool b

/-- Conversion to a primitive type gives a value of that type. -/
theorem holds_of_coerce {v w : Value} {t : Tag} (ht : t.isPrimitive = true)
    (h : v.coerce t = .ok w) : d.Holds (.plain t) w := by
  unfold Value.coerce at h
  by_cases he : v.isExactly t = true
  · obtain rfl : v = w := by simpa [ht,he] using h
    exact holds_of_isExactly he
  · simp only [ht,he,Bool.not_true,Bool.or_false,Bool.false_eq_true,if_false] at h
    cases ho : v.ofText? t with
    | none => simp [ho] at h
    | some u =>
      obtain rfl : u = w := by simpa [ho] using h
      exact holds_of_ofText? ht ho

theorem holds_of_satisfies {r : Reference} {t : DataType} (h : d.satisfies r.ofClass t = true) :
    d.Holds t (.instance r) := by
  cases t with
  | plain t =>
    obtain rfl : t = .object := by simpa [satisfies] using h
    exact .object r
  | ofClass tag name =>
    obtain rfl : name = r.ofClass.name := by simpa [satisfies] using h
    exact .ofClass tag r
  | ofContainer name =>
    cases hc : d.containers.get? name with
    | none => simp [satisfies,containerHolds,hc] at h
    | some c => exact .ofContainer r hc (by simpa [satisfies,containerHolds,hc] using h)

/-- What is accepted for a class or container is of that type already. -/
theorem holds_of_compatible {t : DataType} {v : Value} (ht : ∀ tag, t = .plain tag → tag = .object)
    (h : d.compatible t v = true) : d.Holds t v := by
  cases v with
  | «instance» r =>
    refine holds_of_satisfies ?_
    cases t with
    | plain tag =>
      obtain rfl := ht tag rfl
      simp [satisfies]
    | ofClass tag name => simpa [compatible,Value.reference?] using h
    | ofContainer name => simpa [compatible,Value.reference?] using h
  | _ =>
    cases t with
    | plain tag =>
      obtain rfl := ht tag rfl
      simp [compatible,Value.reference?] at h
    | ofClass tag name => simp [compatible,Value.reference?] at h
    | ofContainer name => simp [compatible,Value.reference?] at h

/-- The stored value is of the type if the given one is, where the type leaves values as they are. -/
theorem holds_of_fit {t : DataType} {v w : Value}
    (hv : (∀ tag, t = .plain tag → tag = .object) → d.Holds t v) (h : fit t v = .ok w) :
    d.Holds t w := by
  cases t with
  | plain tag =>
    by_cases hp : tag.isPrimitive = true
    · have hf : fit (.plain tag) v = v.coerce tag := by cases tag <;> rfl
      exact holds_of_coerce hp (hf ▸ h)
    · cases tag with
      | untyped => exact .untyped w
      | object =>
        obtain rfl := Except.ok.inj h
        exact hv fun _ ht => (DataType.plain.inj ht).symm
      | _ => exact absurd rfl hp
  | ofClass tag name =>
    obtain rfl := Except.ok.inj h
    exact hv nofun
  | ofContainer name =>
    obtain rfl := Except.ok.inj h
    exact hv nofun

theorem holds_of_conform {t : DataType} {v w : Value} (h : d.conform t v = .ok w) :
    d.Holds t w := by
  unfold conform at h
  by_cases hc : d.compatible t v = true
  · rw [if_pos hc] at h
    exact holds_of_fit (fun ht => holds_of_compatible ht hc) h
  · rw [if_neg hc] at h
    cases h

theorem tag_ofText_ne_object (s : String) : Tag.ofText s ≠ .object := by
  unfold Tag.ofText
  dsimp only
  split
  · exact nofun
  · split
    · exact nofun
    · split
      · exact nofun
      · exact nofun

theorem holds_of_acceptsArgument {t : DataType} {v : Value}
    (ht : ∀ tag, t = .plain tag → tag = .object) (h : d.acceptsArgument t v = true) :
    d.Holds t v := by
  cases t with
  | ofClass tag name => exact holds_of_compatible ht h
  | ofContainer name => exact holds_of_compatible ht h
  | plain tag =>
    obtain rfl := ht tag rfl
    have htag : v.tag = .object := eq_of_beq h
    cases v with
    | «instance» r => exact .object r
    | text s => exact absurd htag (tag_ofText_ne_object s)
    | _ => cases htag

theorem holds_of_bindParam {method : Method Token} {p : Variable} {v w : Value}
    (h : d.bindParam method p v = .ok w) : d.Holds p.type w := by
  unfold bindParam at h
  by_cases ha : d.acceptsArgument p.type v = true
  · rw [if_pos ha] at h
    cases hf : fit p.type v with
    | error e => simp [hf] at h
    | ok u =>
      obtain rfl : u = w := by simpa [hf] using h
      exact holds_of_fit (fun ht => holds_of_acceptsArgument ht ha) hf
  · rw [if_neg ha] at h
    cases h

/-- An instance of a type may be replaced by one of its class. -/
theorem Holds.replace {t : DataType} {old new : Reference} (h : d.Holds t (.instance old))
    (hn : old.ofClass.name = new.ofClass.name) : d.Holds t (.instance new) := by
  cases h with
  | untyped => exact .untyped _
  | object => exact .object new
  | ofClass tag => exact hn ▸ .ofClass tag new
  | ofContainer _ hc hr => exact .ofContainer new hc (hn ▸ hr)

theorem Named.name_of_get? (hd : d.Named) {name : String} {c : Class Token}
    (h : d.classes.get? name = some c) : c.name = name := hd _ (Table.mem_of_get? h)

end Declarations

/-- The binding is empty or holds a value of its declared type. -/
def Binding.WellTyped (d : Declarations) (b : Binding) : Prop :=
  b.value = .empty ∨ d.Holds b.type b.value

/-- What holds of empty bindings of parameters and of bindings that take a given value. -/
theorem Calls.forall_of_bindParams {P : Binding → Prop} {d : Declarations} {method : Method Token}
    {ps : List Variable} {values : List Value} {bs : List Binding}
    (hempty : ∀ p ∈ ps, P ⟨p.name, .empty, p.type, p.required, p.line⟩)
    (hgiven : ∀ p ∈ ps, ∀ v ∈ values, ∀ w, d.bindParam method p v = .ok w →
      P ⟨p.name, w, p.type, p.required, p.line⟩)
    (h : bindParams d method ps values = .ok bs) : ∀ b ∈ bs, P b := by
  induction ps generalizing values bs with
  | nil =>
    obtain rfl := Except.ok.inj h
    simp
  | cons p ps ih =>
    obtain ⟨hp, hps⟩ := List.forall_mem_cons.1 hempty
    cases values with
    | nil =>
      cases hr : bindParams d method ps [] with
      | error e => simp [bindParams,hr,bind,Except.bind] at h
      | ok rest =>
        obtain rfl : _ = bs := by simpa [bindParams,hr,bind,Except.bind,pure,Except.pure] using h
        exact List.forall_mem_cons.2 ⟨hp, ih hps (by simp) hr⟩
    | cons v vs =>
      cases hw : d.bindParam method p v with
      | error e => simp [bindParams,hw,bind,Except.bind] at h
      | ok w =>
        cases hr : bindParams d method ps vs with
        | error e => simp [bindParams,hw,hr,bind,Except.bind] at h
        | ok rest =>
          obtain rfl : _ = bs := by simpa [bindParams,hw,hr,bind,Except.bind,pure,Except.pure] using h
          have hlater := fun q hq u hu => hgiven q (List.mem_cons_of_mem p hq) u (List.mem_cons_of_mem v hu)
          have hfirst := hgiven p List.mem_cons_self v List.mem_cons_self w hw
          exact List.forall_mem_cons.2 ⟨hfirst, ih hps hlater hr⟩

theorem Calls.wellTyped_of_bindParams {d : Declarations} {method : Method Token} {ps : List Variable}
    {values : List Value} {bs : List Binding} (h : bindParams d method ps values = .ok bs) :
    ∀ b ∈ bs, b.WellTyped d :=
  forall_of_bindParams (fun _ _ => .inl rfl)
    (fun _ _ _ _ _ hw => .inr (Declarations.holds_of_bindParam hw)) h

namespace Memory

/-- Every slot holds what it is declared to hold. -/
abbrev Typed (d : Declarations) (s : Memory) : Prop := s.All (Binding.WellTyped d)

variable {d : Declarations}

theorem wellTyped_of_initial (hd : d.Named) {b : Binding} (h : d.Initial b.type b.value) :
    b.WellTyped d := by
  rcases h with he | ⟨u, hc⟩ | ⟨tag, name, r, ht, hr, hv⟩
  · exact .inl he
  · exact .inr (Declarations.holds_of_conform hc)
  · right
    rw [ht,hv,← hd.name_of_get? hr]
    exact .ofClass tag r

/-- A name goes on standing for a slot of the type it stood for. -/
theorem KeepsNames.type_eq {s t : Memory} (h : KeepsNames s t) {name : String} {b c : Binding}
    (hs : s.get? name = some b) (ht : t.get? name = some c) : c.type = b.type := by
  have hslot := h name b.slot (by rw [slot?,hs]; rfl)
  rw [slot?,ht] at hslot
  exact congrArg Slot.type (Option.some.inj hslot)

theorem KeepsInstances.type_eq {s t : Memory} (h : KeepsInstances s t) {r : Reference} {name : String}
    {b c : Binding} (hs : Bindings.get? (s.properties r) name = some b)
    (ht : Bindings.get? (t.properties r) name = some c) : c.type = b.type := by
  cases hr : s.heap[r.id]? with
  | none => simp [properties,hr,Bindings.get?] at hs
  | some bs =>
    have hslots := h r.id (Bindings.slots bs) (by rw [slotsOf?,hr]; rfl)
    obtain ⟨cs, hc, hcs⟩ := Option.map_eq_some_iff.1 hslots
    have hs' : Bindings.get? bs name = some b := by simpa [properties,hr] using hs
    have ht' : Bindings.get? cs name = some c := by simpa [properties,hc] using ht
    have hb := Bindings.slot_get? bs name
    have hc' := Bindings.slot_get? cs name
    rw [hcs,← hb,hs',ht'] at hc'
    exact congrArg Slot.type (Option.some.inj hc')

theorem Path.typed (hd : d.Named) {w : Stretch} {s t : Memory} (h : Path d w s t)
    (hs : s.Typed d) : t.Typed d := by
  induction h with
  | refl s => exact hs
  | trans _ _ ih ih' => exact ih' (ih hs)
  | expression _ ih => exact ih hs
  | lines _ ih => exact ih hs
  | scope kind _ ih => exact (ih (hs.push kind)).pop
  | params hb => exact hs.foldl_bind (Calls.wellTyped_of_bindParams hb)
  | handler message line => exact hs.bind (.inr (.string message))
  | declare _ _ hdecl ih => exact (ih hs).declare hdecl (.inr (.untyped _))
  | new _ _ _ hdecl ih => exact (ih hs).declare hdecl (.inr (.ofClass _ _))
  | @renew s t u name b old r hb hv hn hp ha ih =>
    refine (ih hs).assign ha fun c hc => .inr ?_
    -- the instance that the name stood for was of its type, and so is another one of that class
    have hold : d.Holds b.type (.instance old) := by
      rcases hs.get? hb with he | hh
      · cases hv.symm.trans he
      · exact hv ▸ hh
    have htype : c.type = b.type := hp.keepsNames.type_eq hb hc
    exact htype ▸ hold.replace hn
  | @assign s t u name b v w hb hp hw ha ih =>
    refine (ih hs).assign ha fun c hc => .inr ?_
    -- the value was checked against the type found before the expression ran: it is still the type
    have htype : c.type = b.type := hp.keepsNames.type_eq hb hc
    exact htype ▸ Declarations.holds_of_conform hw
  | allocate c hbs => exact hs.allocate c fun b hb => wellTyped_of_initial hd (hbs b hb)
  | @property s t r name b v w hb hp hw ih =>
    refine (ih hs).setProperty fun c hc => .inr ?_
    have htype : c.type = b.type := hp.keepsInstances.type_eq hb hc
    exact htype ▸ Declarations.holds_of_conform hw

theorem Passes.typed (hd : d.Named) {s t : Memory} (h : Passes d s t) (hs : s.Typed d) :
    t.Typed d := by
  induction h with
  | here hp => exact hp.typed hd hs
  | inside kind hp _ ih => exact ih ((hp.typed hd hs).push kind)

end Memory

end LineScript
