import LineScript.Proofs.Memory.Layout
set_option autoImplicit false

/-!
Assignments, frame by frame. A look-up and an assignment are two walks over the frames, and both end at the
same frame: a frame that has the name ends them, the frame of an instance ends them at the properties of the
instance, and any other one passes them on. `Writes` says what an assignment does; what it keeps, and what
the look-up of any name becomes, is proved by induction along it.
-/

namespace LineScript

def Binding.withValue (b : Binding) (v : Value) : Binding := { b with value := v }

namespace Bindings

theorem get?_setValue_self (bs : List Binding) (name : String) (v : Value) :
    get? (setValue bs name v) name = (get? bs name).map fun b => b.withValue v := by
  induction bs with
  | nil => rfl
  | cons c bs ih =>
    by_cases h : c.name = name
    · simp [setValue,get?,h,Binding.withValue]
    · simpa [setValue,get?,h] using ih

theorem get?_setValue_of_ne (bs : List Binding) {name other : String} (v : Value)
    (h : other ≠ name) : get? (setValue bs name v) other = get? bs other := by
  induction bs with
  | nil => rfl
  | cons c bs ih =>
    by_cases hc : c.name = name
    · simp [setValue,get?,hc,h.symm]
    · rw [setValue,if_neg hc]
      by_cases ho : c.name = other
      · simp [get?,ho]
      · simpa [get?,ho] using ih

end Bindings

/-- A walk that looks for the name goes on behind the frame. -/
def Frame.PassesOn (f : Frame) (name : String) : Prop :=
  Bindings.get? f.bindings name = none ∧ ∀ r, f.kind ≠ .ofInstance r

/-- A frame has the name, or is the frame of an instance, or passes on. -/
theorem Frame.walk_cases (f : Frame) (name : String) :
    (∃ b, Bindings.get? f.bindings name = some b) ∨
      (∃ r, Bindings.get? f.bindings name = none ∧ f.kind = .ofInstance r) ∨ f.PassesOn name := by
  cases hb : Bindings.get? f.bindings name with
  | some b => exact .inl ⟨b, rfl⟩
  | none =>
    cases hk : f.kind with
    | ofInstance r => exact .inr (.inl ⟨r, rfl, rfl⟩)
    | call => exact .inr (.inr ⟨hb, by simp [hk]⟩)
    | block => exact .inr (.inr ⟨hb, by simp [hk]⟩)

namespace Memory

variable {s t : Memory} {f : Frame} {name other : String} {v : Value} {b : Binding} {r : Reference}

/-- The memory with one more frame. -/
def under (s : Memory) (f : Frame) : Memory := { s with frames := f :: s.frames }

@[simp] theorem frames_under (s : Memory) (f : Frame) : (s.under f).frames = f :: s.frames := rfl

@[simp] theorem properties_under (s : Memory) (f : Frame) (r : Reference) :
    (s.under f).properties r = s.properties r := rfl

/-- Setting a property of an instance sets it wherever the instance stands. -/
theorem properties_setProperty (s : Memory) (r q : Reference) (name : String) (v : Value) :
    (s.setProperty r name v).properties q =
      if q.id = r.id then Bindings.setValue (s.properties q) name v else s.properties q := by
  split
  · next h =>
    by_cases hlt : r.id < s.heap.size
    · simp [properties,setProperty,setProperties,h,hlt]
    · simp [properties,setProperty,setProperties,h,hlt,Bindings.setValue]
  · next h => simp [properties,setProperty,setProperties,Ne.symm h]

theorem size_setProperty (s : Memory) (r : Reference) (name : String) (v : Value) :
    (s.setProperty r name v).heap.size = s.heap.size := by
  simp [setProperty,setProperties]

theorem get?_under_of_some (h : Bindings.get? f.bindings name = some b) :
    (s.under f).get? name = some b := by
  simp [get?,under,find,h]

theorem get?_under_of_ofInstance (h : Bindings.get? f.bindings name = none)
    (hk : f.kind = .ofInstance r) :
    (s.under f).get? name = Bindings.get? (s.properties r) name := by
  simp [get?,under,find,h,hk,properties]

theorem get?_under_of_passesOn (h : f.PassesOn name) : (s.under f).get? name = s.get? name := by
  obtain ⟨hb, hk⟩ := h
  cases hkind : f.kind with
  | ofInstance r => exact absurd hkind (hk r)
  | call => simp [get?,under,find,hb,hkind]
  | block => simp [get?,under,find,hb,hkind]

/-- The place, seen from one frame further in. -/
def Place.outer : Place → Place
  | .frame n => .frame (n + 1)
  | .global => .global
  | .property r => .property r

theorem locate_succ (heap : Array (List Binding)) (globals : List Binding) (name : String) (n : Nat)
    (fs : List Frame) :
    locate heap globals name (n + 1) fs = (locate heap globals name n fs).map Place.outer := by
  induction fs generalizing n with
  | nil =>
    rw [locate,locate]
    split <;> rfl
  | cons f fs ih =>
    rw [locate,locate]
    split
    · rfl
    · split
      · split <;> rfl
      · exact ih (n + 1)

theorem assign_under_of_passesOn (h : f.PassesOn name) (v : Value) :
    (s.under f).assign name v = (s.assign name v).map fun t => t.under f := by
  obtain ⟨hb, hk⟩ := h
  have hl : locate s.heap s.globals name 0 (f :: s.frames) =
      (locate s.heap s.globals name 0 s.frames).map Place.outer := by
    rw [← locate_succ,locate,hb]
    cases hkind : f.kind with
    | ofInstance r => exact absurd hkind (hk r)
    | call => rfl
    | block => rfl
  rw [assign,assign]
  simp only [under,hl]
  cases hp : locate s.heap s.globals name 0 s.frames with
  | none => rfl
  | some place =>
    cases place with
    | frame n => rfl
    | global => rfl
    | property r => rfl

theorem assign_under_of_some (s : Memory) (h : Bindings.get? f.bindings name = some b) (v : Value) :
    (s.under f).assign name v =
      .ok (s.under { f with bindings := Bindings.setValue f.bindings name v }) := by
  simp [assign,under,locate,h]

theorem assign_under_of_ofInstance (s : Memory) (h : Bindings.get? f.bindings name = none)
    (hk : f.kind = .ofInstance r) (v : Value) :
    (s.under f).assign name v =
      if (Bindings.get? (s.properties r) name).isSome then .ok ((s.setProperty r name v).under f)
      else .error (.undefined name) := by
  by_cases hb : (Bindings.get? (s.heap[r.id]?.getD []) name).isSome
  · simp [assign,under,locate,h,hk,properties,hb,setProperty,setProperties]
  · simp [assign,under,locate,h,hk,properties,hb]

/-- An assignment, frame by frame from the innermost one. -/
inductive Writes (name : String) (v : Value) : Memory → Memory → Prop where
  | global {bs : List Binding} {heap : Array (List Binding)} {b : Binding}
      (h : Bindings.get? bs name = some b) :
      Writes name v ⟨[], bs, heap⟩ ⟨[], Bindings.setValue bs name v, heap⟩
  | here (s : Memory) {f : Frame} {b : Binding} (h : Bindings.get? f.bindings name = some b) :
      Writes name v (s.under f) (s.under { f with bindings := Bindings.setValue f.bindings name v })
  | property {s : Memory} {f : Frame} {r : Reference} {b : Binding}
      (hf : Bindings.get? f.bindings name = none) (hk : f.kind = .ofInstance r)
      (h : Bindings.get? (s.properties r) name = some b) :
      Writes name v (s.under f) ((s.setProperty r name v).under f)
  | outer {s t : Memory} {f : Frame} (hf : f.PassesOn name) (h : Writes name v s t) :
      Writes name v (s.under f) (t.under f)

/-- Both walks end at the same frame: an assignment writes where the look-up finds the name, and is refused
where it finds none. -/
theorem assign_cases (s : Memory) (name : String) (v : Value) :
    (∃ t, s.assign name v = .ok t ∧ Writes name v s t) ∨
      s.assign name v = .error (.undefined name) ∧ s.get? name = none := by
  obtain ⟨fs, globals, heap⟩ := s
  induction fs with
  | nil =>
    cases hb : Bindings.get? globals name with
    | some b => exact .inl ⟨_, by simp [assign,locate,hb], .global hb⟩
    | none => exact .inr ⟨by simp [assign,locate,hb], hb⟩
  | cons f fs ih =>
    let s : Memory := ⟨fs, globals, heap⟩
    change (∃ t, (s.under f).assign name v = .ok t ∧ Writes name v (s.under f) t) ∨
      (s.under f).assign name v = .error (.undefined name) ∧ (s.under f).get? name = none
    rcases f.walk_cases name with ⟨b, hb⟩ | ⟨r, hf, hk⟩ | hf
    · exact .inl ⟨_, assign_under_of_some s hb v, .here s hb⟩
    · rw [assign_under_of_ofInstance s hf hk,get?_under_of_ofInstance hf hk]
      cases hb : Bindings.get? (s.properties r) name with
      | some b => exact .inl ⟨_, rfl, .property hf hk hb⟩
      | none => exact .inr ⟨rfl, rfl⟩
    · rw [assign_under_of_passesOn hf,get?_under_of_passesOn hf]
      rcases ih with ⟨t, ht, hw⟩ | ⟨he, hn⟩
      · exact .inl ⟨t.under f, congrArg (Except.map _) ht, .outer hf hw⟩
      · exact .inr ⟨congrArg (Except.map _) he, hn⟩

namespace Writes

/-- The name stands for the same binding, with the new value. -/
theorem get?_self (h : Writes name v s t) :
    ∃ b, s.get? name = some b ∧ t.get? name = some (b.withValue v) := by
  induction h with
  | @global bs heap b h => exact ⟨b, h, by simp [get?,find,Bindings.get?_setValue_self,h]⟩
  | @here s f b h =>
    refine ⟨b, get?_under_of_some h, get?_under_of_some ?_⟩
    simp [Bindings.get?_setValue_self,h]
  | @property s f r b hf hk h =>
    refine ⟨b, (get?_under_of_ofInstance hf hk).trans h, ?_⟩
    rw [get?_under_of_ofInstance hf hk,properties_setProperty]
    simp [Bindings.get?_setValue_self,h]
  | outer hf _ ih =>
    obtain ⟨b, hs, ht⟩ := ih
    exact ⟨b, (get?_under_of_passesOn hf).trans hs, (get?_under_of_passesOn hf).trans ht⟩

/-- Every other name stands for what it stood for. -/
theorem get?_of_ne (h : Writes name v s t) (hne : other ≠ name) : t.get? other = s.get? other := by
  induction h with
  | @global bs heap b h => exact Bindings.get?_setValue_of_ne bs v hne
  | @here s f b h =>
    have hb := Bindings.get?_setValue_of_ne f.bindings v hne
    simp only [get?,under,find,hb]
  | @property s f r b hf hk h =>
    rcases f.walk_cases other with ⟨c, hc⟩ | ⟨q, ho, hq⟩ | ho
    · rw [get?_under_of_some hc,get?_under_of_some hc]
    · rw [get?_under_of_ofInstance ho hq,get?_under_of_ofInstance ho hq,properties_setProperty]
      split
      · exact Bindings.get?_setValue_of_ne _ v hne
      · rfl
    · exact absurd hk (ho.2 r)
  | @outer s t f hf _ ih =>
    rcases f.walk_cases other with ⟨c, hc⟩ | ⟨q, -, hq⟩ | ho
    · rw [get?_under_of_some hc,get?_under_of_some hc]
    · exact absurd hq (hf.2 q)
    · rw [get?_under_of_passesOn ho,get?_under_of_passesOn ho,ih]

/-- Behind the frame of an instance no frame changes, and neither do the global bindings. -/
theorem behind (h : Writes name v s t) {i : Nat} (hi : s.frames[i]? = some f)
    (hk : f.kind = .ofInstance r) :
    t.frames.drop (i + 1) = s.frames.drop (i + 1) ∧ t.globals = s.globals := by
  induction h generalizing i with
  | global _ => simp at hi
  | here s _ => exact ⟨rfl, rfl⟩
  | property _ _ _ => exact ⟨rfl, rfl⟩
  | @outer s t g hg _ ih =>
    cases i with
    | zero =>
      obtain rfl : g = f := by simpa using hi
      exact absurd hk (hg.2 r)
    | succ i => exact ih (by simpa using hi)

/-- No instance but the one whose method is running gets another property. -/
theorem properties (h : Writes name v s t) {q : Reference}
    (hq : ∀ r, s.currentInstance? = some r → r.id ≠ q.id) : t.properties q = s.properties q := by
  induction h with
  | global _ => rfl
  | here s _ => rfl
  | @property s f r b hf hk h =>
    have hr : r.id ≠ q.id := hq r (by simp [currentInstance?,hk])
    rw [properties_under,properties_setProperty,if_neg hr.symm,properties_under]
  | @outer s t f hf _ ih =>
    refine ih fun r hr => hq r ?_
    cases hkind : f.kind with
    | ofInstance r => exact absurd hkind (hf.2 r)
    | call => simpa [currentInstance?,hkind] using hr
    | block => simpa [currentInstance?,hkind] using hr

theorem layout (h : Writes name v s t) : t.layout = s.layout := by
  induction h with
  | @global bs heap b _ => simp [Memory.layout,Bindings.slots_setValue]
  | @here s f b _ => simp [Memory.layout,under,Bindings.slots_setValue]
  | property _ _ _ => rfl
  | @outer s t f _ _ ih => exact congrArg ((some f.kind, Bindings.slots f.bindings) :: ·) ih

theorem keepsInstances (h : Writes name v s t) : KeepsInstances s t := by
  induction h with
  | global _ => exact .of_heap rfl
  | here s _ => exact .of_heap rfl
  | @property s f r b _ _ _ => exact keepsInstances_setProperty s r name v
  | outer _ _ ih => exact ih

theorem size_heap (h : Writes name v s t) : t.heap.size = s.heap.size := by
  induction h with
  | global _ => rfl
  | here s _ => rfl
  | @property s f r b _ _ _ => exact size_setProperty s r name v
  | outer _ _ ih => exact ih

end Writes

theorem writes_of_assign (h : s.assign name v = .ok t) : Writes name v s t := by
  rcases assign_cases s name v with ⟨u, hu, hw⟩ | ⟨he, -⟩
  · obtain rfl := Except.ok.inj (hu.symm.trans h)
    exact hw
  · cases he.symm.trans h

/-- An assignment changes a value and nothing else. -/
theorem layout_assign (h : s.assign name v = .ok t) : t.layout = s.layout := (writes_of_assign h).layout

theorem keepsInstances_assign (h : s.assign name v = .ok t) : KeepsInstances s t :=
  (writes_of_assign h).keepsInstances

theorem assign_ok_iff (s : Memory) (name : String) (v : Value) :
    (∃ t, s.assign name v = .ok t) ↔ ∃ b, s.get? name = some b := by
  rcases assign_cases s name v with ⟨t, ht, hw⟩ | ⟨he, hn⟩
  · obtain ⟨b, hb, -⟩ := hw.get?_self
    simp [ht,hb]
  · simp [he,hn]

end Memory

end LineScript
