import LineScript.Memory
set_option autoImplicit false

/-!
The layout of a memory: which frames there are, of which kind, and which slots they have. Where the layout
stays and every instance keeps its slots, every visible name keeps its slot; a declaration adds one slot at
the end of the innermost frame.
-/

namespace LineScript

/-- A binding without its value. -/
structure Slot where
  name : String
  type : DataType
  required : Bool
  line : Nat
  deriving DecidableEq, Repr

def Binding.slot (b : Binding) : Slot := ⟨b.name, b.type, b.required, b.line⟩

namespace Bindings

def slots (bs : List Binding) : List Slot := bs.map Binding.slot

theorem slots_append (bs cs : List Binding) : slots (bs ++ cs) = slots bs ++ slots cs :=
  List.map_append

theorem name_of_get? {bs : List Binding} {name : String} {b : Binding}
    (h : get? bs name = some b) : b.name = name := by
  simpa using List.find?_some h

theorem mem_of_get? {bs : List Binding} {name : String} {b : Binding}
    (h : get? bs name = some b) : b ∈ bs := List.mem_of_find?_eq_some h

/-- Which slot a name has is read off the slots alone. -/
theorem slot_get? (bs : List Binding) (name : String) :
    (get? bs name).map Binding.slot = (slots bs).find? fun s => s.name == name := by
  rw [slots,List.find?_map]
  rfl

theorem slots_setValue (bs : List Binding) (name : String) (v : Value) :
    slots (setValue bs name v) = slots bs := by
  induction bs with
  | nil => rfl
  | cons c bs ih =>
    rw [setValue]
    split
    · rfl
    · exact congrArg (c.slot :: ·) ih

/-- A binding of a new name goes to the end. -/
theorem put_of_get?_none {bs : List Binding} {b : Binding} (h : get? bs b.name = none) :
    put bs b = bs ++ [b] := by
  induction bs with
  | nil => rfl
  | cons c bs ih =>
    obtain ⟨hc, hr⟩ : c.name ≠ b.name ∧ get? bs b.name = none := by
      simpa [get?] using h
    rw [put,if_neg hc,ih hr]
    rfl

theorem get?_put_of_ne (bs : List Binding) {b : Binding} {name : String} (h : name ≠ b.name) :
    get? (put bs b) name = get? bs name := by
  induction bs with
  | nil => simp [put,get?,h.symm]
  | cons c bs ih =>
    rw [put]
    split
    · next hc => simp [get?,hc,h.symm]
    · by_cases hn : c.name = name
      · simp [get?,hn]
      · simpa [get?,hn] using ih

end Bindings

namespace Memory

/-- Every frame with its kind and slots, innermost first; the global bindings stand last and have no
kind. -/
def layout (s : Memory) : List (Option FrameKind × List Slot) :=
  s.frames.map (fun f => (some f.kind, Bindings.slots f.bindings)) ++
    [(none, Bindings.slots s.globals)]

/-- The second layout is the first with slots added at the end of the innermost frame. -/
def Grows (l l' : List (Option FrameKind × List Slot)) : Prop :=
  ∃ kind slots more outer, l = (kind, slots) :: outer ∧ l' = (kind, slots ++ more) :: outer

theorem Grows.trans {a b c : List (Option FrameKind × List Slot)} (h : Grows a b) (h' : Grows b c) :
    Grows a c := by
  obtain ⟨kind, slots, more, outer, rfl, rfl⟩ := h
  obtain ⟨_, _, more', _, hb, rfl⟩ := h'
  cases hb
  exact ⟨kind, slots, more ++ more', outer, rfl, by rw [List.append_assoc]⟩

theorem layout_ne_nil (s : Memory) : s.layout ≠ [] := by simp [layout]

theorem Grows.refl (s : Memory) : Grows s.layout s.layout := by
  cases h : s.layout with
  | nil => exact absurd h s.layout_ne_nil
  | cons top outer => exact ⟨top.1, top.2, [], outer, rfl, by simp⟩

theorem layout_push (s : Memory) (kind : FrameKind) :
    (s.push kind).layout = (some kind, []) :: s.layout := rfl

theorem layout_of_frames {s : Memory} {f : Frame} {fs : List Frame} (h : s.frames = f :: fs) :
    s.layout = (some f.kind, Bindings.slots f.bindings) :: s.pop.layout := by
  simp [layout,pop,h]

/-- Growth inside a new frame is gone with the frame. -/
theorem layout_pop_of_grows {s t : Memory} {kind : FrameKind}
    (h : Grows (s.push kind).layout t.layout) : t.pop.layout = s.layout := by
  obtain ⟨_, _, _, outer, hs, ht⟩ := h
  cases layout_push s kind ▸ hs
  cases hf : t.frames with
  | nil => simp [layout,hf] at ht
  | cons f fs =>
    rw [layout_of_frames hf] at ht
    exact (List.cons.inj ht).2

theorem layout_setTop (s : Memory) (bs : List Binding) :
    ∃ kind outer, s.layout = (kind, Bindings.slots s.top) :: outer ∧
      (s.setTop bs).layout = (kind, Bindings.slots bs) :: outer := by
  cases hf : s.frames with
  | nil => exact ⟨none, [], by simp [layout,top,hf], by simp [layout,setTop,hf]⟩
  | cons f fs =>
    refine ⟨some f.kind, s.pop.layout, ?_, ?_⟩
    · rw [layout_of_frames hf,top,hf]
    · simp [layout,setTop,pop,hf]

theorem heap_setTop (s : Memory) (bs : List Binding) : (s.setTop bs).heap = s.heap := by
  unfold setTop
  split <;> rfl

/-- In a frame without bindings any bindings are growth. -/
theorem grows_push_setTop (s : Memory) (kind : FrameKind) (bs : List Binding) :
    Grows (s.push kind).layout ((s.push kind).setTop bs).layout :=
  ⟨some kind, [], Bindings.slots bs, s.layout, rfl, rfl⟩

/-- A declaration that is not refused is growth by one slot. -/
theorem grows_declare {s t : Memory} {b : Binding} (h : s.declare b = .ok t) :
    Grows s.layout t.layout := by
  unfold declare at h
  split at h
  · cases h
  · next hn =>
    obtain rfl : s.bind b = t := by simpa using h
    have hp := Bindings.put_of_get?_none (Option.not_isSome_iff_eq_none.1 hn)
    obtain ⟨kind, outer, hs, ht⟩ := s.layout_setTop (Bindings.put s.top b)
    rw [bind,hs,ht,hp,Bindings.slots_append]
    exact ⟨kind, Bindings.slots s.top, [b.slot], outer, rfl, rfl⟩

theorem bind_of_declare {s t : Memory} {b : Binding} (h : s.declare b = .ok t) : t = s.bind b := by
  unfold declare at h
  split at h
  · cases h
  · simpa using h.symm

/-- The slots of the instance with that number. -/
def slotsOf? (s : Memory) (id : Nat) : Option (List Slot) := s.heap[id]?.map Bindings.slots

/-- Every instance stays and keeps its slots. -/
def KeepsInstances (s t : Memory) : Prop :=
  ∀ id slots, s.slotsOf? id = some slots → t.slotsOf? id = some slots

theorem KeepsInstances.of_heap {s t : Memory} (h : t.heap = s.heap) : KeepsInstances s t := by
  intro id slots hs
  rwa [slotsOf?,h]

theorem KeepsInstances.trans {s t u : Memory} (h : KeepsInstances s t) (h' : KeepsInstances t u) :
    KeepsInstances s u := fun id slots hs => h' id slots (h id slots hs)

theorem keepsInstances_setProperty (s : Memory) (r : Reference) (name : String) (v : Value) :
    KeepsInstances s (s.setProperty r name v) := by
  intro id slots hs
  by_cases hid : r.id = id
  · subst hid
    cases hb : s.heap[r.id]? with
    | none => simp [slotsOf?,hb] at hs
    | some bs =>
      have hlt : r.id < s.heap.size := (Array.getElem?_eq_some_iff.1 hb).1
      simpa [slotsOf?,setProperty,setProperties,properties,hb,hlt,Bindings.slots_setValue] using hs
  · simpa [slotsOf?,setProperty,setProperties,hid] using hs

theorem keepsInstances_allocate (s : Memory) (c : Class Token) (bs : List Binding) :
    KeepsInstances s (s.allocate c bs).2 := by
  intro id slots hs
  cases hb : s.heap[id]? with
  | none => simp [slotsOf?,hb] at hs
  | some old =>
    have hlt : id < s.heap.size := (Array.getElem?_eq_some_iff.1 hb).1
    have hne : id ≠ s.heap.size := Nat.ne_of_lt hlt
    simpa [slotsOf?,allocate,Array.getElem?_push,hne] using hs

/-- The slot that a name stands for. -/
def slot? (s : Memory) (name : String) : Option Slot := (s.get? name).map Binding.slot

/-- Every visible name goes on standing for the slot that it stands for. -/
def KeepsNames (s t : Memory) : Prop := ∀ name slot, s.slot? name = some slot → t.slot? name = some slot

theorem KeepsNames.trans {s t u : Memory} (h : KeepsNames s t) (h' : KeepsNames t u) :
    KeepsNames s u := fun name slot hs => h' name slot (h name slot hs)

theorem find_slot {heap heap' : Array (List Binding)} {globals globals' : List Binding}
    {name : String} {slot : Slot} {fs fs' : List Frame}
    (hh : ∀ (id : Nat) slots, heap[id]?.map Bindings.slots = some slots →
      heap'[id]?.map Bindings.slots = some slots)
    (hg : Bindings.slots globals' = Bindings.slots globals)
    (hf : fs'.map (fun f => (some f.kind, Bindings.slots f.bindings)) =
      fs.map fun f => (some f.kind, Bindings.slots f.bindings))
    (h : (find heap globals name fs).map Binding.slot = some slot) :
    (find heap' globals' name fs').map Binding.slot = some slot := by
  induction fs generalizing fs' with
  | nil =>
    obtain rfl : fs' = [] := by simpa using hf
    rw [find,Bindings.slot_get?] at h ⊢
    rwa [hg]
  | cons f fs ih =>
    cases fs' with
    | nil => simp at hf
    | cons f' fs' =>
      obtain ⟨⟨hk, hs⟩, hr⟩ :
          (f'.kind = f.kind ∧ Bindings.slots f'.bindings = Bindings.slots f.bindings) ∧ fs'.map (fun f => (some f.kind, Bindings.slots f.bindings)) =
            fs.map fun f => (some f.kind, Bindings.slots f.bindings) := by simpa using hf
      have hb : (Bindings.get? f'.bindings name).map Binding.slot =
          (Bindings.get? f.bindings name).map Binding.slot := by
        rw [Bindings.slot_get?,Bindings.slot_get?,hs]
      rw [find] at h ⊢
      cases hg : Bindings.get? f.bindings name with
      | some b =>
        obtain ⟨b', hb', he⟩ : ∃ b', Bindings.get? f'.bindings name = some b' ∧ b'.slot = b.slot := by
          simpa [hg] using hb
        simpa [hg,hb',he] using h
      | none =>
        have hb' : Bindings.get? f'.bindings name = none := by simpa [hg] using hb
        rw [hg] at h
        rw [hb',hk]
        cases hkind : f.kind with
        | call => simpa [hkind] using ih hr (by simpa [hkind] using h)
        | block => simpa [hkind] using ih hr (by simpa [hkind] using h)
        | ofInstance r =>
          rw [hkind] at h
          cases hi : heap[r.id]? with
          | none => simp [hi,Bindings.get?] at h
          | some bs =>
            obtain ⟨bs', hi', he⟩ :
                ∃ bs', heap'[r.id]? = some bs' ∧ Bindings.slots bs' = Bindings.slots bs := by
              simpa using hh r.id (Bindings.slots bs) (by simp [hi])
            simp only [hi,Option.getD_some,Bindings.slot_get?] at h
            simpa [hi',Bindings.slot_get?,he] using h

/-- Names keep their slots where the layout and the instances stay. -/
theorem KeepsNames.of_layout {s t : Memory} (hl : t.layout = s.layout) (hi : KeepsInstances s t) :
    KeepsNames s t := by
  intro name slot h
  obtain ⟨hf, hg⟩ := List.append_inj' hl rfl
  exact find_slot hi (by simpa using hg) hf h

theorem KeepsNames.refl (s : Memory) : KeepsNames s s := fun _ _ h => h

/-- What a look-up finds stands in the global bindings, in a frame or in an instance. -/
theorem exists_of_find {heap : Array (List Binding)} {globals : List Binding} {name : String}
    {fs : List Frame} {b : Binding} (h : find heap globals name fs = some b) :
    ∃ bs, (bs = globals ∨ (∃ f ∈ fs, bs = f.bindings) ∨ bs ∈ heap) ∧
      Bindings.get? bs name = some b := by
  induction fs with
  | nil => exact ⟨globals, .inl rfl, h⟩
  | cons f fs ih =>
    have houter (h : find heap globals name fs = some b) :
        ∃ bs, (bs = globals ∨ (∃ g ∈ f :: fs, bs = g.bindings) ∨ bs ∈ heap) ∧
          Bindings.get? bs name = some b := by
      obtain ⟨bs, hbs, hb⟩ := ih h
      refine ⟨bs, hbs.imp_right (Or.imp_left ?_), hb⟩
      rintro ⟨g, hg, hbg⟩
      exact ⟨g, List.mem_cons_of_mem f hg, hbg⟩
    rw [find] at h
    cases hb : Bindings.get? f.bindings name with
    | some c =>
      obtain rfl : c = b := by simpa [hb] using h
      exact ⟨f.bindings, .inr (.inl ⟨f, List.mem_cons_self, rfl⟩), hb⟩
    | none =>
      simp only [hb] at h
      cases hk : f.kind with
      | call => exact houter (by simpa [hk] using h)
      | block => exact houter (by simpa [hk] using h)
      | ofInstance r =>
        simp only [hk] at h
        cases hr : heap[r.id]? with
        | none => simp [hr,Bindings.get?] at h
        | some bs =>
          exact ⟨bs, .inr (.inr (Array.mem_of_getElem? hr)), by simpa [hr] using h⟩

theorem name_of_get? {s : Memory} {name : String} {b : Binding} (h : s.get? name = some b) :
    b.name = name := by
  obtain ⟨bs, -, hb⟩ := exists_of_find h
  exact Bindings.name_of_get? hb

theorem get?_bind_of_ne (s : Memory) {b : Binding} {name : String} (h : name ≠ b.name) :
    (s.bind b).get? name = s.get? name := by
  cases hf : s.frames with
  | nil => simp [bind,get?,setTop,top,hf,find,Bindings.get?_put_of_ne _ h]
  | cons f fs => simp [bind,get?,setTop,top,hf,find,Bindings.get?_put_of_ne _ h]

end Memory

end LineScript
