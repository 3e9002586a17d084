import LineScript.Proofs.Memory.Writes
set_option autoImplicit false

/-!
The barrier of an instance. A memory is put onto outer frames and global bindings; once it has a frame of
an instance, no operation on the whole sees or changes what lies below, so every operation can be done on
the upper memory alone.
-/

namespace LineScript

namespace Memory

/-- What lies below: frames and global bindings. -/
abbrev Below : Type := List Frame × List Binding

/-- The memory on top of outer frames, with other global bindings. -/
def onto (s : Memory) (below : Below) : Memory := ⟨s.frames ++ below.1, below.2, s.heap⟩

/-- Some frame is that of an instance. -/
def Barred (fs : List Frame) : Prop := ∃ f ∈ fs, ∃ r, f.kind = .ofInstance r

theorem Barred.tail {f : Frame} {fs : List Frame} (h : Barred (f :: fs))
    (hf : ∀ r, f.kind ≠ .ofInstance r) : Barred fs := by
  obtain ⟨g, hg, r, hr⟩ := h
  rcases List.mem_cons.1 hg with rfl | hg
  · exact absurd hr (hf r)
  · exact ⟨g, hg, r, hr⟩

theorem find_append {heap : Array (List Binding)} {globals globals' : List Binding} {name : String}
    {fs below : List Frame} (h : Barred fs) :
    find heap globals' name (fs ++ below) = find heap globals name fs := by
  induction fs with
  | nil => obtain ⟨_, hf, _⟩ := h; cases hf
  | cons f fs ih =>
    rw [List.cons_append,find,find]
    cases hk : f.kind with
    | ofInstance r => rfl
    | call => simp only [ih (h.tail (by simp [hk]))]
    | block => simp only [ih (h.tail (by simp [hk]))]

variable {s : Memory} (below : Below)

theorem get?_onto (h : Barred s.frames) (name : String) :
    (s.onto below).get? name = s.get? name := find_append h

theorem currentInstance?_onto (h : Barred s.frames) :
    (s.onto below).currentInstance? = s.currentInstance? := by
  obtain ⟨f, hf, r, hr⟩ := h
  cases hc : s.currentInstance? with
  | some current =>
    unfold currentInstance? at hc ⊢
    simp only [onto,List.findSome?_append,hc,Option.some_or]
  | none =>
    have hnone := List.findSome?_eq_none_iff.1 hc f hf
    simp [hr] at hnone

theorem pop_onto {f : Frame} {fs : List Frame} (h : s.frames = f :: fs) :
    (s.onto below).pop = s.pop.onto below := by simp [onto,pop,h]

theorem bind_onto (h : s.frames ≠ []) (b : Binding) :
    (s.onto below).bind b = (s.bind b).onto below := by
  cases hf : s.frames with
  | nil => exact absurd hf h
  | cons f fs => simp [bind,onto,setTop,top,hf]

theorem declare_onto (h : s.frames ≠ []) (b : Binding) :
    (s.onto below).declare b = (s.declare b).map fun t => t.onto below := by
  have htop : (s.onto below).top = s.top := by
    cases hf : s.frames with
    | nil => exact absurd hf h
    | cons f fs => simp [onto,top,hf]
  rw [declare,declare,htop,bind_onto below h]
  split <;> rfl

theorem assign_onto (h : Barred s.frames) (name : String) (v : Value) :
    (s.onto below).assign name v = (s.assign name v).map fun t => t.onto below := by
  obtain ⟨fs, globals, heap⟩ := s
  induction fs with
  | nil => obtain ⟨_, hf, _⟩ := h; cases hf
  | cons f fs ih =>
    let s : Memory := ⟨fs, globals, heap⟩
    change ((s.onto below).under f).assign name v = ((s.under f).assign name v).map fun t => t.onto below
    rcases f.walk_cases name with ⟨b, hb⟩ | ⟨r, hf, hk⟩ | hf
    · rw [assign_under_of_some _ hb,assign_under_of_some _ hb]
      rfl
    · rw [assign_under_of_ofInstance _ hf hk,assign_under_of_ofInstance _ hf hk]
      change (if (Bindings.get? (s.properties r) name).isSome then _ else _) = _
      split <;> rfl
    · rw [assign_under_of_passesOn hf,assign_under_of_passesOn hf,show s.onto below = _ from rfl,
        ih (h.tail hf.2)]
      cases s.assign name v with
      | ok t => rfl
      | error e => rfl

end Memory

/-- The kinds of the frames that two memories share, and what each of them has below these frames. -/
structure Shield where
  kinds : List FrameKind
  left : Memory.Below
  right : Memory.Below

namespace Shield

def push (σ : Shield) (kind : FrameKind) : Shield := { σ with kinds := kind :: σ.kinds }

def Barred (σ : Shield) : Prop := ∃ r, .ofInstance r ∈ σ.kinds

theorem Barred.push {σ : Shield} (h : σ.Barred) (kind : FrameKind) : (σ.push kind).Barred := by
  obtain ⟨r, hr⟩ := h
  exact ⟨r, List.mem_cons_of_mem kind hr⟩

theorem Barred.ne_nil {σ : Shield} (h : σ.Barred) : σ.kinds ≠ [] := by
  obtain ⟨r, hr⟩ := h
  exact List.ne_nil_of_mem hr

theorem barred_push_ofInstance (σ : Shield) (r : Reference) : (σ.push (.ofInstance r)).Barred :=
  ⟨r, List.mem_cons_self⟩

/-- The two memories are one, put onto what each of them has below. -/
def Covers (σ : Shield) (s t : Memory) : Prop :=
  ∃ u : Memory, u.frames.map Frame.kind = σ.kinds ∧ s = u.onto σ.left ∧ t = u.onto σ.right

/-- Both results are errors, the same one, or covered memories. -/
inductive CoversEach (σ : Shield) : Except RuntimeError Memory → Except RuntimeError Memory → Prop
  | ok {s t : Memory} (h : σ.Covers s t) : σ.CoversEach (.ok s) (.ok t)
  | error (e : RuntimeError) : σ.CoversEach (.error e) (.error e)

namespace Covers

variable {σ : Shield} {s t : Memory}

theorem barred {u : Memory} (hσ : σ.Barred) (hk : u.frames.map Frame.kind = σ.kinds) :
    Memory.Barred u.frames := by
  obtain ⟨r, hr⟩ := hσ
  obtain ⟨f, hf, hfr⟩ := List.mem_map.1 (hk ▸ hr)
  exact ⟨f, hf, r, hfr⟩

theorem frames_ne_nil {u : Memory} (hσ : σ.kinds ≠ []) (hk : u.frames.map Frame.kind = σ.kinds) :
    u.frames ≠ [] := by
  rintro hu
  exact hσ (by rw [← hk,hu]; rfl)

theorem heap (h : σ.Covers s t) : t.heap = s.heap := by
  obtain ⟨u, -, rfl, rfl⟩ := h
  rfl

theorem properties (h : σ.Covers s t) (r : Reference) : t.properties r = s.properties r := by
  rw [Memory.properties,h.heap,Memory.properties]

theorem primitiveValue (h : σ.Covers s t) (r : Reference) :
    t.primitiveValue r = s.primitiveValue r := by
  rw [Memory.primitiveValue,h.properties,Memory.primitiveValue]

theorem get? (h : σ.Covers s t) (hσ : σ.Barred) (name : String) : t.get? name = s.get? name := by
  obtain ⟨u, hk, rfl, rfl⟩ := h
  have hb := barred hσ hk
  rw [Memory.get?_onto _ hb,Memory.get?_onto _ hb]

theorem currentInstance? (h : σ.Covers s t) (hσ : σ.Barred) :
    t.currentInstance? = s.currentInstance? := by
  obtain ⟨u, hk, rfl, rfl⟩ := h
  have hb := barred hσ hk
  rw [Memory.currentInstance?_onto _ hb,Memory.currentInstance?_onto _ hb]

theorem push (h : σ.Covers s t) (kind : FrameKind) :
    (σ.push kind).Covers (s.push kind) (t.push kind) := by
  obtain ⟨u, hk, rfl, rfl⟩ := h
  exact ⟨u.push kind, congrArg (kind :: ·) hk, rfl, rfl⟩

theorem pop {kind : FrameKind} (h : (σ.push kind).Covers s t) : σ.Covers s.pop t.pop := by
  obtain ⟨u, hk, rfl, rfl⟩ := h
  cases hf : u.frames with
  | nil => simp [hf,Shield.push] at hk
  | cons f fs =>
    refine ⟨u.pop, ?_, Memory.pop_onto _ hf, Memory.pop_onto _ hf⟩
    have hk : (f :: fs).map Frame.kind = kind :: σ.kinds := hf ▸ hk
    simpa [Memory.pop,hf] using (List.cons.inj hk).2

theorem allocate (h : σ.Covers s t) (c : Class Token) (bs : List Binding) :
    (t.allocate c bs).1 = (s.allocate c bs).1 ∧
      σ.Covers (s.allocate c bs).2 (t.allocate c bs).2 := by
  obtain ⟨u, hk, rfl, rfl⟩ := h
  exact ⟨rfl, (u.allocate c bs).2, hk, rfl, rfl⟩

theorem setProperty (h : σ.Covers s t) (r : Reference) (name : String) (v : Value) :
    σ.Covers (s.setProperty r name v) (t.setProperty r name v) := by
  obtain ⟨u, hk, rfl, rfl⟩ := h
  exact ⟨u.setProperty r name v, hk, rfl, rfl⟩

theorem kinds_bind (u : Memory) (b : Binding) :
    (u.bind b).frames.map Frame.kind = u.frames.map Frame.kind := by
  cases hf : u.frames with
  | nil => simp [Memory.bind,Memory.setTop,hf]
  | cons f fs => simp [Memory.bind,Memory.setTop,hf]

theorem bind (h : σ.Covers s t) (hσ : σ.kinds ≠ []) (b : Binding) :
    σ.Covers (s.bind b) (t.bind b) := by
  obtain ⟨u, hk, rfl, rfl⟩ := h
  have hu := frames_ne_nil hσ hk
  exact ⟨u.bind b, (kinds_bind u b).trans hk, Memory.bind_onto _ hu b, Memory.bind_onto _ hu b⟩

theorem foldl_bind (h : σ.Covers s t) (hσ : σ.kinds ≠ []) (bs : List Binding) :
    σ.Covers (bs.foldl Memory.bind s) (bs.foldl Memory.bind t) := by
  induction bs generalizing s t with
  | nil => exact h
  | cons b bs ih => exact ih (h.bind hσ b)

theorem of_map {u : Memory} {r : Except RuntimeError Memory} (hk : u.frames.map Frame.kind = σ.kinds)
    (hr : ∀ v, r = .ok v → v.frames.map Frame.kind = u.frames.map Frame.kind) :
    σ.CoversEach (r.map fun v => v.onto σ.left) (r.map fun v => v.onto σ.right) := by
  cases r with
  | ok v => exact .ok ⟨v, (hr v rfl).trans hk, rfl, rfl⟩
  | error e => exact .error e

theorem declare (h : σ.Covers s t) (hσ : σ.kinds ≠ []) (b : Binding) :
    σ.CoversEach (s.declare b) (t.declare b) := by
  obtain ⟨u, hk, rfl, rfl⟩ := h
  have hu := frames_ne_nil hσ hk
  rw [Memory.declare_onto _ hu,Memory.declare_onto _ hu]
  refine of_map hk fun v hv => ?_
  obtain rfl := Memory.bind_of_declare hv
  exact kinds_bind u b

theorem assign (h : σ.Covers s t) (hσ : σ.Barred) (name : String) (v : Value) :
    σ.CoversEach (s.assign name v) (t.assign name v) := by
  obtain ⟨u, hk, rfl, rfl⟩ := h
  have hb := barred hσ hk
  rw [Memory.assign_onto _ hb,Memory.assign_onto _ hb]
  refine of_map hk fun w hw => ?_
  obtain ⟨hf, -⟩ := List.append_inj' (Memory.layout_assign hw) rfl
  simpa [Function.comp_def] using congrArg (List.filterMap Prod.fst) hf

end Covers

end Shield

end LineScript
