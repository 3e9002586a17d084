import LineScript.Proofs.Memory.Writes
set_option autoImplicit false

/-!
What holds of every binding of a memory. A write keeps it if it holds of the new binding; for an
assignment that is the binding which the look-up of the name finds, with the new value.
-/

namespace LineScript

namespace Bindings

variable {P : Binding → Prop}

theorem forall_put {bs : List Binding} {b : Binding} (hbs : ∀ c ∈ bs, P c) (hb : P b) :
    ∀ c ∈ put bs b, P c := by
  induction bs with
  | nil => simpa [put] using hb
  | cons d bs ih =>
    obtain ⟨hd, hbs⟩ := List.forall_mem_cons.1 hbs
    by_cases h : d.name = b.name
    · simpa [put,h] using ⟨hb, hbs⟩
    · simpa [put,h] using ⟨hd, ih hbs⟩

theorem forall_setValue {bs : List Binding} {name : String} {v : Value} (hbs : ∀ c ∈ bs, P c)
    (hv : ∀ b, get? bs name = some b → P (b.withValue v)) : ∀ c ∈ setValue bs name v, P c := by
  induction bs with
  | nil => simp [setValue]
  | cons d bs ih =>
    obtain ⟨hd, hbs⟩ := List.forall_mem_cons.1 hbs
    by_cases h : d.name = name
    · rw [setValue,if_pos h]
      exact List.forall_mem_cons.2 ⟨hv d (by simp [get?,h]), hbs⟩
    · have hrest := ih hbs fun b hb => hv b (by simpa [get?,h] using hb)
      simpa [setValue,h] using ⟨hd, hrest⟩

end Bindings

namespace Memory

/-- Every variable and every property satisfies `P`. -/
structure All (P : Binding → Prop) (s : Memory) : Prop where
  frames : ∀ f ∈ s.frames, ∀ b ∈ f.bindings, P b
  globals : ∀ b ∈ s.globals, P b
  heap : ∀ bs ∈ s.heap, ∀ b ∈ bs, P b

namespace All

variable {P : Binding → Prop} {s t : Memory}

theorem get? (h : s.All P) {name : String} {b : Binding} (hb : s.get? name = some b) : P b := by
  obtain ⟨bs, hbs, hb⟩ := exists_of_find hb
  have hmem := Bindings.mem_of_get? hb
  rcases hbs with rfl | ⟨f, hf, rfl⟩ | hi
  · exact h.globals b hmem
  · exact h.frames f hf b hmem
  · exact h.heap bs hi b hmem

theorem empty : All P Memory.empty := by constructor <;> simp [Memory.empty]

theorem push (h : s.All P) (kind : FrameKind) : (s.push kind).All P :=
  { h with frames := List.forall_mem_cons.2 ⟨by simp, h.frames⟩ }

theorem pop (h : s.All P) : s.pop.All P :=
  { h with frames := fun f hf => h.frames f (List.mem_of_mem_drop hf) }

theorem top (h : s.All P) : ∀ b ∈ s.top, P b := by
  unfold Memory.top
  split
  · exact h.globals
  · next f fs hf => exact h.frames f (by simp [hf])

theorem bind (h : s.All P) {b : Binding} (hb : P b) : (s.bind b).All P := by
  have ht := Bindings.forall_put h.top hb
  unfold Memory.bind Memory.setTop
  split
  · exact { h with globals := ht }
  · next f fs hf =>
    refine { h with frames := List.forall_mem_cons.2 ⟨ht, fun g hg => ?_⟩ }
    exact h.frames g (by simp [hf,hg])

theorem foldl_bind (h : s.All P) {bs : List Binding} (hbs : ∀ b ∈ bs, P b) :
    (bs.foldl Memory.bind s).All P := by
  induction bs generalizing s with
  | nil => exact h
  | cons b bs ih =>
    obtain ⟨hb, hbs⟩ := List.forall_mem_cons.1 hbs
    exact ih (h.bind hb) hbs

theorem declare (h : s.All P) {b : Binding} (hd : s.declare b = .ok t) (hb : P b) : t.All P := by
  obtain rfl := bind_of_declare hd
  exact h.bind hb

theorem allocate (h : s.All P) (c : Class Token) {bs : List Binding} (hbs : ∀ b ∈ bs, P b) :
    (s.allocate c bs).2.All P := by
  refine { h with heap := fun cs hcs => ?_ }
  rcases Array.mem_push.1 hcs with hcs | rfl
  · exact h.heap cs hcs
  · exact hbs

theorem properties (h : s.All P) (r : Reference) : ∀ b ∈ s.properties r, P b := by
  unfold Memory.properties
  cases hr : s.heap[r.id]? with
  | none => simp
  | some bs => exact h.heap bs (Array.mem_of_getElem? hr)

theorem setProperty (h : s.All P) {r : Reference} {name : String} {v : Value}
    (hv : ∀ b, Bindings.get? (s.properties r) name = some b → P (b.withValue v)) :
    (s.setProperty r name v).All P := by
  refine { h with heap := fun bs hbs => ?_ }
  rcases Array.mem_or_eq_of_mem_setIfInBounds hbs with hbs | rfl
  · exact h.heap bs hbs
  · exact Bindings.forall_setValue (h.properties r) hv

theorem under_iff {f : Frame} : (s.under f).All P ↔ (∀ b ∈ f.bindings, P b) ∧ s.All P := by
  constructor
  · rintro h
    obtain ⟨hf, hfs⟩ := List.forall_mem_cons.1 h.frames
    exact ⟨hf, { h with frames := hfs }⟩
  · rintro ⟨hf, h⟩
    exact { h with frames := List.forall_mem_cons.2 ⟨hf, h.frames⟩ }

theorem writes {name : String} {v : Value} (hw : Writes name v s t) (h : s.All P)
    (hv : ∀ b, s.get? name = some b → P (b.withValue v)) : t.All P := by
  induction hw with
  | global _ => exact { h with globals := Bindings.forall_setValue h.globals hv }
  | here s _ =>
    obtain ⟨hf, hs⟩ := under_iff.1 h
    exact under_iff.2 ⟨Bindings.forall_setValue hf fun b hb => hv b (get?_under_of_some hb), hs⟩
  | property hf hk _ =>
    obtain ⟨hb, hs⟩ := under_iff.1 h
    refine under_iff.2 ⟨hb, hs.setProperty fun b hb => hv b ?_⟩
    rwa [get?_under_of_ofInstance hf hk]
  | outer hf _ ih =>
    obtain ⟨hb, hs⟩ := under_iff.1 h
    refine under_iff.2 ⟨hb, ih hs fun b hb => hv b ?_⟩
    rwa [get?_under_of_passesOn hf]

theorem assign (h : s.All P) {name : String} {v : Value} (ha : s.assign name v = .ok t)
    (hv : ∀ b, s.get? name = some b → P (b.withValue v)) : t.All P :=
  writes (writes_of_assign ha) h hv

end All

end Memory

end LineScript
