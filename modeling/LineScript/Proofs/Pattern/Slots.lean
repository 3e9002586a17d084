import Mathlib.Data.List.Induction
import Mathlib.Data.List.Nodup
import LineScript.Proofs.Pattern.Normal
set_option autoImplicit false

/-!
Slots of a pattern. Its captures are the holes of the template, in their order. The slots are the different
names among them, numbered as they first appear. So the slot of a name counts the different names before it,
while its position counts the captures before it: both are the same number only where no name was repeated.
-/

namespace LineScript

namespace Table

variable {α : Type}

theorem insert_of_not_contains {t : Table α} {name : String} (h : t.contains name = false) (v : α) :
    t.insert name v = t ++ [(name, v)] := by
  induction t with
  | nil => rfl
  | cons e t ih =>
    by_cases he : e.1 = name
    · simp [contains,get?,he] at h
    · have ht : contains t name = false := by simpa [contains,get?,he] using h
      simp [insert,he,ih ht]

/-- In a table of numbered names a name finds its own place. -/
theorem get?_zipIdx (names : List String) (name : String) (k : Nat) :
    get? (names.zipIdx k) name = if name ∈ names then some (k + names.idxOf name) else none := by
  induction names generalizing k with
  | nil => rfl
  | cons n names ih =>
    by_cases hn : n = name
    · simp [get?,hn]
    · have hne : name ≠ n := fun h => hn h.symm
      simp [get?,ih,hn,hne,List.idxOf_cons_ne,Nat.add_assoc,Nat.add_comm 1]

theorem contains_zipIdx (names : List String) (name : String) :
    contains names.zipIdx name = decide (name ∈ names) := by
  unfold contains
  rw [get?_zipIdx]
  split
  · next h => simp [h]
  · next h => simp [h]

end Table

section distinct

variable {names before after : List String} {name : String}

theorem eraseDups_concat (names : List String) (name : String) :
    (names ++ [name]).eraseDups = if name ∈ names then names.eraseDups else names.eraseDups ++ [name] := by
  rw [List.eraseDups_append]
  split
  · next h => simp [List.removeAll,h]
  · next h => simp [List.removeAll,h,List.eraseDups_cons]

theorem length_eraseDups_le (names : List String) : names.eraseDups.length ≤ names.length := by
  induction names using List.reverseRecOn with
  | nil => simp
  | append_singleton names name ih =>
    rw [eraseDups_concat]
    split
    · simp; omega
    · simp [ih]

/-- As many different names as names: none is repeated. -/
theorem length_eraseDups_eq_iff (names : List String) :
    names.eraseDups.length = names.length ↔ names.Nodup := by
  induction names using List.reverseRecOn with
  | nil => simp
  | append_singleton names name ih =>
    have hle := length_eraseDups_le names
    have hnodup : (names ++ [name]).Nodup ↔ name ∉ names ∧ names.Nodup := by
      rw [← List.concat_eq_append,List.nodup_concat]
    rw [eraseDups_concat,hnodup]
    split
    · next h =>
      simp [h]
      omega
    · next h => simp [h,ih]

/-- The place of a name among the different ones is the number of different names before it. -/
theorem idxOf_eraseDups (h : name ∉ before) :
    (before ++ name :: after).eraseDups.idxOf name = before.eraseDups.length := by
  have hfirst : name ∉ before.eraseDups := fun hm => h (List.mem_eraseDups.1 hm)
  rw [List.eraseDups_append,List.idxOf_append_of_notMem hfirst]
  simp [List.removeAll,h,List.eraseDups_cons]

end distinct

/-- The capture that a piece of a template becomes. -/
def Template.Piece.holeName? : Template.Piece → Option String
  | hole name => some (String.ofList (Text.trim name))
  | _ => none

namespace Pattern

/-- The names of a template's holes. -/
def holeNames (source : String) : List String :=
  (Template.read (Text.trim source.toList)).filterMap Template.Piece.holeName?

theorem captureNames_flush (done : List Segment) (literal : List Char) :
    (flush done literal).filterMap Segment.captureName? = done.filterMap Segment.captureName? := by
  unfold flush
  split
  · rfl
  · rfl

/-- Reading on adds the captures of the holes that are left to those of the segments done. -/
theorem captures_of_segmentsFrom {done segs : List Segment} {literal : List Char}
    {pieces : List Template.Piece} (h : segmentsFrom done literal pieces = .ok segs) :
    segs.filterMap Segment.captureName? = (done.filterMap Segment.captureName?).reverse ++
      pieces.filterMap Template.Piece.holeName? := by
  induction pieces generalizing done literal with
  | nil =>
    obtain rfl := Except.ok.inj h
    simp [List.filterMap_reverse,captureNames_flush]
  | cons piece pieces ih =>
    cases piece with
    | plain c =>
      rw [segmentsFrom] at h
      split at h
      · have hspace (run : List Segment) :
            (Segment.space :: run).filterMap Segment.captureName? = run.filterMap Segment.captureName? := rfl
        rw [ih h]
        split
        · exact congrArg (List.reverse · ++ _) (captureNames_flush done literal)
        · rw [hspace,captureNames_flush]
          rfl
      · exact ih h
    | escaped c => exact ih h
    | hole name =>
      rw [segmentsFrom] at h
      split at h
      · cases h
      · split at h
        · cases h
        · rw [ih h]
          simp [captureNames_flush,Segment.captureName?,Template.Piece.holeName?]
    | unclosed name => cases h

theorem captureNames_of_compile {source : String} {accept : CaptureClass} {line : Nat} {p : Pattern}
    (h : compile source accept line = .ok p) : p.captureNames = holeNames source := by
  obtain ⟨-, -, -, hsegs⟩ := compile_eq_ok_iff.1 h
  exact captures_of_segmentsFrom hsegs

/-- The slots are the different names of the captures, numbered as they first appear. -/
theorem slots_eq (p : Pattern) : p.slots = p.captureNames.eraseDups.zipIdx := by
  unfold slots
  generalize p.captureNames = names
  induction names using List.reverseRecOn with
  | nil => rfl
  | append_singleton names name ih =>
    have hcontains : Table.contains names.eraseDups.zipIdx name = decide (name ∈ names) := by
      rw [Table.contains_zipIdx]
      simp
    rw [List.foldl_append,ih,List.foldl_cons,List.foldl_nil,addSlot,hcontains,eraseDups_concat]
    by_cases hname : name ∈ names
    · simp [hname]
    · have hnew : Table.contains names.eraseDups.zipIdx name = false := by simp [hcontains,hname]
      simp [hname,Table.insert_of_not_contains hnew,List.zipIdx_append]

/-- A pattern has a slot for each name among its captures, in the order in which they first appear. The slot
of a name is the number of different names before its first capture, and so it is the position of that
capture exactly if no name was repeated before it. -/
theorem slots_count_names {source : String} {accept : CaptureClass} {line : Nat} {p : Pattern}
    (h : compile source accept line = .ok p) :
    p.captureNames = holeNames source ∧ p.slots.keys = p.captureNames.eraseDups ∧
    ∀ before name after, p.captureNames = before ++ name :: after → name ∉ before →
      p.slots.get? name = some before.eraseDups.length ∧
      (p.slots.get? name = some before.length ↔ before.Nodup) := by
  refine ⟨captureNames_of_compile h, ?_, fun before name after hnames hfirst => ?_⟩
  · rw [slots_eq]
    exact List.zipIdx_map_fst 0 _
  · have hmem : name ∈ p.captureNames.eraseDups := by simp [hnames]
    have hslot : p.slots.get? name = some before.eraseDups.length := by
      rw [slots_eq,Table.get?_zipIdx,if_pos hmem,hnames,idxOf_eraseDups hfirst,Nat.zero_add]
    refine ⟨hslot, ?_⟩
    rw [hslot,Option.some.injEq]
    exact length_eraseDups_eq_iff before

/-- A name repeated before `z` puts its slot one off; `y` stands in front of the repetition. -/
theorem slots_count_names_repeated :
    ∃ p, compile "\x7bx\x7d \x7by\x7d, \x7b x \x7d \x7bz\x7d" .word 1 = .ok p ∧
      p.captureNames = ["x", "y", "x", "z"] ∧ p.slots.keys = ["x", "y", "z"] ∧
      p.slots.get? "y" = some ["x"].length ∧ p.slots.get? "z" = some 2 ∧
      p.slots.get? "z" ≠ some ["x", "y", "x"].length := by
  have hc : compile "\x7bx\x7d \x7by\x7d, \x7b x \x7d \x7bz\x7d" .word 1 = .ok
      ⟨"\x7bx\x7d \x7by\x7d, \x7b x \x7d \x7bz\x7d", .word, [.capture "x", .space, .capture "y", .literal [','],
        .space, .capture "x", .space, .capture "z"]⟩ := by
    decide +kernel
  obtain ⟨-, hkeys, hslots⟩ := slots_count_names hc
  obtain ⟨-, hy⟩ := hslots ["x"] "y" ["x", "z"] rfl (by decide)
  obtain ⟨hz, hposition⟩ := hslots ["x", "y", "x"] "z" [] rfl (by decide)
  refine ⟨_, hc, rfl, hkeys.trans (by decide), hy.2 (by decide), hz.trans (by decide), ?_⟩
  exact fun h => absurd (hposition.1 h) (by decide)

/-- The only capture of `y` is the third one, but its slot is the second. -/
theorem slot_behind_repeated :
    ∃ p, compile "\x7bx\x7d,\x7bx\x7d,\x7by\x7d" .word 1 = .ok p ∧
      p.captureNames = ["x", "x", "y"] ∧ p.captureNames.idxOf "y" = 2 ∧ p.slots.get? "y" = some 1 := by
  refine ⟨⟨"\x7bx\x7d,\x7bx\x7d,\x7by\x7d", .word, [.capture "x", .literal [','], .capture "x",
    .literal [','], .capture "y"]⟩, ?_, rfl, ?_, ?_⟩
  · decide +kernel
  · decide
  · decide

end Pattern

end LineScript
