set_option autoImplicit false

/-!
Tables of named entries in the order of their first insertion. Replacing an entry keeps its place.
-/

namespace LineScript

abbrev Table (α : Type) := List (String × α)

namespace Table

variable {α : Type}

def get? : Table α → String → Option α
  | [], _ => none
  | (k, v) :: t, name => if k = name then some v else get? t name

def contains (t : Table α) (name : String) : Bool := (t.get? name).isSome

def insert : Table α → String → α → Table α
  | [], name, v => [(name, v)]
  | (k, w) :: t, name, v => if k = name then (k, v) :: t else (k, w) :: insert t name v

/-- Inserts all entries of the second table. -/
def merge (t u : Table α) : Table α := u.foldl (fun t e => t.insert e.1 e.2) t

def keys (t : Table α) : List String := t.map Prod.fst

def values (t : Table α) : List α := t.map Prod.snd

theorem mem_of_get? {t : Table α} {name : String} {v : α} (h : t.get? name = some v) :
    (name, v) ∈ t := by
  induction t with
  | nil => simp [get?] at h
  | cons e t ih =>
    obtain ⟨k, w⟩ := e
    by_cases hk : k = name
    · obtain rfl : w = v := by simpa [get?, hk] using h
      simp [hk]
    · exact List.mem_cons_of_mem _ (ih (by simpa [get?, hk] using h))

/-- An insertion brings nothing but its entry. -/
theorem mem_of_mem_insert {t : Table α} {name : String} {v : α} {e : String × α}
    (h : e ∈ t.insert name v) : e ∈ t ∨ e = (name, v) := by
  induction t with
  | nil => exact .inr (by simpa [insert] using h)
  | cons f t ih =>
    obtain ⟨k, w⟩ := f
    by_cases hk : k = name
    · rcases List.mem_cons.1 (by simpa [insert, hk] using h) with he | he
      · exact .inr he
      · exact .inl (List.mem_cons_of_mem _ he)
    · rcases List.mem_cons.1 (by simpa [insert, hk] using h) with rfl | he
      · exact .inl List.mem_cons_self
      · exact (ih he).imp_left (List.mem_cons_of_mem _)

theorem mem_of_mem_merge {t u : Table α} {e : String × α} (h : e ∈ t.merge u) : e ∈ t ∨ e ∈ u := by
  unfold merge at h
  induction u generalizing t with
  | nil => exact .inl h
  | cons f u ih =>
    rcases ih h with h | h
    · refine (mem_of_mem_insert h).imp_right ?_
      rintro rfl
      exact List.mem_cons_self
    · exact .inr (List.mem_cons_of_mem f h)

theorem get?_insert_self (t : Table α) (name : String) (v : α) :
    (t.insert name v).get? name = some v := by
  induction t with
  | nil => simp [insert, get?]
  | cons e t ih => by_cases h : e.1 = name <;> simp [insert, get?, h, ih]

theorem get?_insert_of_ne (t : Table α) {name other : String} (v : α) (h : name ≠ other) :
    (t.insert name v).get? other = t.get? other := by
  induction t with
  | nil => simp [insert, get?, h]
  | cons e t ih =>
    by_cases he : e.1 = name
    · simp [insert, get?, he, h]
    · by_cases ho : e.1 = other <;> simp [insert, get?, he, ho, h.symm, ih]

/-- The names after an insertion: unchanged if the name was there, else the name at the end. -/
theorem keys_insert (t : Table α) (name : String) (v : α) :
    (t.insert name v).keys = if name ∈ t.keys then t.keys else t.keys ++ [name] := by
  induction t with
  | nil => simp [insert, keys]
  | cons e t ih =>
    by_cases h : e.1 = name
    · simp [insert, keys, h]
    · have hn : name ≠ e.1 := fun hh => h hh.symm
      simp only [keys] at ih
      by_cases hm : name ∈ t.map Prod.fst <;> simp [insert, keys, h, hn, ih, hm]

end Table

end LineScript
