import LineScript.Text.Blank
set_option autoImplicit false

/-!
Cutting text. Every cut is a function on lists of characters that loses nothing but the separator it
cuts at; the functions on `String` at the end only wrap them.
-/

namespace LineScript.Text

def trimStart (cs : List Char) : List Char := cs.dropWhile isBlank

def trimEnd (cs : List Char) : List Char := (cs.reverse.dropWhile isBlank).reverse

def trim (cs : List Char) : List Char := trimEnd (trimStart cs)

/-- The text before and after the first place where `sep` stands. -/
def cut (sep : List Char) : List Char → Option (List Char × List Char)
  | [] => none
  | c :: r =>
    if sep.isPrefixOf (c :: r) then some ([], (c :: r).drop sep.length)
    else (cut sep r).map fun p => (c :: p.1, p.2)

/-- The text before and after the last place where `sep` stands. -/
def cutLast (sep : List Char) : List Char → Option (List Char × List Char)
  | [] => none
  | c :: r =>
    match cutLast sep r with
    | some p => some (c :: p.1, p.2)
    | none => if sep.isPrefixOf (c :: r) then some ([], (c :: r).drop sep.length) else none

theorem cut_append {sep cs a b : List Char} (h : cut sep cs = some (a, b)) :
    a ++ sep ++ b = cs := by
  induction cs generalizing a b with
  | nil => simp [cut] at h
  | cons c r ih =>
    rw [cut] at h
    split at h
    · next hp =>
      obtain ⟨rfl, rfl⟩ : [] = a ∧ (c :: r).drop sep.length = b := by simpa using h
      obtain ⟨t, ht⟩ := List.isPrefixOf_iff_prefix.1 hp
      simp [← ht]
    · obtain ⟨⟨a', b'⟩, hr, he⟩ := Option.map_eq_some_iff.1 h
      obtain ⟨rfl, rfl⟩ : c :: a' = a ∧ b' = b := by simpa using he
      simpa using ih hr

theorem cutLast_append {sep cs a b : List Char} (h : cutLast sep cs = some (a, b)) :
    a ++ sep ++ b = cs := by
  induction cs generalizing a b with
  | nil => simp [cutLast] at h
  | cons c r ih =>
    rw [cutLast] at h
    split at h
    · next p hr =>
      obtain ⟨rfl, rfl⟩ : c :: p.1 = a ∧ p.2 = b := by simpa using h
      simpa using ih hr
    · split at h
      · next hp =>
        obtain ⟨rfl, rfl⟩ : [] = a ∧ (c :: r).drop sep.length = b := by simpa using h
        obtain ⟨t, ht⟩ := List.isPrefixOf_iff_prefix.1 hp
        simp [← ht]
      · simp at h

/-- Puts a character in front of the first part. -/
def attach (c : Char) : List (List Char) → List (List Char)
  | [] => [[c]]
  | p :: ps => (c :: p) :: ps

theorem flatten_attach (c : Char) (parts : List (List Char)) :
    (attach c parts).flatten = c :: parts.flatten := by
  cases parts <;> rfl

/-- The pieces between the places where the character `sep` stands; never empty. -/
def pieces (sep : Char) : List Char → List (List Char)
  | [] => [[]]
  | c :: r =>
    if c == sep then [] :: pieces sep r
    else attach c (pieces sep r)

/-- The maximal runs of characters that are not blank. -/
def words : List Char → List (List Char)
  | [] => []
  | c :: r =>
    if isBlank c then words r
    else match r with
      | [] => [[c]]
      | d :: _ =>
        if isBlank d then [c] :: words r
        else attach c (words r)

/-- The text before the first line comment. -/
def code (cs : List Char) : List Char := ((cut ['/', '/'] cs).map Prod.fst).getD cs

/-- The number of bytes of the text in UTF-8. -/
def byteSize (cs : List Char) : Nat := cs.foldr (fun c n => c.utf8Size + n) 0

theorem byteSize_cons (c : Char) (cs : List Char) : byteSize (c :: cs) = c.utf8Size + byteSize cs :=
  rfl

theorem byteSize_append (a b : List Char) : byteSize (a ++ b) = byteSize a + byteSize b := by
  induction a with
  | nil => simp [byteSize]
  | cons c r ih => rw [List.cons_append, byteSize_cons, byteSize_cons, ih, Nat.add_assoc]

theorem byteSize_reverse (cs : List Char) : byteSize cs.reverse = byteSize cs := by
  induction cs with
  | nil => rfl
  | cons c r ih =>
    rw [List.reverse_cons, byteSize_append, ih, byteSize_cons, byteSize_cons, Nat.add_comm]
    rfl

def trimmed (s : String) : String := String.ofList (trim s.toList)

def isBlankText (s : String) : Bool := s.toList.all isBlank

def splitAt (s : String) (sep : String) : Option (String × String) :=
  (cut sep.toList s.toList).map fun p => (String.ofList p.1, String.ofList p.2)

end LineScript.Text
