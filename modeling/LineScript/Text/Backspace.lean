import LineScript.Text.Cluster
set_option autoImplicit false

/-!
Typed text: a backspace takes back the cluster before it. The size of a cluster in bytes is kept modulo
256, so of a larger one only the remainder is taken back, and a text where that would split a character
cannot be read. A text without a backspace is read as it is.
-/

namespace LineScript.Text

/-- What was typed so far, last character first, with the size of each cluster of it, last one first. -/
structure Typed where
  sizes : List Nat
  text : List Char
  deriving DecidableEq, Repr

def backspace : Char := '\x08'

/-- Takes a number of bytes off the end of a text that is given last character first, if they end
between two characters. -/
def dropBytes : Nat → List Char → Option (List Char)
  | 0, cs => some cs
  | _ + 1, [] => none
  | n + 1, c :: r => if c.utf8Size ≤ n + 1 then dropBytes (n + 1 - c.utf8Size) r else none

theorem dropBytes_byteSize (cs rest : List Char) : dropBytes (byteSize cs) (cs ++ rest) = some rest := by
  induction cs with
  | nil => simp [byteSize, dropBytes]
  | cons c r ih =>
    have hc := c.utf8Size_pos
    obtain ⟨n, hn⟩ : ∃ n, byteSize (c :: r) = n + 1 := ⟨c.utf8Size + byteSize r - 1, by
      rw [byteSize_cons]; omega⟩
    have hs := byteSize_cons c r
    rw [hn, List.cons_append, dropBytes, if_pos (by omega), show n + 1 - c.utf8Size = byteSize r by omega]
    exact ih

namespace Typed

def empty : Typed := ⟨[], []⟩

/-- The size of a cluster as it is kept. -/
def keptSize (cluster : List Char) : Nat := byteSize cluster % 256

/-- A backspace with nothing before it does nothing. -/
def push (t : Typed) (cluster : List Char) : Option Typed :=
  if cluster = [backspace] then
    match t.sizes with
    | [] => some t
    | n :: sizes => (dropBytes n t.text).map fun text => ⟨sizes, text⟩
  else some ⟨keptSize cluster :: t.sizes, cluster.reverse ++ t.text⟩

/-- A backspace undoes a cluster of less than 256 bytes. -/
theorem push_backspace {cluster : List Char} (t : Typed) (h : cluster ≠ [backspace])
    (hs : byteSize cluster < 256) :
    (t.push cluster).bind (fun u => u.push [backspace]) = some t := by
  have hd := dropBytes_byteSize cluster.reverse t.text
  rw [byteSize_reverse] at hd
  simp [push, h, keptSize, Nat.mod_eq_of_lt hs, hd]

def pushAll (t : Typed) : List (List Char) → Option Typed
  | [] => some t
  | c :: cs => (t.push c).bind fun t => t.pushAll cs

end Typed

/-- The text that typing the given characters leaves, if it can be read. -/
def typed (cs : List Char) : Option (List Char) :=
  (Typed.empty.pushAll (clusters cs)).map fun t => t.text.reverse

theorem Typed.text_pushAll {t : Typed} {cs : List (List Char)} (h : [backspace] ∉ cs) :
    (t.pushAll cs).map (fun t => t.text.reverse) = some (t.text.reverse ++ cs.flatten) := by
  induction cs generalizing t with
  | nil => simp [pushAll]
  | cons c cs ih =>
    have hc : c ≠ [backspace] := fun e => h (by simp [e])
    have hcs : [backspace] ∉ cs := fun e => h (by simp [e])
    simp [pushAll, push, hc, ih hcs]

theorem typed_eq_self {cs : List Char} (h : backspace ∉ cs) : typed cs = some cs := by
  have hc : [backspace] ∉ clusters cs := fun e =>
    h (by rw [← flatten_clusters cs]; exact List.mem_flatten_of_mem e (by simp))
  rw [typed, Typed.text_pushAll hc, flatten_clusters]
  rfl

end LineScript.Text
