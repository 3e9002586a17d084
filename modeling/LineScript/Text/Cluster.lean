import LineScript.Text.Basic
import LineScript.Text.Role
set_option autoImplicit false

/-!
Extended grapheme clusters: what a reader takes for one character. Whether two neighbours stay together
depends on their roles and on the text before them, which is given last character first. The clusters
of a text put together are the text.
-/

namespace LineScript.Text

/-- The signs that bind two consonants to a conjunct. -/
def linkerRanges : List (Nat × Nat) :=
  [(0x94D, 0x94D), (0x9CD, 0x9CD), (0xACD, 0xACD), (0xB4D, 0xB4D), (0xC4D, 0xC4D),
   (0xD4D, 0xD4D), (0x1039, 0x1039), (0x17D2, 0x17D2), (0x1A60, 0x1A60), (0x1B44, 0x1B44),
   (0x1BAB, 0x1BAB), (0xA9C0, 0xA9C0), (0xAAF6, 0xAAF6), (0x10A3F, 0x10A3F), (0x11133, 0x11133),
   (0x113D0, 0x113D0), (0x1193E, 0x1193E), (0x11A47, 0x11A47), (0x11A99, 0x11A99),
   (0x11F42, 0x11F42)]

def isLinker (c : Char) : Bool := inRanges linkerRanges c

/-- Characters that may stand between the consonants of a conjunct. -/
def isWithinConjunct (c : Char) : Bool :=
  c != '\u200C' && (Role.of c == .extend || Role.of c == .joiner)

def endsInRole (role : Role) (before : List Char) : Bool := before.head?.map Role.of == some role

/-- Does the text end in a consonant with a linker after it? -/
def endsLinked (before : List Char) : Bool :=
  (before.takeWhile isWithinConjunct).any isLinker &&
    endsInRole .consonant (before.dropWhile isWithinConjunct)

/-- Does the text end in a pictograph with a joiner after it? -/
def endsJoined : List Char → Bool
  | [] => false
  | c :: before =>
    Role.of c == .joiner &&
      endsInRole .pictograph (before.dropWhile fun d => Role.of d == .extend)

/-- Does the text end in an odd number of flag letters, the last one still without its partner? -/
def endsInHalfFlag (before : List Char) : Bool :=
  (before.takeWhile fun c => Role.of c == .regional).length % 2 == 1

/-- Does `d` stay in the cluster of `c`, the character directly before it? -/
def staysWith (before : List Char) (c d : Char) : Bool :=
  let a := Role.of c
  let b := Role.of d
  if a.isAlone || b.isAlone then a == .carriageReturn && b == .lineFeed
  else
    a.inSyllable b || b.isDependent || a == .prepended ||
      (b == .consonant && endsLinked (c :: before)) ||
      (b == .pictograph && endsJoined (c :: before)) ||
      (b == .regional && endsInHalfFlag (c :: before))

/-- The clusters of a text that stands after `before`. -/
def clustersAfter (before : List Char) : List Char → List (List Char)
  | [] => []
  | c :: r =>
    if r.head?.any (staysWith before c) then attach c (clustersAfter (c :: before) r)
    else [c] :: clustersAfter (c :: before) r

/-- The clusters of a text. -/
def clusters (cs : List Char) : List (List Char) := clustersAfter [] cs

theorem flatten_clustersAfter (before cs : List Char) : (clustersAfter before cs).flatten = cs := by
  induction cs generalizing before with
  | nil => rfl
  | cons c r ih =>
    rw [clustersAfter]
    split
    · rw [flatten_attach, ih]
    · rw [List.flatten_cons, ih, List.singleton_append]

theorem flatten_clusters (cs : List Char) : (clusters cs).flatten = cs := flatten_clustersAfter [] cs

end LineScript.Text
