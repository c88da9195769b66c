import IconPainter.Text.Utf8

/-! # Paths

A path is any string of bytes. Slashes divide it into pieces, and the pieces
name its components: empty ones name nothing, and neither does a dot unless
the path begins with it. Two spellings of the same components are the same
path to a reader, though not byte for byte.
-/

namespace IconPainter

structure Path where
  bytes : Bytes
deriving DecidableEq, Repr

inductive Component where
  | root
  | here
  | up
  | name (bytes : Bytes)
deriving DecidableEq, Repr

namespace Path

def slash : UInt8 := 47

def dot : UInt8 := 46

def ofString (s : String) : Path := ⟨.ofString s⟩

def isAbsolute (p : Path) : Bool := p.bytes.head? == some slash

/-- The first byte, where it is a component by itself: the root, or a leading dot. -/
def lead (p : Path) : Bytes :=
  match p.bytes with
  | [] => []
  | [b] => if b = slash ∨ b = dot then [b] else []
  | b :: b' :: _ => if b = slash ∨ b = dot ∧ b' = slash then [b] else []

def pieces (p : Path) : List Bytes :=
  (p.bytes.drop p.lead.length).splitOn slash

def isBlank (piece : Bytes) : Bool := piece == [] || piece == [dot]

def componentOf? (piece : Bytes) : Option Component :=
  if isBlank piece then none
  else if piece = [dot, dot] then some .up
  else some (.name piece)

def leadComponent (lead : Bytes) : List Component :=
  if lead = [slash] then [.root] else if lead = [dot] then [.here] else []

/-- The steps of the path from the root or from where the reader is. -/
def components (p : Path) : List Component :=
  leadComponent p.lead ++ p.pieces.filterMap componentOf?

/-- The same steps, whatever the spelling. -/
def Same (p q : Path) : Prop := p.components = q.components

instance (p q : Path) : Decidable (p.Same q) :=
  inferInstanceAs (Decidable (p.components = q.components))

def join (p q : Path) : Path :=
  if q.isAbsolute then q
  else match p.bytes.getLast? with
    | none => q
    | some b => if b = slash then ⟨p.bytes ++ q.bytes⟩ else ⟨p.bytes ++ slash :: q.bytes⟩

/-- The last component, where it is a name. -/
def fileName? (p : Path) : Option Bytes :=
  match p.components.getLast? with
  | some (.name n) => some n
  | _ => none

def ancestorsFrom (lead : Bytes) : List Bytes → List Path
  | [] => if lead = [dot] then [⟨[]⟩] else []
  | piece :: rest =>
    if isBlank piece then ancestorsFrom lead rest
    else
      ⟨lead ++ [slash].intercalate (rest.dropWhile isBlank).reverse⟩ :: ancestorsFrom lead rest

/-- The path without its last component, without its last two, and so on. -/
def ancestors (p : Path) : List Path :=
  ancestorsFrom p.lead p.pieces.reverse

def parent? (p : Path) : Option Path :=
  p.ancestors.head?

/-- The path with another last name, or with that name after it if it ends in none. -/
def withFileName (p : Path) (n : Bytes) : Path :=
  match p.fileName?, p.parent? with
  | some _, some parent => parent.join ⟨n⟩
  | _, _ => p.join ⟨n⟩

theorem Same.refl (p : Path) : p.Same p := rfl

theorem Same.symm {p q : Path} (h : p.Same q) : q.Same p := Eq.symm h

theorem Same.trans {p q r : Path} (h : p.Same q) (h' : q.Same r) : p.Same r := Eq.trans h h'

theorem join_of_isAbsolute {p q : Path} (h : q.isAbsolute) : p.join q = q := by
  simp [join, h]

theorem join_empty (p : Path) (h : p.bytes = []) (q : Path) : p.join q = q := by
  simp [join, h]

end Path

end IconPainter
