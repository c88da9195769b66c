import IconPainter.Disk.Basic

/-! # The tree of a disk

What can be seen of a disk by going down from a directory from name to name,
without following links: the kind and the content of what stands there, but
not the number of its node. Two disks with the same tree are alike to anyone
who has no file open.
-/

namespace IconPainter

/-- What can be seen of a node. -/
inductive Leaf where
  | directory
  | file (content : Bytes) (writable : Bool)
  | link (target : Path)
  | device (takes : Bool)
deriving DecidableEq

def Node.leaf : Node → Leaf
  | directory .. => .directory
  | file content writable => .file content writable
  | link target => .link target
  | device takes => .device takes

namespace Disk

def descend? (d : Disk) (id : NodeId) : List Bytes → Option NodeId
  | [] => some id
  | name :: names => (d.child? id name).bind fun id => d.descend? id names

def leafBelow? (d : Disk) (id : NodeId) (names : List Bytes) : Option Leaf :=
  (d.descend? id names).bind fun id => (d.node? id).map Node.leaf

def leaf? (d : Disk) (names : List Bytes) : Option Leaf := d.leafBelow? root names

/-- The same can be seen everywhere on both disks. -/
def SameTree (d e : Disk) : Prop := ∀ names, d.leaf? names = e.leaf? names

/-- What holds of every disk that requests have made: the root is a directory that
is above itself, entries name nodes that are there, what is above a directory is
a directory, and a directory has one name. -/
structure WellFormed (d : Disk) : Prop where
  root_isDirectory : ∃ entries, d.node? root = some (.directory root entries)
  working_isDirectory : (d.node? d.working).any Node.isDirectory
  child_isThere : ∀ {id name i}, d.child? id name = some i → (d.node? i).isSome
  parent_isDirectory : ∀ {id parent entries},
    d.node? id = some (.directory parent entries) → (d.node? parent).any Node.isDirectory
  directory_name_unique : ∀ {id id' name name' i}, d.child? id name = some i →
    d.child? id' name' = some i → (d.node? i).any Node.isDirectory → id = id' ∧ name = name'

def below (d : Disk) : (depth : Nat) → NodeId → (above : Bytes) → List (Bytes × Leaf)
  | 0, _, _ => []
  | depth + 1, dir, above =>
    match d.node? dir with
    | some (.directory _ entries) => entries.entries.flatMap fun (name, id) =>
      match d.node? id with
      | none => []
      | some n =>
        (above ++ name, n.leaf) :: d.below depth id (above ++ name ++ [Path.slash])
    | _ => []

/-- All entries below the working directory, in the order of their paths' bytes. -/
def listing (d : Disk) : List (Bytes × Leaf) :=
  (d.below d.nodes.size d.working []).mergeSort fun a b => a.1 ≤ b.1

end Disk

end IconPainter
