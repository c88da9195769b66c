import IconPainter.Path.Basic

/-! # Disks

A disk is a table of nodes: directories, files, symbolic links and devices.
An entry of a directory names a node by its number, so one file may have
several names. A node that lost its last name stays in the table, where
nothing finds it.
-/

namespace IconPainter

inductive OsError where
  | notPermitted
  | noEntry
  | accessDenied
  | busy
  | entryExists
  | crossDevice
  | notDirectory
  | isDirectory
  | invalid
  | noSpace
  | nameTooLong
  | tooManyLinks
  /-- A name with a zero byte cannot be handed to the system. -/
  | zeroByte
  | other (number : Nat) (text : String)
deriving DecidableEq, Repr

def OsError.message : OsError → String
  | notPermitted => "Operation not permitted (os error 1)"
  | noEntry => "No such file or directory (os error 2)"
  | accessDenied => "Permission denied (os error 13)"
  | busy => "Device or resource busy (os error 16)"
  | entryExists => "File exists (os error 17)"
  | crossDevice => "Invalid cross-device link (os error 18)"
  | notDirectory => "Not a directory (os error 20)"
  | isDirectory => "Is a directory (os error 21)"
  | invalid => "Invalid argument (os error 22)"
  | noSpace => "No space left on device (os error 28)"
  | nameTooLong => "File name too long (os error 36)"
  | tooManyLinks => "Too many levels of symbolic links (os error 40)"
  | zeroByte => "file name contained an unexpected NUL byte"
  | other number text => s!"{text} (os error {number})"

abbrev NodeId := Nat

/-- What may be done with a directory. -/
inductive Access where
  /-- Names may be looked up in it, made and taken away. -/
  | change
  /-- Names may be looked up in it. -/
  | search
  /-- All its names may be listed, but none may be looked up. -/
  | list
deriving DecidableEq, Repr

structure Directory where
  entries : List (Bytes × NodeId)
  access : Access
deriving DecidableEq, Repr

namespace Directory

def empty : Directory := ⟨[], .change⟩

def find? (d : Directory) (name : Bytes) : Option NodeId :=
  d.entries.lookup name

def erase (d : Directory) (name : Bytes) : Directory :=
  { d with entries := d.entries.filter (·.1 != name) }

def insert (d : Directory) (name : Bytes) (id : NodeId) : Directory :=
  { d with entries := (name, id) :: (d.erase name).entries }

@[simp] theorem find?_erase (d : Directory) (name n : Bytes) :
    (d.erase name).find? n = if n = name then none else d.find? n := by
  obtain ⟨entries, access⟩ := d
  simp only [find?, erase]
  induction entries with
  | nil => simp
  | cons e entries ih =>
    obtain ⟨k, id⟩ := e
    by_cases hk : k = name
    · subst hk
      simp only [bne_self_eq_false, Bool.false_eq_true, not_false_eq_true, List.filter_cons_of_neg,
        ih, List.lookup_cons]
      by_cases hn : n = k
      · simp [hn]
      · have : (n == k) = false := by simpa using hn
        simp [hn, this]
    · have : (k != name) = true := by simpa using hk
      simp only [this, List.filter_cons_of_pos, List.lookup_cons, ih]
      by_cases hn : n = k
      · subst hn; simp [hk]
      · have : (n == k) = false := by simpa using hn
        simp [this]

@[simp] theorem find?_insert (d : Directory) (name : Bytes) (id : NodeId) (n : Bytes) :
    (d.insert name id).find? n = if n = name then some id else d.find? n := by
  have h : (d.insert name id).find? n =
      match n == name with
      | true => some id
      | false => (d.erase name).find? n := List.lookup_cons
  rw [h, find?_erase]
  by_cases hn : n = name
  · simp [hn]
  · have : (n == name) = false := by simpa using hn
    simp [this, hn]

end Directory

/-- What stands behind a name. -/
inductive Node where
  | directory (parent : NodeId) (entries : Directory)
  | file (content : Bytes) (writable : Bool)
  | link (target : Path)
  /-- A device takes all bytes written to it, or has no room for any. -/
  | device (takes : Bool)
deriving DecidableEq

def Node.isDirectory : Node → Bool
  | directory .. => true
  | _ => false

/-- A table of nodes, the first of which is the root, and the directory in which
relative paths begin. -/
structure Disk where
  nodes : Array Node
  working : NodeId
deriving DecidableEq

namespace Disk

def root : NodeId := 0

def node? (d : Disk) (id : NodeId) : Option Node := d.nodes[id]?

def child? (d : Disk) (dir : NodeId) (name : Bytes) : Option NodeId :=
  match d.node? dir with
  | some (.directory _ entries) => entries.find? name
  | _ => none

def setNode (d : Disk) (id : NodeId) (n : Node) : Disk :=
  { d with nodes := d.nodes.setIfInBounds id n }

def modifyEntries (d : Disk) (dir : NodeId) (f : Directory → Directory) : Disk :=
  match d.node? dir with
  | some (.directory parent entries) => d.setNode dir (.directory parent (f entries))
  | _ => d

def setEntry (d : Disk) (dir : NodeId) (name : Bytes) (id : NodeId) : Disk :=
  d.modifyEntries dir (·.insert name id)

def eraseEntry (d : Disk) (dir : NodeId) (name : Bytes) : Disk :=
  d.modifyEntries dir (·.erase name)

def addNode (d : Disk) (n : Node) : Disk × NodeId :=
  ({ d with nodes := d.nodes.push n }, d.nodes.size)

def addEntry (d : Disk) (dir : NodeId) (name : Bytes) (n : Node) : Disk :=
  let (d, id) := d.addNode n
  d.setEntry dir name id

theorem node?_setNode (d : Disk) (id i : NodeId) (n : Node) :
    (d.setNode id n).node? i = if i = id then (d.node? i).map fun _ => n else d.node? i := by
  simp only [setNode, node?, Array.getElem?_setIfInBounds]
  by_cases h : i = id
  · subst h
    by_cases hlt : i < d.nodes.size <;> simp [hlt]
  · have : ¬ id = i := fun e => h e.symm
    simp [h, this]

theorem node?_modifyEntries_of_ne (d : Disk) {dir i : NodeId} (h : i ≠ dir)
    (f : Directory → Directory) : (d.modifyEntries dir f).node? i = d.node? i := by
  unfold modifyEntries
  split
  · rw [node?_setNode, if_neg h]
  · rfl

theorem node?_modifyEntries_self (d : Disk) (dir : NodeId) (f : Directory → Directory) :
    (d.modifyEntries dir f).node? dir = (d.node? dir).map fun
      | .directory parent entries => .directory parent (f entries)
      | n => n := by
  unfold modifyEntries
  split
  · rename_i h
    simp [node?_setNode, h]
  · rename_i h
    cases hn : d.node? dir with
    | none => rfl
    | some n =>
      cases n with
      | directory parent entries => exact absurd hn (h parent entries)
      | file content writable => rfl
      | link target => rfl
      | device takes => rfl

theorem child?_setEntry (d : Disk) (dir i : NodeId) (name n : Bytes) (id : NodeId)
    (h : (d.node? dir).any Node.isDirectory) :
    (d.setEntry dir name id).child? i n =
      if i = dir ∧ n = name then some id else d.child? i n := by
  by_cases hi : i = dir
  · subst hi
    simp only [child?, setEntry, node?_modifyEntries_self]
    cases hn : d.node? i with
    | none => simp [hn] at h
    | some node =>
      cases node with
      | directory parent entries => simp
      | file content writable => simp [hn, Node.isDirectory] at h
      | link target => simp [hn, Node.isDirectory] at h
      | device takes => simp [hn, Node.isDirectory] at h
  · simp [child?, setEntry, node?_modifyEntries_of_ne d hi, hi]

theorem child?_eraseEntry (d : Disk) (dir i : NodeId) (name n : Bytes) :
    (d.eraseEntry dir name).child? i n =
      if i = dir ∧ n = name then none else d.child? i n := by
  by_cases hi : i = dir
  · subst hi
    simp only [child?, eraseEntry, node?_modifyEntries_self]
    cases hn : d.node? i with
    | none => simp
    | some node => cases node <;> simp
  · simp [child?, eraseEntry, node?_modifyEntries_of_ne d hi, hi]

end Disk

end IconPainter
