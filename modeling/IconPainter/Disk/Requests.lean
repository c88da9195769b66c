import IconPainter.Disk.Lookup

/-! # Requests to a disk

The system calls that painting an icon needs, and those that prepare a disk.
Each either fails and leaves the disk alone or gives the disk afterwards. A
file that may not be written is not opened, but its names may be moved and removed
where the directory may be changed.
-/

namespace IconPainter

namespace Disk

def freeName (d : Disk) (p : Path) : Except OsError (Place × Bytes) := do
  let place ← d.locate false p
  match place.last with
  | some (.name name) =>
    match ← d.lookup place.directory name with
    | none => .ok (place, name)
    | some _ => .error .entryExists
  | _ => .error .entryExists

def checkChange (d : Disk) (dir : NodeId) : Except OsError Unit :=
  match d.node? dir with
  | some (.directory _ entries) =>
    if entries.access = .change then .ok () else .error .accessDenied
  | _ => .error .notDirectory

def makeDirectory (d : Disk) (p : Path) : Except OsError Disk := do
  let (place, name) ← d.freeName p
  d.checkChange place.directory
  .ok (d.addEntry place.directory name (.directory place.directory .empty))

/-- Open a file for writing, emptied if it is there and made if it is not. Links
are followed, so the file may get a name far from the path. -/
def create (d : Disk) (p : Path) : Except OsError (NodeId × Disk) := do
  let place ← d.locate true p
  match place.last, place.slash with
  | some (.name name), false =>
    match ← d.lookup place.directory name with
    | none =>
      d.checkChange place.directory
      .ok (d.nodes.size, d.addEntry place.directory name (.file [] true))
    | some (id, .file _ true) => .ok (id, d.setNode id (.file [] true))
    | some (_, .file _ false) => .error .accessDenied
    | some (id, .device _) => .ok (id, d)
    | some (_, .directory ..) => .error .isDirectory
    | some (_, .link _) => .error .tooManyLinks
  | _, _ => .error .isDirectory

def append (d : Disk) (file : NodeId) (bytes : Bytes) : Except OsError Disk :=
  match d.node? file with
  | some (.file content writable) => .ok (d.setNode file (.file (content ++ bytes) writable))
  | some (.device true) => .ok d
  | some (.device false) => .error .noSpace
  | _ => .error .invalid

/-- Wait until an open file is stored; a device does not store. -/
def sync (d : Disk) (file : NodeId) : Except OsError Disk :=
  match d.node? file with
  | some (.file ..) => .ok d
  | _ => .error .invalid

/-- Give what has the name `old` the name `new` instead, in place of what had it.
Two names of one node are left as they are, and directories are not moved. -/
def rename (d : Disk) (old new : Path) : Except OsError Disk := do
  Path.checkZero [old, new]
  old.validate
  new.validate
  let source ← d.locate false old
  let target ← d.locate false new
  match source.last, target.last with
  | some (.name n), some (.name m) =>
    match ← d.lookup source.directory n with
    | none => .error .noEntry
    | some (_, .directory ..) => .error .isDirectory
    | some (id, _) =>
      let found ← d.lookup target.directory m
      let moved := (d.eraseEntry source.directory n).setEntry target.directory m id
      if source.slash || target.slash then .error .notDirectory
      else match found with
        | none =>
          d.checkChange source.directory
          d.checkChange target.directory
          .ok moved
        | some (id', node) =>
          if id' = id then .ok d
          else
            d.checkChange source.directory
            d.checkChange target.directory
            if node.isDirectory then .error .isDirectory else .ok moved
  | _, _ => .error .busy

def remove (d : Disk) (p : Path) : Except OsError Disk := do
  let place ← d.locate false p
  match place.last with
  | some (.name name) =>
    match ← d.lookup place.directory name with
    | none => .error .noEntry
    | some (_, node) =>
      if place.slash then .error (if node.isDirectory then .isDirectory else .notDirectory)
      else
        d.checkChange place.directory
        if node.isDirectory then .error .isDirectory else .ok (d.eraseEntry place.directory name)
  | _ => .error .isDirectory

def isDirectory (d : Disk) (p : Path) : Bool :=
  match d.stat p with
  | .ok (_, n) => n.isDirectory
  | .error _ => false

def isThere (d : Disk) (p : Path) : Bool :=
  (d.stat p).isOk

def write (d : Disk) (p : Path) (content : Bytes) : Except OsError Disk := do
  let (file, d) ← d.create p
  d.append file content

def symlink (d : Disk) (p target : Path) : Except OsError Disk := do
  Path.checkZero [target, p]
  target.validate
  let (place, name) ← d.freeName p
  if place.slash then .error .noEntry
  else
    d.checkChange place.directory
    .ok (d.addEntry place.directory name (.link target))

def nodeAt (d : Disk) (p : Path) : Except OsError NodeId := do
  let place ← d.locate false p
  match place.last, place.slash with
  | some (.name n), false =>
    match ← d.lookup place.directory n with
    | none => .error .noEntry
    | some (id, _) => .ok id
  | _, _ => d.resolve p

def deviceDirectory : NodeId := 1

def isOnDevices (d : Disk) (id : NodeId) : Bool :=
  id == deviceDirectory || match d.node? deviceDirectory with
    | some (.directory _ entries) => entries.entries.any (·.2 == id)
    | _ => false

def hardLink (d : Disk) (p existing : Path) : Except OsError Disk := do
  Path.checkZero [existing, p]
  let id ← d.nodeAt existing
  let (place, name) ← d.freeName p
  if place.slash then .error .noEntry
  else if d.isOnDevices id != d.isOnDevices place.directory then .error .crossDevice
  else match d.node? id with
    | some (.device _) => .error .notPermitted
    | some (.directory ..) =>
      d.checkChange place.directory
      .error .notPermitted
    | _ =>
      d.checkChange place.directory
      .ok (d.setEntry place.directory name id)

/-- Take from a file the right to be written, and from a directory all rights but
that its names are listed. Only who may change them may do that. -/
def makeReadOnly (d : Disk) (p : Path) : Except OsError Disk := do
  match ← d.stat p with
  | (id, .file content _) => .ok (d.setNode id (.file content false))
  | (id, .directory parent entries) =>
    if entries.access = .search then .error .notPermitted
    else .ok (d.setNode id (.directory parent { entries with access := .list }))
  | (_, .device _) => .error .notPermitted
  | (_, .link _) => .ok d

/-- A disk with two devices and an empty working directory. The root and the directory
of the devices may not be changed. -/
def fresh : Disk where
  nodes := #[
    .directory 0 ⟨[(.ofString "dev", 1), (.ofString "tmp", 4)], .search⟩,
    .directory 0 ⟨[(.ofString "null", 2), (.ofString "full", 3)], .search⟩,
    .device true,
    .device false,
    .directory 0 ⟨[(.ofString "scratch", 5)], .change⟩,
    .directory 4 ⟨[(.ofString "work", 6)], .change⟩,
    .directory 5 .empty]
  working := 6

end Disk

end IconPainter
