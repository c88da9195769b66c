import IconPainter.Disk.Basic

/-! # Finding paths on a disk

A path is walked step by step from the root or from the working directory.
Every step is taken in a directory that may be searched, and a symbolic link is replaced by the
steps of its target, forty times at most. A request that makes, moves or
removes an entry walks to the directory of the last step and looks there.
-/

namespace IconPainter

/-- One step of a walk through directories. -/
inductive Step where
  | here
  | up
  | name (bytes : Bytes)
  /-- No step, but what was reached must be a directory. -/
  | inside
deriving DecidableEq, Repr

namespace Path

def stepOf (piece : Bytes) : Step :=
  if piece = [dot] then .here else if piece = [dot, dot] then .up else .name piece

def steps (p : Path) : List Step :=
  ((p.bytes.splitOn slash).filter (· != [])).map stepOf

def endsInSlash (p : Path) : Bool := p.bytes.getLast? == some slash

/-- The steps of a path that must lead to a directory if it ends in a slash. -/
def fullSteps (p : Path) : List Step :=
  p.steps ++ if p.endsInSlash then [.inside] else []

/-- A path can be handed to the system if it has no zero byte, is not empty and
is short enough. -/
def validate (p : Path) : Except OsError Unit :=
  if 0 ∈ p.bytes then .error .zeroByte
  else if p.bytes = [] then .error .noEntry
  else if 4096 ≤ p.bytes.length then .error .nameTooLong
  else .ok ()

/-- No path of a request may have a zero byte, whatever else is wrong with the others. -/
def checkZero (ps : List Path) : Except OsError Unit :=
  if ps.any (·.bytes.contains 0) then .error .zeroByte else .ok ()

end Path

namespace Disk

def maxLinks : Nat := 40

def maxName : Nat := 255

def start (dir : NodeId) (p : Path) : NodeId :=
  if p.isAbsolute then root else dir

def lookup (d : Disk) (dir : NodeId) (name : Bytes) : Except OsError (Option (NodeId × Node)) :=
  match d.node? dir with
  | some (.directory _ entries) =>
    if entries.access = .list then .error .accessDenied
    else if maxName < name.length then .error .nameTooLong
    else .ok ((d.child? dir name).bind fun id => (d.node? id).map (id, ·))
  | _ => .error .notDirectory

def take (d : Disk) (dir : NodeId) (step : Step) : Except OsError (NodeId × Node) :=
  match d.node? dir with
  | some (.directory parent entries) =>
    match step with
    | .inside => .ok (dir, .directory parent entries)
    | .here =>
      if entries.access = .list then .error .accessDenied
      else .ok (dir, .directory parent entries)
    | .up =>
      if entries.access = .list then .error .accessDenied
      else match d.node? parent with
        | some n => .ok (parent, n)
        | none => .error .noEntry
    | .name name =>
      match d.lookup dir name with
      | .error e => .error e
      | .ok none => .error .noEntry
      | .ok (some found) => .ok found
  | _ => .error .notDirectory

/-- Walk until a link is met, and go on with `follow` there. -/
def walkWith (d : Disk) (follow : NodeId → List Step → Except OsError NodeId) :
    NodeId → List Step → Except OsError NodeId
  | dir, [] => .ok dir
  | dir, step :: steps =>
    match d.take dir step with
    | .error e => .error e
    | .ok (_, .link target) => follow (start dir target) (target.fullSteps ++ steps)
    | .ok (id, _) => d.walkWith follow id steps

def walk (d : Disk) : (links : Nat) → NodeId → List Step → Except OsError NodeId
  | 0 => d.walkWith fun _ _ => .error .tooManyLinks
  | links + 1 => d.walkWith (d.walk links)

/-- The node that a path leads to, through all links. -/
def resolve (d : Disk) (p : Path) : Except OsError NodeId :=
  match p.validate with
  | .error e => .error e
  | .ok () => d.walk maxLinks (start d.working p) p.fullSteps

def stat (d : Disk) (p : Path) : Except OsError (NodeId × Node) :=
  match d.resolve p with
  | .error e => .error e
  | .ok id =>
    match d.node? id with
    | some n => .ok (id, n)
    | none => .error .noEntry

def read (d : Disk) (p : Path) : Except OsError Bytes :=
  match d.stat p with
  | .error e => .error e
  | .ok (_, .file content _) => .ok content
  | .ok (_, .directory ..) => .error .isDirectory
  | .ok _ => .ok []

/-- The place of an entry: its directory, the last step of the path, and whether
a slash follows it. The root has no last step. -/
structure Place where
  directory : NodeId
  last : Option Step
  slash : Bool
deriving DecidableEq, Repr

def locateWith (d : Disk) (final : Bool)
    (follow : NodeId → List Step → Bool → Except OsError Place) (slash : Bool) :
    NodeId → List Step → Except OsError Place
  | dir, [] => .ok ⟨dir, none, slash⟩
  | dir, [step] =>
    match d.take dir step with
    | .ok (_, .link target) =>
      if final && !slash then follow (start dir target) target.steps target.endsInSlash
      else .ok ⟨dir, some step, slash⟩
    | .error .notDirectory => .error .notDirectory
    | .error .accessDenied => .error .accessDenied
    | _ => .ok ⟨dir, some step, slash⟩
  | dir, step :: steps =>
    match d.take dir step with
    | .error e => .error e
    | .ok (_, .link target) => follow (start dir target) (target.fullSteps ++ steps) slash
    | .ok (id, _) => d.locateWith final follow slash id steps

def locateFrom (d : Disk) (final : Bool) :
    (links : Nat) → NodeId → List Step → (slash : Bool) → Except OsError Place
  | 0, dir, steps, slash => d.locateWith final (fun _ _ _ => .error .tooManyLinks) slash dir steps
  | links + 1, dir, steps, slash => d.locateWith final (d.locateFrom final links) slash dir steps

/-- Where the entry that a path names stands or would stand. -/
def locate (d : Disk) (final : Bool) (p : Path) : Except OsError Place :=
  match p.validate with
  | .error e => .error e
  | .ok () => d.locateFrom final maxLinks (start d.working p) p.steps p.endsInSlash

end Disk

end IconPainter
