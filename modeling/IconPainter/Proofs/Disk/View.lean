import Mathlib.Logic.Function.Basic
import IconPainter.Disk.Requests
import IconPainter.Disk.Tree

/-! # The view of a disk

All that a request can tell of a disk: of what kind each node is, and which
node each entry names. Every change to a disk updates this view at one node or
at one entry, and leaves the rest of it alone.
-/

namespace IconPainter

/-- A name in a directory. -/
structure Entry where
  directory : NodeId
  name : Bytes
deriving DecidableEq, Repr

/-- A node without its entries. -/
inductive Kind where
  | directory (parent : NodeId) (access : Access)
  | file (content : Bytes) (writable : Bool)
  | link (target : Path)
  | device (takes : Bool)
deriving DecidableEq

namespace Kind

def isDirectory : Kind → Bool
  | directory .. => true
  | _ => false

def target? : Kind → Option Path
  | link target => some target
  | _ => none

def content? : Kind → Option Bytes
  | file content _ => some content
  | device _ => some []
  | _ => none

def leaf : Kind → Leaf
  | directory .. => .directory
  | file content writable => .file content writable
  | link target => .link target
  | device takes => .device takes

/-- A walk can go on from here: into a directory or along a link. -/
def Passable (k : Kind) : Prop := k.isDirectory ∨ k.target?.isSome

end Kind

def Node.kind : Node → Kind
  | directory parent entries => .directory parent entries.access
  | file content writable => .file content writable
  | link target => .link target
  | device takes => .device takes

namespace Node

@[simp] theorem isDirectory_kind (n : Node) : n.kind.isDirectory = n.isDirectory := by
  cases n <;> rfl

@[simp] theorem leaf_kind (n : Node) : n.kind.leaf = n.leaf := by
  cases n <;> rfl

end Node

namespace Disk

def kind? (d : Disk) (id : NodeId) : Option Kind := (d.node? id).map Node.kind

def at? (d : Disk) (e : Entry) : Option NodeId := d.child? e.directory e.name

def kindAt? (d : Disk) (e : Entry) : Option Kind := (d.at? e).bind d.kind?

def HasDirectory (d : Disk) (id : NodeId) : Prop := ∃ k, d.kind? id = some k ∧ k.isDirectory

variable {d : Disk} {id i : NodeId} {e : Entry}

theorem hasDirectory_iff : d.HasDirectory id ↔ (d.node? id).any Node.isDirectory := by
  unfold HasDirectory kind?
  cases d.node? id with
  | none => simp
  | some n => simp

theorem hasDirectory_iff_directory :
    d.HasDirectory id ↔ ∃ parent access, d.kind? id = some (.directory parent access) := by
  constructor
  · rintro ⟨k, hk, hd⟩
    cases k with
    | directory parent access => exact ⟨parent, access, hk⟩
    | _ => contradiction
  · rintro ⟨parent, access, h⟩
    exact ⟨_, h, rfl⟩

theorem hasDirectory_of_at? (h : d.at? e = some id) : d.HasDirectory e.directory := by
  rw [hasDirectory_iff]
  unfold at? child? at h
  split at h
  · rename_i hn
    simp [hn, Node.isDirectory]
  · contradiction

theorem kindAt?_of_at? (h : d.at? e = some id) : d.kindAt? e = d.kind? id := by
  simp [kindAt?, h]

/-! ### Changes -/

theorem kind?_setNode (d : Disk) (id : NodeId) (n : Node) (h : (d.kind? id).isSome) :
    (d.setNode id n).kind? = Function.update d.kind? id (some n.kind) := by
  funext i
  unfold kind? at h ⊢
  rw [node?_setNode]
  by_cases hi : i = id
  · subst hi
    obtain ⟨k, hk⟩ := Option.isSome_iff_exists.mp h
    obtain ⟨n', hn, -⟩ := Option.map_eq_some_iff.mp hk
    simp [hn]
  · simp [hi]

theorem at?_setNode (d : Disk) (id : NodeId) (n : Node) (h : ¬ d.HasDirectory id)
    (hn : ¬ n.isDirectory) : (d.setNode id n).at? = d.at? := by
  funext e
  unfold at? child?
  rw [node?_setNode]
  by_cases he : e.directory = id
  · rw [hasDirectory_iff] at h
    subst he
    cases hd : d.node? e.directory with
    | none => simp
    | some n' =>
      cases n <;> cases n' <;> simp_all [Node.isDirectory]
  · rw [if_neg he]

theorem kind?_modifyEntries (d : Disk) (dir : NodeId) {f : Directory → Directory}
    (hf : ∀ entries, (f entries).access = entries.access) :
    (d.modifyEntries dir f).kind? = d.kind? := by
  funext i
  unfold kind?
  by_cases hi : i = dir
  · subst hi
    rw [node?_modifyEntries_self, Option.map_map]
    cases d.node? i with
    | none => rfl
    | some n => cases n <;> simp [Node.kind, hf]
  · rw [node?_modifyEntries_of_ne d hi]

theorem kind?_setEntry (d : Disk) (dir : NodeId) (name : Bytes) (id : NodeId) :
    (d.setEntry dir name id).kind? = d.kind? :=
  kind?_modifyEntries d dir fun _ => rfl

theorem kind?_eraseEntry (d : Disk) (dir : NodeId) (name : Bytes) :
    (d.eraseEntry dir name).kind? = d.kind? :=
  kind?_modifyEntries d dir fun _ => rfl

theorem at?_setEntry (h : d.HasDirectory e.directory) :
    (d.setEntry e.directory e.name id).at? = Function.update d.at? e (some id) := by
  funext e'
  unfold at?
  rw [child?_setEntry d _ _ _ _ _ (hasDirectory_iff.mp h), Function.update_apply]
  exact if_congr ⟨fun h => by cases e; cases e'; simp_all, fun h => by simp [h]⟩ rfl rfl

theorem at?_eraseEntry (d : Disk) (e : Entry) :
    (d.eraseEntry e.directory e.name).at? = Function.update d.at? e none := by
  funext e'
  unfold at?
  rw [child?_eraseEntry, Function.update_apply]
  exact if_congr ⟨fun h => by cases e; cases e'; simp_all, fun h => by simp [h]⟩ rfl rfl

theorem kind?_eq_none_of_size_le (h : d.nodes.size ≤ id) : d.kind? id = none := by
  simp [kind?, node?, h]

theorem kind?_addNode (d : Disk) (n : Node) :
    (d.addNode n).1.kind? = Function.update d.kind? d.nodes.size (some n.kind) := by
  funext i
  unfold addNode kind? node?
  simp only [Array.getElem?_push]
  by_cases hi : i = d.nodes.size
  · subst hi
    simp
  · simp [hi]

theorem at?_addNode (d : Disk) (n : Node) (hn : ∀ parent entries, n = .directory parent entries →
    entries = .empty) : (d.addNode n).1.at? = d.at? := by
  funext e
  unfold addNode at? child? node?
  simp only [Array.getElem?_push]
  by_cases he : e.directory = d.nodes.size
  · simp only [he, if_true, Array.getElem?_eq_none, Nat.le_refl]
    cases n with
    | directory parent entries =>
      cases hn parent entries rfl
      rfl
    | _ => rfl
  · rw [if_neg he]

theorem working_modifyEntries (d : Disk) (dir : NodeId) (f : Directory → Directory) :
    (d.modifyEntries dir f).working = d.working := by
  unfold modifyEntries
  split <;> rfl

theorem working_addEntry (d : Disk) (dir : NodeId) (name : Bytes) (n : Node) :
    (d.addEntry dir name n).working = d.working :=
  working_modifyEntries (d.addNode n).1 dir _

theorem kind?_addEntry (d : Disk) (dir : NodeId) (name : Bytes) (n : Node) :
    (d.addEntry dir name n).kind? = Function.update d.kind? d.nodes.size (some n.kind) := by
  unfold addEntry
  rw [kind?_setEntry]
  exact kind?_addNode d n

theorem at?_addEntry {n : Node} (h : d.HasDirectory e.directory)
    (hn : ∀ parent entries, n = .directory parent entries → entries = .empty) :
    (d.addEntry e.directory e.name n).at? = Function.update d.at? e (some d.nodes.size) := by
  have hd : (d.addNode n).1.HasDirectory e.directory := by
    obtain ⟨k, hk, hk'⟩ := h
    refine ⟨k, ?_, hk'⟩
    rw [kind?_addNode, Function.update_of_ne, hk]
    rintro he
    rw [he, kind?_eq_none_of_size_le (Nat.le_refl _)] at hk
    contradiction
  unfold addEntry
  rw [at?_setEntry hd, at?_addNode d n hn]
  rfl

end Disk

end IconPainter
