import IconPainter.Proofs.Disk.WellFormed

/-! # Alike disks

Two disks are alike if they differ in the numbers of their files alone: they
have the same directories, the same stands at every entry, and only a file that
has a single name may have another number on the other.
-/

namespace IconPainter

namespace Disk

/-- What stands at the entry is a file that has no other name. -/
def Single (d : Disk) (e : Entry) : Prop :=
  ∃ id content writable, d.at? e = some id ∧ d.kind? id = some (.file content writable) ∧
    ∀ e', d.at? e' = some id → e' = e

/-- What stands at the entry, if anything, is a file that has no other name. -/
def Sole (d : Disk) (e : Entry) : Prop := d.at? e = none ∨ d.Single e

/-- The disks have the same directories and the same at every entry that is not in the set. -/
structure SameOff (X : Set Entry) (a b : Disk) : Prop where
  directories : a.SameDirectories b
  at?_eq : ∀ e ∉ X, a.at? e = b.at? e
  kindAt?_eq : ∀ e ∉ X, a.kindAt? e = b.kindAt? e

/-- The disks differ in the numbers of files with a single name alone. -/
structure Alike (a b : Disk) : Prop where
  directories : a.SameDirectories b
  kindAt?_eq : ∀ e, a.kindAt? e = b.kindAt? e
  at?_eq : ∀ e, a.at? e = b.at? e ∨ (a.Sole e ∧ b.Sole e)

variable {a b c a' b' d : Disk} {id : NodeId} {e e' : Entry} {name : Bytes} {names : List Bytes}
  {X : Set Entry}

/-! ### Files with one name -/

theorem single_of_links {content : Bytes} {writable : Bool} (hat : d.at? e = some id)
    (hk : d.kind? id = some (.file content writable)) (hone : ∀ l ∈ d.links, l.2 = id → l.1 = e) :
    d.Single e :=
  ⟨id, content, writable, hat, hk, fun _ he => hone _ (mem_links_of_at? he) rfl⟩

theorem Sole.eq_of_at? (h : d.Sole e) (he : d.at? e' = d.at? e) (hne : d.at? e ≠ none) :
    e' = e := by
  rcases h with h | ⟨id, c, w, hat, -, hone⟩
  · exact (hne h).elim
  · exact hone e' (he.trans hat)

theorem Sole.not_hasDirectory (h : d.Sole e) (hat : d.at? e = some id) : ¬ d.HasDirectory id := by
  rcases h with h | ⟨i, c, w, hi, hk, -⟩
  · rw [h] at hat
    contradiction
  · cases hi.symm.trans hat
    rintro ⟨k, hk', hd⟩
    cases hk.symm.trans hk'
    contradiction

theorem SameOff.sole (h : SameOff X a b) (hX : ∀ x ∈ X, b.Sole x) (hs : a.Sole e) : b.Sole e := by
  by_cases he : e ∈ X
  · exact hX e he
  rcases hs with hnone | ⟨id, c, w, hat, hk, hone⟩
  · exact .inl ((h.at?_eq e he).symm.trans hnone)
  · have hbat := (h.at?_eq e he).symm.trans hat
    have hbk := (h.kindAt?_eq e he).symm.trans (kindAt?_of_at? hat)
    refine .inr ⟨id, c, w, hbat, by rw [← kindAt?_of_at? hbat, hbk, hk], ?_⟩
    intro x hx
    by_cases hxX : x ∈ X
    · exact ((hX x hxX).eq_of_at? (hbat.trans hx.symm) (by simp [hx])).symm
    · exact hone x ((h.at?_eq x hxX).trans hx)

namespace SameOff

theorem refl (X : Set Entry) (d : Disk) : SameOff X d d :=
  ⟨.refl d, fun _ _ => rfl, fun _ _ => rfl⟩

theorem mono {Y : Set Entry} (h : SameOff X a b) (hXY : X ⊆ Y) : SameOff Y a b :=
  ⟨h.directories, fun e he => h.at?_eq e fun hX => he (hXY hX),
    fun e he => h.kindAt?_eq e fun hX => he (hXY hX)⟩

theorem trans (h : SameOff X a b) (h' : SameOff X b c) : SameOff X a c :=
  ⟨h.directories.trans h'.directories, fun e he => (h.at?_eq e he).trans (h'.at?_eq e he),
    fun e he => (h.kindAt?_eq e he).trans (h'.kindAt?_eq e he)⟩

end SameOff

namespace Alike

theorem refl (d : Disk) : d.Alike d := ⟨.refl d, fun _ => rfl, fun _ => .inl rfl⟩

/-- Alike disks are alike after the same change of some entries, if what it leaves there has
a single name. -/
theorem step (h : a.Alike b) (ha : SameOff X a a') (hb : SameOff X b b')
    (hX : ∀ e ∈ X, a'.Sole e ∧ b'.Sole e ∧ a'.kindAt? e = b'.kindAt? e) : a'.Alike b' where
  directories := (ha.directories.symm.trans h.directories).trans hb.directories
  kindAt?_eq e := by
    by_cases he : e ∈ X
    · exact (hX e he).2.2
    · rw [← ha.kindAt?_eq e he, h.kindAt?_eq e, hb.kindAt?_eq e he]
  at?_eq e := by
    by_cases he : e ∈ X
    · exact .inr ⟨(hX e he).1, (hX e he).2.1⟩
    rcases h.at?_eq e with hat | ⟨hsa, hsb⟩
    · exact .inl (by rw [← ha.at?_eq e he, hat, hb.at?_eq e he])
    · exact .inr ⟨ha.sole (fun x hx => (hX x hx).1) hsa, hb.sole (fun x hx => (hX x hx).2.1) hsb⟩

theorem at?_directory (h : a.Alike b) (hd : a.HasDirectory id) (hat : a.at? e = some id) :
    b.at? e = some id := by
  rcases h.at?_eq e with heq | ⟨hs, -⟩
  · rw [← heq, hat]
  · exact (hs.not_hasDirectory hat hd).elim

end Alike

/-! ### Trees -/

theorem leafBelow?_nil (d : Disk) (id : NodeId) :
    d.leafBelow? id [] = (d.kind? id).map Kind.leaf := by
  simp only [leafBelow?, descend?, Option.bind_some, kind?, Option.map_map]
  congr 1
  funext n
  exact n.leaf_kind.symm

theorem leafBelow?_cons (d : Disk) (id : NodeId) (name : Bytes) (names : List Bytes) :
    d.leafBelow? id (name :: names) = (d.at? ⟨id, name⟩).bind (d.leafBelow? · names) := by
  simp only [leafBelow?, descend?, Option.bind_assoc, at?]

theorem leafBelow?_of_not_hasDirectory (h : ¬ d.HasDirectory id) (hn : names ≠ []) :
    d.leafBelow? id names = none := by
  obtain ⟨name, rest, rfl⟩ := List.exists_cons_of_ne_nil hn
  rw [leafBelow?_cons]
  cases hat : d.at? ⟨id, name⟩ with
  | none => rfl
  | some i => exact (h (hasDirectory_of_at? hat)).elim

theorem leafBelow?_cons_of_leaf (h : ∀ k ∈ d.kindAt? ⟨id, name⟩, k.isDirectory = false) :
    d.leafBelow? id (name :: names) =
      if names = [] then (d.kindAt? ⟨id, name⟩).map Kind.leaf else none := by
  rw [leafBelow?_cons]
  cases hat : d.at? ⟨id, name⟩ with
  | none => simp [kindAt?, hat]
  | some i =>
    rw [Option.bind_some]
    rw [kindAt?_of_at? hat] at h ⊢
    split
    · rename_i hn
      rw [hn, leafBelow?_nil]
    · rename_i hn
      refine leafBelow?_of_not_hasDirectory ?_ hn
      rintro ⟨k, hk, hd⟩
      simp [h k hk] at hd

theorem Alike.leafBelow?_eq (h : a.Alike b) (hd : a.HasDirectory id) (names : List Bytes) :
    a.leafBelow? id names = b.leafBelow? id names := by
  induction names generalizing id with
  | nil =>
    obtain ⟨parent, access, hk⟩ := hasDirectory_iff_directory.mp hd
    rw [leafBelow?_nil, leafBelow?_nil, hk, h.directories.kind?_iff.mp hk]
  | cons name names ih =>
    by_cases hleaf : ∀ k ∈ a.kindAt? ⟨id, name⟩, k.isDirectory = false
    · rw [leafBelow?_cons_of_leaf hleaf, leafBelow?_cons_of_leaf (h.kindAt?_eq _ ▸ hleaf),
        h.kindAt?_eq]
    · simp only [not_forall, Bool.not_eq_false] at hleaf
      obtain ⟨k, hk, hkd⟩ := hleaf
      obtain ⟨i, hat, hki⟩ := Option.bind_eq_some_iff.mp hk
      have hdir : a.HasDirectory i := ⟨k, hki, hkd⟩
      rw [leafBelow?_cons, leafBelow?_cons, hat, h.at?_directory hdir hat]
      exact ih hdir

theorem Alike.sameTree (h : a.Alike b) (hw : a.WellFormed) : a.SameTree b :=
  h.leafBelow?_eq hw.hasDirectory_root

end Disk

end IconPainter
