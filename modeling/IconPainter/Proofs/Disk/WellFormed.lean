import IconPainter.Proofs.Disk.View
import IconPainter.Disk.Run

/-! # Well-formed disks

No request makes a disk ill-formed. All but the making of a directory leave the
directories as they are and give names only to what is none, and that is all
that well-formedness asks of a change.
-/

namespace IconPainter

namespace Disk

variable {d d' d'' : Disk} {id i : NodeId} {e e' : Entry}

/-- The same nodes are directories, below the same ones and with the same rights. -/
structure SameDirectories (d d' : Disk) : Prop where
  working : d.working = d'.working
  kind?_iff : ∀ {id parent access}, d.kind? id = some (.directory parent access) ↔
    d'.kind? id = some (.directory parent access)

namespace SameDirectories

theorem refl (d : Disk) : d.SameDirectories d := ⟨rfl, Iff.rfl⟩

theorem symm (h : d.SameDirectories d') : d'.SameDirectories d :=
  ⟨h.working.symm, h.kind?_iff.symm⟩

theorem trans (h : d.SameDirectories d') (h' : d'.SameDirectories d'') : d.SameDirectories d'' :=
  ⟨h.working.trans h'.working, h.kind?_iff.trans h'.kind?_iff⟩

theorem hasDirectory_iff (h : d.SameDirectories d') : d.HasDirectory id ↔ d'.HasDirectory id := by
  simp only [hasDirectory_iff_directory, h.kind?_iff]

theorem of_update {k : Kind} (hw : d.working = d'.working)
    (hk : d'.kind? = Function.update d.kind? i (some k)) (hi : ¬ d.HasDirectory i)
    (hd : k.isDirectory = false) : d.SameDirectories d' := by
  refine ⟨hw, ?_⟩
  intro id parent access
  rw [hk, Function.update_apply]
  split
  · rename_i hid
    subst hid
    constructor
    · intro h
      exact (hi (hasDirectory_iff_directory.mpr ⟨_, _, h⟩)).elim
    · rintro h
      cases h
      contradiction
  · rfl

end SameDirectories

theorem not_hasDirectory_of_kind? {k : Kind} (h : d.kind? id = some k)
    (hk : k.isDirectory = false) : ¬ d.HasDirectory id := by
  rintro ⟨k', h', hd⟩
  rw [h] at h'
  cases h'
  simp [hk] at hd

theorem not_hasDirectory_of_none (h : d.kind? id = none) : ¬ d.HasDirectory id := by
  rintro ⟨k, hk, -⟩
  rw [h] at hk
  contradiction

namespace WellFormed

theorem kind?_root (h : d.WellFormed) : ∃ access, d.kind? root = some (.directory root access) := by
  obtain ⟨entries, he⟩ := h.root_isDirectory
  exact ⟨entries.access, by simp [kind?, he, Node.kind]⟩

theorem hasDirectory_root (h : d.WellFormed) : d.HasDirectory root := by
  obtain ⟨access, ha⟩ := h.kind?_root
  exact hasDirectory_iff_directory.mpr ⟨_, _, ha⟩

theorem hasDirectory_working (h : d.WellFormed) : d.HasDirectory d.working :=
  hasDirectory_iff.mpr h.working_isDirectory

theorem kind?_of_at? (h : d.WellFormed) (he : d.at? e = some i) : ∃ k, d.kind? i = some k := by
  obtain ⟨n, hn⟩ := Option.isSome_iff_exists.mp (h.child_isThere he)
  exact ⟨n.kind, by simp [kind?, hn]⟩

theorem hasDirectory_parent {parent : NodeId} {access : Access} (h : d.WellFormed)
    (hk : d.kind? id = some (.directory parent access)) : d.HasDirectory parent := by
  obtain ⟨n, hn, hnk⟩ := Option.map_eq_some_iff.mp hk
  cases n <;> cases hnk
  exact hasDirectory_iff.mpr (h.parent_isDirectory hn)

theorem entry_unique (h : d.WellFormed) (he : d.at? e = some i) (he' : d.at? e' = some i)
    (hd : d.HasDirectory i) : e = e' := by
  obtain ⟨hdir, hname⟩ := h.directory_name_unique he he' (hasDirectory_iff.mp hd)
  cases e
  cases e'
  simp_all

theorem at?_ne_of_kind?_eq_none (h : d.WellFormed) (hi : d.kind? i = none) : d.at? e ≠ some i := by
  intro he
  obtain ⟨k, hk⟩ := h.kind?_of_at? he
  rw [hi] at hk
  contradiction

theorem kindAt?_eq_none_iff (h : d.WellFormed) : d.kindAt? e = none ↔ d.at? e = none := by
  constructor
  · intro he
    by_contra hne
    obtain ⟨i, hi⟩ := Option.ne_none_iff_exists'.mp hne
    obtain ⟨k, hk⟩ := h.kind?_of_at? hi
    simp [kindAt?, hi, hk] at he
  · intro he
    simp [kindAt?, he]

theorem of_view {access : Access} (hr : d.kind? root = some (.directory root access))
    (hw : d.HasDirectory d.working) (hc : ∀ {e i}, d.at? e = some i → (d.kind? i).isSome)
    (hp : ∀ {id parent access}, d.kind? id = some (.directory parent access) →
      d.HasDirectory parent)
    (hu : ∀ {e e' i}, d.at? e = some i → d.at? e' = some i → d.HasDirectory i → e = e') :
    d.WellFormed where
  root_isDirectory := by
    obtain ⟨n, hn, hnk⟩ := Option.map_eq_some_iff.mp hr
    cases n <;> cases hnk
    exact ⟨_, hn⟩
  working_isDirectory := hasDirectory_iff.mp hw
  child_isThere {id name i} h := by
    have := hc (e := ⟨id, name⟩) h
    rwa [kind?, Option.isSome_map] at this
  parent_isDirectory {id parent entries} h :=
    hasDirectory_iff.mp (hp (show d.kind? id = some (.directory parent entries.access) by
      simp [kind?, h, Node.kind]))
  directory_name_unique {id id' name name' i} h h' hd := by
    have heq : (⟨id, name⟩ : Entry) = ⟨id', name'⟩ := hu h h' (hasDirectory_iff.mpr hd)
    simpa using heq

/-- A change that leaves the directories alone and gives names only to what is none. -/
theorem change (h : d.WellFormed) (hs : d.SameDirectories d')
    (hk : ∀ {i}, (d.kind? i).isSome → (d'.kind? i).isSome)
    (ha : ∀ {e i}, d'.at? e = some i →
      d.at? e = some i ∨ ∃ k, d'.kind? i = some k ∧ k.isDirectory = false) : d'.WellFormed := by
  obtain ⟨access, hr⟩ := h.kind?_root
  have old {e i} (he : d'.at? e = some i) (hd : d'.HasDirectory i) : d.at? e = some i := by
    rcases ha he with hi | ⟨k, hki, hkd⟩
    · exact hi
    · exact (not_hasDirectory_of_kind? hki hkd hd).elim
  refine of_view (hs.kind?_iff.mp hr) ?_ ?_ ?_ ?_
  · rw [← hs.working, ← hs.hasDirectory_iff]
    exact h.hasDirectory_working
  · intro e i he
    rcases ha he with hi | ⟨k, hki, -⟩
    · obtain ⟨k, hki⟩ := h.kind?_of_at? hi
      exact hk (by simp [hki])
    · simp [hki]
  · intro id parent access hd
    exact hs.hasDirectory_iff.mp (h.hasDirectory_parent (hs.kind?_iff.mpr hd))
  · intro e e' i he he' hd
    exact h.entry_unique (old he hd) (old he' hd) (hs.hasDirectory_iff.mpr hd)

/-! ### Single changes -/

theorem setNode {k : Kind} {n : Node} (h : d.WellFormed) (hk : d.kind? i = some k)
    (hd : k.isDirectory = false) (hn : n.isDirectory = false) : (d.setNode i n).WellFormed := by
  have hi : (d.kind? i).isSome := by simp [hk]
  have hkind := kind?_setNode d i n hi
  have hdir := not_hasDirectory_of_kind? hk hd
  refine h.change (.of_update rfl hkind hdir (by simpa using hn)) ?_ ?_
  · intro j hj
    rw [hkind, Function.update_apply]
    split
    · rfl
    · exact hj
  · intro e j he
    rw [at?_setNode d i n hdir (by simp [hn])] at he
    exact .inl he

theorem eraseEntry (h : d.WellFormed) (e : Entry) :
    (d.eraseEntry e.directory e.name).WellFormed := by
  have hkind := kind?_eraseEntry d e.directory e.name
  refine h.change ⟨(working_modifyEntries d _ _).symm, by simp [hkind]⟩ (by simp [hkind]) ?_
  intro e' j he
  rw [at?_eraseEntry, Function.update_apply] at he
  split at he
  · contradiction
  · exact .inl he

theorem setEntry {k : Kind} (h : d.WellFormed) (he : d.HasDirectory e.directory)
    (hk : d.kind? i = some k) (hd : k.isDirectory = false) :
    (d.setEntry e.directory e.name i).WellFormed := by
  have hkind := kind?_setEntry d e.directory e.name i
  refine h.change ⟨(working_modifyEntries d _ _).symm, by simp [hkind]⟩ (by simp [hkind]) ?_
  intro e' j hj
  rw [at?_setEntry he, Function.update_apply] at hj
  split at hj
  · cases hj
    exact .inr ⟨k, by rw [hkind, hk], hd⟩
  · exact .inl hj

theorem addEntry {n : Node} (h : d.WellFormed) (he : d.HasDirectory e.directory)
    (hn : n.isDirectory = false) : (d.addEntry e.directory e.name n).WellFormed := by
  have hkind := kind?_addEntry d e.directory e.name n
  have hfresh := kind?_eq_none_of_size_le (d := d) (Nat.le_refl d.nodes.size)
  refine h.change (.of_update (working_addEntry d _ _ _).symm hkind
    (not_hasDirectory_of_none hfresh) (by simpa using hn)) ?_ ?_
  · intro j hj
    rw [hkind, Function.update_apply]
    split
    · rfl
    · exact hj
  · intro e' j hj
    rw [at?_addEntry he (by rintro parent entries rfl; contradiction), Function.update_apply] at hj
    split at hj
    · cases hj
      exact .inr ⟨n.kind, by simp [hkind], by simpa using hn⟩
    · exact .inl hj

theorem addDirectory (h : d.WellFormed) (he : d.HasDirectory e.directory) :
    (d.addEntry e.directory e.name (.directory e.directory .empty)).WellFormed := by
  have hkind := kind?_addEntry d e.directory e.name (.directory e.directory .empty)
  have hat := at?_addEntry (n := .directory e.directory .empty) he (by rintro _ _ ⟨⟩; rfl)
  have hfresh := kind?_eq_none_of_size_le (d := d) (Nat.le_refl d.nodes.size)
  have keep {j k} (hj : d.kind? j = some k) :
      (d.addEntry e.directory e.name (.directory e.directory .empty)).kind? j = some k := by
    rw [hkind, Function.update_of_ne, hj]
    rintro rfl
    rw [hfresh] at hj
    contradiction
  have keepDir {j} (hj : d.HasDirectory j) :
      (d.addEntry e.directory e.name (.directory e.directory .empty)).HasDirectory j := by
    obtain ⟨k, hk, hd⟩ := hj
    exact ⟨k, keep hk, hd⟩
  obtain ⟨access, hr⟩ := h.kind?_root
  refine of_view (keep hr) ?_ ?_ ?_ ?_
  · rw [working_addEntry]
    exact keepDir h.hasDirectory_working
  · intro e' j hj
    rw [hat, Function.update_apply] at hj
    split at hj
    · cases hj
      simp [hkind]
    · obtain ⟨k, hk⟩ := h.kind?_of_at? hj
      simp [keep hk]
  · intro j parent access hj
    rw [hkind, Function.update_apply] at hj
    split at hj
    · cases hj
      exact keepDir he
    · exact keepDir (h.hasDirectory_parent hj)
  · intro e₁ e₂ j h₁ h₂ hd
    rw [hat, Function.update_apply] at h₁ h₂
    split at h₁ <;> split at h₂
    · simp_all
    · cases h₁
      exact (h.at?_ne_of_kind?_eq_none hfresh h₂).elim
    · cases h₂
      exact (h.at?_ne_of_kind?_eq_none hfresh h₁).elim
    · apply h.entry_unique h₁ h₂
      obtain ⟨k, hk⟩ := h.kind?_of_at? h₁
      obtain ⟨k', hk', hd'⟩ := hd
      rw [keep hk] at hk'
      cases hk'
      exact ⟨k, hk, hd'⟩

end WellFormed

/-! ### Checking a disk -/

def links (d : Disk) : List (Entry × NodeId) :=
  (List.range d.nodes.size).flatMap fun id =>
    match d.node? id with
    | some (.directory _ entries) => entries.entries.map fun (name, i) => (⟨id, name⟩, i)
    | _ => []

def wellFormedB (d : Disk) : Bool :=
  (match d.kind? root with
    | some (.directory parent _) => parent == root
    | _ => false) &&
  (d.node? d.working).any Node.isDirectory &&
  (d.links.all fun (_, i) => (d.kind? i).isSome) &&
  ((List.range d.nodes.size).all fun id => match d.kind? id with
    | some (.directory parent _) => (d.node? parent).any Node.isDirectory
    | _ => true) &&
  d.links.all fun (e, i) => d.links.all fun (e', i') =>
    !(i == i' && (d.node? i).any Node.isDirectory) || e == e'

theorem mem_links_of_at? (h : d.at? e = some i) : (e, i) ∈ d.links := by
  unfold at? child? at h
  split at h
  · rename_i parent entries hn
    refine List.mem_flatMap.mpr ⟨e.directory, ?_, ?_⟩
    · rw [List.mem_range]
      unfold node? at hn
      by_contra hlt
      simp [Array.getElem?_eq_none (Nat.le_of_not_lt hlt)] at hn
    · simp only [hn, List.mem_map]
      obtain ⟨before, after, hentries, -⟩ := List.lookup_eq_some_iff.mp h
      exact ⟨(e.name, i), hentries ▸ List.mem_append_right _ List.mem_cons_self, rfl⟩
  · contradiction

theorem wellFormed_of_wellFormedB (h : d.wellFormedB = true) : d.WellFormed := by
  simp only [wellFormedB, Bool.and_eq_true, List.all_eq_true] at h
  obtain ⟨⟨⟨⟨hr, hw⟩, hc⟩, hp⟩, hu⟩ := h
  split at hr
  · rename_i parent access hk
    cases eq_of_beq hr
    refine .of_view hk (hasDirectory_iff.mpr hw) (fun he => hc _ (mem_links_of_at? he)) ?_ ?_
    · intro id parent access hk
      have hlt : id < d.nodes.size := by
        by_contra hlt
        simp [kind?_eq_none_of_size_le (Nat.le_of_not_lt hlt)] at hk
      have := hp id (List.mem_range.mpr hlt)
      rw [hk] at this
      exact hasDirectory_iff.mpr this
    · intro e e' i he he' hd
      have := hu _ (mem_links_of_at? he) _ (mem_links_of_at? he')
      rw [hasDirectory_iff] at hd
      simpa [hd] using this
  · contradiction

theorem wellFormed_fresh : fresh.WellFormed := wellFormed_of_wellFormedB (by decide +kernel)

end Disk

end IconPainter
