import IconPainter.Proofs.Disk.Opening

/-! # What requests do

Each request that changes a disk succeeds under conditions on the entries that
its paths name or lead to, and then makes one change there. No request makes a
disk ill-formed, so no script does.
-/

namespace IconPainter

namespace Disk

/-- Names may be made in the directory and taken away. -/
def MayChange (d : Disk) (dir : NodeId) : Prop :=
  ∃ parent, d.kind? dir = some (.directory parent .change)

/-- Something stands at the entry that is no directory. -/
def HasLeaf (d : Disk) (e : Entry) : Prop := ∃ k, d.kindAt? e = some k ∧ k.isDirectory = false

/-- A path names an entry, and no slash follows. -/
def Names (d : Disk) (p : Path) (e : Entry) : Prop := d.named? p = some e ∧ p.endsInSlash = false

/-- What stands at the entry that the path names is itself a directory. -/
def NamesDirectory (d : Disk) (p : Path) : Prop :=
  ∃ x k, d.named? p = some x ∧ d.kindAt? x = some k ∧ k.isDirectory

inductive Creates (d : Disk) (p : Path) : NodeId → Disk → Prop where

  | new {e : Entry} : d.target? p = some e → d.at? e = none → d.MayChange e.directory →
      Creates d p d.nodes.size (d.addEntry e.directory e.name (.file [] true))

  | emptied {e : Entry} {file : NodeId} {c : Bytes} : d.target? p = some e →
      d.at? e = some file → d.kind? file = some (.file c true) →
      Creates d p file (d.setNode file (.file [] true))

  | device {e : Entry} {file : NodeId} {takes : Bool} : d.target? p = some e →
      d.at? e = some file → d.kind? file = some (.device takes) → Creates d p file d

/-- The disk with a node named by the one entry instead of by the other. -/
def moveEntry (d : Disk) (s t : Entry) (id : NodeId) : Disk :=
  (d.eraseEntry s.directory s.name).setEntry t.directory t.name id

/-- What moving a name does. -/
inductive Renames (d : Disk) (old new : Path) : Disk → Prop where

  | same {s t : Entry} : d.Names old s → d.Names new t → d.HasLeaf s → d.at? t = d.at? s →
      Renames d old new d

  | moved {s t : Entry} {id : NodeId} : d.Names old s → d.Names new t → d.HasLeaf s →
      d.at? s = some id → d.at? t ≠ some id → (d.at? t = none ∨ d.HasLeaf t) →
      d.MayChange s.directory → d.MayChange t.directory →
      Renames d old new (d.moveEntry s t id)

inductive Removes (d : Disk) (p : Path) : Disk → Prop where

  | mk {e : Entry} : d.Names p e → d.HasLeaf e → d.MayChange e.directory →
      Removes d p (d.eraseEntry e.directory e.name)

variable {d d' : Disk} {dir id file : NodeId} {es : List Entry} {final slash : Bool}
  {place : Place} {e s t : Entry} {p old new : Path} {name : Bytes}

theorem namesDirectory_iff (he : d.named? p = some e) :
    d.NamesDirectory p ↔ ∃ k, d.kindAt? e = some k ∧ k.isDirectory := by
  constructor
  · rintro ⟨x, k, hx, hk, hd⟩
    cases he.symm.trans hx
    exact ⟨k, hk, hd⟩
  · rintro ⟨k, hk, hd⟩
    exact ⟨e, k, he, hk, hd⟩

theorem not_namesDirectory_iff (he : d.named? p = some e) :
    ¬ d.NamesDirectory p ↔ d.kindAt? e = none ∨ d.HasLeaf e := by
  rw [namesDirectory_iff he, HasLeaf]
  cases d.kindAt? e <;> simp

theorem MayChange.searchable (h : d.MayChange dir) : d.Searchable dir := by
  obtain ⟨parent, hk⟩ := h
  exact ⟨parent, .change, hk, by simp⟩

theorem checkChange_eq_ok_iff {u : Unit} : d.checkChange dir = .ok u ↔ d.MayChange dir := by
  unfold checkChange MayChange kind?
  cases hn : d.node? dir with
  | none => simp
  | some node =>
    cases node with
    | directory parent entries => simp [Node.kind]
    | _ => simp [Node.kind]

theorem MayChange.checkChange_eq (h : d.MayChange dir) : d.checkChange dir = .ok () :=
  checkChange_eq_ok_iff.mpr h

theorem lookup_of_not_hasDirectory (h : ¬ d.HasDirectory dir) :
    d.lookup dir name = .error .notDirectory := by
  rw [hasDirectory_iff] at h
  unfold lookup
  cases hn : d.node? dir with
  | none => rfl
  | some node =>
    cases node with
    | directory parent entries => exact (h (by simp [hn, Node.isDirectory])).elim
    | _ => rfl

theorem lookup_eq_ok_iff {found : Option (NodeId × Node)} : d.lookup dir name = .ok found ↔
    d.Searchable dir ∧ name.length ≤ maxName ∧
      found = (d.at? ⟨dir, name⟩).bind fun id => (d.node? id).map (id, ·) := by
  by_cases hd : d.HasDirectory dir
  · obtain ⟨parent, access, hk⟩ := hasDirectory_iff_directory.mp hd
    rw [lookup_eq hk]
    constructor
    · intro h
      split at h
      · contradiction
      split at h
      · contradiction
      cases h
      exact ⟨⟨parent, access, hk, ‹_›⟩, Nat.le_of_not_lt ‹_›, rfl⟩
    · rintro ⟨⟨parent', access', hk', ha⟩, hn, rfl⟩
      cases hk.symm.trans hk'
      rw [if_neg ha, if_neg (Nat.not_lt.mpr hn)]
  · rw [lookup_of_not_hasDirectory hd]
    constructor
    · intro h
      contradiction
    · rintro ⟨hs, -⟩
      exact (hd hs.hasDirectory).elim

theorem lookup_eq_ok_none_iff (hw : d.WellFormed) : d.lookup e.directory e.name = .ok none ↔
    d.Searchable e.directory ∧ e.name.length ≤ maxName ∧ d.at? e = none := by
  rw [lookup_eq_ok_iff]
  refine and_congr_right fun _ => and_congr_right ?_
  intro _
  rw [eq_comm, Option.bind_eq_none_iff]
  constructor
  · intro h
    by_contra hne
    obtain ⟨id, hid⟩ := Option.ne_none_iff_exists'.mp hne
    obtain ⟨k, hk⟩ := hw.kind?_of_at? hid
    simp [kind?, Option.map_eq_none_iff.mp (h id hid)] at hk
  · intro h id hid
    cases h.symm.trans hid

theorem lookup_eq_ok_some_iff {node : Node} :
    d.lookup e.directory e.name = .ok (some (id, node)) ↔ d.Searchable e.directory ∧
      e.name.length ≤ maxName ∧ d.at? e = some id ∧ d.node? id = some node := by
  rw [lookup_eq_ok_iff]
  refine and_congr_right fun _ => and_congr_right ?_
  intro _
  rw [eq_comm, Option.bind_eq_some_iff]
  constructor
  · rintro ⟨i, hi, h⟩
    obtain ⟨n, hn, heq⟩ := Option.map_eq_some_iff.mp h
    cases heq
    exact ⟨hi, hn⟩
  · rintro ⟨hi, hn⟩
    exact ⟨id, hi, by simp [hn]⟩

theorem kind?_of_node? {node : Node} (h : d.node? id = some node) :
    d.kind? id = some node.kind := by
  simp [kind?, h]

theorem hasLeaf_of_node? {node : Node} (ha : d.at? e = some id) (hn : d.node? id = some node)
    (hd : node.isDirectory = false) : d.HasLeaf e :=
  ⟨node.kind, kindAt?_eq_some_iff.mpr ⟨id, ha, kind?_of_node? hn⟩, by simpa using hd⟩

theorem HasLeaf.exists_node (h : d.HasLeaf e) : ∃ id node, d.at? e = some id ∧
    d.node? id = some node ∧ node.isDirectory = false := by
  obtain ⟨k, hk, hd⟩ := h
  obtain ⟨id, ha, hk⟩ := kindAt?_eq_some_iff.mp hk
  obtain ⟨node, hn, rfl⟩ := Option.map_eq_some_iff.mp hk
  exact ⟨id, node, ha, hn, by simpa using hd⟩

theorem target?_iff_locate : d.target? p = some e ↔ e.name.length ≤ maxName ∧
    d.locate true p = .ok ⟨e.directory, some (.name e.name), false⟩ := by
  rw [target?_eq_some_iff, locate_eq_ok_iff]

theorem Finds.slash_eq (h : d.Finds false p es place) : place.slash = p.endsInSlash := by
  obtain ⟨-, n, -, hl⟩ := h
  generalize p.endsInSlash = slash, p.steps = steps at hl
  cases hl with
  | root => rfl
  | stop => rfl
  | follow hf => contradiction

theorem names_iff_locate : d.Names p e ↔ e.name.length ≤ maxName ∧
    d.locate false p = .ok ⟨e.directory, some (.name e.name), false⟩ := by
  rw [Names, named?_eq_some_iff, locate_eq_ok_iff]
  constructor
  · rintro ⟨⟨hn, es, slash, hf⟩, hs⟩
    have := hf.slash_eq.trans hs
    cases this
    exact ⟨hn, es, hf⟩
  · rintro ⟨hn, es, hf⟩
    exact ⟨⟨hn, es, false, hf⟩, hf.slash_eq.symm⟩

/-! ### Success -/

theorem bind_eq_ok_iff {α β : Type} {x : Except OsError α} {f : α → Except OsError β} {b : β} :
    x >>= f = .ok b ↔ ∃ a, x = .ok a ∧ f a = .ok b := by
  cases x with
  | error e => simp [bind, Except.bind]
  | ok a => simp [bind, Except.bind]

theorem creates_of_create (hw : d.WellFormed) (h : d.create p = .ok (file, d')) :
    d.Creates p file d' := by
  obtain ⟨⟨dir, last, slash⟩, hl, h⟩ := bind_eq_ok_iff.mp h
  simp only at h
  split at h
  · rename_i name
    obtain ⟨found, hfound, h⟩ := bind_eq_ok_iff.mp h
    split at h
    · obtain ⟨u, hc, h⟩ := bind_eq_ok_iff.mp h
      obtain ⟨-, hn, hat⟩ := (lookup_eq_ok_none_iff (e := ⟨dir, name⟩) hw).mp hfound
      cases h
      exact .new (target?_iff_locate.mpr ⟨hn, hl⟩) hat (checkChange_eq_ok_iff.mp hc)
    · obtain ⟨-, hn, hat, hnode⟩ := (lookup_eq_ok_some_iff (e := ⟨dir, name⟩)).mp hfound
      cases h
      exact .emptied (target?_iff_locate.mpr ⟨hn, hl⟩) hat (kind?_of_node? hnode)
    · contradiction
    · obtain ⟨-, hn, hat, hnode⟩ := (lookup_eq_ok_some_iff (e := ⟨dir, name⟩)).mp hfound
      cases h
      exact .device (target?_iff_locate.mpr ⟨hn, hl⟩) hat (kind?_of_node? hnode)
    · contradiction
    · contradiction
  · contradiction

theorem searchable_of_locate (h : d.locate final p = .ok ⟨dir, some (.name name), slash⟩) :
    d.Searchable dir := by
  obtain ⟨es, -, n, -, hl⟩ := locate_eq_ok_iff.mp h
  exact hl.searchable rfl

theorem Creates.create_eq (hw : d.WellFormed) (h : d.Creates p file d') :
    d.create p = .ok (file, d') := by
  cases h with
  | new ht hat hc =>
    obtain ⟨hn, hl⟩ := target?_iff_locate.mp ht
    have hfound := (lookup_eq_ok_none_iff hw).mpr ⟨searchable_of_locate hl, hn, hat⟩
    simp only [create, bind, Except.bind, hl, hfound, hc.checkChange_eq]
  | emptied ht hat hk =>
    obtain ⟨hn, hl⟩ := target?_iff_locate.mp ht
    obtain ⟨node, hnode, hkind⟩ := Option.map_eq_some_iff.mp hk
    cases node <;> cases hkind
    have hfound := lookup_eq_ok_some_iff.mpr ⟨searchable_of_locate hl, hn, hat, hnode⟩
    simp only [create, bind, Except.bind, hl, hfound]
  | device ht hat hk =>
    obtain ⟨hn, hl⟩ := target?_iff_locate.mp ht
    obtain ⟨node, hnode, hkind⟩ := Option.map_eq_some_iff.mp hk
    cases node <;> cases hkind
    have hfound := lookup_eq_ok_some_iff.mpr ⟨searchable_of_locate hl, hn, hat, hnode⟩
    simp only [create, bind, Except.bind, hl, hfound]

theorem removes_of_remove (h : d.remove p = .ok d') : d.Removes p d' := by
  obtain ⟨⟨dir, last, slash⟩, hl, h⟩ := bind_eq_ok_iff.mp h
  simp only at h
  split at h
  · rename_i name
    obtain ⟨found, hfound, h⟩ := bind_eq_ok_iff.mp h
    split at h
    · contradiction
    · rename_i id node
      split at h
      · contradiction
      · rename_i hs
        obtain ⟨u, hc, h⟩ := bind_eq_ok_iff.mp h
        split at h
        · contradiction
        · rename_i hd
          obtain ⟨-, hn, hat, hnode⟩ := (lookup_eq_ok_some_iff (e := ⟨dir, name⟩)).mp hfound
          cases h
          rw [Bool.eq_false_of_not_eq_true hs] at hl
          exact .mk (e := ⟨dir, name⟩) (names_iff_locate.mpr ⟨hn, hl⟩)
            (hasLeaf_of_node? hat hnode (Bool.eq_false_of_not_eq_true hd))
            (checkChange_eq_ok_iff.mp hc)
  · contradiction

theorem Removes.remove_eq (h : d.Removes p d') : d.remove p = .ok d' := by
  obtain ⟨hp, he, hc⟩ := h
  obtain ⟨hn, hl⟩ := names_iff_locate.mp hp
  obtain ⟨id, node, hat, hnode, hd⟩ := he.exists_node
  have hfound := lookup_eq_ok_some_iff.mpr ⟨searchable_of_locate hl, hn, hat, hnode⟩
  simp only [remove, bind, Except.bind, hl, hfound, hc.checkChange_eq, hd,
    Bool.false_eq_true, if_false]

theorem zero_notMem_of_locate (h : d.locate final p = .ok place) :
    p.validate = .ok () ∧ p.bytes.contains 0 = false := by
  obtain ⟨es, hv, -⟩ := locate_eq_ok_iff.mp h
  refine ⟨hv, ?_⟩
  unfold Path.validate at hv
  split at hv
  · contradiction
  · simpa using ‹0 ∉ p.bytes›

theorem renames_of_rename (hw : d.WellFormed) (h : d.rename old new = .ok d') :
    d.Renames old new d' := by
  obtain ⟨_, -, h⟩ := bind_eq_ok_iff.mp h
  obtain ⟨_, -, h⟩ := bind_eq_ok_iff.mp h
  obtain ⟨_, -, h⟩ := bind_eq_ok_iff.mp h
  obtain ⟨⟨dir, last, slash⟩, hl, h⟩ := bind_eq_ok_iff.mp h
  obtain ⟨⟨dir', last', slash'⟩, hl', h⟩ := bind_eq_ok_iff.mp h
  simp only at h
  split at h
  · rename_i n m _
    obtain ⟨source, hsource, h⟩ := bind_eq_ok_iff.mp h
    split at h
    · contradiction
    · contradiction
    · rename_i id node hnode
      obtain ⟨found, hfound, h⟩ := bind_eq_ok_iff.mp h
      obtain ⟨-, hlen, hat, hid⟩ := (lookup_eq_ok_some_iff (e := ⟨dir, n⟩)).mp hsource
      have hd : node.isDirectory = false := by
        cases node <;> first | rfl | exact (hnode _ _ rfl).elim
      have hleaf : d.HasLeaf ⟨dir, n⟩ := hasLeaf_of_node? hat hid hd
      split at h
      · contradiction
      · rename_i hs
        obtain ⟨hs₁, hs₂⟩ : slash = false ∧ slash' = false := by simpa using hs
        rw [hs₁] at hl
        rw [hs₂] at hl'
        have hold : d.Names old ⟨dir, n⟩ := names_iff_locate.mpr ⟨hlen, hl⟩
        split at h
        · obtain ⟨-, hlen', hat'⟩ := (lookup_eq_ok_none_iff (e := ⟨dir', m⟩) hw).mp hfound
          obtain ⟨_, hc, h⟩ := bind_eq_ok_iff.mp h
          obtain ⟨_, hc', h⟩ := bind_eq_ok_iff.mp h
          cases h
          exact .moved hold (names_iff_locate.mpr ⟨hlen', hl'⟩) hleaf hat (by simp [hat'])
            (.inl hat') (checkChange_eq_ok_iff.mp hc) (checkChange_eq_ok_iff.mp hc')
        · rename_i id' node'
          obtain ⟨-, hlen', hat', hid'⟩ := (lookup_eq_ok_some_iff (e := ⟨dir', m⟩)).mp hfound
          have hnew : d.Names new ⟨dir', m⟩ := names_iff_locate.mpr ⟨hlen', hl'⟩
          split at h
          · rename_i heq
            cases h
            exact .same hold hnew hleaf (hat'.trans (heq ▸ hat.symm))
          · rename_i hne
            obtain ⟨_, hc, h⟩ := bind_eq_ok_iff.mp h
            obtain ⟨_, hc', h⟩ := bind_eq_ok_iff.mp h
            split at h
            · contradiction
            · rename_i hd'
              cases h
              exact .moved hold hnew hleaf hat (by simpa [hat'] using hne)
                (.inr (hasLeaf_of_node? hat' hid' (Bool.eq_false_of_not_eq_true hd')))
                (checkChange_eq_ok_iff.mp hc) (checkChange_eq_ok_iff.mp hc')
  · contradiction

theorem Renames.rename_eq (hw : d.WellFormed) (h : d.Renames old new d') :
    d.rename old new = .ok d' := by
  have start {s t : Entry} (hold : d.Names old s) (hnew : d.Names new t) :
      Path.checkZero [old, new] = .ok () ∧ old.validate = .ok () ∧ new.validate = .ok () := by
    obtain ⟨hv, hz⟩ := zero_notMem_of_locate (names_iff_locate.mp hold).2
    obtain ⟨hv', hz'⟩ := zero_notMem_of_locate (names_iff_locate.mp hnew).2
    exact ⟨by simp only [Path.checkZero, List.any_cons, hz, hz', List.any_nil, Bool.or_false,
      Bool.false_eq_true, if_false], hv, hv'⟩
  cases h with
  | same hold hnew hleaf hsame =>
    obtain ⟨hz, hv, hv'⟩ := start hold hnew
    obtain ⟨hn, hl⟩ := names_iff_locate.mp hold
    obtain ⟨hn', hl'⟩ := names_iff_locate.mp hnew
    obtain ⟨id, node, hat, hnode, hd⟩ := hleaf.exists_node
    have hsource := lookup_eq_ok_some_iff.mpr ⟨searchable_of_locate hl, hn, hat, hnode⟩
    have htarget := lookup_eq_ok_some_iff.mpr
      ⟨searchable_of_locate hl', hn', hsame.trans hat, hnode⟩
    cases node with
    | directory parent entries => contradiction
    | _ => simp only [rename, bind, Except.bind, hz, hv, hv', hl, hl', hsource, htarget,
        Bool.or_self, Bool.false_eq_true, if_false, if_true]
  | @moved s t id hold hnew hleaf hat hne htarget hc hc' =>
    obtain ⟨hz, hv, hv'⟩ := start hold hnew
    obtain ⟨hn, hl⟩ := names_iff_locate.mp hold
    obtain ⟨hn', hl'⟩ := names_iff_locate.mp hnew
    obtain ⟨id', node, hat', hnode, hd⟩ := hleaf.exists_node
    cases hat.symm.trans hat'
    have hsource := lookup_eq_ok_some_iff.mpr ⟨searchable_of_locate hl, hn, hat, hnode⟩
    rcases htarget with hnone | htarget
    · have hfound := (lookup_eq_ok_none_iff hw).mpr ⟨searchable_of_locate hl', hn', hnone⟩
      cases node with
      | directory parent entries => contradiction
      | _ => simp only [rename, bind, Except.bind, hz, hv, hv', hl, hl', hsource, hfound,
          hc.checkChange_eq, hc'.checkChange_eq, Bool.or_self, Bool.false_eq_true, if_false,
          moveEntry]
    · obtain ⟨id₂, node₂, hat₂, hnode₂, hd₂⟩ := htarget.exists_node
      have hfound := lookup_eq_ok_some_iff.mpr ⟨searchable_of_locate hl', hn', hat₂, hnode₂⟩
      have hid : id₂ ≠ id := by simpa [hat₂] using hne
      cases node with
      | directory parent entries => contradiction
      | _ => simp only [rename, bind, Except.bind, hz, hv, hv', hl, hl', hsource, hfound, hid, hd₂,
          hc.checkChange_eq, hc'.checkChange_eq, Bool.or_self, Bool.false_eq_true, if_false,
          moveEntry]

/-! ### Moved names -/

theorem kind?_moveEntry (d : Disk) (s t : Entry) (id : NodeId) :
    (d.moveEntry s t id).kind? = d.kind? := by
  rw [moveEntry, kind?_setEntry, kind?_eraseEntry]

theorem working_moveEntry (d : Disk) (s t : Entry) (id : NodeId) :
    (d.moveEntry s t id).working = d.working :=
  (working_modifyEntries _ _ _).trans (working_modifyEntries _ _ _)

theorem at?_moveEntry (h : d.HasDirectory t.directory) (s : Entry) (id : NodeId) :
    (d.moveEntry s t id).at? = Function.update (Function.update d.at? s none) t (some id) := by
  obtain ⟨k, hk, hd⟩ := h
  rw [moveEntry, at?_setEntry ⟨k, by rwa [kind?_eraseEntry], hd⟩, at?_eraseEntry]

/-! ### Well-formedness -/

theorem HasLeaf.exists_kind (h : d.HasLeaf e) :
    ∃ id k, d.at? e = some id ∧ d.kind? id = some k ∧ k.isDirectory = false := by
  obtain ⟨k, hk, hd⟩ := h
  obtain ⟨id, ha, hk⟩ := kindAt?_eq_some_iff.mp hk
  exact ⟨id, k, ha, hk, hd⟩

theorem Creates.wellFormed (hw : d.WellFormed) (h : d.Creates p file d') : d'.WellFormed := by
  cases h with
  | new _ _ hc => exact hw.addEntry hc.searchable.hasDirectory rfl
  | emptied _ _ hk => exact hw.setNode hk rfl rfl
  | device => exact hw

theorem Renames.wellFormed (hw : d.WellFormed) (h : d.Renames old new d') : d'.WellFormed := by
  cases h with
  | same => exact hw
  | moved _ _ hleaf hat _ _ _ hc =>
    obtain ⟨id, k, hat', hk, hd⟩ := hleaf.exists_kind
    cases hat.symm.trans hat'
    have hkind := kind?_eraseEntry d
    rw [moveEntry]
    refine (hw.eraseEntry _).setEntry ?_ (by rwa [hkind]) hd
    obtain ⟨k', hk', hd'⟩ := hc.searchable.hasDirectory
    exact ⟨k', by rwa [hkind], hd'⟩

theorem Removes.wellFormed (hw : d.WellFormed) (h : d.Removes p d') : d'.WellFormed := by
  cases h
  exact hw.eraseEntry _

theorem WellFormed.append {bytes : Bytes} (hw : d.WellFormed)
    (h : d.append file bytes = .ok d') : d'.WellFormed := by
  unfold Disk.append at h
  split at h
  · rename_i hn
    cases h
    exact hw.setNode (kind?_of_node? hn) rfl rfl
  · cases h
    exact hw
  · contradiction
  · contradiction

theorem WellFormed.sync (hw : d.WellFormed) (h : d.sync file = .ok d') : d'.WellFormed := by
  unfold Disk.sync at h
  split at h
  · cases h
    exact hw
  · contradiction

theorem WellFormed.makeDirectory (hw : d.WellFormed) (h : d.makeDirectory p = .ok d') :
    d'.WellFormed := by
  obtain ⟨⟨place, name⟩, -, h⟩ := bind_eq_ok_iff.mp h
  obtain ⟨_, hc, h⟩ := bind_eq_ok_iff.mp h
  cases h
  exact hw.addDirectory (e := ⟨place.directory, name⟩)
    (checkChange_eq_ok_iff.mp hc).searchable.hasDirectory

theorem settle_snd {r : Except OsError Disk} (h : ∀ d', r = .ok d' → d'.WellFormed)
    (hw : d.WellFormed) : (d.settle r).2.WellFormed := by
  cases r with
  | error e => exact hw
  | ok d' => exact h d' rfl

/-- No request makes a disk ill-formed. -/
theorem WellFormed.answer (hw : d.WellFormed) (r : Request) : (d.answer r).2.WellFormed := by
  cases r with
  | makeDirectory p => exact settle_snd (fun _ => hw.makeDirectory) hw
  | isDirectory p => exact hw
  | isThere p => exact hw
  | create p =>
    simp only [Disk.answer]
    split
    · rename_i h
      exact (creates_of_create hw h).wellFormed hw
    · exact hw
  | append file bytes => exact settle_snd (fun _ => hw.append) hw
  | sync file => exact settle_snd (fun _ => hw.sync) hw
  | rename old new => exact settle_snd (fun _ h => (renames_of_rename hw h).wellFormed hw) hw
  | remove p => exact settle_snd (fun _ h => (removes_of_remove h).wellFormed hw) hw

end Disk

namespace Script

variable {α : Type}

/-- No script makes a disk ill-formed, not even for a while. -/
theorem wellFormed_of_mem_states (s : Script α) {d e : Disk} (hw : d.WellFormed)
    (he : e ∈ (s.run d).states) : e.WellFormed := by
  induction s generalizing d with
  | done a =>
    cases List.mem_singleton.mp he
    exact hw
  | note _ _ ih => exact ih hw he
  | ask r next ih =>
    rcases List.mem_cons.mp he with rfl | he
    · exact hw
    · exact ih _ (hw.answer r) he

theorem wellFormed_run (s : Script α) {d : Disk} (hw : d.WellFormed) :
    (s.run d).disk.WellFormed :=
  wellFormed_of_mem_states s hw (List.mem_of_getLast? (getLast?_states_run s d))

end Script

end IconPainter
