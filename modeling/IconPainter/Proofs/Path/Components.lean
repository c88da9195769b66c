import Mathlib.Tactic.SplitIfs
import IconPainter.Proofs.Path.Ancestors

/-! # Components

What follows a slash adds its components to those before it, and blank pieces add
none. So the components of a joined path are those of its parts, and a path
without its last name has the components before that name.
-/

namespace IconPainter.Path

variable {p q : Path} {bytes lead name piece : Bytes} {above below ps : List Bytes}
  {init : List Component} {c : Component}

def componentsOf (bytes : Bytes) : List Component :=
  (bytes.splitOn slash).filterMap componentOf?

/-! ### Pieces -/

theorem componentOf?_eq_none_iff : componentOf? piece = none ↔ isBlank piece = true := by
  unfold componentOf?
  split_ifs <;> simp_all

theorem componentOf?_cases (h : componentOf? piece = some c) (hs : slash ∉ piece) :
    c = .up ∨ (c = .name piece ∧ IsName piece) := by
  unfold componentOf? at h
  split_ifs at h with hblank hup
  · exact .inl (Option.some.inj h).symm
  · simp only [isBlank, Bool.or_eq_true, beq_iff_eq, not_or] at hblank
    exact .inr ⟨(Option.some.inj h).symm, hblank.1, hblank.2, hup, hs⟩

theorem IsName.componentOf?_eq (h : IsName name) : componentOf? name = some (.name name) := by
  simp [componentOf?, isBlank, h.ne_nil, h.ne_here, h.ne_up]

theorem IsName.isBlank_eq (h : IsName name) : isBlank name = false := by
  simp [isBlank, h.ne_nil, h.ne_here]

theorem IsName.componentsOf_eq (h : IsName name) : componentsOf name = [.name name] := by
  simp [componentsOf, List.splitOn_eq_singleton h.slash_notMem, h.componentOf?_eq]

theorem componentsOf_cons_slash (bytes : Bytes) :
    componentsOf (slash :: bytes) = componentsOf bytes := by
  rw [componentsOf, List.splitOn_cons_eq_if_modifyHead, if_pos (beq_self_eq_true slash)]
  rfl

theorem filterMap_of_blank (h : ∀ piece ∈ ps, isBlank piece = true) :
    ps.filterMap componentOf? = [] :=
  List.filterMap_eq_nil_iff.mpr fun piece hp => componentOf?_eq_none_iff.mpr (h piece hp)

/-! ### At a slash -/

theorem components_cons_slash (bytes : Bytes) :
    (Path.mk (slash :: bytes)).components = .root :: componentsOf bytes := by
  have hlead : (Path.mk (slash :: bytes)).lead = [slash] := by
    cases bytes <;> simp [Path.lead]
  simp [components, pieces, hlead, leadComponent, componentsOf]

theorem components_append (h : bytes ≠ []) (more : Bytes) :
    (Path.mk (bytes ++ slash :: more)).components =
      (Path.mk bytes).components ++ componentsOf more := by
  have hlead : (Path.mk (bytes ++ slash :: more)).lead = (Path.mk bytes).lead := by
    rcases bytes with _ | ⟨b, _ | ⟨b', bytes⟩⟩
    · contradiction
    · simp [Path.lead]
    · rfl
  -- The lead comes before the slash, so the bytes after the lead are split there as well.
  have hle : (Path.mk bytes).lead.length ≤ bytes.length := by
    have hprefix := List.prefix_append (Path.mk bytes).lead (bytes.drop (Path.mk bytes).lead.length)
    rw [lead_append_drop] at hprefix
    exact hprefix.length_le
  rw [components, components, pieces, pieces, hlead, List.drop_append_of_le_length hle,
    List.splitOn_append_cons_self, List.filterMap_append, List.append_assoc, componentsOf]

theorem components_append_slash (h : bytes ≠ []) :
    (Path.mk (bytes ++ [slash])).components = (Path.mk bytes).components :=
  (components_append h []).trans (List.append_nil _)

theorem componentsOf_replicate (k : Nat) : componentsOf (List.replicate k slash) = [] := by
  induction k with
  | zero => rfl
  | succ k ih => rw [List.replicate_succ, componentsOf_cons_slash, ih]

theorem components_append_replicate (h : bytes ≠ []) (k : Nat) :
    (Path.mk (bytes ++ List.replicate k slash)).components = (Path.mk bytes).components := by
  cases k with
  | zero => rw [List.replicate_zero, List.append_nil]
  | succ k =>
    rw [List.replicate_succ, components_append h, componentsOf_replicate, List.append_nil]

theorem components_append_of_slashes {k : Nat} (h : bytes ++ List.replicate k slash ≠ [])
    (more : Bytes) : (Path.mk (bytes ++ slash :: more)).components =
      (Path.mk (bytes ++ List.replicate k slash)).components ++ componentsOf more := by
  by_cases hbytes : bytes = []
  · subst hbytes
    cases k with
    | zero => contradiction
    | succ k =>
      rw [List.nil_append, List.nil_append, List.replicate_succ, components_cons_slash,
        components_cons_slash, componentsOf_replicate, List.singleton_append]
  · rw [components_append hbytes, components_append_replicate hbytes]

/-! ### Joined paths -/

theorem components_empty (h : p.bytes = []) : p.components = [] := by
  cases p
  cases h
  rfl

theorem IsName.components_eq (h : IsName name) : (Path.mk name).components = [.name name] := by
  have hs : Spells [] [name] :=
    ⟨by simpa using h.slash_notMem, .inl ⟨rfl, by simpa using h.isBlank_eq⟩⟩
  simpa [spell, leadComponent, h.componentOf?_eq] using hs.components_eq

/-- The components of a path that is not absolute come after those of the path that it is
joined to. -/
theorem components_join (h : q.isAbsolute = false) (hp : p.bytes ≠ []) :
    (p.join q).components = p.components ++ componentsOf q.bytes := by
  rcases bytes_join_of_not_isAbsolute (p := p) h with ⟨hnil, -⟩ | ⟨bytes, hb, hj⟩ | ⟨-, hj⟩
  · contradiction
  · rw [show p.join q = _ from congrArg mk hj, show p = _ from congrArg mk hb]
    by_cases hbytes : bytes = []
    · subst hbytes
      exact components_cons_slash q.bytes
    · rw [components_append hbytes, components_append_slash hbytes]
  · rw [show p.join q = _ from congrArg mk hj, components_append hp]

theorem components_join_name (h : IsName name) :
    (p.join ⟨name⟩).components = p.components ++ [.name name] := by
  by_cases hp : p.bytes = []
  · rw [join_empty p hp, h.components_eq, components_empty hp, List.nil_append]
  · rw [components_join h.isAbsolute_eq hp, h.componentsOf_eq]

/-! ### First and last components -/

theorem components_eq_nil_iff : p.components = [] ↔ p.bytes = [] := by
  refine ⟨fun h => by_contra fun hp => ?_, components_empty⟩
  obtain ⟨hlead, hpieces⟩ := List.append_eq_nil_iff.mp h
  rcases (spells hp).cases with ⟨-, hhead⟩ | hslash | ⟨hdot, -⟩
  · obtain ⟨piece, rest, hs⟩ :=
      List.exists_cons_of_ne_nil (List.splitOn_ne_nil slash (p.bytes.drop p.lead.length))
    have hblank := hhead piece (by rw [pieces, hs]; rfl)
    have hnone := List.filterMap_eq_nil_iff.mp hpieces piece (by rw [pieces, hs]; simp)
    rw [componentOf?_eq_none_iff, hblank] at hnone
    contradiction
  · rw [hslash] at hlead
    contradiction
  · rw [hdot] at hlead
    contradiction

theorem components_of_isAbsolute (h : p.isAbsolute = true) :
    p.components = .root :: componentsOf p.bytes := by
  obtain ⟨bytes⟩ := p
  cases bytes with
  | nil => contradiction
  | cons b bytes =>
    have hb : b = slash := by simpa [isAbsolute] using h
    subst hb
    rw [components_cons_slash, componentsOf_cons_slash]

theorem root_notMem_components (h : p.isAbsolute = false) : Component.root ∉ p.components := by
  intro hmem
  rcases List.mem_append.mp hmem with hmem | hmem
  · rcases p.lead_cases with ⟨hl, -⟩ | hl | ⟨hl, -⟩
    · rw [hl] at hmem
      contradiction
    · rw [isAbsolute, bytes_eq, hl] at h
      contradiction
    · rw [hl] at hmem
      simp [leadComponent, dot, slash] at hmem
  · obtain ⟨piece, hpiece, hc⟩ := List.mem_filterMap.mp hmem
    rcases componentOf?_cases hc (slash_notMem_of_mem_splitOn hpiece) with hup | ⟨hname, -⟩
    · contradiction
    · contradiction

/-- The path ends in a name, after which there are blank pieces only. -/
structure EndsIn (p : Path) (above : List Bytes) (name : Bytes) (below : List Bytes) : Prop where
  isName : IsName name
  pieces_eq : p.pieces = above ++ name :: below
  blank : ∀ piece ∈ below, isBlank piece = true

/-- A path is nothing but its lead, or ends in a step up or in a name. -/
theorem components_cases (p : Path) : p.components = leadComponent p.lead ∨
    (∃ init, p.components = init ++ [.up]) ∨ ∃ above name below, p.EndsIn above name below := by
  rcases List.eq_nil_or_concat (p.pieces.filterMap componentOf?) with hnil | ⟨front, c, hlast⟩
  · exact .inl (by rw [components, hnil, List.append_nil])
  · rw [List.concat_eq_append] at hlast
    obtain ⟨above, more, hpieces, -, hmore⟩ := List.filterMap_eq_append_iff.mp hlast
    obtain ⟨blanks, piece, below, rfl, -, hc, hbelow⟩ := List.filterMap_eq_cons_iff.mp hmore
    have hmem : piece ∈ p.pieces := by simp [hpieces]
    rcases componentOf?_cases hc (slash_notMem_of_mem_splitOn hmem) with rfl | ⟨rfl, hname⟩
    · exact .inr (.inl ⟨_, by rw [components, hlast, ← List.append_assoc]⟩)
    · refine .inr (.inr ⟨above ++ blanks, piece, below, hname, by simp [hpieces], fun b hb => ?_⟩)
      exact componentOf?_eq_none_iff.mp (List.filterMap_eq_nil_iff.mp hbelow b hb)

theorem ancestorsFrom_append (hb : ∀ piece ∈ below, isBlank piece = true) (more : List Bytes) :
    ancestorsFrom lead (below ++ more) = ancestorsFrom lead more := by
  induction below with
  | nil => rfl
  | cons piece below ih =>
    rw [List.cons_append, ancestorsFrom, if_pos (hb piece List.mem_cons_self)]
    exact ih fun piece h => hb piece (List.mem_cons_of_mem _ h)

namespace EndsIn

variable (h : p.EndsIn above name below)
include h

theorem components_eq :
    p.components = leadComponent p.lead ++ above.filterMap componentOf? ++ [.name name] := by
  rw [components, h.pieces_eq, List.filterMap_append, List.filterMap_cons, h.isName.componentOf?_eq,
    filterMap_of_blank h.blank, List.append_assoc]

theorem bytes_ne_nil : p.bytes ≠ [] := fun hp => by
  have := h.components_eq.symm.trans (components_empty hp)
  simp at this

theorem fileName?_eq : p.fileName? = some name := by
  rw [fileName?, h.components_eq, List.getLast?_concat]

theorem parent?_eq : p.parent? = some (spell p.lead (above.reverse.dropWhile isBlank).reverse) := by
  have hr : p.pieces.reverse = below.reverse ++ (name :: above.reverse) := by simp [h.pieces_eq]
  rw [parent?, ancestors, hr,
    ancestorsFrom_append fun piece hp => h.blank piece (List.mem_reverse.mp hp), ancestorsFrom,
    h.isName.isBlank_eq]
  rfl

theorem components_parent :
    (spell p.lead (above.reverse.dropWhile isBlank).reverse).components =
      leadComponent p.lead ++ above.filterMap componentOf? := by
  obtain ⟨blanks, hblanks, hb⟩ := exists_reverse_dropWhile isBlank above.reverse
  rw [List.reverse_reverse] at hblanks
  generalize (above.reverse.dropWhile isBlank).reverse = front at hblanks ⊢
  subst hblanks
  have hs : Spells p.lead (front ++ blanks ++ name :: below) := h.pieces_eq ▸ spells h.bytes_ne_nil
  rw [hs.left.left.components_eq, List.filterMap_append, filterMap_of_blank hb, List.append_nil]

end EndsIn

theorem fileName?_cases (p : Path) :
    (p.fileName? = none ∧ (p.components = [] ∨ p.components = [.here] ∨ p.components = [.root] ∨
        p.components.getLast? = some .up)) ∨
      ∃ above name below, p.fileName? = some name ∧ p.EndsIn above name below := by
  rcases p.components_cases with hlead | ⟨init, hup⟩ | ⟨above, name, below, h⟩
  · left
    rw [fileName?, hlead]
    rcases p.lead_cases with ⟨hl, -⟩ | hl | ⟨hl, -⟩ <;> rw [hl] <;> decide
  · left
    simp [fileName?, hup]
  · exact .inr ⟨above, name, below, h.fileName?_eq, h⟩

theorem exists_endsIn (h : p.fileName? = some name) : ∃ above below, p.EndsIn above name below := by
  rcases p.fileName?_cases with ⟨hnone, -⟩ | ⟨above, name', below, hsome, hends⟩
  · cases hnone.symm.trans h
  · cases hsome.symm.trans h
    exact ⟨above, below, hends⟩

end IconPainter.Path
