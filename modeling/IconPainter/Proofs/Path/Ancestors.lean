import IconPainter.Proofs.Path.Steps

/-! # Paths above

Every path above a path begins it, byte by byte and component by component. What
is cut off is a component at least, so the paths above ask for fewer and fewer
steps.
-/

namespace IconPainter

namespace Path

/-- The path `q` is a lexical prefix of the path `p`: its bytes, its components and its steps
are the first of `p`. -/
structure Begins (q p : Path) : Prop where
  bytes : q.bytes <+: p.bytes
  components : q.components <+: p.components
  steps : q.steps <+: p.steps

/-- The path `q` begins the path `p` and has not all of its steps. -/
structure Above (q p : Path) : Prop extends Begins q p where
  fewer : q.steps.length < p.steps.length

def spell (lead : Bytes) (ps : List Bytes) : Path := ⟨lead ++ [slash].intercalate ps⟩

/-- The path of a lead and pieces has this lead and these pieces. -/
structure Spells (lead : Bytes) (ps : List Bytes) : Prop where
  slash_notMem : ∀ piece ∈ ps, slash ∉ piece
  cases : (lead = [] ∧ ∀ piece ∈ ps.head?, isBlank piece = false) ∨ lead = [slash] ∨
    (lead = [dot] ∧ ∀ piece ∈ ps.head?, piece = [])

variable {p q r : Path} {lead piece : Bytes} {ps more rev : List Bytes}

theorem Begins.refl (p : Path) : p.Begins p :=
  ⟨List.prefix_rfl, List.prefix_rfl, List.prefix_rfl⟩

theorem Begins.trans (h : r.Begins q) (h' : q.Begins p) : r.Begins p :=
  ⟨h.bytes.trans h'.bytes, h.components.trans h'.components, h.steps.trans h'.steps⟩

theorem Above.trans_begins (h : r.Above q) (h' : q.Begins p) : r.Above p :=
  ⟨h.toBegins.trans h', Nat.lt_of_lt_of_le h.fewer h'.steps.length_le⟩

theorem Begins.isAbsolute_eq (h : q.Begins p) (hq : q.bytes ≠ []) :
    q.isAbsolute = p.isAbsolute := by
  obtain ⟨b, bytes, hb⟩ := List.exists_cons_of_ne_nil hq
  obtain ⟨rest, hrest⟩ := h.bytes
  simp [isAbsolute, ← hrest, hb]

theorem Begins.validate_eq (h : q.Begins p) (hq : q.bytes ≠ []) (hv : p.validate = .ok ()) :
    q.validate = .ok () := by
  obtain ⟨hzero, -, hlen⟩ := validate_eq_ok_iff.mp hv
  exact validate_eq_ok_iff.mpr ⟨fun hmem => hzero (h.bytes.subset hmem), hq,
    Nat.lt_of_le_of_lt h.bytes.length_le hlen⟩

/-! ### Spelling -/

theorem spell_pieces (p : Path) : spell p.lead p.pieces = p :=
  congrArg mk p.bytes_eq.symm

theorem spells (hp : p.bytes ≠ []) : Spells p.lead p.pieces := by
  refine ⟨fun _ => slash_notMem_of_mem_splitOn, ?_⟩
  rcases p.lead_cases with ⟨hl, -⟩ | hl | ⟨hl, hhead⟩
  · refine .inl ⟨hl, ?_⟩
    rw [pieces, hl, List.length_nil, List.drop_zero]
    obtain ⟨bytes⟩ := p
    rcases bytes with _ | ⟨b, _ | ⟨b', bytes⟩⟩
    · contradiction
    · have hb : b ≠ slash ∧ b ≠ dot := by simpa [lead] using hl
      simp [List.splitOn_cons_eq_if_modifyHead, hb, isBlank]
    · have hb : b ≠ slash ∧ (b = dot → b' ≠ slash) := by simpa [lead, not_or] using hl
      obtain ⟨first, rest, hs⟩ := List.exists_cons_of_ne_nil (List.splitOn_ne_nil slash bytes)
      by_cases hb' : b' = slash
      · have hd : b ≠ dot := fun hd => hb.2 hd hb'
        simp [List.splitOn_cons_eq_if_modifyHead, hb.1, hb', hd, isBlank]
      · simp [List.splitOn_cons_eq_if_modifyHead, hb.1, hb', hs, isBlank]
  · exact .inr (.inl hl)
  · exact .inr (.inr ⟨hl, fun piece h => Option.some.inj (h.symm.trans hhead)⟩)

namespace Spells

theorem left (h : Spells lead (ps ++ more)) : Spells lead ps := by
  refine ⟨fun piece hp => h.slash_notMem piece (List.mem_append_left _ hp), ?_⟩
  have hhead : ∀ piece ∈ ps.head?, piece ∈ (ps ++ more).head? := fun piece hp => by
    simp_all [List.head?_append]
  rcases h.cases with ⟨hl, hps⟩ | hl | ⟨hl, hps⟩
  · exact .inl ⟨hl, fun piece hp => hps piece (hhead piece hp)⟩
  · exact .inr (.inl hl)
  · exact .inr (.inr ⟨hl, fun piece hp => hps piece (hhead piece hp)⟩)

theorem steps_eq (h : Spells lead ps) :
    (spell lead ps).steps = leadSteps lead ++ stepsOf ps := by
  refine steps_lead h.slash_notMem ?_
  rcases h.cases with ⟨hl, -⟩ | hl | ⟨hl, hps⟩
  · exact .inl hl
  · exact .inr (.inl hl)
  · refine .inr (.inr ⟨hl, ?_⟩)
    cases ps with
    | nil => exact .inl rfl
    | cons piece ps => exact .inr (congrArg some (hps piece rfl))

theorem lead_eq (h : Spells lead ps) : (spell lead ps).lead = lead := by
  rcases h.cases with ⟨rfl, hps⟩ | rfl | ⟨rfl, hps⟩
  · cases ps with
    | nil => rfl
    | cons piece ps =>
      have hblank := hps piece rfl
      have hslash : ∀ b ∈ piece, b ≠ slash := fun b hb hs =>
        h.slash_notMem piece List.mem_cons_self (hs ▸ hb)
      rcases piece with _ | ⟨b, _ | ⟨b', piece⟩⟩
      · contradiction
      · have hs : b ≠ slash := hslash b List.mem_cons_self
        have hd : b ≠ dot := fun hd => by simp [isBlank, hd] at hblank
        cases ps <;> simp [spell, Path.lead, hs, hd]
      · have hs : b ≠ slash := hslash b List.mem_cons_self
        have hs' : b' ≠ slash := hslash b' (List.mem_cons_of_mem _ List.mem_cons_self)
        cases ps <;> simp [spell, Path.lead, hs, hs']
  · simp only [spell, List.singleton_append]
    cases [slash].intercalate ps <;> simp [Path.lead]
  · rcases ps with _ | ⟨piece, _ | ⟨piece', ps⟩⟩
    · rfl
    all_goals
      cases hps piece rfl
      simp [spell, Path.lead]

theorem components_eq (h : Spells lead ps) :
    (spell lead ps).components = leadComponent lead ++ ps.filterMap componentOf? := by
  have hdrop : (spell lead ps).bytes.drop lead.length = [slash].intercalate ps :=
    List.drop_left
  rw [components, pieces, h.lead_eq, hdrop]
  by_cases hps : ps = []
  · subst hps
    rfl
  · rw [List.splitOn_intercalate slash h.slash_notMem hps]

theorem begins (h : Spells lead (ps ++ more)) :
    (spell lead ps).Begins (spell lead (ps ++ more)) where
  bytes := (List.prefix_append_right_inj lead).mpr <| intercalate_prefix ps more
  components := by
    rw [h.components_eq, h.left.components_eq, List.filterMap_append, ← List.append_assoc]
    exact List.prefix_append _ _
  steps := by
    rw [h.steps_eq, h.left.steps_eq, stepsOf_append, ← List.append_assoc]
    exact List.prefix_append _ _

theorem isAbsolute_eq (h : Spells lead (ps ++ more)) :
    (spell lead ps).isAbsolute = (spell lead (ps ++ more)).isAbsolute := by
  by_cases hp : (spell lead ps).bytes = []
  · have hl := h.lead_eq.trans (List.append_eq_nil_iff.mp hp).1
    rcases lead_cases (spell lead (ps ++ more)) with ⟨-, habs⟩ | hslash | ⟨hdot, -⟩
    · rw [habs, isAbsolute, hp]
      rfl
    · cases hl.symm.trans hslash
    · cases hl.symm.trans hdot
  · exact h.begins.isAbsolute_eq hp

theorem above (h : Spells lead (ps ++ more)) (hmore : stepsOf more ≠ []) :
    (spell lead ps).Above (spell lead (ps ++ more)) where
  toBegins := h.begins
  fewer := by
    have := List.length_pos_iff.mpr hmore
    rw [h.steps_eq, h.left.steps_eq, stepsOf_append]
    simpa using this

end Spells

/-! ### Ancestors -/

theorem stepsOf_ne_nil (h : isBlank piece = false) : stepsOf [piece] ≠ [] := by
  simp_all [isBlank, stepsOf]

theorem exists_reverse_dropWhile {α : Type} (blank : α → Bool) (rev : List α) :
    ∃ blanks, rev.reverse = (rev.dropWhile blank).reverse ++ blanks ∧
      ∀ a ∈ blanks, blank a = true := by
  refine ⟨(rev.takeWhile blank).reverse, ?_, fun a h => ?_⟩
  · rw [← List.reverse_append, List.takeWhile_append_dropWhile]
  · exact List.all_eq_true.mp List.all_takeWhile a (List.mem_reverse.mp h)

theorem pairwise_ancestorsFrom (h : Spells lead rev.reverse) :
    (spell lead (rev.dropWhile isBlank).reverse :: ancestorsFrom lead rev).Pairwise
      fun p q => q.Above p := by
  induction rev with
  | nil =>
    rw [ancestorsFrom]
    split
    · rename_i hl
      subst hl
      refine List.pairwise_pair.mpr ⟨⟨List.nil_prefix, List.nil_prefix, List.nil_prefix⟩, ?_⟩
      decide
    · exact List.pairwise_singleton _ _
  | cons piece rest ih =>
    rw [List.reverse_cons] at h
    have hrest := ih h.left
    rw [ancestorsFrom]
    cases hb : isBlank piece with
    | true => rwa [List.dropWhile_cons_of_pos hb, if_pos rfl]
    | false =>
      rw [List.dropWhile_cons_of_neg (by simp [hb]), if_neg Bool.false_ne_true, List.reverse_cons]
      obtain ⟨blanks, hblanks, -⟩ := exists_reverse_dropWhile isBlank rest
      -- The blank pieces before the last one go with it, and it is a step by itself.
      have hhead : (spell lead (rest.dropWhile isBlank).reverse).Above
          (spell lead (rest.reverse ++ [piece])) := by
        have hs := h
        rw [hblanks] at hs ⊢
        rw [List.append_assoc] at hs ⊢
        refine hs.above ?_
        rw [stepsOf_append]
        exact List.append_ne_nil_of_right_ne_nil _ (stepsOf_ne_nil hb)
      refine List.pairwise_cons.mpr ⟨fun q hq => ?_, hrest⟩
      rcases List.mem_cons.mp hq with rfl | hq
      · exact hhead
      · exact ((List.pairwise_cons.mp hrest).1 q hq).trans_begins hhead.toBegins

/-- Of a path and those above it, the later are above the earlier. -/
theorem pairwise_ancestors (hp : p.bytes ≠ []) :
    (p :: p.ancestors).Pairwise fun p q => q.Above p := by
  have h : Spells p.lead p.pieces.reverse.reverse := p.pieces.reverse_reverse.symm ▸ spells hp
  have hall := List.pairwise_cons.mp (pairwise_ancestorsFrom h)
  obtain ⟨blanks, hblanks, -⟩ := exists_reverse_dropWhile isBlank p.pieces.reverse
  have hbegins := (hblanks ▸ h).begins
  rw [← hblanks, List.reverse_reverse, spell_pieces] at hbegins
  exact List.pairwise_cons.mpr ⟨fun q hq => (hall.1 q hq).trans_begins hbegins, hall.2⟩

theorem begins_of_mem_ancestors (hp : p.bytes ≠ []) (hq : q ∈ p :: p.ancestors) : q.Begins p := by
  rcases List.mem_cons.mp hq with rfl | hq
  · exact .refl q
  · exact ((List.pairwise_cons.mp (pairwise_ancestors hp)).1 q hq).toBegins

end Path

end IconPainter
