import IconPainter.Proofs.Path.Components

/-! # Staging paths

The staging path of a path never ends in a slash, and where the path ends in a
name it leads to the same directory, by the same steps up to dots before the
last one. Its name there tells the name that it was made from, so two paths are
staged in one place only if they are the same to a reader.
-/

namespace IconPainter

open IconPainter.Path Delivery

variable {p q : Path} {lead name name' : Bytes} {above below ps more : List Bytes}
  {init : List Step}

namespace Delivery

/-- The name of the staging file for a name. -/
def stagingName (name : Bytes) : Bytes := dot :: name ++ Bytes.ofString ".partial"

theorem stagingPath_eq (p : Path) :
    stagingPath p = p.withFileName (stagingName (p.fileName?.getD [])) := rfl

theorem ofString_partial : Bytes.ofString ".partial" = [46, 112, 97, 114, 116, 105, 97, 108] := by
  decide +kernel

theorem stagingName_injective (h : stagingName name = stagingName name') : name = name' :=
  List.append_cancel_right (List.cons.inj h).2

theorem length_stagingName (name : Bytes) : (stagingName name).length = name.length + 9 := by
  simp [stagingName, ofString_partial]

theorem stagingName_ne (name : Bytes) : stagingName name ≠ name := fun h => by
  have := congrArg List.length h
  rw [length_stagingName] at this
  omega

theorem isName_stagingName (h : slash ∉ name) : IsName (stagingName name) where
  ne_nil h := by simp [stagingName] at h
  ne_here h := by simpa [length_stagingName] using congrArg List.length h
  ne_up h := by simpa [length_stagingName] using congrArg List.length h
  slash_notMem := by
    have : (47 : UInt8) ∉ name := h
    simp [stagingName, ofString_partial, slash, dot, this]

theorem exists_stagingPath_eq_join (p : Path) :
    ∃ q name, IsName name ∧ stagingPath p = Path.join q ⟨name⟩ := by
  have hn : IsName (stagingName (p.fileName?.getD [])) := by
    apply isName_stagingName
    cases hf : p.fileName? with
    | none => exact List.not_mem_nil
    | some name =>
      obtain ⟨above, below, h⟩ := exists_endsIn hf
      exact h.isName.slash_notMem
  rw [stagingPath_eq, withFileName]
  split <;> exact ⟨_, _, hn, rfl⟩

theorem endsInSlash_stagingPath (p : Path) : (stagingPath p).endsInSlash = false := by
  obtain ⟨q, name, hn, hs⟩ := exists_stagingPath_eq_join p
  rw [hs, endsInSlash_join hn]

def trimmed (above : List Bytes) : List Bytes := (above.reverse.dropWhile isBlank).reverse

theorem exists_trimmed_append (above : List Bytes) :
    ∃ blanks, above = trimmed above ++ blanks ∧ ∀ step ∈ stepsOf blanks, step = .here := by
  obtain ⟨blanks, hblanks, hb⟩ := exists_reverse_dropWhile isBlank above.reverse
  rw [List.reverse_reverse] at hblanks
  refine ⟨blanks, hblanks, fun step h => ?_⟩
  obtain ⟨piece, hpiece, rfl⟩ := List.mem_map.mp h
  obtain ⟨hmem, hne⟩ := List.mem_filter.mp hpiece
  have : piece = [dot] := by
    rcases (Bool.or_eq_true _ _).mp (hb piece hmem) with h | h
    · simp_all
    · exact eq_of_beq h
  rw [this]
  rfl

theorem exists_stagingPath_front (h : p.steps = init ++ [.name name]) : IsName name ∧
    ∃ front blanks below, p.pieces = front ++ (blanks ++ name :: below) ∧
      Spells p.lead (front ++ (blanks ++ name :: below)) ∧
      (∀ step ∈ stepsOf blanks, step = .here) ∧ stepsOf below = [] ∧
      stagingPath p = (spell p.lead front).join ⟨stagingName name⟩ := by
  obtain ⟨hn, above, below, hp, hb⟩ := exists_pieces h
  obtain ⟨blanks, habove, hheres⟩ := exists_trimmed_append above
  have hpieces : p.pieces = trimmed above ++ (blanks ++ name :: below) := by
    rw [hp, ← List.append_assoc, ← habove]
  have hbelow : stepsOf below = [] := by
    refine List.map_eq_nil_iff.mpr (List.filter_eq_nil_iff.mpr ?_)
    intro piece hmem
    simp [hb piece hmem]
  have hends : p.EndsIn above name below := ⟨hn, hp, fun piece hmem => by rw [hb piece hmem]; rfl⟩
  refine ⟨hn, trimmed above, blanks, below, hpieces, hpieces ▸ spells hends.bytes_ne_nil, hheres,
    hbelow, ?_⟩
  rw [stagingPath_eq, withFileName, hends.fileName?_eq, hends.parent?_eq]
  rfl

/-- The staging path has the steps of the path, but for dots before the last one. -/
theorem steps_stagingPath (h : p.steps = init ++ [.name name]) :
    ∃ front heres, init = front ++ heres ∧ (∀ step ∈ heres, step = .here) ∧
      (stagingPath p).steps = front ++ [.name (stagingName name)] ∧
      (stagingPath p).isAbsolute = p.isAbsolute := by
  obtain ⟨hn, front, blanks, below, hpieces, hs, hheres, hbelow, hpath⟩ :=
    exists_stagingPath_front h
  have hstage := isName_stagingName hn.slash_notMem
  have hsteps : p.steps = leadSteps p.lead ++ stepsOf front ++ stepsOf blanks ++
      [.name name] := by
    rw [steps_eq, hpieces, stepsOf_append, stepsOf_append, ← List.singleton_append, stepsOf_append,
      hn.stepsOf_eq, hbelow]
    simp
  obtain ⟨hinit, -⟩ := List.append_inj' (h.symm.trans hsteps) rfl
  refine ⟨_, _, hinit, hheres, ?_, ?_⟩
  · rw [hpath, steps_join hstage, hs.left.steps_eq]
  · rw [hpath, isAbsolute_join hstage, hs.isAbsolute_eq, ← hpieces, spell_pieces]

theorem mem_bytes_stagingPath {b : UInt8} (h : p.steps = init ++ [.name name])
    (hb : b ∈ (stagingPath p).bytes) : b ∈ p.bytes ∨ b ∈ stagingName name ∨ b = slash := by
  obtain ⟨hn, front, blanks, below, hpieces, hs, -, -, hpath⟩ := exists_stagingPath_front h
  have hbegins := hs.begins
  rw [← hpieces, spell_pieces] at hbegins
  rw [hpath] at hb
  exact (mem_bytes_join (isName_stagingName hn.slash_notMem) hb).imp_left
    fun hmem => hbegins.bytes.subset hmem

theorem bytes_stagingPath_ne_nil (h : p.steps = init ++ [.name name]) :
    (stagingPath p).bytes ≠ [] := by
  obtain ⟨hn, front, blanks, below, -, -, -, -, hpath⟩ := exists_stagingPath_front h
  rw [hpath]
  exact bytes_join_ne_nil (isName_stagingName hn.slash_notMem)

/-! ### Beside the path -/

theorem stagingName_nil : stagingName [] = Bytes.ofString "..partial" := by
  decide +kernel

theorem stagingPath_of_fileName?_eq_none (h : p.fileName? = none) :
    stagingPath p = p.join ⟨stagingName []⟩ := by
  rw [stagingPath_eq, withFileName, h]
  rfl

/-- The staging path has the components of the path, and its own name in the place of the last name
or after them. -/
theorem components_stagingPath (p : Path) : ∃ init,
    p.components = init ++ p.fileName?.toList.map .name ∧
      (stagingPath p).components = init ++ [.name (stagingName (p.fileName?.getD []))] := by
  rcases p.fileName?_cases with ⟨hnone, -⟩ | ⟨above, name, below, hsome, h⟩
  · refine ⟨p.components, by simp [hnone], ?_⟩
    rw [stagingPath_of_fileName?_eq_none hnone, hnone,
      components_join_name (isName_stagingName List.not_mem_nil)]
    rfl
  · refine ⟨_, by rw [h.components_eq, hsome]; rfl, ?_⟩
    rw [stagingPath_eq, withFileName, hsome, h.parent?_eq]
    simp only [Option.getD_some]
    rw [components_join_name (isName_stagingName h.isName.slash_notMem), h.components_parent]

theorem fileName?_stagingPath (p : Path) :
    (stagingPath p).fileName? = some (stagingName (p.fileName?.getD [])) := by
  obtain ⟨init, -, hstaging⟩ := components_stagingPath p
  simp [Path.fileName?, hstaging]

theorem fileName?_ne_some_nil (p : Path) : p.fileName? ≠ some [] := fun h => by
  obtain ⟨above, below, hends⟩ := exists_endsIn h
  exact hends.isName.ne_nil rfl

theorem not_same_stagingPath (p : Path) : ¬ (stagingPath p).Same p := by
  obtain ⟨init, hp, hstaging⟩ := components_stagingPath p
  intro h
  rw [Same, hp, hstaging] at h
  have hlast := List.append_cancel_left h
  cases hname : p.fileName? with
  | none => simp [hname] at hlast
  | some name =>
    rw [hname] at hlast
    simp [stagingName_ne] at hlast

theorem same_stagingPath_iff : (stagingPath p).Same (stagingPath q) ↔ p.Same q := by
  obtain ⟨init, hp, hstaging⟩ := components_stagingPath p
  obtain ⟨init', hq, hstaging'⟩ := components_stagingPath q
  constructor
  · intro h
    rw [Same, hstaging, hstaging'] at h
    obtain ⟨rfl, hlast⟩ := List.append_inj' h rfl
    have hgetD : p.fileName?.getD [] = q.fileName?.getD [] :=
      stagingName_injective (by simpa using hlast)
    -- No name is empty, so a name is not mistaken for none.
    have hname : p.fileName? = q.fileName? := by
      cases hpn : p.fileName? <;> cases hqn : q.fileName? <;> simp only [hpn, hqn] at hgetD
      · rfl
      · cases hgetD
        exact (fileName?_ne_some_nil q hqn).elim
      · cases hgetD
        exact (fileName?_ne_some_nil p hpn).elim
      · exact congrArg some hgetD
    rw [Same, hp, hq, hname]
  · intro h
    have hname : p.fileName? = q.fileName? := by rw [Path.fileName?, Path.fileName?, h]
    rw [Same, hp, hq, hname] at h
    rw [Same, hstaging, hstaging', hname, List.append_cancel_right h]

end Delivery

/-- The staging path is beside the path: it has the same components, but its own name for the last
one, or after all of them where the last is no name. It is never the path, and it tells the path
that it was made from. -/
theorem stagingPath_beside (p : Path) :
    (∀ name, p.fileName? = some name → ∃ init, p.components = init ++ [.name name] ∧
      (stagingPath p).components =
        init ++ [.name (.ofString "." ++ name ++ .ofString ".partial")]) ∧
      (p.fileName? = none → (p.components = [] ∨ p.components = [.here] ∨ p.components = [.root] ∨
          p.components.getLast? = some .up) ∧
        (stagingPath p).components = p.components ++ [.name (.ofString "..partial")]) ∧
      (∃ name, (stagingPath p).fileName? = some name) ∧ ¬ (stagingPath p).Same p ∧
      ∀ q, (stagingPath p).Same (stagingPath q) ↔ p.Same q := by
  obtain ⟨init, hp, hstaging⟩ := components_stagingPath p
  refine ⟨fun name h => ⟨init, ?_, ?_⟩, fun h => ?_, ⟨_, fileName?_stagingPath p⟩,
    not_same_stagingPath p, fun q => same_stagingPath_iff⟩
  · rw [hp, h]
    rfl
  · rw [hstaging, h]
    rfl
  · obtain ⟨-, hends⟩ | ⟨above, name, below, hsome, -⟩ := p.fileName?_cases
    · refine ⟨hends, ?_⟩
      rw [stagingPath_of_fileName?_eq_none h,
        components_join_name (isName_stagingName List.not_mem_nil), stagingName_nil]
    · cases h.symm.trans hsome

/-- Two spellings of one path are staged in one place, and the root is staged in itself. -/
theorem stagingPath_beside_spelt :
    let p : Path := .ofString "out//icon.png/."
    let q : Path := .ofString "out/icon.png"
    let r : Path := .ofString "/"
    p.fileName? = some (.ofString "icon.png") ∧ (stagingPath p).components =
        [.name (.ofString "out"), .name (.ofString ".icon.png.partial")] ∧
      (stagingPath p).Same (stagingPath q) ∧ ¬ (stagingPath p).Same p ∧ r.fileName? = none ∧
        (stagingPath r).components = [.root, .name (.ofString "..partial")] := by
  intro p q r
  have hp : p.fileName? = some (.ofString "icon.png") := by decide +kernel
  have hr : r.fileName? = none := by decide +kernel
  obtain ⟨hnamed, -, -, hne, hsame⟩ := stagingPath_beside p
  obtain ⟨init, hcomponents, hstaging⟩ := hnamed _ hp
  have hinit : p.components = [.name (.ofString "out")] ++ [.name (.ofString "icon.png")] := by
    decide +kernel
  cases List.append_cancel_right (hcomponents.symm.trans hinit)
  refine ⟨hp, ?_, (hsame q).mpr (by decide +kernel), hne, hr, ?_⟩
  · rw [hstaging]
    decide +kernel
  · rw [((stagingPath_beside r).2.1 hr).2]
    decide +kernel

end IconPainter
