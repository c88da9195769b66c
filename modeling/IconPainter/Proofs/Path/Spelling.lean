import IconPainter.Proofs.Path.Components

/-! # Spellings of a path

A change that is made to a path piece by piece does not tell its spellings apart:
the components that come out depend on the components that went in, and on nothing
else of the bytes. Nor does joining, so a name in a directory is the same path
however the directory is spelt.
-/

namespace IconPainter

open IconPainter.Path

def Component.bytes : Component → Bytes
  | root => [slash]
  | here => [dot]
  | up => [dot, dot]
  | name bytes => bytes

namespace Path

variable {p p' q : Path} {bytes piece more : Bytes} {c : Component} {f : Bytes → Bytes}

/-! ### The first piece -/

/-- Bytes are one piece, or a piece before a slash and more bytes after it. -/
@[elab_as_elim]
theorem pieceInduction {motive : Bytes → Prop} (last : ∀ piece, slash ∉ piece → motive piece)
    (first : ∀ piece more, slash ∉ piece → motive more → motive (piece ++ slash :: more))
    (bytes : Bytes) : motive bytes := by
  by_cases h : slash ∈ bytes
  · obtain ⟨piece, more, hbytes, hpiece⟩ := List.eq_append_cons_of_mem h
    have hlt : more.length < bytes.length := by
      rw [hbytes, List.length_append, List.length_cons]
      omega
    exact hbytes ▸ first piece more hpiece (pieceInduction last first more)
  · exact last bytes h
termination_by bytes.length

theorem componentsOf_append (bytes more : Bytes) :
    componentsOf (bytes ++ slash :: more) = componentsOf bytes ++ componentsOf more := by
  rw [componentsOf, List.splitOn_append_cons_self, List.filterMap_append]
  rfl

theorem componentsOf_of_slash_notMem (h : slash ∉ piece) :
    componentsOf piece = (componentOf? piece).toList := by
  rw [componentsOf, List.splitOn_eq_singleton h]
  cases hc : componentOf? piece <;> simp [hc]

theorem bytes_of_componentOf? (h : componentOf? piece = some c) : c.bytes = piece := by
  unfold componentOf? at h
  split_ifs at h with hblank hup
  · cases h
    exact hup.symm
  · cases h
    rfl

theorem components_of_slash_notMem (h : slash ∉ piece) (hne : piece ≠ []) :
    ∃ c : Component, (Path.mk piece).components = [c] ∧ c.bytes = piece := by
  cases hc : componentOf? piece with
  | none =>
    have hdot : piece = [dot] := by
      simpa [isBlank, hne] using componentOf?_eq_none_iff.mp hc
    subst hdot
    exact ⟨.here, rfl, rfl⟩
  | some c =>
    have hbytes := bytes_of_componentOf? hc
    refine ⟨c, ?_, hbytes⟩
    rcases componentOf?_cases hc h with rfl | ⟨rfl, hname⟩
    · subst hbytes
      rfl
    · exact hname.components_eq

/-! ### Piece by piece -/

/-- A change of bytes that is made to each piece by itself. It keeps empty pieces and dots, and
makes no other piece empty. -/
structure Piecewise (f : Bytes → Bytes) : Prop where
  eq_nil_iff : ∀ bytes, f bytes = [] ↔ bytes = []
  here : f [dot] = [dot]
  append : ∀ bytes more, f (bytes ++ slash :: more) = f bytes ++ slash :: f more

/-- What a change makes of components. It may make several of one, and only what it makes of the
first may begin at the root or at a dot. -/
def changedComponents (f : Bytes → Bytes) : List Component → List Component
  | [] => []
  | c :: cs => (Path.mk (f c.bytes)).components ++ cs.flatMap fun c => componentsOf (f c.bytes)

namespace Piecewise

variable (h : Piecewise f)
include h

theorem nil : f [] = [] := (h.eq_nil_iff []).mpr rfl

theorem root : f [slash] = [slash] := by
  have := h.append [] []
  rwa [h.nil] at this

theorem componentsOf_piece (hp : slash ∉ piece) :
    componentsOf (f piece) = (componentsOf piece).flatMap fun c => componentsOf (f c.bytes) := by
  rw [componentsOf_of_slash_notMem hp]
  cases hc : componentOf? piece with
  | none =>
    rcases (Bool.or_eq_true _ _).mp (componentOf?_eq_none_iff.mp hc) with hnil | hdot
    · rw [eq_of_beq hnil, h.nil]
      rfl
    · rw [eq_of_beq hdot, h.here]
      rfl
  | some c => simp [bytes_of_componentOf? hc]

theorem componentsOf_eq (bytes : Bytes) :
    componentsOf (f bytes) = (componentsOf bytes).flatMap fun c => componentsOf (f c.bytes) := by
  induction bytes using pieceInduction with
  | last piece hp => exact h.componentsOf_piece hp
  | first piece more hp ih =>
    rw [h.append, componentsOf_append, componentsOf_append, List.flatMap_append, ← ih,
      ← h.componentsOf_piece hp]

theorem components_eq (bytes : Bytes) :
    (Path.mk (f bytes)).components = changedComponents f (Path.mk bytes).components := by
  -- The first piece is set apart here, and `componentsOf_eq` is on all that follows it.
  induction bytes using pieceInduction with
  | last piece hp =>
    by_cases hne : piece = []
    · subst hne
      rw [h.nil]
      rfl
    · obtain ⟨c, hc, hbytes⟩ := components_of_slash_notMem hp hne
      rw [hc, changedComponents, hbytes, List.flatMap_nil, List.append_nil]
  | first piece more hp _ =>
    rw [h.append]
    by_cases hne : piece = []
    · subst hne
      rw [h.nil, List.nil_append, List.nil_append, components_cons_slash, components_cons_slash,
        changedComponents, Component.bytes, h.root, h.componentsOf_eq]
      rfl
    · obtain ⟨c, hc, hbytes⟩ := components_of_slash_notMem hp hne
      have hchanged : f piece ≠ [] := mt (h.eq_nil_iff piece).mp hne
      rw [components_append hchanged, components_append hne, hc, List.singleton_append,
        changedComponents, hbytes, h.componentsOf_eq]

/-- Spellings of the same path are changed to spellings of the same path. -/
theorem same (hs : p.Same q) : (Path.mk (f p.bytes)).Same ⟨f q.bytes⟩ := by
  rw [Same, h.components_eq, h.components_eq]
  exact congrArg (changedComponents f) hs

end Piecewise

/-! ### Joined paths -/

theorem Same.bytes_eq_nil_iff (h : p.Same q) : p.bytes = [] ↔ q.bytes = [] := by
  rw [← components_eq_nil_iff, ← components_eq_nil_iff, h]

theorem Same.join (h : p.Same p') (q : Path) : (p.join q).Same (p'.join q) := by
  cases hq : q.isAbsolute with
  | true =>
    rw [join_of_isAbsolute hq, join_of_isAbsolute hq]
    exact .refl q
  | false =>
    by_cases hp : p.bytes = []
    · rw [join_empty p hp, join_empty p' (h.bytes_eq_nil_iff.mp hp)]
      exact .refl q
    · have hp' : p'.bytes ≠ [] := mt h.bytes_eq_nil_iff.mpr hp
      rw [Same, components_join hq hp, components_join hq hp', h]

end Path

end IconPainter
