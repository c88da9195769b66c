import IconPainter.Proofs.Delivery.Moves
import IconPainter.Png.Stored

/-! # When a delivery can damage its target

What can be read from the path of a picture is safe during a delivery unless the
staging path is entangled with it: the one leads to the file of the other, or
an entry that a delivery takes away or replaces is needed on the way.
-/

namespace IconPainter

open Delivery

namespace Disk

/-- A delivery to the path may change what is read from it without delivering a picture. -/
inductive Exposed (d : Disk) (codec : Codec) (p : Path) : Prop where

  /-- The path leads by the staging entry, which is taken away after a failure. -/
  | lost {s : Entry} : d.named? (stagingPath p) = some s → d.HasLeaf s →
      d.MayChange s.directory → (d.content? p).isSome →
      (d.Passes true p s ∨ d.target? p = some s) → Exposed d codec p

  /-- The path and the staging path lead to one file. If that holds what a refused picture leaves,
  it is only harmed where it can neither be moved nor be taken away. -/
  | shared {t x : Entry} {file : NodeId} {c : Bytes} : d.target? (stagingPath p) = some t →
      d.target? p = some x → d.at? t = some file → d.at? x = some file →
      d.kind? file = some (.file c true) →
      (c ≠ codec.ending ∨ ∃ s y, d.named? (stagingPath p) = some s ∧ d.named? p = some y ∧
        ¬ d.MayChange s.directory ∧ d.at? y ≠ d.at? s) → Exposed d codec p

  /-- The staging path leads by a link to where the path leads, and nothing is there yet. -/
  | made {s t : Entry} : d.named? (stagingPath p) = some s → d.target? (stagingPath p) = some t →
      s ≠ t → d.at? t = none → d.MayChange t.directory → d.target? p = some t →
      (d.Passes true p s → ¬ d.MayChange s.directory) → Exposed d codec p

  /-- The staging path leads by the entry that the picture is moved to. -/
  | looped {s t x : Entry} : d.Names p x → d.named? (stagingPath p) = some s →
      d.OpensFile (stagingPath p) t → d.MayChange s.directory → d.at? x ≠ d.at? s →
      (d.at? x = none ∨ d.HasLeaf x) → (d.Passes true (stagingPath p) x ∨ t = x) → Exposed d codec p

variable {codec : Codec} {d e f : Disk} {s t x y : Entry} {file id : NodeId} {c bytes : Bytes}
  {p q : Path}

theorem not_passable_of_at?_eq_none (h : d.at? x = none) : ¬ d.Passable x :=
  not_passable rfl (by simp [kindAt?, h])

/-- What is read after the staging file was cleared away. -/
theorem content?_cleared_cases (hw : e.WellFormed) (p : Path) :
    (∃ s, e.named? (stagingPath p) = some s ∧ e.HasLeaf s ∧ e.MayChange s.directory ∧
        (e.Passes true p s ∨ e.target? p = some s) ∧
        (e.cleared (stagingPath p)).content? p = none) ∨
      ((e.cleared (stagingPath p)).content? p = e.content? p ∧
        ∀ s, e.named? (stagingPath p) = some s → e.HasLeaf s → e.MayChange s.directory →
          ¬ e.Passes true p s ∧ e.target? p ≠ some s) := by
  rcases cleared_cases e p with ⟨s, hs, hleaf, hchange, heq⟩ | ⟨heq, h⟩
  · rw [heq]
    by_cases hneed : e.Passes true p s ∨ e.target? p = some s
    · exact .inl ⟨s, hs, hleaf, hchange, hneed, content?_eraseEntry_of_passes hw hneed⟩
    · obtain ⟨hp, ht⟩ := not_or.mp hneed
      refine .inr ⟨content?_eraseEntry_of_not hw hp ht, ?_⟩
      intro s' hs' _ _
      cases hs.symm.trans hs'
      exact ⟨hp, ht⟩
  · rw [heq]
    exact .inr ⟨rfl, fun s hs hleaf hchange => (h s hs hleaf hchange).elim⟩

theorem hasLeaf_of_link {target : Path} (hr : d.reach? x = some (id, some target)) :
    d.HasLeaf x := by
  obtain ⟨hat, k, hk, hkt⟩ := reach?_eq_some_iff.mp hr
  refine ⟨k, kindAt?_eq_some_iff.mpr ⟨id, hat, hk⟩, ?_⟩
  cases k <;> first | rfl | contradiction

theorem exists_link_of_target? (hw : d.WellFormed) (ht : d.target? p = some t)
    (hx : d.Names p x) (hne : x ≠ t) : ∃ id target, d.reach? x = some (id, some target) := by
  obtain ⟨es₁, n₁, -, ⟨rfl, -⟩ | ⟨target, es₂, n₂, ⟨⟨id, hr⟩, -⟩, -⟩⟩ := target?_cases hw ht hx
  · exact (hne rfl).elim
  · exact ⟨id, target, hr⟩

theorem hasLeaf_of_target? (hw : d.WellFormed) (ht : d.target? p = some t) (ht' : d.HasLeaf t)
    (hx : d.Names p x) : d.HasLeaf x := by
  by_cases hxt : x = t
  · rwa [hxt]
  · obtain ⟨id, target, hr⟩ := exists_link_of_target? hw ht hx hxt
    exact hasLeaf_of_link hr

theorem Written.hasLeaf_of_names (hw : d.WellFormed) (hwr : d.Written t file c e)
    (hx : d.target? q = some x) (hxf : e.at? x = some file) (hs : d.Names q s) :
    e.HasLeaf s := by
  have hleaf : e.HasLeaf x := ⟨_, hwr.kindAt?_self hxf, rfl⟩
  exact hasLeaf_of_target? hwr.wellFormed (by rw [hwr.target?_eq hw, hx]) hleaf
    ((hwr.names_iff hw).mpr hs)

/-! ### Failures -/

theorem content?_cleared_of_not_exposed (hw : d.WellFormed) (h : ¬ d.Exposed codec p) :
    (d.cleared (stagingPath p)).content? p = d.content? p := by
  rcases content?_cleared_cases hw p with ⟨s, hs, hleaf, hchange, hneed, hnone⟩ | ⟨hsame, -⟩
  · rw [hnone]
    by_contra hne
    exact h (.lost hs hleaf hchange (Option.isSome_iff_ne_none.mpr fun h => hne h.symm) hneed)
  · exact hsame

theorem Written.exists_renames (hw : d.WellFormed) (hwr : d.Written t file c e)
    (ht : d.target? (stagingPath p) = some t) (hx : d.target? p = some x)
    (hat : d.at? t = some file) (hatx : d.at? x = some file) (hs : d.Names (stagingPath p) s)
    (hy : d.Names p y) (hfree : d.MayChange s.directory ∨ d.at? y = d.at? s) :
    ∃ f, e.Renames (stagingPath p) p f := by
  have hsame := hwr.at?_eq_of_was hat
  have hes := hwr.hasLeaf_of_names hw ht hwr.at?_self hs
  have hey := hwr.hasLeaf_of_names hw hx (by rw [hsame, hatx]) hy
  have hns := (hwr.names_iff hw).mpr hs
  have hny := (hwr.names_iff hw).mpr hy
  by_cases heq : d.at? y = d.at? s
  · exact ⟨e, .same hns hny hes (by rw [hsame, heq])⟩
  · obtain ⟨id, k, hid, -⟩ := hes.exists_kind
    have hchange := hwr.mayChange_iff.mpr (hfree.resolve_right heq)
    have hdir : s.directory = y.directory := by rw [named?_stagingPath hy.1 hs.1, Entry.staging]
    exact ⟨_, .moved hns hny hes hid (by rw [← hid, hsame]; exact heq) (.inr hey) hchange
      (hdir ▸ hchange)⟩

theorem Written.content?_eq_none (hw : d.WellFormed) (hwr : d.Written t file c e)
    (h : ¬ d.Exposed codec p) (hs : d.named? (stagingPath p) = some s) (hleaf : e.HasLeaf s)
    (hchange : e.MayChange s.directory) (hneed : e.Passes true p s ∨ e.target? p = some s) :
    d.content? p = none := by
  rw [hwr.passes_iff hw, hwr.target?_eq hw] at hneed
  rcases hwr.hasLeaf_cases hw hleaf with hleaf | ⟨rfl, hnone⟩
  · by_contra hne
    exact h (.lost hs hleaf (hwr.mayChange_iff.mp hchange) (Option.isSome_iff_ne_none.mpr hne)
      hneed)
  · rcases hneed with hpass | ht
    · exact (not_passable_of_at?_eq_none hnone hpass.passable).elim
    · simp [Disk.content?_eq hw, ht, contentAt?_of_at?_eq_none hnone]

theorem Written.target?_ne (hw : d.WellFormed) (hwr : d.Written t file c e)
    (h : ¬ d.Exposed codec p)
    (ht : d.target? (stagingPath p) = some t) (hs : d.Names (stagingPath p) s)
    (hnone : d.at? t = none) (hchange : d.MayChange t.directory)
    (hkeep : e.HasLeaf s → e.MayChange s.directory → ¬ e.Passes true p s ∧ e.target? p ≠ some s) :
    d.target? p ≠ some t := by
  intro hx
  rw [hwr.passes_iff hw, hwr.target?_eq hw, hwr.mayChange_iff] at hkeep
  by_cases hst : s = t
  · subst hst
    exact (hkeep ⟨_, hwr.kindAt?_self hwr.at?_self, rfl⟩ hchange).2 hx
  · obtain ⟨hp, hm⟩ : d.Passes true p s ∧ d.MayChange s.directory := by
      by_contra hno
      exact h (.made hs.1 ht hst hnone hchange hx fun hp hm => hno ⟨hp, hm⟩)
    obtain ⟨id, target, hr⟩ := exists_link_of_target? hw ht hs hst
    exact (hkeep (hwr.hasLeaf (hasLeaf_of_link hr)) hm).1 hp

theorem Written.content?_eq_some (hw : d.WellFormed) (hwr : d.Written t file c e)
    (h : ¬ d.Exposed codec p) (ht : d.target? (stagingPath p) = some t) (hx : d.target? p = some x)
    (hat : d.at? t = some file) (hatx : d.at? x = some file) (hs : d.Names (stagingPath p) s)
    (hc : c = codec.ending ∨ ∀ f, ¬ e.Renames (stagingPath p) p f) : d.content? p = some c := by
  obtain ⟨c₀, hk⟩ : ∃ c₀, d.kind? file = some (.file c₀ true) := by
    rcases hwr.was with ⟨hnone, -⟩ | ⟨-, hk⟩
    · cases hnone.symm.trans hat
    · exact hk
  have hc₀ : c₀ = codec.ending := by
    by_contra hne
    exact h (.shared ht hx hat hatx hk (.inl hne))
  subst hc₀
  obtain ⟨y, hy⟩ := exists_names_of_target? hw hx
  have hfree : d.MayChange s.directory ∨ d.at? y = d.at? s := by
    by_contra hno
    obtain ⟨hm, hne⟩ := not_or.mp hno
    exact h (.shared ht hx hat hatx hk (.inr ⟨s, y, hs.1, hy.1, hm, hne⟩))
  rcases hc with rfl | hno
  · exact content?_of_at? hw hx hatx hk
  · obtain ⟨f, hf⟩ := hwr.exists_renames hw ht hx hat hatx hs hy hfree
    exact (hno f hf).elim

/-- A disk with a picture that could not be moved keeps its target, unless it is exposed. -/
theorem Written.content?_cleared (hw : d.WellFormed) (hwr : d.Written t file c e)
    (ht : d.target? (stagingPath p) = some t) (h : ¬ d.Exposed codec p)
    (hc : c = codec.ending ∨ ∀ f, ¬ e.Renames (stagingPath p) p f) :
    (e.cleared (stagingPath p)).content? p = d.content? p := by
  obtain ⟨s, hs⟩ := exists_names_of_target? hw ht
  have hes : e.named? (stagingPath p) = some s := by rw [hwr.named?_eq hw, hs.1]
  rcases content?_cleared_cases hwr.wellFormed p with
    ⟨s', hs', hleaf, hchange, hneed, hnone⟩ | ⟨hsame, hkeep⟩
  · cases hes.symm.trans hs'
    rw [hnone, hwr.content?_eq_none hw h hs.1 hleaf hchange hneed]
  rw [hsame]
  by_cases hx : ∃ x, d.target? p = some x ∧ e.at? x = some file
  · obtain ⟨x, hx, hxf⟩ := hx
    rw [hwr.content?_of_target? hw hx hxf]
    rcases hwr.was with ⟨hnone, hk, hchange⟩ | ⟨hat, -⟩
    · have hxt := (hwr.at?_eq_file_iff.mp hxf).resolve_right (hw.at?_ne_of_kind?_eq_none hk)
      exact (hwr.target?_ne hw h ht hs hnone hchange (hkeep s hes) (hxt ▸ hx)).elim
    · rw [hwr.at?_eq_of_was hat] at hxf
      exact (hwr.content?_eq_some hw h ht hx hat hxf hs hc).symm
  · exact hwr.content?_eq hw fun x hx' hxf => hx ⟨x, hx', hxf⟩

/-! ### Successes -/

/-- An entry on the way of the staging path shares a node with the staging entry while the
file is written only if it did so before. -/
theorem Written.at?_eq_iff (hw : d.WellFormed) (hwr : d.Written t file c e)
    (ht : d.target? q = some t) (hs : d.Names q s) (hsx : s ≠ x)
    (hneed : d.Passes true q x ∨ t = x) : e.at? x = e.at? s ↔ d.at? x = d.at? s := by
  rcases hwr.was with ⟨hnone, hk, -⟩ | ⟨hat, -⟩
  · have hfresh {y : Entry} : d.at? y ≠ some file := hw.at?_ne_of_kind?_eq_none hk
    by_cases hst : s = t
    · subst hst
      have hpass := (hneed.resolve_right hsx).passable
      rw [hwr.at?_self, hwr.at?_ne hsx.symm, hnone]
      exact iff_of_false hfresh fun hx => not_passable_of_at?_eq_none hx hpass
    · obtain ⟨id, target, hr⟩ := exists_link_of_target? hw ht hs hst
      have hid := (reach?_eq_some_iff.mp hr).1
      rw [hwr.at?_ne hst]
      by_cases hxt : x = t
      · subst hxt
        rw [hwr.at?_self, hnone, hid]
        refine iff_of_false (fun h => hfresh (hid.trans h.symm)) (by simp)
      · rw [hwr.at?_ne hxt]
  · rw [hwr.at?_eq_of_was hat]

/-- A picture that was moved is read from its path, unless the disk was exposed. -/
theorem Written.content?_renames (hw : d.WellFormed) (hwr : d.Written t file c e)
    (ht : d.target? (stagingPath p) = some t) (h : ¬ d.Exposed codec p)
    (hr : e.Renames (stagingPath p) p f) : f.content? p = some c := by
  have hwf := hr.wellFormed hwr.wellFormed
  cases hr with
  | @same s x hold hnew _ hsame =>
    have hs := (hwr.names_iff hw).mp hold
    have hx := (hwr.names_iff hw).mp hnew
    cases named?_stagingPath hx.1 hs.1
    exact content?_of_sibling hw hwr ht hx hs (.refl hwf) hsame rfl (fun _ h => h.elim)
      fun _ h => h.elim
  | @moved s x id hold hnew hleaf hid hne htarget hchange hchange' =>
    have hs := (hwr.names_iff hw).mp hold
    have hx := (hwr.names_iff hw).mp hnew
    cases named?_stagingPath hx.1 hs.1
    by_cases hneed : d.Passes true (stagingPath p) x ∨ t = x
    · exfalso
      refine h (.looped hx hs.1 (hwr.opensFile ht) (hwr.mayChange_iff.mp hchange) ?_ ?_ hneed)
      · rw [ne_eq, ← hwr.at?_eq_iff hw ht hs x.staging_ne hneed, hid]
        exact hne
      · rcases htarget with hnone | hleaf
        · have hxt : x ≠ t := fun hxt => by simp [hxt, hwr.at?_self] at hnone
          exact .inl (by rwa [hwr.at?_ne hxt] at hnone)
        · rcases hwr.hasLeaf_cases hw hleaf with hleaf | ⟨hxt, hnone⟩
          · exact .inr hleaf
          · exact .inl (hxt ▸ hnone)
    · obtain ⟨hpass, htx⟩ := not_or.mp hneed
      exact content?_moveEntry hw hwr ht hx hs hid hchange'.searchable.hasDirectory hwf hpass htx

end Disk

/-! ### The exact condition -/

open Disk

variable {codec : Codec} {image : Raster} {d : Disk} {p : Path}

/-- After a success the picture is read from its path, and after a failure what was read
before, if anything was. -/
def Delivery.Keeps (codec : Codec) (image : Raster) (p : Path) (d : Disk) : Prop :=
  (((writePicture codec image p).run d).value = .ok () →
    (((writePicture codec image p).run d).disk.content? p).bind codec.decode = some image) ∧
  ∀ f, ((writePicture codec image p).run d).value = .error f →
    ((writePicture codec image p).run d).disk.content? p = d.content? p

theorem keeps_of_not_exposed (hw : d.WellFormed) (h : ¬ d.Exposed codec p) :
    Keeps codec image p d := by
  have hcourse := run_writePicture codec image p hw
  unfold Keeps
  generalize ((writePicture codec image p).run d).value = r at hcourse
  generalize ((writePicture codec image p).run d).disk = f at hcourse
  cases hcourse with
  | unstored hstored =>
    constructor
    · intro hv
      contradiction
    · intro _ _
      cases hstored with
      | refused => exact content?_cleared_of_not_exposed hw h
      | device => exact content?_cleared_of_not_exposed hw h
      | unencoded _ ht hwr => exact hwr.content?_cleared hw ht h (.inl rfl)
  | unmoved hstored hno =>
    constructor
    · intro hv
      contradiction
    · intro _ _
      cases hstored with
      | stored ht hwr => exact hwr.content?_cleared hw ht h (.inr hno)
  | moved hstored hrename =>
    constructor
    · intro _
      cases hstored with
      | stored ht hwr hencode =>
        rw [hwr.content?_renames hw ht h hrename]
        exact hencode.decode_bytes
    · intro _ hv
      contradiction

theorem not_encodes_empty (codec : Codec) : ¬ codec.Encodes .empty :=
  fun h => (Codec.encodes_iff.mp h).1 rfl

theorem exists_encodes_ne_ending (codec : Codec) :
    ∃ image, codec.Encodes image ∧ codec.bytes image ≠ codec.ending := by
  have hone : codec.Encodes (.clear 1 1) := Codec.encodes_iff.mpr (by decide)
  have htwo : codec.Encodes (.clear 1 2) := Codec.encodes_iff.mpr (by decide)
  by_cases h : codec.bytes (.clear 1 1) = codec.ending
  · refine ⟨_, htwo, fun h' => ?_⟩
    have hsame := hone.image_eq htwo (h.trans h'.symm)
    exact absurd (congrArg Raster.height hsame) (by decide)
  · exact ⟨_, hone, h⟩

theorem Disk.Written.eq_file {t : Entry} {file file' : NodeId} {c : Bytes} {e : Disk}
    (h : d.Written t file c e) (hat : d.at? t = some file') : file = file' := by
  rcases h.was with ⟨hnone, -⟩ | ⟨hsome, -⟩
  · cases hnone.symm.trans hat
  · exact Option.some.inj (hsome.symm.trans hat)

/-- If the file of the path was written to, what is read from the path afterwards is what was
written. -/
theorem Disk.Written.eq_of_content?_cleared {t x : Entry} {file file' : NodeId} {c bytes : Bytes}
    {e : Disk} (hw : d.WellFormed) (h : d.Written t file' bytes e) (hx : d.target? p = some x)
    (hat : d.at? t = some file) (hatx : d.at? x = some file)
    (hread : (e.cleared (stagingPath p)).content? p = some c) : bytes = c := by
  rcases content?_cleared_cases h.wellFormed p with ⟨-, -, -, -, -, hnone⟩ | ⟨hkept, -⟩
  · cases hnone.symm.trans hread
  · have hex : e.at? x = some file' := by
      rw [h.at?_eq_of_was hat, hatx, h.eq_file hat]
    rw [hkept, h.content?_of_target? hw hx hex] at hread
    exact Option.some.inj hread

theorem not_keeps_of_lost {s : Entry} (hw : d.WellFormed)
    (hs : d.named? (stagingPath p) = some s) (hleaf : d.HasLeaf s)
    (hchange : d.MayChange s.directory) (hsome : (d.content? p).isSome)
    (hneed : d.Passes true p s ∨ d.target? p = some s) : ¬ Keeps codec .empty p d := by
  obtain ⟨f, e, hv, hd, hstored⟩ := run_unencodable hw p (not_encodes_empty codec)
  intro h
  have hsame := h.2 f hv
  rw [hd] at hsame
  have hnone : (e.cleared (stagingPath p)).content? p = none := by
    have hwritten {t file} (hwr : d.Written t file codec.ending e) :
        (e.cleared (stagingPath p)).content? p = none := by
      rcases content?_cleared_cases hwr.wellFormed p with ⟨-, -, -, -, -, hnone⟩ | ⟨-, hkeep⟩
      · exact hnone
      · have := hkeep s (by rw [hwr.named?_eq hw, hs]) (hwr.hasLeaf hleaf)
          (hwr.mayChange_iff.mpr hchange)
        rw [hwr.passes_iff hw, hwr.target?_eq hw] at this
        exact (not_or.mpr this hneed).elim
    have huntouched (he : e = d) : (e.cleared (stagingPath p)).content? p = none := by
      subst he
      rcases content?_cleared_cases hw p with ⟨-, -, -, -, -, hnone⟩ | ⟨-, hkeep⟩
      · exact hnone
      · exact (not_or.mpr (hkeep s hs hleaf hchange) hneed).elim
    cases hstored with
    | refused => exact huntouched rfl
    | device => exact huntouched rfl
    | unencoded _ ht hwr => exact hwritten hwr
  rw [← hsame, hnone] at hsome
  contradiction

theorem not_keeps_of_shared {t x : Entry} {file : NodeId} {c : Bytes} (hw : d.WellFormed)
    (ht : d.target? (stagingPath p) = some t) (hx : d.target? p = some x)
    (hat : d.at? t = some file) (hatx : d.at? x = some file)
    (hk : d.kind? file = some (.file c true)) (hc : c ≠ codec.ending) :
    ¬ Keeps codec .empty p d := by
  obtain ⟨f, e, hv, hd, hstored⟩ := run_unencodable hw p (not_encodes_empty codec)
  obtain ⟨file', c', hwr, ⟨-, rfl, -⟩ | ⟨h, -⟩⟩ :=
    hstored.of_opensFile ⟨ht, .inr ⟨c, kindAt?_eq_some_iff.mpr ⟨file, hat, hk⟩⟩⟩
  · intro h
    have hsame := h.2 f hv
    rw [hd, content?_of_at? hw hx hatx hk] at hsame
    exact hc (hwr.eq_of_content?_cleared hw hx hat hatx hsame).symm
  · contradiction

theorem not_keeps_of_unmoved {s t x y : Entry} {file : NodeId} {c : Bytes}
    (hw : d.WellFormed) (hencode : codec.Encodes image) (hc : codec.bytes image ≠ c)
    (ht : d.target? (stagingPath p) = some t) (hx : d.target? p = some x)
    (hat : d.at? t = some file) (hatx : d.at? x = some file)
    (hk : d.kind? file = some (.file c true)) (hs : d.named? (stagingPath p) = some s)
    (hy : d.named? p = some y) (hchange : ¬ d.MayChange s.directory) (hne : d.at? y ≠ d.at? s) :
    ¬ Keeps codec image p d := by
  obtain ⟨file', e, hwr, ⟨f, hv, hd, -⟩ | ⟨-, hrename⟩⟩ := run_encodable hw hencode
    ⟨ht, .inr ⟨c, kindAt?_eq_some_iff.mpr ⟨file, hat, hk⟩⟩⟩
  · intro h
    have hsame := h.2 f hv
    rw [hd, content?_of_at? hw hx hatx hk] at hsame
    exact hc (hwr.eq_of_content?_cleared hw hx hat hatx hsame)
  · generalize ((writePicture codec image p).run d).disk = f at hrename
    cases hrename with
    | same hold hnew _ hsame =>
      cases hs.symm.trans ((hwr.names_iff hw).mp hold).1
      cases hy.symm.trans ((hwr.names_iff hw).mp hnew).1
      rw [hwr.at?_eq_of_was hat] at hsame
      exact (hne hsame).elim
    | moved hold _ _ _ _ _ hm =>
      cases hs.symm.trans ((hwr.names_iff hw).mp hold).1
      exact (hchange (hwr.mayChange_iff.mp hm)).elim

theorem not_keeps_of_made {s t : Entry} (hw : d.WellFormed)
    (hs : d.named? (stagingPath p) = some s) (ht : d.target? (stagingPath p) = some t)
    (hst : s ≠ t) (hnone : d.at? t = none) (hchange : d.MayChange t.directory)
    (hx : d.target? p = some t) (hkeep : d.Passes true p s → ¬ d.MayChange s.directory) :
    ¬ Keeps codec .empty p d := by
  obtain ⟨f, e, hv, hd, hstored⟩ := run_unencodable hw p (not_encodes_empty codec)
  obtain ⟨file, c, hwr, ⟨-, rfl, -⟩ | ⟨h, -⟩⟩ :=
    hstored.of_opensFile ⟨ht, .inl ⟨hnone, hchange⟩⟩
  · intro h
    have hsame := h.2 f hv
    have hbefore : d.content? p = none := by
      simp [content?_eq hw, hx, contentAt?_of_at?_eq_none hnone]
    rw [hd, hbefore] at hsame
    rcases content?_cleared_cases hwr.wellFormed p with
      ⟨s', hs', -, hchange', hneed, -⟩ | ⟨hkept, -⟩
    · rw [hwr.named?_eq hw] at hs'
      cases hs.symm.trans hs'
      rw [hwr.passes_iff hw, hwr.target?_eq hw] at hneed
      rcases hneed with hp | ht'
      · exact hkeep hp (hwr.mayChange_iff.mp hchange')
      · exact hst (Option.some.inj (ht'.symm.trans hx))
    · rw [hkept, hwr.content?_of_target? hw hx hwr.at?_self] at hsame
      contradiction
  · contradiction

theorem not_keeps_of_looped {s t x : Entry} (hw : d.WellFormed)
    (hencode : codec.Encodes image) (hx : d.Names p x)
    (hs : d.named? (stagingPath p) = some s) (ht : d.OpensFile (stagingPath p) t)
    (hchange : d.MayChange s.directory) (hne : d.at? x ≠ d.at? s)
    (hleaf : d.at? x = none ∨ d.HasLeaf x) (hneed : d.Passes true (stagingPath p) x ∨ t = x) :
    ¬ Keeps codec image p d := by
  have hns := names_stagingPath_iff.mpr hs
  cases named?_stagingPath hx.1 hs
  obtain ⟨file, e, hwr, hrun⟩ := run_encodable (p := p) hw hencode ht
  have hold := (hwr.names_iff hw).mpr hns
  have hnew := (hwr.names_iff hw).mpr hx
  have hes := hwr.hasLeaf_of_names hw ht.1 hwr.at?_self hns
  have hene : e.at? x ≠ e.at? x.staging := by
    rw [ne_eq, hwr.at?_eq_iff hw ht.1 hns x.staging_ne hneed]
    exact hne
  have hex : e.at? x = none ∨ e.HasLeaf x := by
    rcases hleaf with hnone | hleaf
    · by_cases hxt : x = t
      · exact .inr ⟨_, hxt ▸ hwr.kindAt?_self hwr.at?_self, rfl⟩
      · exact .inl ((hwr.at?_ne hxt).trans hnone)
    · exact .inr (hwr.hasLeaf hleaf)
  have hm := hwr.mayChange_iff.mpr hchange
  obtain ⟨id, k, hid, -⟩ := hes.exists_kind
  rcases hrun with ⟨f, -, -, hno⟩ | ⟨hv, hrename⟩
  · exact (hno _ (.moved hold hnew hes hid (hid ▸ hene) hex hm hm)).elim
  · intro h
    have hread := h.1 hv
    have hwf := hrename.wellFormed hwr.wellFormed
    generalize ((writePicture codec image p).run d).disk = f at *
    cases hrename with
    | same hold' hnew' _ hsame =>
      cases hold.1.symm.trans hold'.1
      cases hnew.1.symm.trans hnew'.1
      exact (hene hsame).elim
    | moved hold' hnew' _ hid' _ _ _ hm' =>
      cases hold.1.symm.trans hold'.1
      cases hnew.1.symm.trans hnew'.1
      rw [content?_moveEntry_eq_none hw hwr ht.1 hx hns hid' hm'.searchable.hasDirectory hwf
        hneed] at hread
      contradiction

theorem exists_not_keeps_of_exposed (hw : d.WellFormed) (h : d.Exposed codec p) :
    ∃ image, ¬ Keeps codec image p d := by
  obtain ⟨image, hencode, hbytes⟩ := exists_encodes_ne_ending codec
  cases h with
  | lost hs hleaf hchange hsome hneed =>
    exact ⟨_, not_keeps_of_lost hw hs hleaf hchange hsome hneed⟩
  | @shared t x file c ht hx hat hatx hk hcases =>
    by_cases hc : c = codec.ending
    · obtain ⟨s, y, hs, hy, hchange, hne⟩ := hcases.resolve_left (not_not.mpr hc)
      subst hc
      exact ⟨image, not_keeps_of_unmoved hw hencode hbytes ht hx hat hatx hk hs hy hchange hne⟩
    · exact ⟨_, not_keeps_of_shared hw ht hx hat hatx hk hc⟩
  | made hs ht hst hnone hchange hx hkeep =>
    exact ⟨_, not_keeps_of_made hw hs ht hst hnone hchange hx hkeep⟩
  | looped hx hs ht hchange hne hleaf hneed =>
    exact ⟨image, not_keeps_of_looped hw hencode hx hs ht hchange hne hleaf hneed⟩

/-- The target of a delivery is safe exactly where it is not entangled with the staging path. -/
theorem forall_keeps_iff_not_exposed (codec : Codec) (p : Path) (hw : d.WellFormed) :
    (∀ image, Keeps codec image p d) ↔ ¬ d.Exposed codec p := by
  constructor
  · intro h hexposed
    obtain ⟨image, hno⟩ := exists_not_keeps_of_exposed hw hexposed
    exact hno (h image)
  · exact fun h image => keeps_of_not_exposed hw h

/-- A picture whose staging entry is a second name of it. -/
def Disk.linked : Disk where
  nodes := #[
    .directory 0 ⟨[(.ofString "work", 1)], .search⟩,
    .directory 0 ⟨[(.ofString "icon.png", 2), (.ofString ".icon.png.partial", 2)], .change⟩,
    .file (.ofString "stale") true]
  working := 1

theorem Disk.wellFormed_linked : Disk.linked.WellFormed :=
  wellFormed_of_wellFormedB (by decide +kernel)

theorem not_forall_keeps_linked :
    ¬ ∀ image, Keeps Png.codec image (.ofString "icon.png") Disk.linked := by
  have hstaging : Disk.linked.target? (stagingPath (.ofString "icon.png")) =
      some ⟨1, .ofString ".icon.png.partial"⟩ := by decide +kernel
  have htarget : Disk.linked.target? (.ofString "icon.png") = some ⟨1, .ofString "icon.png"⟩ := by
    decide +kernel
  have hfile : Disk.linked.kind? 2 = some (.file (.ofString "stale") true) := by decide +kernel
  intro h
  exact (forall_keeps_iff_not_exposed Png.codec (.ofString "icon.png") wellFormed_linked).mp h
    (.shared hstaging htarget (by decide +kernel) (by decide +kernel) hfile
      (.inl (by decide +kernel)))

/-- The staging entry is a link to the picture. -/
def Disk.looping : Disk where
  nodes := #[
    .directory 0 ⟨[(.ofString "work", 1)], .search⟩,
    .directory 0 ⟨[(.ofString "icon.png", 2), (.ofString ".icon.png.partial", 3)], .change⟩,
    .file (.ofString "old") true,
    .link (.ofString "icon.png")]
  working := 1

/-- A picture without pixels is refused, and yet the old picture is gone. A picture that is not
refused is written where the link leads, and then the link is moved there. -/
theorem not_keeps_linked_empty :
    (Disk.linked.WellFormed ∧
      Disk.linked.content? (.ofString "icon.png") = some (.ofString "stale") ∧
      ((writePicture Png.codec .empty (.ofString "icon.png")).run Disk.linked).disk.content?
        (.ofString "icon.png") = some Png.codec.ending ∧
      ¬ Keeps Png.codec .empty (.ofString "icon.png") Disk.linked) ∧
    Disk.looping.WellFormed ∧
      ((writePicture Png.codec (.clear 1 1) (.ofString "icon.png")).run Disk.looping).value =
        .ok () ∧
      ((writePicture Png.codec (.clear 1 1) (.ofString "icon.png")).run Disk.looping).disk.content?
        (.ofString "icon.png") = none ∧
      ¬ Keeps Png.codec (.clear 1 1) (.ofString "icon.png") Disk.looping := by
  have hread : ((writePicture Png.codec (.clear 1 1) (.ofString "icon.png")).run
      Disk.looping).disk.content? (.ofString "icon.png") = none := by decide +kernel
  refine ⟨⟨wellFormed_linked, by decide +kernel, by decide +kernel, ?_⟩,
    wellFormed_of_wellFormedB (by decide +kernel), by decide +kernel, hread, ?_⟩
  · intro h
    have hsame := h.2 (.encode (stagingPath (.ofString "icon.png")) "Zero width not allowed")
      (by decide +kernel)
    revert hsame
    decide +kernel
  · intro h
    have hdecoded := h.1 (by decide +kernel)
    rw [hread, Option.bind_none] at hdecoded
    cases hdecoded

end IconPainter
