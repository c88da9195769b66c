import IconPainter.Proofs.Delivery.Moves
import IconPainter.Proofs.Disk.Alike

/-! # What a delivery changes

Where the staging path names nothing or a file of its own, a delivery takes away
the staging entry, and if it succeeds, the entry of the path becomes a file with
the picture. Every other entry is left as it was.
-/

namespace IconPainter

open Delivery

namespace Disk

/-- What a path names may come and go: nothing else is known by it. -/
def Free (d : Disk) (p : Path) : Prop :=
  ∀ e, d.named? p = some e → d.MayChange e.directory ∧ d.Sole e

variable {d e : Disk} {s t x y : Entry} {file id : NodeId} {c : Bytes} {p q : Path}

/-! ### Files of their own -/

theorem Sole.not_passable (h : d.Sole s) : ¬ d.Passable s := by
  apply Disk.not_passable rfl
  intro k hk
  rcases h with h | ⟨id, c, w, hat, hfile, -⟩
  · simp [kindAt?, h] at hk
  · rw [kindAt?_of_at? hat, hfile] at hk
    cases hk
    exact ⟨rfl, rfl⟩

theorem Sole.not_link (h : d.Sole s) {target : Path} : d.reach? s ≠ some (id, some target) :=
  fun hr => h.not_passable (passable_iff.mpr ⟨_, _, hr, .inl rfl⟩)

theorem Sole.target?_eq (hw : d.WellFormed) (h : d.Sole s) (hs : d.Names p s)
    (ht : d.target? p = some t) : t = s := by
  obtain ⟨es₁, n₁, -, ⟨rfl, -⟩ | ⟨target, es₂, n₂, ⟨⟨id, hr⟩, -⟩, -⟩⟩ := target?_cases hw ht hs
  · rfl
  · exact (h.not_link hr).elim

theorem named?_of_target? (hw : d.WellFormed) (h : ∀ s, d.named? q = some s → d.Sole s)
    (ht : d.target? q = some t) : d.named? q = some t := by
  obtain ⟨s, hn⟩ := exists_names_of_target? hw ht
  rw [(h s hn.1).target?_eq hw hn ht]
  exact hn.1

theorem Free.named?_of_target? (hw : d.WellFormed) (h : d.Free q) (ht : d.target? q = some t) :
    d.named? q = some t :=
  Disk.named?_of_target? hw (fun s hs => (h s hs).2) ht

theorem Written.eq_of_at? (hw : d.WellFormed) (h : d.Written t file c e) (ht : d.Sole t)
    (hx : e.at? x = some file) : x = t := by
  rcases h.at?_eq_file_iff.mp hx with hx | hx
  · exact hx
  · rcases h.was with ⟨-, hk, -⟩ | ⟨hat, c₀, hk⟩
    · exact (hw.at?_ne_of_kind?_eq_none hk hx).elim
    · exact ht.eq_of_at? (hx.trans hat.symm) (by simp [hat])

theorem Written.single (hw : d.WellFormed) (h : d.Written t file c e) (ht : d.Sole t) :
    e.Single t :=
  ⟨file, c, true, h.at?_self, h.kind?_self, fun _ hx => h.eq_of_at? hw ht hx⟩

theorem Written.free (hw : d.WellFormed) (h : d.Written s file c e) (hq : d.Free q)
    (hs : d.named? q = some s) : e.Free q := by
  intro s' hs'
  rw [h.named?_eq hw] at hs'
  cases hs.symm.trans hs'
  exact ⟨h.mayChange_iff.mpr (hq s hs).1, .inr (h.single hw (hq s hs).2)⟩

/-! ### Single changes -/

theorem Written.sameOff (hw : d.WellFormed) (h : d.Written t file c e) (ht : d.Sole t) :
    SameOff {t} d e where
  directories := h.sameDirectories
  at?_eq _ hx := (h.at?_ne hx).symm
  kindAt?_eq _ hx := (h.kindAt?_ne fun hxf => hx (h.eq_of_at? hw ht hxf)).symm

theorem sameOff_eraseEntry (hw : d.WellFormed) (s : Entry) :
    SameOff {s} d (d.eraseEntry s.directory s.name) where
  directories := (agreeOff_eraseEntry hw s).directories
  at?_eq _ hx := (at?_eraseEntry_ne hx).symm
  kindAt?_eq _ hx := (kindAt?_eraseEntry_ne hx).symm

theorem sameOff_moveEntry (hw : d.WellFormed) (hx : d.HasDirectory x.directory)
    (hwf : (d.moveEntry s x id).WellFormed) : SameOff {s, x} d (d.moveEntry s x id) where
  directories := (agreeOff_moveEntry hx hw hwf).directories
  at?_eq y hy := by
    obtain ⟨hys, hyx⟩ : y ≠ s ∧ y ≠ x := by simpa using hy
    exact (at?_moveEntry_ne hx hys hyx).symm
  kindAt?_eq y hy := by
    obtain ⟨hys, hyx⟩ : y ≠ s ∧ y ≠ x := by simpa using hy
    simp only [kindAt?, at?_moveEntry_ne hx hys hyx, kind?_moveEntry]

theorem sameOff_cleared (hw : d.WellFormed) (p : Path) :
    SameOff {e | d.named? (stagingPath p) = some e} d (d.cleared (stagingPath p)) := by
  rcases cleared_cases d p with ⟨s, hs, -, -, heq⟩ | ⟨heq, -⟩
  · rw [heq]
    apply (sameOff_eraseEntry hw s).mono
    intro e he
    cases he
    exact hs
  · rw [heq]
    exact .refl _ d

theorem at?_cleared_of_sole (hs : d.named? (stagingPath p) = some s) (hsole : d.Sole s) :
    (d.cleared (stagingPath p)).at? s = none ∨
      (¬ d.MayChange s.directory ∧ (d.cleared (stagingPath p)).at? s = d.at? s) := by
  rcases cleared_cases d p with ⟨s', hs', -, -, heq⟩ | ⟨heq, hno⟩
  · rw [heq]
    cases hs.symm.trans hs'
    exact .inl (at?_eraseEntry_self d s)
  · rw [heq]
    rcases hsole with hnone | ⟨id, c, w, hat, hk, -⟩
    · exact .inl hnone
    · exact .inr ⟨hno s hs ⟨_, kindAt?_eq_some_iff.mpr ⟨id, hat, hk⟩, rfl⟩, rfl⟩

theorem Free.cleared (hw : d.WellFormed) (h : d.Free (stagingPath p)) :
    SameOff {e | d.named? (stagingPath p) = some e} d (d.cleared (stagingPath p)) ∧
      ∀ s, d.named? (stagingPath p) = some s → (d.cleared (stagingPath p)).at? s = none :=
  ⟨sameOff_cleared hw p, fun s hs =>
    (at?_cleared_of_sole hs (h s hs).2).resolve_right fun hno => hno.1 (h s hs).1⟩

theorem Written.eq_moveEntry {f : Disk} (hw : d.WellFormed) (h : d.Written s file c e)
    (hsole : d.Sole s) (hs : d.named? (stagingPath p) = some s)
    (hr : e.Renames (stagingPath p) p f) : ∃ x, d.Names p x ∧ s = x.staging ∧
      (d.at? x = none ∨ d.HasLeaf x) ∧ e.HasDirectory x.directory ∧ f = e.moveEntry s x file := by
  cases hr with
  | @same s' x hold hnew _ hsame =>
    cases hs.symm.trans ((h.names_iff hw).mp hold).1
    have hx := ((h.names_iff hw).mp hnew).1
    have hxs := h.eq_of_at? hw hsole (hsame.trans h.at?_self)
    exact (named?_ne_stagingPath hx hs hxs).elim
  | @moved s' x id hold hnew _ hid _ htarget _ hchange =>
    cases hs.symm.trans ((h.names_iff hw).mp hold).1
    cases h.at?_self.symm.trans hid
    have hx := (h.names_iff hw).mp hnew
    have hxs := named?_ne_stagingPath hx.1 hs
    refine ⟨x, hx, named?_stagingPath hx.1 hs, ?_, hchange.searchable.hasDirectory, rfl⟩
    rcases htarget with hnone | hleaf
    · exact .inl ((h.at?_ne hxs).symm.trans hnone)
    · exact .inr ((h.hasLeaf_cases hw hleaf).resolve_right fun hxt => hxs hxt.1)

end Disk

/-! ### The effect of a delivery -/

open Disk

variable {codec : Codec} {image : Raster} {p : Path} {d d' e f : Disk} {s x : Entry} {ok : Prop}
  {file : NodeId} {c : Bytes}

/-- The entries that a delivery changes: that of the staging path, and on success that of
the path. -/
def Changed (p : Path) (d : Disk) (ok : Prop) : Set Entry :=
  {e | d.named? (stagingPath p) = some e ∨ (ok ∧ d.named? p = some e)}

/-- Nothing is left under the staging path, and a success leaves the picture under the path. -/
structure Effect (codec : Codec) (image : Raster) (p : Path) (d : Disk) (ok : Prop) (f : Disk) :
    Prop where
  sameOff : SameOff (Changed p d ok) d f
  gone : ∀ s, d.named? (stagingPath p) = some s → f.at? s = none
  delivered : ok → ∃ x, d.Names p x ∧ (d.at? x = none ∨ d.HasLeaf x) ∧
    codec.Encodes image ∧ f.Single x ∧ f.kindAt? x = some (.file (codec.bytes image) true)

theorem changed_of_not (p : Path) (d : Disk) (hok : ¬ ok) :
    Changed p d ok = {e | d.named? (stagingPath p) = some e} := by
  simp [Changed, hok]

theorem Disk.Free.effect (hw : d.WellFormed) (h : d.Free (stagingPath p)) (hok : ¬ ok) :
    Effect codec image p d ok (d.cleared (stagingPath p)) where
  sameOff := changed_of_not p d hok ▸ (h.cleared hw).1
  gone := (h.cleared hw).2
  delivered := fun h => (hok h).elim

namespace Disk.Written

theorem effect_cleared (hw : d.WellFormed) (h : d.Written s file c e)
    (hfree : d.Free (stagingPath p)) (hs : d.named? (stagingPath p) = some s) (hok : ¬ ok) :
    Effect codec image p d ok (e.cleared (stagingPath p)) := by
  obtain ⟨hsame, hgone⟩ := (h.free hw hfree hs).cleared h.wellFormed
  simp only [h.named?_eq hw] at hsame hgone
  refine ⟨?_, hgone, fun h => (hok h).elim⟩
  rw [changed_of_not p d hok]
  refine ((h.sameOff hw (hfree s hs).2).mono ?_).trans hsame
  intro y hy
  cases hy
  exact hs

theorem effect_moved (hw : d.WellFormed)
    (h : d.Written s file (codec.bytes image) e) (hfree : d.Free (stagingPath p))
    (hs : d.named? (stagingPath p) = some s) (hencode : codec.Encodes image)
    (hr : e.Renames (stagingPath p) p f) (hok : ok) : Effect codec image p d ok f := by
  have hone {y : Entry} (hy : e.at? y = some file) : y = s := h.eq_of_at? hw (hfree s hs).2 hy
  have hwf := hr.wellFormed h.wellFormed
  obtain ⟨x, hx, -, htarget, hdir, rfl⟩ := h.eq_moveEntry hw (hfree s hs).2 hs hr
  have hsx := (named?_ne_stagingPath hx.1 hs).symm
  have hself : (e.moveEntry s x file).at? x = some file := at?_moveEntry_self hdir
  have hkind : (e.moveEntry s x file).kind? file = some (.file (codec.bytes image) true) := by
    rw [kind?_moveEntry, h.kind?_self]
  refine ⟨?_, ?_, fun _ => ⟨x, hx, htarget, hencode, ?_, ?_⟩⟩
  · refine (((h.sameOff hw (hfree s hs).2).mono ?_).trans
      (sameOff_moveEntry h.wellFormed hdir hwf)).mono ?_
    · exact Set.singleton_subset_iff.mpr (.inl rfl)
    · rintro y (rfl | rfl)
      · exact .inl hs
      · exact .inr ⟨hok, hx.1⟩
  · intro s' hs'
    cases hs.symm.trans hs'
    exact at?_moveEntry_old hdir hsx
  · refine ⟨file, _, true, hself, hkind, ?_⟩
    intro y hy
    by_contra hyx
    by_cases hys : y = s
    · simp [hys, at?_moveEntry_old hdir hsx] at hy
    · rw [at?_moveEntry_ne hdir hys hyx] at hy
      exact hys (hone hy)
  · rw [kindAt?_of_at? hself, hkind]

end Disk.Written

/-- A delivery has its effect whatever it comes to. -/
theorem effect_writePicture (codec : Codec) (image : Raster) (hw : d.WellFormed)
    (h : d.Free (stagingPath p)) :
    Effect codec image p d (((writePicture codec image p).run d).value = .ok ())
      ((writePicture codec image p).run d).disk := by
  have hcourse := run_writePicture codec image p hw
  generalize ((writePicture codec image p).run d).value = r at hcourse
  generalize ((writePicture codec image p).run d).disk = f at hcourse
  cases hcourse with
  | unstored hstored =>
    cases hstored with
    | refused => exact h.effect hw (by simp)
    | device => exact h.effect hw (by simp)
    | unencoded _ ht hwr => exact hwr.effect_cleared hw h (h.named?_of_target? hw ht) (by simp)
  | unmoved hstored =>
    cases hstored with
    | stored ht hwr => exact hwr.effect_cleared hw h (h.named?_of_target? hw ht) (by simp)
  | moved hstored hrename =>
    cases hstored with
    | stored ht hwr hencode =>
      exact hwr.effect_moved hw h (h.named?_of_target? hw ht) hencode hrename rfl

/-- Deliveries of one picture that end alike leave the same at the entries that they change. -/
theorem Effect.agree (h : Effect codec image p d ok e) (h' : Effect codec image p d' ok f)
    (hwe : e.WellFormed)
    (hwf : f.WellFormed) (hp : d.named? p = d'.named? p)
    (hs : d.named? (stagingPath p) = d'.named? (stagingPath p)) :
    ∀ x ∈ Changed p d ok, e.Sole x ∧ f.Sole x ∧ e.kindAt? x = f.kindAt? x := by
  rintro x (hx | ⟨hok, hx⟩)
  · have he := h.gone x hx
    have hf := h'.gone x (hs ▸ hx)
    exact ⟨.inl he, .inl hf, by rw [hwe.kindAt?_eq_none_iff.mpr he, hwf.kindAt?_eq_none_iff.mpr hf]⟩
  · obtain ⟨x₁, hx₁, -, -, hsingle, hkind⟩ := h.delivered hok
    obtain ⟨x₂, hx₂, -, -, hsingle', hkind'⟩ := h'.delivered hok
    cases hx.symm.trans hx₁.1
    cases (hp ▸ hx).symm.trans hx₂.1
    exact ⟨.inr hsingle, .inr hsingle', hkind.trans hkind'.symm⟩

end IconPainter
