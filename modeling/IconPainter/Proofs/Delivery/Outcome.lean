import IconPainter.Proofs.Delivery.Effect
import IconPainter.Png.Stored

/-! # What a delivery leaves behind

Where the staging path names nothing or a file of its own, the disk after a
delivery is one of two: the one before without the staging entry, or that one
with the picture at the entry of the path. So a failure changes nothing else, and
a success changes nothing but that entry.
-/

namespace IconPainter

open Delivery

namespace Disk

/-- The disk without the entry that a path names. -/
def without (d : Disk) (p : Path) : Disk :=
  match d.named? p with
  | some e => d.eraseEntry e.directory e.name
  | none => d

/-- The disk with a new file at an entry, in place of what stood there. -/
def withFile (d : Disk) (e : Entry) (bytes : Bytes) : Disk :=
  d.addEntry e.directory e.name (.file bytes true)

variable {d : Disk} {s x y : Entry} {bytes : Bytes} {p q : Path}

theorem without_of_named? (h : d.named? p = some s) :
    d.without p = d.eraseEntry s.directory s.name := by
  simp only [without, h]

theorem WellFormed.without (hw : d.WellFormed) (q : Path) : (d.without q).WellFormed := by
  unfold Disk.without
  cases d.named? q with
  | none => exact hw
  | some s => exact hw.eraseEntry s

theorem sameOff_without (hw : d.WellFormed) (q : Path) :
    SameOff {e | d.named? q = some e} d (d.without q) := by
  cases hs : d.named? q with
  | none =>
    simp only [Disk.without, hs]
    exact .refl _ d
  | some s =>
    rw [without_of_named? hs]
    apply (sameOff_eraseEntry hw s).mono
    intro y hy
    cases hy
    rfl

theorem at?_without (hs : d.named? q = some s) : (d.without q).at? s = none := by
  rw [without_of_named? hs, at?_eraseEntry_self]

section WithFile

variable (hw : d.WellFormed) (hx : d.HasDirectory x.directory)
include hx

theorem at?_withFile :
    (d.withFile x bytes).at? = Function.update d.at? x (some d.nodes.size) :=
  at?_addEntry hx (by rintro _ _ ⟨⟩)

omit hx in
theorem kind?_withFile :
    (d.withFile x bytes).kind? =
      Function.update d.kind? d.nodes.size (some (.file bytes true)) :=
  kind?_addEntry d _ _ _

theorem at?_withFile_self : (d.withFile x bytes).at? x = some d.nodes.size := by
  rw [at?_withFile hx, Function.update_self]

theorem at?_withFile_ne (hy : y ≠ x) : (d.withFile x bytes).at? y = d.at? y := by
  rw [at?_withFile hx, Function.update_of_ne hy]

include hw

theorem single_withFile : (d.withFile x bytes).Single x := by
  refine ⟨_, bytes, true, at?_withFile_self hx, by rw [kind?_withFile, Function.update_self],
    ?_⟩
  intro y hy
  by_contra hyx
  rw [at?_withFile_ne hx hyx] at hy
  exact hw.at?_ne_of_kind?_eq_none (kind?_eq_none_of_size_le (Nat.le_refl _)) hy

theorem sameOff_withFile : SameOff {x} d (d.withFile x bytes) where
  directories := .of_update (working_addEntry d _ _ _).symm kind?_withFile
    (not_hasDirectory_of_none (kind?_eq_none_of_size_le (Nat.le_refl _))) rfl
  at?_eq _ hy := (at?_withFile_ne hx hy).symm
  kindAt?_eq y hy := by
    unfold kindAt?
    rw [at?_withFile_ne hx hy]
    cases hat : d.at? y with
    | none => rfl
    | some id =>
      have hid : id ≠ d.nodes.size := by
        rintro rfl
        exact hw.at?_ne_of_kind?_eq_none (kind?_eq_none_of_size_le (Nat.le_refl _)) hat
      rw [Option.bind_some, Option.bind_some, kind?_withFile, Function.update_of_ne hid]

end WithFile

theorem Names.hasDirectory (h : d.Names p x) : d.HasDirectory x.directory := by
  obtain ⟨-, -, es, n, ha⟩ := names_iff_approaches.mp h
  exact ha.searchable.hasDirectory

end Disk

/-! ### The two outcomes -/

open Disk

variable {codec : Codec} {image : Raster} {d f : Disk} {p : Path} {ok : Prop}

theorem Effect.alike_without (hw : d.WellFormed) (hwf : f.WellFormed) (hok : ¬ ok)
    (h : Effect codec image p d ok f) : f.Alike (d.without (stagingPath p)) := by
  have hwithout := sameOff_without hw (stagingPath p)
  rw [← changed_of_not p d hok] at hwithout
  apply (Alike.refl d).step h.sameOff hwithout
  intro e he
  rw [changed_of_not p d hok] at he
  have hf := h.gone e he
  have hd := at?_without he
  exact ⟨.inl hf, .inl hd, by
    rw [hwf.kindAt?_eq_none_iff.mpr hf, (hw.without _).kindAt?_eq_none_iff.mpr hd]⟩

theorem Effect.alike_withFile (hw : d.WellFormed) (hwf : f.WellFormed) (hok : ok)
    (h : Effect codec image p d ok f) : ∃ x bytes, d.named? p = some x ∧
      codec.decode bytes = some image ∧
      f.Alike ((d.without (stagingPath p)).withFile x bytes) := by
  obtain ⟨x, hx, -, hencode, hsingle, hkind⟩ := h.delivered hok
  have hwo := hw.without (stagingPath p)
  have hwithout := sameOff_without hw (stagingPath p)
  have hdir := hwithout.directories.hasDirectory_iff.mp hx.hasDirectory
  have hwith : SameOff {x} _ ((d.without (stagingPath p)).withFile x (codec.bytes image)) :=
    sameOff_withFile hwo hdir
  have hself : ((d.without (stagingPath p)).withFile x (codec.bytes image)).kindAt? x =
      some (.file (codec.bytes image) true) := by
    rw [kindAt?_of_at? (at?_withFile_self hdir), kind?_withFile, Function.update_self]
  refine ⟨x, _, hx.1, hencode.decode_bytes, (Alike.refl d).step h.sameOff
    ((hwithout.mono fun y hy => .inl hy).trans (hwith.mono ?_)) ?_⟩
  · intro y hy
    cases hy
    exact .inr ⟨hok, hx.1⟩
  · rintro y (hy | ⟨-, hy⟩)
    · have hf := h.gone y hy
      have hyx := (named?_ne_stagingPath hx.1 hy).symm
      have hd : ((d.without (stagingPath p)).withFile x (codec.bytes image)).at? y = none :=
        (at?_withFile_ne hdir hyx).trans (at?_without hy)
      exact ⟨.inl hf, .inl hd, by rw [hwf.kindAt?_eq_none_iff.mpr hf, kindAt?, hd]; rfl⟩
    · cases hx.1.symm.trans hy
      exact ⟨.inr hsingle, .inr (single_withFile hwo hdir), hkind.trans hself.symm⟩

/-- A picture is delivered whole to the entry of its path or not at all, and either way
nothing is left under the staging path and nothing else is changed. -/
theorem writePicture_all_or_nothing (codec : Codec) (image : Raster) (p : Path)
    (hw : d.WellFormed) (hs : d.Free (stagingPath p)) :
    (((writePicture codec image p).run d).value = .ok () → ∃ x bytes, d.named? p = some x ∧
      codec.decode bytes = some image ∧
      ((writePicture codec image p).run d).disk.Alike
        ((d.without (stagingPath p)).withFile x bytes)) ∧
    ∀ f, ((writePicture codec image p).run d).value = .error f →
      ((writePicture codec image p).run d).disk.Alike (d.without (stagingPath p)) := by
  have heffect := effect_writePicture codec image hw hs
  have hwf := Script.wellFormed_run (writePicture codec image p) hw
  constructor
  · intro hv
    exact heffect.alike_withFile hw hwf hv
  · intro f hv
    exact heffect.alike_without hw hwf (by simp [hv])

/-- A picture with two names, a link to it, and a staging file for the link. -/
def Disk.used : Disk where
  nodes := #[
    .directory 0 ⟨[(.ofString "work", 1)], .search⟩,
    .directory 0 ⟨[(.ofString "old.png", 2), (.ofString "copy.png", 2), (.ofString "icon.png", 3),
      (.ofString ".icon.png.partial", 4)], .change⟩,
    .file [1] true,
    .link (.ofString "old.png"),
    .file [2] true]
  working := 1

theorem Disk.free_used : Disk.used.Free (stagingPath (.ofString "icon.png")) := by
  have hs : Disk.used.named? (stagingPath (.ofString "icon.png")) =
      some ⟨1, .ofString ".icon.png.partial"⟩ := by decide +kernel
  intro e he
  cases hs.symm.trans he
  have hkind : Disk.used.kind? 4 = some (.file [2] true) := by decide +kernel
  exact ⟨⟨0, by decide +kernel⟩,
    .inr (single_of_links (by decide +kernel) hkind (by decide +kernel))⟩

/-- The picture takes the place of the link, and what the link led to stays. -/
theorem writePicture_used : ∃ x bytes, Disk.used.named? (.ofString "icon.png") = some x ∧
    Png.codec.decode bytes = some (Raster.clear 1 1) ∧
    ((writePicture Png.codec (.clear 1 1) (.ofString "icon.png")).run Disk.used).disk.Alike
      ((Disk.used.without (stagingPath (.ofString "icon.png"))).withFile x bytes) :=
  (writePicture_all_or_nothing Png.codec (.clear 1 1) (.ofString "icon.png")
    (wellFormed_of_wellFormedB (by decide +kernel)) Disk.free_used).1 (by decide +kernel)

end IconPainter
