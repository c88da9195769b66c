import IconPainter.Proofs.Delivery.Effect

/-! # When a delivery succeeds

Where the staging path names no link and its entry may be changed, whether a
delivery succeeds depends on the picture and on what stands at the two entries.
-/

namespace IconPainter

open Delivery

namespace Disk

variable {d e f : Disk} {s t x : Entry} {file : NodeId} {c : Bytes} {p q : Path} {X : Set Entry}

/-- A file can be opened under the staging path, and what the path names may be replaced. -/
def Ready (d : Disk) (p : Path) : Prop :=
  ∃ x s, d.Names p x ∧ d.named? (stagingPath p) = some s ∧
    (d.kindAt? s = none ∨ ∃ c, d.kindAt? s = some (.file c true)) ∧
    (d.kindAt? x = none ∨ d.HasLeaf x)

/-- The entry that the staging path names may be changed, and no link stands there. -/
def Plain (d : Disk) (p : Path) : Prop :=
  ∀ s, d.named? (stagingPath p) = some s →
    d.MayChange s.directory ∧ ∀ id target, d.reach? s ≠ some (id, some target)

theorem Free.plain (h : d.Free (stagingPath p)) : d.Plain p :=
  fun s hs => ⟨(h s hs).1, fun _ _ => (h s hs).2.not_link⟩

theorem Plain.named?_of_target? (hw : d.WellFormed) (h : d.Plain p)
    (ht : d.target? (stagingPath p) = some t) : d.named? (stagingPath p) = some t := by
  obtain ⟨s, hs⟩ := exists_names_of_target? hw ht
  obtain ⟨es, n, -, ⟨rfl, -⟩ | ⟨target, es', n', ⟨⟨id, hr⟩, -⟩, -⟩⟩ := target?_cases hw ht hs
  · exact hs.1
  · exact ((h s hs.1).2 id target hr).elim

theorem Ready.opensFile (hw : d.WellFormed) (h : d.Plain p)
    (hs : d.named? (stagingPath p) = some s)
    (hopens : d.kindAt? s = none ∨ ∃ c, d.kindAt? s = some (.file c true)) :
    d.OpensFile (stagingPath p) s := by
  obtain ⟨hchange, hlink⟩ := h s hs
  refine ⟨target?_of_names hw (names_stagingPath_iff.mpr hs) hlink, ?_⟩
  rcases hopens with hnone | hfile
  · exact .inl ⟨hw.kindAt?_eq_none_iff.mp hnone, hchange⟩
  · exact .inr hfile

theorem Written.ready (hw : d.WellFormed) (h : d.Written s file c e)
    (hs : d.named? (stagingPath p) = some s) (hr : e.Renames (stagingPath p) p f) :
    d.Ready p := by
  have hopens : d.kindAt? s = none ∨ ∃ c, d.kindAt? s = some (.file c true) := by
    rcases h.was with ⟨hnone, -⟩ | ⟨hat, c, hk⟩
    · exact .inl (hw.kindAt?_eq_none_iff.mpr hnone)
    · exact .inr ⟨c, kindAt?_eq_some_iff.mpr ⟨file, hat, hk⟩⟩
  have hbefore {x : Entry} (hx : d.named? p = some x) (hleaf : e.HasLeaf x) : d.HasLeaf x :=
    (h.hasLeaf_cases hw hleaf).resolve_right fun hxs => named?_ne_stagingPath hx hs hxs.1
  cases hr with
  | @same s' x hold hnew hleaf hsame =>
    have hx := (h.names_iff hw).mp hnew
    obtain ⟨k, hk, hd⟩ := hleaf
    exact ⟨x, s, hx, hs, hopens,
      .inr (hbefore hx.1 ⟨k, by rw [kindAt?, hsame, ← kindAt?, hk], hd⟩)⟩
  | @moved s' x id hold hnew _ _ _ htarget =>
    have hx := (h.names_iff hw).mp hnew
    refine ⟨x, s, hx, hs, hopens, ?_⟩
    rcases htarget with hnone | hleaf
    · refine .inl (hw.kindAt?_eq_none_iff.mpr ?_)
      rw [← h.at?_ne (named?_ne_stagingPath hx.1 hs), hnone]
    · exact .inr (hbefore hx.1 hleaf)

theorem Written.exists_renames_of_ready (hw : d.WellFormed) (h : d.Written s file c e)
    (hchange : d.MayChange s.directory) (hs : d.named? (stagingPath p) = some s)
    (hx : d.Names p x) (hready : d.kindAt? x = none ∨ d.HasLeaf x) :
    ∃ f, e.Renames (stagingPath p) p f := by
  have hxs := named?_ne_stagingPath hx.1 hs
  have hdir : s.directory = x.directory := by rw [named?_stagingPath hx.1 hs, Entry.staging]
  have hm := h.mayChange_iff.mpr hchange
  have hold := (h.names_iff hw).mpr (names_stagingPath_iff.mpr hs)
  have hnew := (h.names_iff hw).mpr hx
  have hleaf : e.HasLeaf s := ⟨_, h.kindAt?_self h.at?_self, rfl⟩
  by_cases hxf : e.at? x = some file
  · exact ⟨_, .same hold hnew hleaf (hxf.trans h.at?_self.symm)⟩
  · refine ⟨_, .moved hold hnew hleaf h.at?_self hxf ?_ hm (hdir ▸ hm)⟩
    rcases hready with hnone | hleaf
    · exact .inl ((h.at?_ne hxs).trans (hw.kindAt?_eq_none_iff.mp hnone))
    · exact .inr (h.hasLeaf hleaf)

/-! ### Equal entries -/

theorem SameOff.agreeOff (hw : d.WellFormed) (hwf : f.WellFormed) (h : SameOff X d f) :
    AgreeOff X d f where
  left := hw
  right := hwf
  directories := h.directories
  reach?_eq {y} hy := by
    have hk := h.kindAt?_eq y hy
    unfold kindAt? at hk
    unfold reach?
    rw [h.at?_eq y hy] at hk ⊢
    cases hat : f.at? y with
    | none => rfl
    | some id =>
      rw [hat, Option.bind_some, Option.bind_some] at hk
      rw [Option.bind_some, Option.bind_some, hk]

theorem SameOff.named?_eq (hw : d.WellFormed) (hwf : f.WellFormed) (h : SameOff X d f)
    (hX : ∀ y ∈ X, d.Sole y ∧ f.Sole y) (q : Path) : f.named? q = d.named? q := by
  have hagree := h.agreeOff hw hwf
  ext y
  rw [named?_iff_approaches, named?_iff_approaches]
  constructor
  · rintro ⟨hn, es, n, ha⟩
    exact ⟨hn, es, n, hagree.symm.approaches ha fun z hz hzX =>
      (hX z hzX).2.not_passable (ha.passable hz)⟩
  · rintro ⟨hn, es, n, ha⟩
    exact ⟨hn, es, n, hagree.approaches ha fun z hz hzX =>
      (hX z hzX).1.not_passable (ha.passable hz)⟩

theorem HasLeaf.congr (hx : HasLeaf d x) (hk : d.kindAt? x = f.kindAt? x) : f.HasLeaf x := by
  obtain ⟨k, hkx, hd⟩ := hx
  exact ⟨k, hk ▸ hkx, hd⟩

theorem Ready.congr (h : d.Ready p) (hp : d.named? p = f.named? p)
    (hs : d.named? (stagingPath p) = f.named? (stagingPath p))
    (hk : ∀ e, d.named? p = some e ∨ d.named? (stagingPath p) = some e →
      d.kindAt? e = f.kindAt? e) : f.Ready p := by
  obtain ⟨x, s, hx, hs', hopens, hleaf⟩ := h
  refine ⟨x, s, ⟨hp ▸ hx.1, hx.2⟩, hs ▸ hs', ?_, ?_⟩
  · rwa [← hk s (.inr hs')]
  · rw [← hk x (.inl hx.1)]
    exact hleaf.imp_right fun h => h.congr (hk x (.inl hx.1))

end Disk

open Disk

variable {codec : Codec} {image : Raster} {d : Disk} {p : Path}

/-- Where the staging path is plain, a delivery succeeds exactly if the picture can be encoded
and the path is ready. -/
theorem value_eq_ok_iff_of_plain (codec : Codec) (image : Raster) (hw : d.WellFormed)
    (h : d.Plain p) :
    ((writePicture codec image p).run d).value = .ok () ↔
      codec.Encodes image ∧ d.Ready p := by
  constructor
  · intro hv
    have hcourse := run_writePicture codec image p hw
    rw [hv] at hcourse
    generalize ((writePicture codec image p).run d).disk = f at hcourse
    cases hcourse with
    | moved hstored hrename =>
      cases hstored with
      | stored ht hwr hencode =>
        exact ⟨hencode, hwr.ready hw (h.named?_of_target? hw ht) hrename⟩
  · rintro ⟨hencode, x, s, hx, hs, hopens, hleaf⟩
    have hopens := Ready.opensFile hw h hs hopens
    obtain ⟨file, e, hwr, ⟨f, -, -, hno⟩ | ⟨hv, -⟩⟩ := run_encodable (p := p) hw hencode hopens
    · obtain ⟨d', hr⟩ := hwr.exists_renames_of_ready hw (h s hs).1 hs hx hleaf
      exact (hno d' hr).elim
    · exact hv

theorem value_writePicture_eq_ok_iff (codec : Codec) (image : Raster) (hw : d.WellFormed)
    (hfree : d.Free (stagingPath p)) : ((writePicture codec image p).run d).value = .ok () ↔
      codec.Encodes image ∧ d.Ready p :=
  value_eq_ok_iff_of_plain codec image hw hfree.plain

theorem free_of_value_eq_ok (hw : d.WellFormed)
    (hsole : ∀ s, d.named? (stagingPath p) = some s → d.Sole s)
    (hv : ((writePicture codec image p).run d).value = .ok ()) : d.Free (stagingPath p) := by
  have hcourse := run_writePicture codec image p hw
  rw [hv] at hcourse
  generalize ((writePicture codec image p).run d).disk = f at hcourse
  cases hcourse with
  | moved hstored hrename =>
    cases hstored with
    | stored ht hwr =>
      have hs := named?_of_target? hw hsole ht
      intro s' hs'
      cases hs.symm.trans hs'
      refine ⟨?_, hsole _ hs⟩
      cases hrename with
      | same hold hnew _ hsame =>
        cases hs.symm.trans ((hwr.names_iff hw).mp hold).1
        have hx := ((hwr.names_iff hw).mp hnew).1
        have heq := hwr.eq_of_at? hw (hsole _ hs) (hsame.trans hwr.at?_self)
        exact (named?_ne_stagingPath hx hs heq).elim
      | moved hold _ _ _ _ _ hchange =>
        cases hs.symm.trans ((hwr.names_iff hw).mp hold).1
        exact hwr.mayChange_iff.mp hchange

end IconPainter
