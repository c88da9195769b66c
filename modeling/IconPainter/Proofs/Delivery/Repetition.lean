import IconPainter.Proofs.Delivery.Crash
import IconPainter.Proofs.Delivery.Preparation
import IconPainter.Proofs.Delivery.Success

/-! # Delivering a picture again

A picture that was delivered by a staging file of its own can be delivered again,
and nobody can tell how often that was done. The one exception is a path that
comes by the entry that it names: the picture takes the place of a link that was
needed on the way, so the directory of the path is found no more.
-/

namespace IconPainter

open IconPainter.Path Delivery Disk

/-- The way to the entry that the path names comes by that entry. -/
def Disk.Circles (d : Disk) (p : Path) : Prop :=
  ∃ x, d.named? p = some x ∧ d.Passes false p x

variable {codec : Codec} {image : Raster} {d f g : Disk} {p q : Path} {s x y : Entry}
  {ok : Prop} {n : Nat}
  {es : List Entry} {name : Bytes}

theorem Disk.named?_stagingPath_of_named? (hx : d.named? p = some x)
    (hs : d.named? (stagingPath p) = some s) (hx' : f.named? p = some x) :
    f.named? (stagingPath p) = some s := by
  obtain ⟨hsn, es, n, ha⟩ := named?_iff_approaches.mp hs
  obtain ⟨-, es', n', ha'⟩ := named?_iff_approaches.mp hx'
  rw [named?_stagingPath hx hs] at hsn ⊢
  exact named?_iff_approaches.mpr ⟨hsn, es', n', ha'.staging ha.valid⟩

namespace Effect

/-! ### Ways after a delivery -/

theorem not_passable (h : Effect codec image p d ok f) (hy : y ∈ Changed p d ok) :
    ¬ f.Passable y := by
  rcases hy with hs | ⟨hok, hx⟩
  · exact Disk.not_passable rfl (by simp [kindAt?, h.gone y hs])
  · obtain ⟨x, hx', -, -, -, hkind⟩ := h.delivered hok
    cases hx.symm.trans hx'.1
    exact Disk.not_passable hkind (by simp [Kind.isDirectory, Kind.target?])

theorem walks (h : Effect codec image p d ok f) (hw : d.WellFormed) (hwf : f.WellFormed)
    {dir dest : NodeId} {steps : List Step} (hwalk : f.Walks dir steps es dest n)
    (hd : f.HasDirectory dest) : d.Walks dir steps es dest n :=
  (h.sameOff.agreeOff hw hwf).symm.walks hwalk fun _ hy hyX =>
    h.not_passable hyX (hwalk.passable hd hy)

theorem named?_eq_some_of_after (h : Effect codec image p d ok f) (hw : d.WellFormed)
    (hwf : f.WellFormed) (hy : f.named? q = some y) : d.named? q = some y := by
  obtain ⟨hn, es, n, ha⟩ := named?_iff_approaches.mp hy
  exact named?_iff_approaches.mpr ⟨hn, es, n, (h.sameOff.agreeOff hw hwf).symm.approaches ha
    fun _ hz hzX => h.not_passable hzX (ha.passable hz)⟩

theorem named?_eq_some (h : Effect codec image p d ok f) (hw : d.WellFormed) (hwf : f.WellFormed)
    (hs : d.Free (stagingPath p)) (hx : d.named? p = some x) (hc : ¬ d.Circles p) :
    f.named? p = some x := by
  obtain ⟨hn, es, n, ha⟩ := named?_iff_approaches.mp hx
  refine named?_iff_approaches.mpr ⟨hn, es, n, (h.sameOff.agreeOff hw hwf).approaches ha ?_⟩
  rintro y hy (hys | ⟨-, hyx⟩)
  · exact (hs y hys).2.not_passable (ha.passable hy)
  · cases hx.symm.trans hyx
    exact hc ⟨x, hx, ha.passes_iff.mpr hy⟩

/-! ### Directories after a delivery -/

theorem not_makes (h : Effect codec image p d ok f) (hw : d.WellFormed) (hwf : f.WellFormed)
    (hs : d.Free (stagingPath p)) (hd : d.HasDirectoryAt q) : ¬ f.Makes q g := by
  rintro @⟨y, hy, hnone, -⟩
  obtain ⟨k, hk, hpass⟩ := hd.passable (h.named?_eq_some_of_after hw hwf hy)
  have hnone : f.kindAt? y = none := by simp [kindAt?, hnone]
  by_cases hX : y ∈ Changed p d ok
  · rcases hX with hys | ⟨hok, hyx⟩
    · exact (hs y hys).2.not_passable ⟨k, hk, hpass⟩
    · obtain ⟨x, hx, -, -, -, hkind⟩ := h.delivered hok
      cases hyx.symm.trans hx.1
      cases hnone.symm.trans hkind
  · cases hk.symm.trans ((h.sameOff.kindAt?_eq y hX).trans hnone)

/-- A directory is lost if the way to it came by the entry that the picture is delivered to. -/
theorem not_hasDirectoryAt (h : Effect codec image (q.join ⟨name⟩) d ok f) (hw : d.WellFormed)
    (hwf : f.WellFormed) (hok : ok) (hn : IsName name) (hc : d.Circles (q.join ⟨name⟩)) :
    ¬ f.HasDirectoryAt q := by
  rintro ⟨id, hid, hd⟩
  obtain ⟨x, hx, hpass⟩ := hc
  obtain ⟨-, es, n, -, hwalk⟩ := resolve_eq_ok_iff.mp hid
  have hwalk' := h.walks hw hwf hwalk hd
  rw [← h.sameOff.directories.working, fullSteps_eq] at hwalk'
  obtain ⟨-, es', n', ha⟩ := named?_iff_approaches.mp hx
  have hmem : x ∈ es' := ha.passes_iff.mp hpass
  obtain ⟨-, -, -, init, hsteps, hinit⟩ := ha
  obtain ⟨rfl, -⟩ := List.append_inj' (hsteps.symm.trans (steps_join hn)) rfl
  rw [start, isAbsolute_join hn, ← start] at hinit
  obtain ⟨es₂, n₂, -, rfl, -⟩ := hwalk'.rest hinit
  exact h.not_passable (.inr ⟨hok, hx⟩) (hwalk.passable hd (List.mem_append_left _ hmem))

/-! ### The next delivery -/

theorem free_again (h : Effect codec image p d ok f) (hs : d.Free (stagingPath p))
    (hns : d.named? (stagingPath p) = some s) (hfs : f.named? (stagingPath p) = some s) :
    f.Free (stagingPath p) := by
  intro s' hs'
  cases hfs.symm.trans hs'
  obtain ⟨parent, hparent⟩ := (hs s hns).1
  exact ⟨⟨parent, h.sameOff.directories.kind?_iff.mp hparent⟩, .inl (h.gone s hns)⟩

theorem content?_eq {c : Bytes} (h : Effect codec image p d ok f) (hwf : f.WellFormed) (hok : ok)
    (hx : d.Names p x) (hfx : f.named? p = some x)
    (hkind : f.kindAt? x = some (.file c true)) : f.content? p = some c := by
  have hlink (id target) : f.reach? x ≠ some (id, some target) := fun hr =>
    h.not_passable (.inr ⟨hok, hx.1⟩) (passable_iff.mpr ⟨_, _, hr, .inl rfl⟩)
  rw [content?_of_named? hwf hfx hlink, hx.2, contentAt?, hkind]
  rfl

end Effect

/-! ### Twice the same picture -/

/-- A picture that was delivered can be read from its path, and the same delivery succeeds
again and leaves all as it is. -/
theorem deliver_again (hw : d.WellFormed) (hs : d.Free (stagingPath p)) (hc : ¬ d.Circles p)
    (hv : ((writePicture codec image p).run d).value = .ok ()) :
    let f := ((writePicture codec image p).run d).disk
    (∃ x bytes, f.named? p = some x ∧ f.kindAt? x = some (.file bytes true) ∧
      f.content? p = some bytes ∧ codec.decode bytes = some image) ∧
    f.Free (stagingPath p) ∧ ((writePicture codec image p).run f).value = .ok () ∧
      f.Alike ((writePicture codec image p).run f).disk := by
  intro f
  have heffect : Effect codec image p d True f := by
    simpa only [hv] using effect_writePicture codec image hw hs
  have hwf : f.WellFormed := Script.wellFormed_run _ hw
  obtain ⟨x, hx, -, hencode, hsingle, hkind⟩ := heffect.delivered trivial
  obtain ⟨-, y, s, hy, hns, -⟩ := (value_writePicture_eq_ok_iff codec image hw hs).mp hv
  cases hy.1.symm.trans hx.1
  have hfx := heffect.named?_eq_some hw hwf hs hx.1 hc
  have hfs := named?_stagingPath_of_named? hx.1 hns hfx
  have hfree : f.Free (stagingPath p) := heffect.free_again hs hns hfs
  have hnone : f.kindAt? s = none := by simp [kindAt?, heffect.gone s hns]
  have hready : f.Ready p := ⟨x, s, ⟨hfx, hx.2⟩, hfs, .inl hnone, .inr ⟨_, hkind, rfl⟩⟩
  have hv' := (value_writePicture_eq_ok_iff codec image hwf hfree).mpr ⟨hencode, hready⟩
  have heffect' : Effect codec image p f True ((writePicture codec image p).run f).disk := by
    simpa only [hv'] using effect_writePicture codec image hwf hfree
  refine ⟨⟨x, _, hfx, hkind, ?_, hencode.decode_bytes⟩, hfree, hv', ?_⟩
  · exact heffect.content?_eq hwf trivial hx hfx hkind
  · refine (Alike.refl f).step (.refl _ f) heffect'.sameOff ?_
    have hsame := heffect.agree heffect' hwf (Script.wellFormed_run _ hwf)
      (hx.1.trans hfx.symm) (hns.trans hfs.symm)
    simpa only [Changed, hx.1, hns, hfx, hfs] using hsame

end IconPainter
