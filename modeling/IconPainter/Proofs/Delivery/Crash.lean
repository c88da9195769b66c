import IconPainter.Proofs.Delivery.Outcome

/-! # Every disk on the way

A delivery leaves what a path names and what is read from it as they were, on
every disk that it passes through, until the picture stands there. That is the
last step, and it is taken only after all of the picture was stored.
-/

namespace IconPainter

open Delivery

namespace Disk

/-- The path names the same on both disks, and the same is read from it. -/
structure Untouched (d : Disk) (p : Path) (e : Disk) : Prop where
  named?_eq : e.named? p = d.named? p
  at?_eq : ∀ x, d.named? p = some x → e.at? x = d.at? x
  kindAt?_eq : ∀ x, d.named? p = some x → e.kindAt? x = d.kindAt? x
  content?_eq : e.content? p = d.content? p

/-- The entry that the path named is a file with all of the picture. It is read from the
path, unless the way there came by this very entry. -/
def Delivered (d : Disk) (codec : Codec) (image : Raster) (p : Path) (e : Disk) : Prop :=
  ∃ x bytes, d.named? p = some x ∧ e.kindAt? x = some (.file bytes true) ∧
    codec.decode bytes = some image ∧
    (¬ d.Passes false p x → e.named? p = some x ∧ e.content? p = some bytes) ∧
    (d.Passes false p x → e.content? p = none)

/-- The staging path names nothing or a file of its own, and the path does not lead to it. -/
def Apart (d : Disk) (p : Path) : Prop :=
  ∀ s, d.named? (stagingPath p) = some s → d.Sole s ∧ d.target? p ≠ some s

variable {d e : Disk} {s t x y : Entry} {file : NodeId} {c : Bytes} {p : Path} {es : List Entry}
  {n : Nat} {codec : Codec} {image : Raster}

/-! ### Before the move -/

theorem Untouched.refl (d : Disk) (p : Path) : d.Untouched p d :=
  ⟨rfl, fun _ _ => rfl, fun _ _ => rfl, rfl⟩

theorem Untouched.trans {f : Disk} (h : d.Untouched p e) (h' : e.Untouched p f) :
    d.Untouched p f where
  named?_eq := h'.named?_eq.trans h.named?_eq
  at?_eq x hx := (h'.at?_eq x (h.named?_eq.trans hx)).trans (h.at?_eq x hx)
  kindAt?_eq x hx := (h'.kindAt?_eq x (h.named?_eq.trans hx)).trans (h.kindAt?_eq x hx)
  content?_eq := h'.content?_eq.trans h.content?_eq

theorem untouched_cleared (hw : d.WellFormed) (h : ∀ s, d.named? (stagingPath p) = some s →
    ¬ d.Passable s ∧ d.target? p ≠ some s) : d.Untouched p (d.cleared (stagingPath p)) := by
  rcases cleared_cases d p with ⟨s, hs, -, -, heq⟩ | ⟨heq, -⟩
  · obtain ⟨hpass, ht⟩ := h s hs
    rw [heq]
    exact {
      named?_eq := named?_eraseEntry hw hpass p
      at?_eq := fun _ hx => at?_eraseEntry_ne (named?_ne_stagingPath hx hs)
      kindAt?_eq := fun _ hx => kindAt?_eraseEntry_ne (named?_ne_stagingPath hx hs)
      content?_eq := content?_eraseEntry_of_not hw (fun hp => hpass hp.passable) ht }
  · rw [heq]
    exact .refl d p

theorem Written.untouched (hw : d.WellFormed) (hwr : d.Written s file c e) (h : d.Apart p)
    (hs : d.named? (stagingPath p) = some s) : d.Untouched p e where
  named?_eq := hwr.named?_eq hw p
  at?_eq _ hx := hwr.at?_ne (named?_ne_stagingPath hx hs)
  kindAt?_eq _ hx := hwr.kindAt?_ne fun hxf =>
    named?_ne_stagingPath hx hs (hwr.eq_of_at? hw (h s hs).1 hxf)
  content?_eq := hwr.content?_eq hw fun _ hx hxf =>
    (h s hs).2 (hwr.eq_of_at? hw (h s hs).1 hxf ▸ hx)

theorem Apart.named?_of_target? (hw : d.WellFormed) (h : d.Apart p)
    (ht : d.target? (stagingPath p) = some t) : d.named? (stagingPath p) = some t :=
  Disk.named?_of_target? hw (fun s hs => (h s hs).1) ht

/-- What a delivery passes through before the move is untouched. -/
theorem untouched_of_storing (hw : d.WellFormed) (h : d.Apart p)
    (hstoring : Storing d (stagingPath p) e) :
    d.Untouched p e ∧ d.Untouched p (e.cleared (stagingPath p)) := by
  rcases hstoring with rfl | ⟨t, file, c, ht, hwr⟩
  · exact ⟨.refl e p, untouched_cleared hw fun s hs => ⟨(h s hs).1.not_passable, (h s hs).2⟩⟩
  · have hs := h.named?_of_target? hw ht
    have huntouched := hwr.untouched hw h hs
    refine ⟨huntouched, huntouched.trans (untouched_cleared hwr.wellFormed ?_)⟩
    intro s' hs'
    rw [hwr.named?_eq hw] at hs'
    cases hs.symm.trans hs'
    rw [hwr.target?_eq hw]
    exact ⟨hwr.not_passable_right, (h t hs).2⟩

/-! ### The move -/

theorem Approaches.passes_iff (ha : d.Approaches p es x n) : d.Passes false p y ↔ y ∈ es :=
  (finds_false_iff.mpr ⟨rfl, n, ha⟩).passes_iff

theorem Written.passes_stagingPath_iff (hw : d.WellFormed) (hwr : d.Written s file c e)
    (hx : d.Names p x) (hs : d.Names (stagingPath p) s)
    (ht : d.target? (stagingPath p) = some s) :
    d.Passes true (stagingPath p) y ↔ d.Passes false p y := by
  obtain ⟨-, -, es, n, ha⟩ := names_iff_approaches.mp hx
  obtain ⟨es₁, n₁, has, ⟨-, -, hpass⟩ | ⟨target, es₂, n₂, ⟨⟨id, hr⟩, -⟩, -⟩⟩ :=
    target?_cases hw ht hs
  · obtain ⟨rfl, -⟩ := has.unique (ha.staging has.valid)
    rw [hpass, ha.passes_iff]
  · exact (hwr.not_passable_left (passable_iff.mpr ⟨_, _, hr, .inl rfl⟩)).elim

theorem named?_moveEntry (hw : d.WellFormed) (hx : d.named? p = some x)
    (hdir : d.HasDirectory x.directory) (hwf : (d.moveEntry s x file).WellFormed)
    (hs : ¬ d.Passable s) (hpass : ¬ d.Passes false p x) :
    (d.moveEntry s x file).named? p = some x := by
  obtain ⟨hn, es, n, ha⟩ := named?_iff_approaches.mp hx
  refine named?_iff_approaches.mpr ⟨hn, es, n, (agreeOff_moveEntry hdir hw hwf).approaches ha ?_⟩
  rintro y hy (rfl | rfl)
  · exact hs (ha.passable hy)
  · exact hpass (ha.passes_iff.mpr hy)

theorem Written.delivered (hw : d.WellFormed) (hwr : d.Written x.staging file c e)
    (hx : d.Names p x) (hs : d.Names (stagingPath p) x.staging)
    (ht : d.target? (stagingPath p) = some x.staging) (hdir : e.HasDirectory x.directory)
    (hwf : (e.moveEntry x.staging x file).WellFormed) (hdecode : codec.decode c = some image) :
    d.Delivered codec image p (e.moveEntry x.staging x file) := by
  have hiff := hwr.passes_stagingPath_iff (y := x) hw hx hs ht
  refine ⟨x, c, hx.1, ?_, hdecode, fun hpass => ⟨?_, ?_⟩, ?_⟩
  · rw [kindAt?_of_at? (at?_moveEntry_self hdir), kind?_moveEntry, hwr.kind?_self]
  · refine named?_moveEntry hwr.wellFormed ?_ hdir hwf hwr.not_passable_right ?_
    · rw [hwr.named?_eq hw, hx.1]
    · rwa [hwr.passes_iff hw]
  · exact content?_moveEntry hw hwr ht hx hs hwr.at?_self hdir hwf (fun h => hpass (hiff.mp h))
      x.staging_ne
  · intro hpass
    exact content?_moveEntry_eq_none hw hwr ht hx hs hwr.at?_self hdir hwf (.inl (hiff.mpr hpass))

/-- A picture that is moved from a staging file of its own is delivered. -/
theorem Written.delivered_of_renames (hw : d.WellFormed) (hwr : d.Written s file c e)
    (h : d.Apart p) (hs : d.named? (stagingPath p) = some s)
    (ht : d.target? (stagingPath p) = some s) (hdecode : codec.decode c = some image) {f : Disk}
    (hr : e.Renames (stagingPath p) p f) : d.Delivered codec image p f := by
  have hwf := hr.wellFormed hwr.wellFormed
  obtain ⟨x, hx, rfl, -, hdir, rfl⟩ := hwr.eq_moveEntry hw (h s hs).1 hs hr
  exact hwr.delivered hw hx (names_stagingPath_iff.mpr hs) ht hdir hwf hdecode

end Disk

/-! ### The whole run -/

open Disk

variable {codec : Codec} {image : Raster} {d : Disk} {s : Path}

/-- A picture is stored under a path: a file is opened there, the picture is encoded into it, and
the file is synced. These are the disks on the way. -/
def StoredBy (codec : Codec) (image : Raster) (d : Disk) (s : Path) (states : List Disk) : Prop :=
  ∃ file opened synced, d.create s = .ok (file, opened) ∧
    ((encode codec image s file).run opened).value = .ok () ∧
    ((encode codec image s file).run opened).disk.sync file = .ok synced ∧
    states = d :: ((encode codec image s file).run opened).states ++ [synced]

theorem storedBy_of_store (h : ((store codec image s).run d).value = .ok ()) :
    StoredBy codec image d s ((store codec image s).run d).states := by
  cases hc : d.create s with
  | error cause =>
    simp only [store, Script.run, Disk.answer, hc] at h
    contradiction
  | ok opened =>
    obtain ⟨file, opened⟩ := opened
    simp only [store, fill, Script.run, Disk.answer, hc, Script.value_run_bind,
      Script.states_run_bind] at h ⊢
    cases hv : ((encode codec image s file).run opened).value with
    | error f =>
      simp only [hv, Script.run] at h
      contradiction
    | ok u =>
      cases hsync : ((encode codec image s file).run opened).disk.sync file with
      | error cause =>
        simp only [hv, Script.run, Disk.answer, hsync, Disk.settle] at h
        contradiction
      | ok synced =>
        refine ⟨file, opened, synced, hc, hv, hsync, ?_⟩
        simp only [Script.run, Disk.answer, hsync, Disk.settle]
        rw [Script.dropLast_states_run, List.cons_append]

/-- Whenever a delivery is interrupted, its path is untouched or the picture is delivered, and
that only as the last step of a success, after all of the picture was stored. -/
theorem writePicture_interrupted (codec : Codec) (image : Raster) (p : Path) (hw : d.WellFormed)
    (h : d.Apart p) :
    ∃ before after, ((writePicture codec image p).run d).states = before ++ after ∧
      (∀ e ∈ before, d.Untouched p e) ∧ (∀ e ∈ after, d.Delivered codec image p e) ∧
      (after ≠ [] → StoredBy codec image d (stagingPath p) before) ∧
      (after ≠ [] ↔ ((writePicture codec image p).run d).value = .ok ()) := by
  rcases states_writePicture codec image p hw with
    ⟨⟨f, hv⟩, hstates⟩ | ⟨hv, hstore, e, d', hstored, hrename, heq⟩
  · refine ⟨_, [], (List.append_nil _).symm, ?_, by simp, by simp, by simp [hv]⟩
    intro e he
    obtain ⟨e', hstoring, rfl | rfl⟩ := hstates e he
    · exact (untouched_of_storing hw h hstoring).1
    · exact (untouched_of_storing hw h hstoring).2
  · refine ⟨_, [d'], heq, ?_, ?_, fun _ => storedBy_of_store hstore,
      by simp [hv]⟩
    · intro e' he
      exact (untouched_of_storing hw h ((run_store codec image _ hw).2 e' he)).1
    · intro e' he
      cases List.mem_singleton.mp he
      cases hstored with
      | stored ht hwr hencode =>
        exact hwr.delivered_of_renames hw h (h.named?_of_target? hw ht) ht
          hencode.decode_bytes hrename

theorem Disk.apart_used : Disk.used.Apart (.ofString "icon.png") := fun s hs =>
  ⟨(free_used s hs).2, fun ht => by
    have htarget : Disk.used.target? (.ofString "icon.png") = some ⟨1, .ofString "old.png"⟩ := by
      decide +kernel
    cases htarget.symm.trans ht
    revert hs
    decide +kernel⟩

/-- The link is there until the picture is, after the staging file was stored. -/
theorem writePicture_interrupted_used : ∃ before after,
    ((writePicture Png.codec (.clear 1 1) (.ofString "icon.png")).run Disk.used).states =
      before ++ after ∧
    (∀ e ∈ before, Disk.used.Untouched (.ofString "icon.png") e) ∧
    (∀ e ∈ after, Disk.used.Delivered Png.codec (.clear 1 1) (.ofString "icon.png") e) ∧
    StoredBy Png.codec (.clear 1 1) Disk.used (stagingPath (.ofString "icon.png")) before ∧
    after ≠ [] := by
  obtain ⟨before, after, heq, hbefore, hafter, hstored, hiff⟩ :=
    writePicture_interrupted Png.codec (.clear 1 1) (.ofString "icon.png")
      (wellFormed_of_wellFormedB (by decide +kernel)) Disk.apart_used
  have hne := hiff.mpr (by decide +kernel)
  exact ⟨before, after, heq, hbefore, hafter, hstored hne, hne⟩

/-- A link to its own directory, through which it is named. -/
def Disk.turned : Disk where
  nodes := #[
    .directory 0 ⟨[(.ofString "work", 1)], .search⟩,
    .directory 0 ⟨[(.ofString "x", 2)], .change⟩,
    .link (.ofString ".")]
  working := 1

/-- The picture takes the place of the link, and then no path leads through it. -/
theorem interrupted_turned : Disk.turned.WellFormed ∧ Disk.turned.Apart (.ofString "x/x") ∧
    ((writePicture Png.codec (.clear 1 1) (.ofString "x/x")).run Disk.turned).value = .ok () ∧
    ∃ e ∈ ((writePicture Png.codec (.clear 1 1) (.ofString "x/x")).run Disk.turned).states,
      ¬ Disk.turned.Untouched (.ofString "x/x") e ∧
      ¬ ∃ bytes, e.content? (.ofString "x/x") = some bytes ∧
        Png.codec.decode bytes = some (.clear 1 1) := by
  refine ⟨wellFormed_of_wellFormedB (by decide +kernel), ?_, by decide +kernel,
    _, Script.disk_mem_states_run _ _, ?_, ?_⟩
  · intro s hs
    have hstaging : Disk.turned.named? (stagingPath (.ofString "x/x")) =
        some ⟨1, .ofString ".x.partial"⟩ := by decide +kernel
    cases hstaging.symm.trans hs
    exact ⟨.inl (by decide +kernel), by decide +kernel⟩
  · intro h
    have hentry := h.named?_eq
    revert hentry
    decide +kernel
  · have hnone :
        ((writePicture Png.codec (.clear 1 1) (.ofString "x/x")).run Disk.turned).disk.content?
          (.ofString "x/x") = none := by decide +kernel
    rintro ⟨bytes, hc, -⟩
    cases hnone.symm.trans hc

end IconPainter
