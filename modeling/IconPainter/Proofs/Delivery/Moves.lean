import IconPainter.Proofs.Delivery.Neighbours

/-! # Moved names

After a staging file was moved, its path leads to what the staging path led to,
if the entry that was replaced is not needed to get there. If it is, the
path leads to nothing that could be read.
-/

namespace IconPainter

open Delivery

namespace Disk

variable {d e f : Disk} {s t x y : Entry} {file id dir dest : NodeId} {c bytes : Bytes}
  {p q : Path} {es : List Entry} {place : Place} {final slash : Bool} {n : Nat} {X : Set Entry}
  {target : Path}

theorem AgreeOff.refl (hw : d.WellFormed) : AgreeOff ∅ d d :=
  ⟨hw, hw, .refl d, fun _ => rfl⟩

theorem AgreeOff.approaches (h : AgreeOff X d e) (ha : d.Approaches p es x n)
    (hes : ∀ y ∈ es, y ∉ X) : e.Approaches p es x n := by
  obtain ⟨hv, hn, hsearch, init, hs, hw⟩ := ha
  exact ⟨hv, hn, h.searchable_iff.mp hsearch, init, hs, h.directories.working ▸ h.walks hw hes⟩

theorem Approaches.passable (ha : d.Approaches p es x n) (hy : y ∈ es) : d.Passable y := by
  obtain ⟨-, -, hsearch, init, -, hw⟩ := ha
  exact hw.passable hsearch.hasDirectory hy

namespace Written

theorem not_passable_left (h : d.Written t file c e) : ¬ d.Passable t :=
  Disk.not_passable rfl h.kindAt?_was

theorem not_passable_right (h : d.Written t file c e) : ¬ e.Passable t :=
  Disk.not_passable (h.kindAt?_self h.at?_self) (by simp [Kind.isDirectory, Kind.target?])

theorem approaches (hw : d.WellFormed) (h : d.Written t file c e) (ha : d.Approaches p es x n) :
    e.Approaches p es x n := by
  apply (h.agreeOff hw).approaches ha
  rintro y hy rfl
  exact h.not_passable_left (ha.passable hy)

theorem reach?_self (h : d.Written t file c e) : e.reach? t = some (file, none) :=
  reach?_eq_some_iff.mpr ⟨h.at?_self, _, h.kind?_self, rfl⟩

theorem reach?_link (hw : d.WellFormed) (h : d.Written t file c e)
    (hr : d.reach? x = some (id, some target)) : e.reach? x = some (id, some target) := by
  rw [← (h.agreeOff hw).reach?_eq, hr]
  rintro rfl
  exact h.not_passable_left (passable_iff.mpr ⟨_, _, hr, .inl rfl⟩)

theorem leads (hw : d.WellFormed) (h : d.Written t file c e) {steps : List Step}
    (hl : d.Leads final dir steps slash es place n) : e.Leads final dir steps slash es place n := by
  refine (h.agreeOff hw).leads hl ?_ ?_
  · rintro y hy rfl
    exact h.not_passable_left (hl.passable hy)
  · rintro y - rfl - id' target' hr'
    cases h.reach?_self.symm.trans hr'

theorem not_hasDirectory_at (h : d.Written t file c e) (hat : d.at? t = some id) :
    ¬ d.HasDirectory id := by
  rcases h.was with ⟨hnone, -⟩ | ⟨hsome, c₀, hk⟩
  · rw [hnone] at hat
    contradiction
  · cases hsome.symm.trans hat
    exact not_hasDirectory_of_kind? hk rfl

end Written

theorem content?_of_sibling (hw : d.WellFormed) (hwr : d.Written t file c e)
    (ht : d.target? (stagingPath p) = some t) (hx : d.Names p x)
    (hs : d.Names (stagingPath p) x.staging) (h : AgreeOff X e f)
    (hat : f.at? x = e.at? x.staging) (hkind : f.kind? = e.kind?)
    (hX : ∀ y ∈ X, y = x.staging ∨ ¬ d.Passes true (stagingPath p) y)
    (htX : x.staging ≠ t → t ∉ X) : f.content? p = some c := by
  obtain ⟨hslash, hxn, es, n, ha⟩ := names_iff_approaches.mp hx
  obtain ⟨-, hsn, -⟩ := names_iff_approaches.mp hs
  obtain ⟨es₁, n₁, has, hcases⟩ := target?_cases hw ht hs
  obtain ⟨rfl, -, rfl⟩ := has.unique (ha.staging has.valid)
  have hsn := has.not_mem hw hsn ht fun id => hwr.not_hasDirectory_at
  have hfa : f.Approaches p es₁ x n₁ := by
    apply h.approaches (hwr.approaches hw ha)
    intro y hy hyX
    rcases hX y hyX with rfl | hy'
    · exact hsn hy
    · exact hy' (has.passes_of_target? hw ht hs hy)
  have hkf : f.kind? file = some (.file c true) := by rw [hkind, hwr.kind?_self]
  rcases hcases with ⟨hst, -⟩ | ⟨target, es₂, n₂, ⟨⟨id, hr⟩, hl⟩, hle, hpass⟩
  · have hfx : f.at? x = some file := by rw [hat, hst, hwr.at?_self]
    have hft : f.target? p = some x := by
      apply target?_of_names h.right (names_iff_approaches.mpr ⟨hslash, hxn, _, _, hfa⟩)
      intro id target hr
      cases hr.symm.trans (reach?_eq_some_iff.mpr ⟨hfx, _, hkf, rfl⟩)
    exact content?_of_at? h.right hft hfx hkf
  · have hst : x.staging ≠ t := by
      rintro rfl
      exact hwr.not_passable_left (passable_iff.mpr ⟨_, _, hr, .inl rfl⟩)
    have hrf : f.reach? x = some (id, some target) := by
      rw [reach?, hat, hkind]
      exact hwr.reach?_link hw hr
    have hlf := h.leads (hwr.leads hw hl)
      (fun y hy hyX => by
        rcases hX y hyX with rfl | hy'
        · exact hl.not_mem_of_link hr hy
        · exact hy' ((hpass y).mpr (.inr (.inr hy))))
      (fun y hy hyX => by
        cases hy
        exact (htX hst hyX).elim)
    have hft : f.target? p = some t :=
      target?_eq_some_iff.mpr ⟨(target?_eq_some_iff.mp ht).1, _, (finds_true_iff h.right).mpr
        ⟨hslash, x, es₁, n₁, hfa, .inr ⟨target, es₂, n₂, ⟨⟨id, hrf⟩, hlf⟩, hxn, rfl, hle⟩⟩⟩
    have hrt : f.reach? t = some (file, none) := by
      rw [← h.reach?_eq (htX hst), hwr.reach?_self]
    exact content?_of_at? h.right hft (reach?_eq_some_iff.mp hrt).1 hkf

/-! ### Moves -/

section Moved

variable (hx : d.HasDirectory x.directory)
include hx

theorem at?_moveEntry_self : (d.moveEntry s x id).at? x = some id := by
  rw [at?_moveEntry hx, Function.update_self]

theorem at?_moveEntry_old (hsx : s ≠ x) : (d.moveEntry s x id).at? s = none := by
  rw [at?_moveEntry hx, Function.update_of_ne hsx, Function.update_self]

theorem at?_moveEntry_ne (hys : y ≠ s) (hyx : y ≠ x) : (d.moveEntry s x id).at? y = d.at? y := by
  rw [at?_moveEntry hx, Function.update_of_ne hyx, Function.update_of_ne hys]

theorem agreeOff_moveEntry (hw : d.WellFormed) (hw' : (d.moveEntry s x id).WellFormed) :
    AgreeOff {s, x} d (d.moveEntry s x id) where
  left := hw
  right := hw'
  directories := ⟨(working_moveEntry d s x id).symm, by simp [kind?_moveEntry]⟩
  reach?_eq {y} hy := by
    obtain ⟨hys, hyx⟩ : y ≠ s ∧ y ≠ x := by simpa using hy
    simp only [reach?, at?_moveEntry_ne hx hys hyx, kind?_moveEntry]

end Moved

/-- The moved picture is read where its entry was not needed on the way. -/
theorem content?_moveEntry (hw : d.WellFormed) (hwr : d.Written t file c e)
    (ht : d.target? (stagingPath p) = some t) (hx : d.Names p x)
    (hs : d.Names (stagingPath p) x.staging) (hid : e.at? x.staging = some id)
    (hdir : e.HasDirectory x.directory) (hwf : (e.moveEntry x.staging x id).WellFormed)
    (hpass : ¬ d.Passes true (stagingPath p) x) (htx : t ≠ x) :
    (e.moveEntry x.staging x id).content? p = some c := by
  refine content?_of_sibling hw hwr ht hx hs (agreeOff_moveEntry hdir hwr.wellFormed hwf)
    (by rw [at?_moveEntry_self hdir, hid]) (kind?_moveEntry e _ _ _) ?_ ?_
  · rintro y (rfl | rfl)
    · exact .inl rfl
    · exact .inr hpass
  · rintro hst (rfl | rfl)
    · exact hst rfl
    · exact htx rfl

/-- On a disk where the entry `x` names what the staging entry named, a path of which it is
not the last entry does not come by it. -/
theorem not_mem_of_moved (hw : d.WellFormed) (hwr : d.Written t file c e)
    (ht : d.target? (stagingPath p) = some t) (hs : d.Names (stagingPath p) x.staging)
    (hid : e.at? x.staging = some id) (hagree : AgreeOff {x.staging, x} e f)
    (hfx : f.at? x = some id) (hfs : ¬ f.Passable x.staging) (hkind : f.kind? = e.kind?)
    (hfa : f.Approaches q es y n) : x ∉ es := by
  intro hmem
  obtain ⟨es₁, n₁, has, ⟨hst, -⟩ | ⟨target, es₂, n₂, ⟨⟨id₀, hr⟩, hl⟩, -⟩⟩ := target?_cases hw ht hs
  · have hfile : f.kindAt? x = some (.file c true) := by
      rw [hst, hwr.at?_self] at hid
      cases hid
      rw [kindAt?_of_at? hfx, hkind, hwr.kind?_self]
    exact Disk.not_passable hfile (by simp [Kind.isDirectory, Kind.target?]) (hfa.passable hmem)
  · -- The link would lead to a directory on the disk `f`, as it leads to the file on `e`.
    have hre := hwr.reach?_link hw hr
    have hrf : f.reach? x = some (id₀, some target) := by
      rwa [reach?, hfx, ← hid, hkind]
    obtain ⟨-, -, hsearch, init, -, hwalk⟩ := hfa
    obtain ⟨es', dest, n', -, hdest, hfw⟩ := hwalk.passes hsearch.hasDirectory hmem hrf
    have hew : e.Walks (start x.directory target) target.fullSteps es' dest n' := by
      apply hagree.symm.walks hfw
      rintro z hz (rfl | rfl)
      · exact hfs (hfw.passable hdest hz)
      · exact hfw.not_mem_of_link hrf hdest hz
    have hop := (hwr.leads hw hl).hop_of_walks hew rfl rfl
    cases hwr.reach?_self.symm.trans (hop_name_eq_ok_iff.mp hop).2.2
    exact not_hasDirectory_of_kind? hwr.kind?_self rfl
      (hagree.directories.hasDirectory_iff.mpr hdest)

theorem Leads.of_moved (hl : f.Leads true (start x.directory target) target.steps
      target.endsInSlash es ⟨y.directory, some (.name y.name), false⟩ n)
    (hagree : AgreeOff {s, x} e f) (hfs : ¬ f.Passable s)
    (hr : f.reach? x = some (id, some target)) (hys : y ≠ s) (hyx : y ≠ x) :
    e.Leads true (start x.directory target) target.steps target.endsInSlash es
      ⟨y.directory, some (.name y.name), false⟩ n := by
  apply hagree.symm.leads hl
  · rintro z hz (rfl | rfl)
    · exact hfs (hl.passable hz)
    · exact hl.not_mem_of_link hr hz
  · rintro z hz hzX
    cases hz
    rcases hzX with h | h
    · exact (hys h).elim
    · exact (hyx h).elim

/-- The moved picture is read nowhere if its entry was needed on the way. -/
theorem content?_moveEntry_eq_none (hw : d.WellFormed) (hwr : d.Written t file c e)
    (ht : d.target? (stagingPath p) = some t) (hx : d.Names p x)
    (hs : d.Names (stagingPath p) x.staging) (hid : e.at? x.staging = some id)
    (hdir : e.HasDirectory x.directory) (hwf : (e.moveEntry x.staging x id).WellFormed)
    (hneed : d.Passes true (stagingPath p) x ∨ t = x) :
    (e.moveEntry x.staging x id).content? p = none := by
  have hagree := agreeOff_moveEntry (s := x.staging) hdir hwr.wellFormed hwf
  have hfx : (e.moveEntry x.staging x id).at? x = some id := at?_moveEntry_self hdir
  have hnone : (e.moveEntry x.staging x id).at? x.staging = none :=
    at?_moveEntry_old hdir x.staging_ne
  have hfs : ¬ (e.moveEntry x.staging x id).Passable x.staging :=
    Disk.not_passable rfl (by simp [kindAt?, hnone])
  have hkind := kind?_moveEntry e x.staging x id
  generalize e.moveEntry x.staging x id = f at *
  obtain ⟨-, hxn, es, n, ha⟩ := names_iff_approaches.mp hx
  apply Option.eq_none_iff_forall_ne_some.mpr
  intro c' hc'
  rw [content?_eq hwf, Option.bind_eq_some_iff] at hc'
  obtain ⟨y, hy, hc'⟩ := hc'
  obtain ⟨x', hx'⟩ := exists_names_of_target? hwf hy
  obtain ⟨es', n', hfa, hfcases⟩ := target?_cases hwf hy hx'
  -- The path names its entry as before, as neither changed entry is on the way there.
  have hxes : x ∉ es' := not_mem_of_moved hw hwr ht hs hid hagree hfx hfs hkind hfa
  have hea' := hagree.symm.approaches hfa (by
    rintro z hz (rfl | rfl)
    · exact hfs (hfa.passable hz)
    · exact hxes hz)
  obtain ⟨rfl, rfl, rfl⟩ := hea'.unique (hwr.approaches hw ha)
  obtain ⟨es₁, n₁, has, hcases⟩ := target?_cases hw ht hs
  obtain ⟨rfl, -, rfl⟩ := has.unique (ha.staging has.valid)
  rcases hcases with ⟨hst, -, hpass⟩ | ⟨target, es₂, n₂, ⟨⟨id₀, hr⟩, hl⟩, -, hpass⟩
  · rcases hneed with hneed | htx
    · exact hxes ((hpass x').mp hneed)
    · exact x'.staging_ne (hst.trans htx)
  · have hre := hwr.reach?_link hw hr
    have hrf : f.reach? x' = some (id₀, some target) := by
      rwa [reach?, hfx, ← hid, hkind]
    rcases hfcases with ⟨-, hlink, -⟩ | ⟨target', es₂', n₂', ⟨⟨id₁, hr₁⟩, hl'⟩, -⟩
    · exact hlink id₀ target hrf
    · cases hrf.symm.trans hr₁
      have hys : y ≠ x'.staging := by
        rintro rfl
        simp [contentAt?_of_at?_eq_none hnone] at hc'
      have hyx : y ≠ x' := by
        rintro rfl
        simp [contentAt?_of_link hrf] at hc'
      obtain ⟨rfl, hplace, -⟩ :=
        (hl'.of_moved hagree hfs hrf hys hyx).unique (hwr.leads hw hl)
      rcases hneed with hneed | rfl
      · rcases (hpass x').mp hneed with h | h | h
        · exact hxes h
        · exact x'.staging_ne h.symm
        · exact hl'.not_mem_of_link hrf h
      · simp only [Place.mk.injEq, Option.some.injEq, Step.name.injEq] at hplace
        exact hyx (by cases y; cases t; simp_all)

end Disk

end IconPainter
