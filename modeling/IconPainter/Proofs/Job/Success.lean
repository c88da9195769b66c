import IconPainter.Proofs.Delivery.Exposure
import IconPainter.Proofs.Delivery.Success
import IconPainter.Proofs.Job.Failure

/-! # When a job succeeds

A job whose file name is one plain name succeeds as soon as its directory is
there, unless a directory stands where the icon or its staging file has to go.
Everything else that may stand there is replaced: files with further names, files
that may not be written, and links, wherever they lead.
-/

namespace IconPainter

open IconPainter.Path Delivery

namespace Disk

/-- The directory in which what is joined to the path is looked up: the one that the path leads
to, or the working directory if the path is empty. -/
def Base (d : Disk) (p : Path) (id : NodeId) : Prop :=
  ((p.bytes = [] ∧ id = d.working) ∨ d.resolve p = .ok id) ∧ d.HasDirectory id

variable {d e f : Disk} {id : NodeId} {p : Path} {name : Bytes} {x s : Entry} {file : NodeId}
  {c : Bytes} {codec : Codec} {image : Raster}

theorem HasDirectoryAt.exists_base (hw : d.WellFormed) (h : p.bytes = [] ∨ d.HasDirectoryAt p) :
    ∃ id, d.Base p id := by
  rcases h with hp | ⟨id, hid, hd⟩
  · exact ⟨d.working, .inl ⟨hp, rfl⟩, hw.hasDirectory_working⟩
  · exact ⟨id, .inr hid, hd⟩

theorem Base.zero_notMem (h : d.Base p id) : 0 ∉ p.bytes := by
  obtain ⟨⟨hp, -⟩ | hid, -⟩ := h
  · rw [hp]
    exact List.not_mem_nil
  · exact (validate_eq_ok_iff.mp (resolve_eq_ok_iff.mp hid).1).1

theorem Base.approaches (h : d.Base p id) (hs : d.Searchable id) (hn : IsName name)
    (hv : (p.join ⟨name⟩).validate = .ok ()) :
    ∃ es n, d.Approaches (p.join ⟨name⟩) es ⟨id, name⟩ n := by
  have hstart : start d.working (p.join ⟨name⟩) = start d.working p := by
    rw [start, isAbsolute_join hn, start]
  obtain ⟨⟨hp, rfl⟩ | hid, -⟩ := h
  · have hsteps : p.steps = [] := by
      rw [show p = ⟨[]⟩ from congrArg Path.mk hp]
      rfl
    have hwork : start d.working p = d.working := by simp [start, isAbsolute, hp]
    refine ⟨[], 0, hv, Nat.zero_le _, hs, p.steps, steps_join hn, ?_⟩
    rw [hstart, hwork, hsteps]
    exact .done
  · obtain ⟨-, es, n, hle, hw⟩ := resolve_eq_ok_iff.mp hid
    rw [fullSteps_eq] at hw
    obtain ⟨mid, es₁, es₂, n₁, n₂, h₁, h₂, -, rfl⟩ := hw.split
    obtain ⟨rfl, -⟩ := h₂.ending
    exact ⟨es₁, n₁, hv, by omega, hs, p.steps, steps_join hn, hstart ▸ h₁⟩

theorem base_of_named? (hn : IsName name) (hx : d.named? (p.join ⟨name⟩) = some x) :
    d.Base p x.directory := by
  obtain ⟨-, es, n, hv, hle, hsearch, init, hsteps, hw⟩ := named?_iff_approaches.mp hx
  obtain ⟨rfl, -⟩ := List.append_inj' (hsteps.symm.trans (steps_join hn)) rfl
  rw [start, isAbsolute_join hn, ← start] at hw
  refine ⟨?_, hsearch.hasDirectory⟩
  by_cases hp : p.bytes = []
  · rw [show p = ⟨[]⟩ from congrArg Path.mk hp] at hw
    exact .inl ⟨hp, (Walks.unique .done hw).2.1.symm⟩
  · obtain ⟨hzero, -, hlen⟩ := validate_eq_ok_iff.mp hv
    have hinit : p.bytes <+: (p.join ⟨name⟩).bytes := by
      rcases bytes_join (p := p) hn with ⟨hnil, -⟩ | ⟨bytes, hp, hj⟩ | ⟨-, hj⟩
      · exact (hp hnil).elim
      · exact ⟨name, by simp [hp, hj]⟩
      · exact ⟨slash :: name, hj.symm⟩
    refine .inr (resolve_eq_ok_iff.mpr ⟨validate_eq_ok_iff.mpr
      ⟨fun h => hzero (hinit.subset h), hp, hinit.length_le.trans_lt hlen⟩, es, n, hle, ?_⟩)
    simpa only [fullSteps_eq, List.append_nil, Nat.add_zero] using
      hw.append (.inside hsearch.hasDirectory p.endsInSlash)

/-- A directory that was made is empty and may be changed. -/
theorem Makes.base (hw : d.WellFormed) (h : d.Makes p e) (hp : p.bytes ≠ []) (hb : e.Base p id) :
    e.MayChange id ∧ ∀ y : Entry, y.directory = id → e.at? y = none := by
  have hgrown := h.grown hw
  obtain @⟨x, hx, hnone, hc⟩ := h
  have hdir := hc.searchable.hasDirectory
  have hat := at?_addEntry (n := .directory x.directory .empty) hdir (by rintro _ _ ⟨⟩; rfl)
  have hself := congrFun hat x
  rw [Function.update_self] at hself
  obtain ⟨hfresh, hk, -⟩ := hgrown.new hnone hself
  have hresolve := resolve_of_named? (hgrown.named?_eq hx) hself
    (hasDirectory_iff_directory.mpr ⟨_, _, hk⟩)
  cases (hb.1.resolve_left fun h => hp h.1).symm.trans hresolve
  refine ⟨⟨_, hk⟩, fun y hy => ?_⟩
  have hno : ¬ d.HasDirectory y.directory := hy ▸ not_hasDirectory_of_none hfresh
  have hyx : y ≠ x := by
    rintro rfl
    exact hno hdir
  rw [hat, Function.update_of_ne hyx]
  by_contra hne
  obtain ⟨i, hi⟩ := Option.ne_none_iff_exists'.mp hne
  exact hno (hasDirectory_of_at? hi)

/-- What is delivered under a plain staging path is there, also where the path had been a second
name of the staging file. -/
theorem delivered_of_ok (hw : d.WellFormed) (h : d.Plain p)
    (hv : ((writePicture codec image p).run d).value = .ok ()) :
    d.Delivered codec image p ((writePicture codec image p).run d).disk := by
  have hcourse := run_writePicture codec image p hw
  rw [hv] at hcourse
  generalize ((writePicture codec image p).run d).disk = f at hcourse
  cases hcourse with
  | moved hstored hrename =>
    cases hstored with
    | @stored s file e ht hwr hencode =>
      have hs := h.named?_of_target? hw ht
      have hdecode := hencode.decode_bytes
      have hwf := hrename.wellFormed hwr.wellFormed
      cases hrename with
      | @same s' x hold hnew _ hsame =>
        cases hs.symm.trans ((hwr.names_iff hw).mp hold).1
        have hkind := hwr.kindAt?_self (hsame.trans hwr.at?_self)
        have hpass : ¬ f.Passable x :=
          not_passable hkind (by simp [Kind.isDirectory, Kind.target?])
        refine ⟨x, _, ((hwr.names_iff hw).mp hnew).1, hkind, hdecode, fun _ => ⟨hnew.1, ?_⟩,
          fun hx => (hpass ((hwr.passes_iff hw).mpr hx).passable).elim⟩
        have hlink (id target) : f.reach? x ≠ some (id, some target) := fun hr =>
          hpass (passable_iff.mpr ⟨_, _, hr, .inl rfl⟩)
        rw [content?_of_named? hwf hnew.1 hlink, hnew.2]
        simp [contentAt?, hkind, Kind.content?]
      | @moved s' x id hold hnew _ hid _ _ _ hchange =>
        cases hs.symm.trans ((hwr.names_iff hw).mp hold).1
        cases hwr.at?_self.symm.trans hid
        have hx := (hwr.names_iff hw).mp hnew
        obtain rfl := named?_stagingPath hx.1 hs
        exact hwr.delivered hw hx (names_stagingPath_iff.mpr hs) ht
          hchange.searchable.hasDirectory hwf hdecode

end Disk

/-! ### Jobs with a plain name -/

open Disk

namespace Job

variable {codec : Codec} {j : Job} {d e : Disk}

/-- The file name is one name, not too long for its staging name and the paths, and the icon has
pixels but not more than can be held. -/
structure Proper (j : Job) : Prop where
  isName : IsName (Bytes.ofString j.fileName)
  zero_notMem : 0 ∉ Bytes.ofString j.fileName
  length_le : (Bytes.ofString j.fileName).length ≤ 246
  destination_lt : j.destination.bytes.length < 4096
  staging_lt : (stagingPath j.destination).bytes.length < 4096
  size_ne_zero : j.size ≠ 0
  size_le : 4 * j.size.toNat ^ 2 ≤ 2 ^ 63 - 1

instance (j : Job) : Decidable j.Proper :=
  decidable_of_iff (IsName (Bytes.ofString j.fileName) ∧ 0 ∉ Bytes.ofString j.fileName ∧
      (Bytes.ofString j.fileName).length ≤ 246 ∧ j.destination.bytes.length < 4096 ∧
      (stagingPath j.destination).bytes.length < 4096 ∧ j.size ≠ 0 ∧
      4 * j.size.toNat ^ 2 ≤ 2 ^ 63 - 1)
    ⟨fun ⟨hname, hzero, hlen, hdest, hstaging, hsize, hle⟩ =>
        ⟨hname, hzero, hlen, hdest, hstaging, hsize, hle⟩,
      fun h => ⟨h.isName, h.zero_notMem, h.length_le, h.destination_lt, h.staging_lt,
        h.size_ne_zero, h.size_le⟩⟩

/-- The directory of the icon may be changed, and what stands under the staging path is a
directory or a file that may be written. -/
structure Permitted (j : Job) (d : Disk) : Prop where
  mayChange : ∀ id, d.Base j.directory id → d.MayChange id
  staging : ∀ s k, d.named? (stagingPath j.destination) = some s → d.kindAt? s = some k →
    k.isDirectory ∨ ∃ c, k = .file c true

theorem Proper.exists_named (hj : j.Proper) {id : NodeId} (hb : d.Base j.directory id)
    (hsearch : d.Searchable id) :
    d.Names j.destination ⟨id, Bytes.ofString j.fileName⟩ ∧
      d.named? (stagingPath j.destination) =
        some ⟨id, stagingName (Bytes.ofString j.fileName)⟩ := by
  have hn := hj.isName
  have hsteps : j.destination.steps = j.directory.steps ++ [.name (Bytes.ofString j.fileName)] :=
    steps_join hn
  have hzero : 0 ∉ j.destination.bytes := by
    intro h
    rcases mem_bytes_join hn h with h | h | h
    · exact hb.zero_notMem h
    · exact hj.zero_notMem h
    · exact absurd h (by decide)
  have hv : j.destination.validate = .ok () :=
    validate_eq_ok_iff.mpr ⟨hzero, bytes_join_ne_nil hn, hj.destination_lt⟩
  have hv' : (stagingPath j.destination).validate = .ok () := by
    refine validate_eq_ok_iff.mpr ⟨?_, bytes_stagingPath_ne_nil hsteps, hj.staging_lt⟩
    intro h
    rcases mem_bytes_stagingPath hsteps h with h | h | h
    · exact hzero h
    · have : 0 ∉ Bytes.ofString j.fileName := hj.zero_notMem
      simp [stagingName, ofString_partial, dot, this] at h
    · exact absurd h (by decide)
  obtain ⟨es, n, ha⟩ := hb.approaches hsearch hn hv
  have hlen := hj.length_le
  constructor
  · exact names_iff_approaches.mpr ⟨endsInSlash_join hn, by simp only [maxName]; omega, es, n, ha⟩
  · refine named?_iff_approaches.mpr ⟨?_, es, n, ha.staging hv'⟩
    rw [length_stagingName]
    simp only [maxName]
    omega

theorem Permitted.plain (hj : j.Proper) (hd : j.Permitted d) {id : NodeId}
    (hb : d.Base j.directory id) : d.Plain j.destination := by
  intro s hs
  cases (hj.exists_named hb (hd.mayChange id hb).searchable).2.symm.trans hs
  refine ⟨hd.mayChange id hb, fun i target hr => ?_⟩
  obtain ⟨hat, k, hk, htarget⟩ := reach?_eq_some_iff.mp hr
  rcases hd.staging _ k hs (kindAt?_eq_some_iff.mpr ⟨i, hat, hk⟩) with hdir | ⟨c, rfl⟩
  · cases k <;> contradiction
  · contradiction

theorem Permitted.ready_iff (hj : j.Proper) (hd : j.Permitted d) {id : NodeId}
    (hb : d.Base j.directory id) : d.Ready j.destination ↔
      ¬ d.NamesDirectory j.destination ∧ ¬ d.NamesDirectory (stagingPath j.destination) := by
  obtain ⟨hx, hs⟩ := hj.exists_named hb (hd.mayChange id hb).searchable
  rw [not_namesDirectory_iff hx.1, namesDirectory_iff hs]
  constructor
  · rintro ⟨x, s, hx', hs', hopens, hready⟩
    cases hx.1.symm.trans hx'.1
    cases hs.symm.trans hs'
    refine ⟨hready, ?_⟩
    rintro ⟨k, hk, hdir⟩
    rcases hopens with hnone | ⟨c, hfile⟩
    · cases hnone.symm.trans hk
    · cases hfile.symm.trans hk
      contradiction
  · rintro ⟨hready, hno⟩
    refine ⟨_, _, hx, hs, ?_, hready⟩
    cases hk : d.kindAt? ⟨id, stagingName (Bytes.ofString j.fileName)⟩ with
    | none => exact .inl rfl
    | some k =>
      rcases hd.staging _ k hs hk with hdir | ⟨c, rfl⟩
      · exact (hno ⟨k, hk, hdir⟩).elim
      · exact .inr ⟨c, rfl⟩

theorem Proper.encodes (hj : j.Proper) {image : Raster}
    (hpaint : Drawing.paint j.size = .ok image) : codec.Encodes image := by
  obtain ⟨hwidth, hheight⟩ := Drawing.size_of_paint hpaint
  exact Codec.encodes_iff.mpr ⟨hwidth ▸ hj.size_ne_zero, hheight ▸ hj.size_ne_zero⟩

theorem Proper.exists_named_of_makes (hj : j.Proper) (hw : d.WellFormed)
    (hp : j.directory.bytes ≠ []) (h : d.Makes j.directory e) :
    (∃ x, e.Names j.destination x ∧ e.at? x = none) ∧
      ∃ s, e.named? (stagingPath j.destination) = some s ∧ e.at? s = none := by
  obtain ⟨id, hb⟩ := HasDirectoryAt.exists_base (h.wellFormed hw) (.inr (h.hasDirectoryAt hw))
  obtain ⟨hchange, hempty⟩ := h.base hw hp hb
  obtain ⟨hx, hs⟩ := hj.exists_named hb hchange.searchable
  exact ⟨⟨_, hx, hempty _ rfl⟩, _, hs, hempty _ rfl⟩

theorem Proper.value_eq_ok_of_makes (hj : j.Proper) (hw : d.WellFormed)
    (hp : j.directory.bytes ≠ []) (h : d.Makes j.directory e) {image : Raster}
    (hpaint : Drawing.paint j.size = .ok image) :
    ((writePicture codec image j.destination).run e).value = .ok () := by
  obtain ⟨⟨x, hx, hxnone⟩, s, hs, hsnone⟩ := hj.exists_named_of_makes hw hp h
  obtain ⟨id, hb⟩ := HasDirectoryAt.exists_base (h.wellFormed hw) (.inr (h.hasDirectoryAt hw))
  have hd : j.Permitted e := by
    refine ⟨fun id hb => (h.base hw hp hb).1, fun s' k hs' hk => ?_⟩
    cases hs.symm.trans hs'
    simp [kindAt?, hsnone] at hk
  refine (value_eq_ok_iff_of_plain codec image (h.wellFormed hw) (hd.plain hj hb)).mpr
    ⟨hj.encodes hpaint, (hd.ready_iff hj hb).mpr ⟨?_, ?_⟩⟩
  · exact (not_namesDirectory_iff hx.1).mpr (.inl (by simp [kindAt?, hxnone]))
  · exact (not_namesDirectory_iff hs).mpr (.inl (by simp [kindAt?, hsnone]))

/-- A job succeeds exactly if its directory is there or can be made and no directory stands in
the way of the icon or its staging file. Then the icon is delivered to the path that is its
value. -/
theorem succeeds_iff (codec : Codec) (j : Job) {d : Disk} (hw : d.WellFormed) (hj : j.Proper)
    (hd : ((prepareDirectory j.directory).run d).value = .ok () →
      j.Permitted (d.prepared j.directory)) :
    ((∃ p, ((j.work codec).run d).value = .ok (.ok p)) ↔
      ((prepareDirectory j.directory).run d).value = .ok () ∧
        ¬ (d.prepared j.directory).NamesDirectory j.destination ∧
        ¬ (d.prepared j.directory).NamesDirectory (stagingPath j.destination)) ∧
    ∀ p, ((j.work codec).run d).value = .ok (.ok p) → p = j.destination ∧
      ∃ image, Drawing.paint j.size = .ok image ∧
        (d.prepared j.directory).Delivered codec image j.destination
          ((j.work codec).run d).disk := by
  obtain ⟨hgrown, hprepare⟩ := run_prepareDirectory j.directory hw
  have hwe : (d.prepared j.directory).WellFormed := hgrown.right
  have hbase (hok : ((prepareDirectory j.directory).run d).value = .ok ()) :
      ∃ id, (d.prepared j.directory).Base j.directory id := by
    rcases hprepare with ⟨-, h⟩ | ⟨cause, h⟩
    · exact HasDirectoryAt.exists_base hwe h
    · cases hok.symm.trans h
  have hends := j.ends_work codec d
  generalize ((j.work codec).run d).value = r at hends
  generalize ((j.work codec).run d).disk = f at hends
  refine ⟨⟨?_, ?_⟩, ?_⟩
  · rintro ⟨p, rfl⟩
    cases hends with
    | written hpaint hok hwrite =>
      obtain ⟨id, hb⟩ := hbase hok
      obtain ⟨-, hready⟩ := (value_eq_ok_iff_of_plain codec _ hwe ((hd hok).plain hj hb)).mp hwrite
      exact ⟨hok, ((hd hok).ready_iff hj hb).mp hready⟩
  · rintro ⟨hok, hno⟩
    obtain ⟨id, hb⟩ := hbase hok
    cases hends with
    | crashed hcrash =>
      obtain ⟨image, hpaint⟩ := Drawing.exists_paint_eq_ok_iff.mpr
        (show 4 * j.size.toNat ^ 2 < 2 ^ 63 by have := hj.size_le; omega)
      cases hcrash.symm.trans hpaint
    | unprepared _ herror => cases hok.symm.trans herror
    | unwritten hpaint _ hwrite =>
      have hvalue := (value_eq_ok_iff_of_plain codec _ hwe ((hd hok).plain hj hb)).mpr
        ⟨hj.encodes hpaint, ((hd hok).ready_iff hj hb).mpr hno⟩
      cases hwrite.symm.trans hvalue
    | written => exact ⟨_, rfl⟩
  · rintro p rfl
    cases hends with
    | written hpaint hok hwrite =>
      obtain ⟨id, hb⟩ := hbase hok
      exact ⟨rfl, _, hpaint, delivered_of_ok hwe ((hd hok).plain hj hb) hwrite⟩

/-- The icon is delivered where its staging file is the picture that it replaces. -/
theorem succeeds_iff_linked :
    let j : Job := ⟨1, .ofString ".", "icon.png"⟩
    (∃ p, ((j.work Png.codec).run Disk.linked).value = .ok (.ok p)) ∧
      ∃ image, Drawing.paint j.size = .ok image ∧
        (Disk.linked.prepared j.directory).Delivered Png.codec image j.destination
          ((j.work Png.codec).run Disk.linked).disk := by
  intro j
  have hprepared : Disk.linked.prepared j.directory = Disk.linked := by decide +kernel
  have hj : j.Proper := by decide +kernel
  have hd : j.Permitted (Disk.linked.prepared j.directory) := by
    rw [hprepared]
    constructor
    · rintro id ⟨⟨hp, -⟩ | hid, -⟩
      · exact absurd hp (by decide +kernel)
      · have hresolve : Disk.linked.resolve j.directory = .ok 1 := by decide +kernel
        cases hresolve.symm.trans hid
        exact ⟨0, by decide +kernel⟩
    · intro s k hs hk
      have hnamed : Disk.linked.named? (stagingPath j.destination) =
          some ⟨1, .ofString ".icon.png.partial"⟩ := by decide +kernel
      cases hnamed.symm.trans hs
      have hkind : Disk.linked.kindAt? ⟨1, .ofString ".icon.png.partial"⟩ =
          some (.file (.ofString "stale") true) := by decide +kernel
      cases hkind.symm.trans hk
      exact .inr ⟨_, rfl⟩
  have hno {p : Path} {x : Entry} (hx : Disk.linked.named? p = some x)
      (hk : ∀ k ∈ Disk.linked.kindAt? x, k.isDirectory = false) :
      ¬ (Disk.linked.prepared j.directory).NamesDirectory p := by
    rw [hprepared, namesDirectory_iff hx]
    rintro ⟨k, hk', hdir⟩
    cases hdir.symm.trans (hk k hk')
  obtain ⟨hiff, hvalue⟩ := succeeds_iff Png.codec j wellFormed_linked hj fun _ => hd
  have hok := hiff.mpr ⟨by decide +kernel,
    hno (x := ⟨1, .ofString "icon.png"⟩) (by decide +kernel) (by decide +kernel),
    hno (x := ⟨1, .ofString ".icon.png.partial"⟩) (by decide +kernel) (by decide +kernel)⟩
  obtain ⟨p, hp⟩ := hok
  exact ⟨⟨p, hp⟩, (hvalue p hp).2⟩

end Job

/-- A directory with a link for a staging file, to be named by a way that is not there yet. -/
def Disk.detour : Disk where
  nodes := #[
    .directory 0 ⟨[(.ofString "work", 1)], .search⟩,
    .directory 0 ⟨[(.ofString "b", 2)], .change⟩,
    .directory 1 ⟨[(.ofString ".icon.png.partial", 3)], .change⟩,
    .link (.ofString "nowhere/x")]
  working := 1

/-- The staging path may come to name a link only when the directory is there, and the icon may
take the place of a link by which its own path goes. -/
theorem Job.not_delivered_detour :
    (let j : Job := ⟨1, .ofString "a/../b", "icon.png"⟩
     Disk.detour.WellFormed ∧ j.Proper ∧ Disk.detour.named? (stagingPath j.destination) = none ∧
      ((prepareDirectory j.directory).run Disk.detour).value = .ok () ∧
      ¬ (Disk.detour.prepared j.directory).NamesDirectory j.destination ∧
      ¬ (Disk.detour.prepared j.directory).NamesDirectory (stagingPath j.destination) ∧
      ¬ ∃ p, ((j.work Png.codec).run Disk.detour).value = .ok (.ok p)) ∧
    (let j : Job := ⟨1, .ofString "x", "x"⟩
     Disk.turned.WellFormed ∧ j.Proper ∧ j.Permitted Disk.turned ∧
      ((j.work Png.codec).run Disk.turned).value = .ok (.ok j.destination) ∧
      ((j.work Png.codec).run Disk.turned).disk.content? j.destination = none) := by
  constructor
  · have hx : (Disk.detour.prepared (.ofString "a/../b")).named?
        (.ofString "a/../b/icon.png") = some ⟨2, .ofString "icon.png"⟩ := by decide +kernel
    have hs : (Disk.detour.prepared (.ofString "a/../b")).named?
        (stagingPath (.ofString "a/../b/icon.png")) = some ⟨2, .ofString ".icon.png.partial"⟩ := by
      decide +kernel
    have hlink : (Disk.detour.prepared (.ofString "a/../b")).kindAt?
        ⟨2, .ofString ".icon.png.partial"⟩ = some (.link (.ofString "nowhere/x")) := by
      decide +kernel
    refine ⟨wellFormed_of_wellFormedB (by decide +kernel), by decide +kernel, by decide +kernel,
      by decide +kernel, (not_namesDirectory_iff hx).mpr (.inl (by decide +kernel)),
      (not_namesDirectory_iff hs).mpr (.inr ⟨_, hlink, rfl⟩), ?_⟩
    have hvalue :
        (((Job.mk 1 (.ofString "a/../b") "icon.png").work Png.codec).run Disk.detour).value =
        .ok (.error (.create (stagingPath (.ofString "a/../b/icon.png")) .noEntry)) := by
      decide +kernel
    rintro ⟨p, hp⟩
    cases hvalue.symm.trans hp
  · have hstaging : Disk.turned.named? (stagingPath (.ofString "x/x")) =
        some ⟨1, .ofString ".x.partial"⟩ := by decide +kernel
    have hresolve : Disk.turned.resolve (.ofString "x") = .ok 1 := by decide +kernel
    refine ⟨wellFormed_of_wellFormedB (by decide +kernel), by decide +kernel, ⟨?_, ?_⟩,
      by decide +kernel, by decide +kernel⟩
    · rintro id ⟨⟨hp, -⟩ | hid, -⟩
      · exact absurd hp (by decide +kernel)
      · cases hresolve.symm.trans hid
        exact ⟨0, by decide +kernel⟩
    · intro s k hs hk
      cases hstaging.symm.trans hs
      have hnone : Disk.turned.kindAt? ⟨1, .ofString ".x.partial"⟩ = none := by decide +kernel
      cases hnone.symm.trans hk

end IconPainter
