import IconPainter.Proofs.Delivery.Course
import IconPainter.Proofs.Path.Staging

/-! # Places during a delivery

Neither a written nor a removed file is on the way to anything, so paths keep
their places while a picture is written, and most of them when it is moved. The
staging path of a path that names an entry names another in the same directory.
-/

namespace IconPainter

open Delivery

namespace Disk

variable {d e f : Disk} {s t x : Entry} {file id dir dest : NodeId} {c bytes : Bytes} {p q : Path}
  {es es' : List Entry} {place : Place} {final slash : Bool} {n : Nat} {steps : List Step}

/-! ### Written files -/

namespace Written

theorem kind?_ne (h : d.Written t file c e) (hid : id ≠ file) : e.kind? id = d.kind? id := by
  rw [h.kind?, Function.update_of_ne hid]

theorem kind?_self (h : d.Written t file c e) : e.kind? file = some (.file c true) := by
  rw [h.kind?, Function.update_self]

theorem at?_self (h : d.Written t file c e) : e.at? t = some file := by
  rw [h.at?, Function.update_self]

theorem at?_ne (h : d.Written t file c e) (hx : x ≠ t) : e.at? x = d.at? x := by
  rw [h.at?, Function.update_of_ne hx]

theorem not_hasDirectory (h : d.Written t file c e) : ¬ d.HasDirectory file := by
  rcases h.was with ⟨-, hk, -⟩ | ⟨-, c₀, hk⟩
  · exact not_hasDirectory_of_none hk
  · exact not_hasDirectory_of_kind? hk rfl

theorem sameDirectories (h : d.Written t file c e) : d.SameDirectories e :=
  .of_update h.working.symm h.kind? h.not_hasDirectory rfl

theorem at?_eq_file_iff (h : d.Written t file c e) :
    e.at? x = some file ↔ x = t ∨ d.at? x = some file := by
  by_cases hx : x = t
  · simp [hx, h.at?_self]
  · simp [hx, h.at?_ne hx]

theorem kindAt?_self (h : d.Written t file c e) (hx : e.at? x = some file) :
    e.kindAt? x = some (.file c true) := by
  rw [kindAt?_of_at? hx, h.kind?_self]

theorem kindAt?_ne (h : d.Written t file c e) (hx : e.at? x ≠ some file) :
    e.kindAt? x = d.kindAt? x := by
  have hxt : x ≠ t := fun hxt => hx (hxt ▸ h.at?_self)
  rw [h.at?_ne hxt] at hx
  unfold kindAt?
  rw [h.at?_ne hxt]
  cases hat : d.at? x with
  | none => rfl
  | some id =>
    apply h.kind?_ne
    rintro rfl
    exact hx hat

theorem agreeOff (hw : d.WellFormed) (h : d.Written t file c e) : AgreeOff {t} d e where
  left := hw
  right := h.wellFormed
  directories := h.sameDirectories
  reach?_eq {x} hx := by
    have hx : x ≠ t := hx
    unfold reach?
    rw [h.at?_ne hx]
    cases hat : d.at? x with
    | none => rfl
    | some id =>
      by_cases hid : id = file
      · subst hid
        rcases h.was with ⟨-, hk, -⟩ | ⟨-, c₀, hk⟩
        · exact (hw.at?_ne_of_kind?_eq_none hk hat).elim
        · simp [h.kind?_self, hk, Kind.target?]
      · simp [h.kind?_ne hid]

end Written

theorem not_passable {o : Option Kind} (hx : d.kindAt? x = o)
    (ho : ∀ k ∈ o, k.isDirectory = false ∧ k.target? = none) : ¬ d.Passable x := by
  rintro ⟨k, hk, hp⟩
  obtain ⟨hd, ht⟩ := ho k (hx.symm.trans hk)
  rcases hp with hp | hp
  · simp [hd] at hp
  · simp [ht] at hp

theorem Passes.passable (h : d.Passes final p x) : d.Passable x := by
  obtain ⟨es, place, ⟨-, n, -, hl⟩, hx⟩ := h
  exact hl.passable hx

theorem Finds.not_mem (h : d.Finds final p es place) (hx : ¬ d.Passable x) : x ∉ es := by
  obtain ⟨-, n, -, hl⟩ := h
  exact fun hmem => hx (hl.passable hmem)

namespace Written

theorem kindAt?_was (h : d.Written t file c e) :
    ∀ k ∈ d.kindAt? t, k.isDirectory = false ∧ k.target? = none := by
  rcases h.was with ⟨hat, -⟩ | ⟨hat, c₀, hk⟩
  · simp [kindAt?, hat]
  · simp [kindAt?, hat, hk, Kind.isDirectory, Kind.target?]

/-- Paths keep their places while a file is written. -/
theorem finds_iff (hw : d.WellFormed) (h : d.Written t file c e) :
    e.Finds final p es place ↔ d.Finds final p es place := by
  have hd : ¬ d.Passable t := not_passable rfl h.kindAt?_was
  have he : ¬ e.Passable t :=
    not_passable (h.kindAt?_self h.at?_self) (by simp [Kind.isDirectory, Kind.target?])
  constructor
  · intro hf
    refine (h.agreeOff hw).symm.finds hf ?_ ?_
    · rintro x hx rfl
      exact hf.not_mem he hx
    · rintro x - rfl - id target hr
      exact hd (passable_iff.mpr ⟨_, _, hr, .inl rfl⟩)
  · intro hf
    refine (h.agreeOff hw).finds hf ?_ ?_
    · rintro x hx rfl
      exact hf.not_mem hd hx
    · rintro x - rfl - id target hr
      exact he (passable_iff.mpr ⟨_, _, hr, .inl rfl⟩)

theorem named?_eq (hw : d.WellFormed) (h : d.Written t file c e) (p : Path) :
    e.named? p = d.named? p :=
  Option.ext fun x => by simp only [named?_eq_some_iff, h.finds_iff hw]

theorem target?_eq (hw : d.WellFormed) (h : d.Written t file c e) (p : Path) :
    e.target? p = d.target? p :=
  Option.ext fun x => by simp only [target?_eq_some_iff, h.finds_iff hw]

theorem passes_iff (hw : d.WellFormed) (h : d.Written t file c e) :
    e.Passes final p x ↔ d.Passes final p x := by
  simp only [Passes, h.finds_iff hw]

theorem names_iff (hw : d.WellFormed) (h : d.Written t file c e) :
    e.Names p x ↔ d.Names p x := by
  simp only [Names, h.named?_eq hw]

theorem mayChange_iff {dir : NodeId} (h : d.Written t file c e) :
    e.MayChange dir ↔ d.MayChange dir := by
  simp only [MayChange, h.sameDirectories.kind?_iff]

theorem hasLeaf (h : d.Written t file c e) (hs : d.HasLeaf s) : e.HasLeaf s := by
  by_cases hat : e.at? s = some file
  · exact ⟨_, h.kindAt?_self hat, rfl⟩
  · obtain ⟨k, hk, hd⟩ := hs
    exact ⟨k, (h.kindAt?_ne hat).trans hk, hd⟩

theorem hasLeaf_cases (hw : d.WellFormed) (h : d.Written t file c e) (hs : e.HasLeaf s) :
    d.HasLeaf s ∨ (s = t ∧ d.at? t = none) := by
  by_cases hat : e.at? s = some file
  · rcases h.was with ⟨hnone, hk, -⟩ | ⟨hsome, c₀, hk⟩
    · rcases h.at?_eq_file_iff.mp hat with rfl | hds
      · exact .inr ⟨rfl, hnone⟩
      · exact (hw.at?_ne_of_kind?_eq_none hk hds).elim
    · refine .inl ⟨.file c₀ true, ?_, rfl⟩
      rcases h.at?_eq_file_iff.mp hat with rfl | hds
      · rw [kindAt?_of_at? hsome, hk]
      · rw [kindAt?_of_at? hds, hk]
  · obtain ⟨k, hk, hd⟩ := hs
    exact .inl ⟨k, (h.kindAt?_ne hat).symm.trans hk, hd⟩

theorem at?_eq_of_was (h : d.Written t file c e) (hat : d.at? t = some id) : e.at? = d.at? := by
  rcases h.was with ⟨hnone, -⟩ | ⟨hsome, -⟩
  · rw [hnone] at hat
    contradiction
  · rw [h.at?, ← hsome, Function.update_eq_self]

/-- What is read from a path changes only if it leads to the file that is written. -/
theorem content?_eq (hw : d.WellFormed) (h : d.Written t file c e)
    (hx : ∀ x, d.target? p = some x → e.at? x ≠ some file) : e.content? p = d.content? p := by
  rw [Disk.content?_eq h.wellFormed, Disk.content?_eq hw, h.target?_eq hw]
  cases ht : d.target? p with
  | none => rfl
  | some x => simp only [Option.bind_some, contentAt?, h.kindAt?_ne (hx x ht)]

theorem content?_of_target? (hw : d.WellFormed) (h : d.Written t file c e)
    (ht : d.target? p = some x) (hx : e.at? x = some file) : e.content? p = some c := by
  rw [Disk.content?_eq h.wellFormed, h.target?_eq hw, ht]
  simp [contentAt?, h.kindAt?_self hx, Kind.content?]

end Written

/-! ### Erased entries -/

section Erased

theorem at?_eraseEntry_self (d : Disk) (s : Entry) :
    (d.eraseEntry s.directory s.name).at? s = none := by
  rw [at?_eraseEntry, Function.update_self]

theorem at?_eraseEntry_ne (hx : x ≠ s) : (d.eraseEntry s.directory s.name).at? x = d.at? x := by
  rw [at?_eraseEntry, Function.update_of_ne hx]

theorem kindAt?_eraseEntry_ne (hx : x ≠ s) :
    (d.eraseEntry s.directory s.name).kindAt? x = d.kindAt? x := by
  simp only [kindAt?, at?_eraseEntry_ne hx, kind?_eraseEntry]

theorem agreeOff_eraseEntry (hw : d.WellFormed) (s : Entry) :
    AgreeOff {s} d (d.eraseEntry s.directory s.name) where
  left := hw
  right := hw.eraseEntry s
  directories := ⟨(working_modifyEntries d _ _).symm, by simp [kind?_eraseEntry]⟩
  reach?_eq {x} hx := by
    have hx : x ≠ s := hx
    simp only [reach?, at?_eraseEntry_ne hx, kind?_eraseEntry]

theorem Finds.eraseEntry (hw : d.WellFormed) (h : d.Finds final p es place) (hs : s ∉ es) :
    (d.eraseEntry s.directory s.name).Finds final p es place := by
  refine (agreeOff_eraseEntry hw s).finds h ?_ ?_
  · rintro x hx rfl
    exact hs hx
  · rintro x - rfl - id target hr
    simp [reach?, at?_eraseEntry_self] at hr

theorem Finds.of_eraseEntry (hw : d.WellFormed)
    (h : (d.eraseEntry s.directory s.name).Finds final p es place)
    (hp : place.named? ≠ some s ∨ final = false) : d.Finds final p es place ∧ s ∉ es := by
  have hs : s ∉ es := h.not_mem (not_passable rfl (by simp [kindAt?, at?_eraseEntry_self]))
  refine ⟨(agreeOff_eraseEntry hw s).symm.finds h ?_ ?_, hs⟩
  · rintro x hx rfl
    exact hs hx
  · rintro x hx rfl hf
    rcases hp with hp | hp
    · exact (hp hx).elim
    · exact absurd (hf.symm.trans hp) (by simp)

theorem named?_eraseEntry (hw : d.WellFormed) (hs : ¬ d.Passable s) (p : Path) :
    (d.eraseEntry s.directory s.name).named? p = d.named? p := by
  ext x
  rw [named?_eq_some_iff, named?_eq_some_iff]
  constructor
  · rintro ⟨hn, es, slash, hf⟩
    exact ⟨hn, es, slash, (hf.of_eraseEntry hw (.inr rfl)).1⟩
  · rintro ⟨hn, es, slash, hf⟩
    exact ⟨hn, es, slash, hf.eraseEntry hw (hf.not_mem hs)⟩

theorem content?_eraseEntry_eq_some_iff (hw : d.WellFormed) :
    (d.eraseEntry s.directory s.name).content? p = some c ↔
      d.content? p = some c ∧ ¬ d.Passes true p s ∧ d.target? p ≠ some s := by
  rw [content?_eq (hw.eraseEntry s), content?_eq hw, Option.bind_eq_some_iff,
    Option.bind_eq_some_iff]
  constructor
  · rintro ⟨x, ht, hc⟩
    obtain ⟨hn, es, hf⟩ := target?_eq_some_iff.mp ht
    have hx : x ≠ s := by
      rintro rfl
      simp [contentAt?_of_at?_eq_none (at?_eraseEntry_self d x)] at hc
    obtain ⟨hf, hs⟩ := hf.of_eraseEntry hw (.inl fun hxs => hx (Option.some.inj hxs))
    have ht' := target?_eq_some_iff.mpr ⟨hn, es, hf⟩
    refine ⟨⟨x, ht', by rwa [contentAt?, kindAt?_eraseEntry_ne hx] at hc⟩, ?_, ?_⟩
    · exact fun hp => hs (hf.passes_iff.mp hp)
    · rw [ht']
      simpa using hx
  · rintro ⟨⟨x, ht, hc⟩, hp, hne⟩
    obtain ⟨hn, es, hf⟩ := target?_eq_some_iff.mp ht
    have hx : x ≠ s := fun hx => hne (hx ▸ ht)
    have hs : s ∉ es := fun hmem => hp (hf.passes_iff.mpr hmem)
    exact ⟨x, target?_eq_some_iff.mpr ⟨hn, es, hf.eraseEntry hw hs⟩,
      by rwa [contentAt?, kindAt?_eraseEntry_ne hx]⟩

theorem content?_eraseEntry_of_not (hw : d.WellFormed) (hp : ¬ d.Passes true p s)
    (ht : d.target? p ≠ some s) :
    (d.eraseEntry s.directory s.name).content? p = d.content? p :=
  Option.ext fun c => by simp [content?_eraseEntry_eq_some_iff hw, hp, ht]

theorem content?_eraseEntry_of_passes (hw : d.WellFormed)
    (h : d.Passes true p s ∨ d.target? p = some s) :
    (d.eraseEntry s.directory s.name).content? p = none := by
  apply Option.eq_none_iff_forall_ne_some.mpr
  intro c hc
  obtain ⟨-, hp, ht⟩ := (content?_eraseEntry_eq_some_iff hw).mp hc
  rcases h with h | h
  · exact hp h
  · exact ht h

end Erased

end Disk

end IconPainter
