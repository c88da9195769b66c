import IconPainter.Proofs.Disk.Alike
import IconPainter.Proofs.Disk.Change

/-! # Growth

To make a directory is to add an entry, and no entry is lost or changed by it.
So a walk that arrives still arrives afterwards, and what could be read still can
be; only what led nowhere may now lead to one of the new directories.
-/

namespace IconPainter

namespace Disk

/-- What making a directory does. -/
inductive Makes (d : Disk) (p : Path) : Disk → Prop where

  | mk {x : Entry} : d.named? p = some x → d.at? x = none → d.MayChange x.directory →
      Makes d p (d.addEntry x.directory x.name (.directory x.directory .empty))

/-- All that is on the disk `d` is on the disk `e`. -/
structure Extended (d e : Disk) : Prop where
  left : d.WellFormed
  right : e.WellFormed
  working : d.working = e.working
  kind?_eq : ∀ {id k}, d.kind? id = some k → e.kind? id = some k
  at?_eq : ∀ {x id}, d.at? x = some id → e.at? x = some id

/-- The disk `e` is the disk `d` with new directories, each named by one of the paths. -/
structure Grown (ps : List Path) (d e : Disk) : Prop extends Extended d e where
  new : ∀ {x id}, d.at? x = none → e.at? x = some id → d.kind? id = none ∧
    e.kind? id = some (.directory x.directory .change) ∧ ∃ p ∈ ps, e.named? p = some x

variable {d d' e f : Disk} {dir dest id : NodeId} {step : Step} {steps : List Step}
  {es : List Entry} {n : Nat} {slash : Bool} {place : Place} {x : Entry} {p : Path}
  {ps qs : List Path} {c : Bytes} {names : List Bytes} {t : Option Path}

/-! ### Making a directory -/

theorem freeName_eq_ok_iff (hw : d.WellFormed) {name : Bytes} :
    d.freeName p = .ok (place, name) ↔ place.last = some (.name name) ∧
      d.locate false p = .ok place ∧ d.named? p = some ⟨place.directory, name⟩ ∧
      d.at? ⟨place.directory, name⟩ = none := by
  constructor
  · intro h
    obtain ⟨⟨dir, last, slash⟩, hl, h⟩ := bind_eq_ok_iff.mp h
    simp only at h
    split at h
    · rename_i name'
      obtain ⟨found, hfound, h⟩ := bind_eq_ok_iff.mp h
      split at h
      · cases h
        obtain ⟨-, hn, hat⟩ := (lookup_eq_ok_none_iff (e := ⟨dir, name⟩) hw).mp hfound
        obtain ⟨es, hf⟩ := locate_eq_ok_iff.mp hl
        exact ⟨rfl, hl, named?_eq_some_iff.mpr ⟨hn, es, slash, hf⟩, hat⟩
      · contradiction
    · contradiction
  · rintro ⟨hlast, hl, hp, hat⟩
    obtain ⟨dir, last, slash⟩ := place
    cases hlast
    obtain ⟨hn, -⟩ := named?_eq_some_iff.mp hp
    have hfound := (lookup_eq_ok_none_iff hw).mpr ⟨searchable_of_locate hl, hn, hat⟩
    simp only [freeName, bind, Except.bind, hl, hfound]

theorem makeDirectory_eq_ok_iff (hw : d.WellFormed) :
    d.makeDirectory p = .ok d' ↔ d.Makes p d' := by
  constructor
  · intro h
    obtain ⟨⟨place, name⟩, hfree, h⟩ := bind_eq_ok_iff.mp h
    obtain ⟨_, hc, h⟩ := bind_eq_ok_iff.mp h
    obtain ⟨-, -, hp, hat⟩ := (freeName_eq_ok_iff hw).mp hfree
    cases h
    exact .mk (x := ⟨place.directory, name⟩) hp hat (checkChange_eq_ok_iff.mp hc)
  · rintro ⟨hp, hat, hc⟩
    obtain ⟨-, es, slash, hf⟩ := named?_eq_some_iff.mp hp
    have hfree := (freeName_eq_ok_iff hw).mpr ⟨rfl, locate_eq_ok_iff.mpr ⟨es, hf⟩, hp, hat⟩
    simp only [makeDirectory, bind, Except.bind, hfree, hc.checkChange_eq]

theorem Makes.wellFormed (hw : d.WellFormed) (h : d.Makes p d') : d'.WellFormed :=
  hw.makeDirectory ((makeDirectory_eq_ok_iff hw).mpr h)

/-! ### Ways on an extended disk -/

namespace Extended

theorem trans (h : Extended d e) (h' : Extended e f) : Extended d f :=
  ⟨h.left, h'.right, h.working.trans h'.working, fun hk => h'.kind?_eq (h.kind?_eq hk),
    fun hat => h'.at?_eq (h.at?_eq hat)⟩

theorem kind?_eq_none (h : Extended d e) (hk : e.kind? id = none) : d.kind? id = none := by
  by_contra hne
  obtain ⟨k, hkd⟩ := Option.ne_none_iff_exists'.mp hne
  rw [h.kind?_eq hkd] at hk
  contradiction

theorem searchable (h : Extended d e) (hs : d.Searchable dir) : e.Searchable dir := by
  obtain ⟨parent, access, hk, ha⟩ := hs
  exact ⟨parent, access, h.kind?_eq hk, ha⟩

theorem reach?_eq (h : Extended d e) (hr : d.reach? x = some (id, t)) :
    e.reach? x = some (id, t) := by
  obtain ⟨hat, k, hk, ht⟩ := reach?_eq_some_iff.mp hr
  exact reach?_eq_some_iff.mpr ⟨h.at?_eq hat, k, h.kind?_eq hk, ht⟩

theorem hop_eq (h : Extended d e) (hd : d.HasDirectory dir) (hs : step.named? dir = none) :
    e.hop dir step = d.hop dir step := by
  obtain ⟨parent, access, hk⟩ := hasDirectory_iff_directory.mp hd
  rw [hop_of_named?_eq_none h.left hk hs, hop_of_named?_eq_none h.right (h.kind?_eq hk) hs]

theorem hop (h : Extended d e) {found : NodeId × Option Path} (hop : d.hop dir step = .ok found) :
    e.hop dir step = .ok found := by
  by_cases hs : step.named? dir = none
  · rw [h.hop_eq (hasDirectory_of_hop hop) hs, hop]
  · cases step with
    | name bytes =>
      obtain ⟨id, t⟩ := found
      obtain ⟨hsearch, hn, hr⟩ := hop_name_eq_ok_iff.mp hop
      exact hop_name_eq_ok_iff.mpr ⟨h.searchable hsearch, hn, h.reach?_eq hr⟩
    | _ => exact (hs rfl).elim

theorem walks (h : Extended d e) (hw : d.Walks dir steps es dest n) :
    e.Walks dir steps es dest n := by
  induction hw with
  | done => exact .done
  | on hop _ ih => exact .on (h.hop hop) ih
  | follow hop _ ih => exact .follow (h.hop hop) ih

/-- Where no link is to be followed, a place is found again: what now stands there does
not matter. -/
theorem stops (h : Extended d e) (hs : d.Stops false slash dir step) :
    e.Stops false slash dir step := by
  by_cases hstep : step.named? dir = none
  · have hop := h.hop_eq hs.hasDirectory hstep
    exact ⟨hop ▸ hs.isDirectory, hop ▸ hs.isSearchable, fun _ => .inl rfl⟩
  · cases step with
    | name bytes =>
      exact stops_name_iff.mpr ⟨h.searchable (stops_name_iff.mp hs).1, fun _ => .inl rfl⟩
    | _ => exact (hstep rfl).elim

theorem leads (h : Extended d e) (hl : d.Leads false dir steps slash es place n) :
    e.Leads false dir steps slash es place n := by
  cases hl with
  | root => exact .root
  | stop hw hs => exact .stop (h.walks hw) (h.stops hs)
  | follow hf => contradiction

theorem named?_eq (h : Extended d e) (hp : d.named? p = some x) : e.named? p = some x := by
  obtain ⟨hn, es, slash, hv, n, hle, hl⟩ := named?_eq_some_iff.mp hp
  exact named?_eq_some_iff.mpr ⟨hn, es, slash, hv, n, hle, h.working ▸ h.leads hl⟩

theorem resolve_eq (h : Extended d e) (hp : d.resolve p = .ok id) : e.resolve p = .ok id := by
  obtain ⟨hv, es, n, hn, hw⟩ := resolve_eq_ok_iff.mp hp
  exact resolve_eq_ok_iff.mpr ⟨hv, es, n, hn, h.working ▸ h.walks hw⟩

theorem content?_eq (h : Extended d e) (hc : d.content? p = some c) : e.content? p = some c := by
  rw [Disk.content?_eq h.left, Option.bind_eq_some_iff] at hc
  obtain ⟨y, ht, hc⟩ := hc
  obtain ⟨k, hk, hc⟩ := Option.bind_eq_some_iff.mp hc
  obtain ⟨id, hat, hk⟩ := kindAt?_eq_some_iff.mp hk
  have hleaf : k.isDirectory = false ∧ k.target? = none := by
    cases k <;> first | exact ⟨rfl, rfl⟩ | contradiction
  have hr := reach?_eq_some_iff.mpr ⟨hat, k, hk, hleaf.2⟩
  have hd := not_hasDirectory_of_kind? (h.kind?_eq hk) hleaf.1
  have hres := h.resolve_eq ((resolve_iff_target? h.left
    (not_hasDirectory_of_kind? hk hleaf.1)).mpr ⟨y, ht, hr⟩)
  obtain ⟨z, htz, hz⟩ := (resolve_iff_target? h.right hd).mp hres
  rw [content?_of_at? h.right htz (reach?_eq_some_iff.mp hz).1 (h.kind?_eq hk), hc]

end Extended

/-! ### Steps of growth -/

namespace Grown

theorem refl (ps : List Path) (hw : d.WellFormed) : Grown ps d d :=
  ⟨⟨hw, hw, rfl, id, id⟩, fun hnone hsome => by rw [hnone] at hsome; contradiction⟩

theorem mono (h : Grown ps d e) (hps : ps ⊆ qs) : Grown qs d e where
  toExtended := h.toExtended
  new hnone hsome := by
    obtain ⟨hfresh, hk, p, hp, hx⟩ := h.new hnone hsome
    exact ⟨hfresh, hk, p, hps hp, hx⟩

theorem trans (h : Grown ps d e) (h' : Grown ps e f) : Grown ps d f where
  toExtended := h.toExtended.trans h'.toExtended
  new {x id} hnone hsome := by
    cases hat : e.at? x with
    | some i =>
      cases (h'.at?_eq hat).symm.trans hsome
      obtain ⟨hfresh, hk, p, hp, hx⟩ := h.new hnone hat
      exact ⟨hfresh, h'.kind?_eq hk, p, hp, h'.named?_eq hx⟩
    | none =>
      obtain ⟨hfresh, hk, p, hp, hx⟩ := h'.new hat hsome
      exact ⟨h.kind?_eq_none hfresh, hk, p, hp, hx⟩

end Grown

theorem Makes.grown (hw : d.WellFormed) (h : d.Makes p d') : Grown [p] d d' := by
  have hw' := h.wellFormed hw
  obtain @⟨x, hp, hnone, hc⟩ := h
  have hfresh := kind?_eq_none_of_size_le (d := d) (Nat.le_refl d.nodes.size)
  have hkind := kind?_addEntry d x.directory x.name (.directory x.directory .empty)
  have hat := at?_addEntry (n := .directory x.directory .empty) hc.searchable.hasDirectory
    (by rintro _ _ ⟨⟩; rfl)
  have hextended : Extended d (d.addEntry x.directory x.name (.directory x.directory .empty)) := by
    refine ⟨hw, hw', (working_addEntry d _ _ _).symm, ?_, ?_⟩
    · intro id k hk
      rw [hkind, Function.update_of_ne, hk]
      rintro rfl
      rw [hfresh] at hk
      contradiction
    · intro y id hy
      rw [hat, Function.update_of_ne, hy]
      rintro rfl
      rw [hnone] at hy
      contradiction
  refine ⟨hextended, ?_⟩
  intro y id hy hy'
  by_cases hyx : y = x
  · subst hyx
    rw [hat, Function.update_self] at hy'
    cases hy'
    exact ⟨hfresh, by rw [hkind, Function.update_self]; rfl, p, List.mem_singleton.mpr rfl,
      hextended.named?_eq hp⟩
  · rw [hat, Function.update_of_ne hyx, hy] at hy'
    contradiction

/-! ### The tree of a grown disk -/

namespace Grown

end Grown

end Disk

end IconPainter
