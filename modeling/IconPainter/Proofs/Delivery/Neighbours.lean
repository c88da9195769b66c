import IconPainter.Proofs.Delivery.Places

/-! # A path and its staging path

The staging path of a path that names an entry names the entry beside it, on the
same way. So when the one is moved to the other, the path leads where the
staging path led before, unless its entry was needed on that way.
-/

namespace IconPainter

open Delivery

/-- The entry of the staging file for an entry. -/
def Entry.staging (e : Entry) : Entry := ⟨e.directory, stagingName e.name⟩

namespace Entry

theorem staging_ne (e : Entry) : e.staging ≠ e := fun h =>
  stagingName_ne e.name (congrArg Entry.name h)

theorem staging_injective {e e' : Entry} (h : e.staging = e'.staging) : e = e' := by
  obtain ⟨directory, name⟩ := e
  obtain ⟨directory', name'⟩ := e'
  simp only [staging, Entry.mk.injEq] at h
  obtain ⟨rfl, hn⟩ := h
  rw [stagingName_injective hn]

end Entry

namespace Disk

variable {d e f : Disk} {s t x : Entry} {file id dir dest : NodeId} {c bytes : Bytes} {p q : Path}
  {es es' : List Entry} {place : Place} {final slash : Bool} {n : Nat} {steps : List Step}
  {target : Path}

/-- A path goes by the entries `es` to the directory in which it names the entry `x`. -/
structure Approaches (d : Disk) (p : Path) (es : List Entry) (x : Entry) (n : Nat) : Prop where
  valid : p.validate = .ok ()
  le : n ≤ maxLinks
  searchable : d.Searchable x.directory
  walks : ∃ init, p.steps = init ++ [.name x.name] ∧
    d.Walks (start d.working p) init es x.directory n

def Follows (d : Disk) (x : Entry) (target : Path) (es : List Entry) (t : Entry) (n : Nat) : Prop :=
  (∃ id, d.reach? x = some (id, some target)) ∧
    d.Leads true (start x.directory target) target.steps target.endsInSlash es
      ⟨t.directory, some (.name t.name), false⟩ n

theorem finds_false_iff : d.Finds false p es ⟨x.directory, some (.name x.name), slash⟩ ↔
    p.endsInSlash = slash ∧ ∃ n, d.Approaches p es x n := by
  constructor
  · intro h
    refine ⟨h.slash_eq.symm, ?_⟩
    obtain ⟨hv, n, hn, hl⟩ := h
    refine ⟨n, hv, hn, hl.searchable rfl, ?_⟩
    generalize hs : p.steps = steps, hd : start d.working p = dir at hl ⊢
    rcases List.eq_nil_or_concat steps with rfl | ⟨init, last, rfl⟩
    · cases (leads_nil hl).2.1
    · rw [List.concat_eq_append] at hl
      obtain ⟨dest, es₁, n₁, hw, ⟨-, rfl, hplace, rfl⟩ | ⟨hf, -⟩⟩ := leads_concat_iff.mp hl
      · cases hplace
        exact ⟨init, List.concat_eq_append .., hw⟩
      · contradiction
  · rintro ⟨rfl, n, hv, hn, hsearch, init, hs, hw⟩
    refine ⟨hv, n, hn, ?_⟩
    rw [hs]
    exact .stop hw (stops_name_iff.mpr ⟨hsearch, fun _ => .inl rfl⟩)

theorem finds_true_iff (hw : d.WellFormed) :
    d.Finds true p es ⟨t.directory, some (.name t.name), false⟩ ↔
      p.endsInSlash = false ∧ ∃ x es₁ n₁, d.Approaches p es₁ x n₁ ∧
        ((x = t ∧ es = es₁ ∧
            ∀ id target, d.hop x.directory (.name x.name) ≠ .ok (id, some target)) ∨
        ∃ target es₂ n₂, d.Follows x target es₂ t n₂ ∧ x.name.length ≤ maxName ∧
          es = es₁ ++ x :: es₂ ∧ n₁ + (n₂ + 1) ≤ maxLinks) := by
  constructor
  · rintro ⟨hv, n, hn, hl⟩
    generalize hs : p.steps = steps, hd : start d.working p = dir at hl
    rcases List.eq_nil_or_concat steps with rfl | ⟨init, last, rfl⟩
    · cases (leads_nil hl).2.1
    subst hd
    rw [List.concat_eq_append] at hl hs
    obtain ⟨dest, es₁, n₁, hwalk, ⟨hstop, rfl, hplace, rfl⟩ |
      ⟨-, hslash, id, target, es₂, n₂, hop, hlast, rfl, rfl⟩⟩ := leads_concat_iff.mp hl
    · simp only [Place.mk.injEq, Option.some.injEq] at hplace
      obtain ⟨rfl, rfl, hslash⟩ := hplace
      refine ⟨hslash.symm, t, es, n, ⟨hv, hn, (stops_name_iff.mp hstop).1, init, hs, hwalk⟩,
        .inl ⟨rfl, rfl, ?_⟩⟩
      intro id target hop
      rcases hstop.isLast hop with h | h
      · contradiction
      · exact absurd (hslash.trans h) Bool.false_ne_true
    · obtain ⟨name, rfl⟩ := hop_eq_name hw hop (.inl rfl)
      obtain ⟨hsearch, hname, hr⟩ := hop_name_eq_ok_iff.mp hop
      exact ⟨hslash, ⟨dest, name⟩, es₁, n₁, ⟨hv, by omega, hsearch, init, hs, hwalk⟩,
        .inr ⟨target, es₂, n₂, ⟨⟨id, hr⟩, hlast⟩, hname, rfl, hn⟩⟩
  · rintro ⟨hslash, x, es₁, n₁, ⟨hv, hn, hsearch, init, hs, hwalk⟩, ⟨rfl, rfl, hlink⟩ |
      ⟨target, es₂, n₂, ⟨⟨id, hr⟩, hlast⟩, hname, rfl, hle⟩⟩
    · refine ⟨hv, n₁, hn, ?_⟩
      rw [hs, hslash]
      exact .stop hwalk (stops_name_iff.mpr ⟨hsearch, fun hop => (hlink _ _ hop).elim⟩)
    · refine ⟨hv, _, hle, ?_⟩
      rw [hs, hslash]
      exact .follow rfl hwalk (hop_name_eq_ok_iff.mpr ⟨hsearch, hname, hr⟩) hlast

theorem Approaches.unique {n' : Nat} {x' : Entry} (h : d.Approaches p es x n)
    (h' : d.Approaches p es' x' n') : es = es' ∧ x = x' ∧ n = n' := by
  obtain ⟨-, -, -, init, hs, hw⟩ := h
  obtain ⟨-, -, -, init', hs', hw'⟩ := h'
  obtain ⟨rfl, hlast⟩ := List.append_inj' (hs.symm.trans hs') rfl
  obtain ⟨rfl, hdir, rfl⟩ := hw.unique hw'
  cases x
  cases x'
  simp_all

theorem names_iff_approaches : d.Names p x ↔
    p.endsInSlash = false ∧ x.name.length ≤ maxName ∧ ∃ es n, d.Approaches p es x n := by
  rw [names_iff_locate, locate_eq_ok_iff]
  simp only [finds_false_iff]
  constructor
  · rintro ⟨hn, es, hs, n, ha⟩
    exact ⟨hs, hn, es, n, ha⟩
  · rintro ⟨hs, hn, es, n, ha⟩
    exact ⟨hn, es, hs, n, ha⟩

/-! ### The entry beside -/

theorem Approaches.staging (h : d.Approaches p es x n)
    (hv : (stagingPath p).validate = .ok ()) :
    d.Approaches (stagingPath p) es x.staging n := by
  obtain ⟨-, hn, hsearch, init, hs, hw⟩ := h
  obtain ⟨front, heres, rfl, hheres, hsteps, habs⟩ := steps_stagingPath hs
  refine ⟨hv, hn, hsearch, front, hsteps, ?_⟩
  obtain ⟨mid, es₁, es₂, n₁, n₂, h₁, h₂, rfl, rfl⟩ := hw.split
  obtain ⟨rfl, hdir, rfl⟩ := h₂.of_heres hheres
  rw [List.append_nil, show x.staging.directory = mid from hdir]
  simpa only [start, habs, Nat.add_zero] using h₁

theorem named?_iff_approaches : d.named? p = some x ↔
    x.name.length ≤ maxName ∧ ∃ es n, d.Approaches p es x n := by
  rw [named?_eq_some_iff]
  simp only [finds_false_iff]
  constructor
  · rintro ⟨hn, es, slash, -, n, ha⟩
    exact ⟨hn, es, n, ha⟩
  · rintro ⟨hn, es, n, ha⟩
    exact ⟨hn, es, _, rfl, n, ha⟩

theorem names_stagingPath_iff : d.Names (stagingPath p) s ↔ d.named? (stagingPath p) = some s := by
  simp [Names, endsInSlash_stagingPath]

/-- The staging path of a path names the entry beside the one that the path names. -/
theorem named?_stagingPath (hp : d.named? p = some x) (hs : d.named? (stagingPath p) = some s) :
    s = x.staging := by
  obtain ⟨-, es, n, ha⟩ := named?_iff_approaches.mp hp
  obtain ⟨-, es', n', ha'⟩ := named?_iff_approaches.mp hs
  exact (ha'.unique (ha.staging ha'.valid)).2.1

theorem named?_ne_stagingPath (hp : d.named? p = some x) (hs : d.named? (stagingPath p) = some s) :
    x ≠ s := by
  rintro rfl
  exact x.staging_ne (named?_stagingPath hp hs).symm

theorem cleared_cases (d : Disk) (p : Path) :
    (∃ s, d.named? (stagingPath p) = some s ∧ d.HasLeaf s ∧ d.MayChange s.directory ∧
        d.cleared (stagingPath p) = d.eraseEntry s.directory s.name) ∨
      (d.cleared (stagingPath p) = d ∧
        ∀ s, d.named? (stagingPath p) = some s → d.HasLeaf s → ¬ d.MayChange s.directory) := by
  by_cases h : ∃ s, d.named? (stagingPath p) = some s ∧ d.HasLeaf s ∧ d.MayChange s.directory
  · obtain ⟨s, hs, hleaf, hchange⟩ := h
    exact .inl ⟨s, hs, hleaf, hchange,
      cleared_of_removes (.mk (names_stagingPath_iff.mpr hs) hleaf hchange)⟩
  · refine .inr ⟨cleared_of_not_removes ?_, fun s hs hleaf hchange => h ⟨s, hs, hleaf, hchange⟩⟩
    rintro d' ⟨hn, hleaf, hchange⟩
    exact h ⟨_, hn.1, hleaf, hchange⟩

theorem exists_names_of_target? (hw : d.WellFormed) (h : d.target? p = some t) :
    ∃ x, d.Names p x := by
  obtain ⟨hn, es, hf⟩ := target?_eq_some_iff.mp h
  obtain ⟨hs, x, es₁, n₁, ha, ⟨rfl, -, -⟩ | ⟨_, _, _, -, hx, -⟩⟩ := (finds_true_iff hw).mp hf
  · exact ⟨x, names_iff_approaches.mpr ⟨hs, hn, _, _, ha⟩⟩
  · exact ⟨x, names_iff_approaches.mpr ⟨hs, hx, _, _, ha⟩⟩

/-- A path leads to the entry that it names, or there stands a link that leads to another. -/
theorem target?_cases (hw : d.WellFormed) (ht : d.target? p = some t) (hx : d.Names p x) :
    ∃ es₁ n₁, d.Approaches p es₁ x n₁ ∧
      ((x = t ∧ (∀ id target, d.reach? x ≠ some (id, some target)) ∧
          ∀ y, d.Passes true p y ↔ y ∈ es₁) ∨
        ∃ target es₂ n₂, d.Follows x target es₂ t n₂ ∧ n₁ + (n₂ + 1) ≤ maxLinks ∧
          ∀ y, d.Passes true p y ↔ y ∈ es₁ ∨ y = x ∨ y ∈ es₂) := by
  obtain ⟨hn, es, hf⟩ := target?_eq_some_iff.mp ht
  obtain ⟨-, hxn, es', n', hx⟩ := names_iff_approaches.mp hx
  obtain ⟨hs, y, es₁, n₁, ha, h⟩ := (finds_true_iff hw).mp hf
  obtain ⟨rfl, rfl, rfl⟩ := ha.unique hx
  refine ⟨es₁, n₁, ha, ?_⟩
  rcases h with ⟨rfl, rfl, hlink⟩ | ⟨target, es₂, n₂, hfollows, -, rfl, hle⟩
  · refine .inl ⟨rfl, ?_, fun y => hf.passes_iff⟩
    intro id target hr
    exact hlink id target (hop_name_eq_ok_iff.mpr ⟨ha.searchable, hxn, hr⟩)
  · exact .inr ⟨target, es₂, n₂, hfollows, hle, fun y => by simp [hf.passes_iff]⟩

theorem Approaches.passes_of_target? (hw : d.WellFormed) (ha : d.Approaches p es x n)
    (ht : d.target? p = some t) (hx : d.Names p x) {y : Entry} (hy : y ∈ es) :
    d.Passes true p y := by
  obtain ⟨es₁, n₁, ha₁, ⟨-, -, hpass⟩ | ⟨target, es₂, n₂, -, -, hpass⟩⟩ := target?_cases hw ht hx
  · obtain ⟨rfl, -⟩ := ha.unique ha₁
    exact (hpass y).mpr hy
  · obtain ⟨rfl, -⟩ := ha.unique ha₁
    exact (hpass y).mpr (.inl hy)

theorem target?_of_names (hw : d.WellFormed) (hx : d.Names p x)
    (hlink : ∀ id target, d.reach? x ≠ some (id, some target)) : d.target? p = some x := by
  obtain ⟨hslash, hn, es, n, ha⟩ := names_iff_approaches.mp hx
  refine target?_eq_some_iff.mpr ⟨hn, es, (finds_true_iff hw).mpr ⟨hslash, x, es, n, ha,
    .inl ⟨rfl, rfl, ?_⟩⟩⟩
  intro id target hop
  exact hlink id target (hop_name_eq_ok_iff.mp hop).2.2

theorem content?_of_named? (hw : d.WellFormed) (hx : d.named? p = some x)
    (hlink : ∀ id target, d.reach? x ≠ some (id, some target)) :
    d.content? p = if p.endsInSlash then none else d.contentAt? x := by
  rw [content?_eq hw]
  cases hslash : p.endsInSlash with
  | false =>
    rw [target?_of_names hw ⟨hx, hslash⟩ hlink]
    rfl
  | true =>
    cases ht : d.target? p with
    | none => rfl
    | some t =>
      obtain ⟨y, -, hy⟩ := exists_names_of_target? hw ht
      cases hslash.symm.trans hy

theorem Approaches.not_mem (hw : d.WellFormed) (ha : d.Approaches p es x n)
    (hx : x.name.length ≤ maxName) (ht : d.target? p = some t)
    (hd : ∀ id, d.at? t = some id → ¬ d.HasDirectory id) : x ∉ es := by
  intro hmem
  obtain ⟨hn, es', hf⟩ := target?_eq_some_iff.mp ht
  obtain ⟨hs, y, es₁, n₁, ha', h⟩ := (finds_true_iff hw).mp hf
  obtain ⟨rfl, rfl, rfl⟩ := ha.unique ha'
  obtain ⟨-, -, hsearch, init, -, hwalk⟩ := ha
  obtain ⟨id, t', hr, hpass⟩ := passable_iff.mp (hwalk.passable hsearch.hasDirectory hmem)
  rcases h with ⟨rfl, rfl, hlink⟩ | ⟨target, es₂, n₂, ⟨⟨id', hr'⟩, hl⟩, -⟩
  · cases t' with
    | some target => exact hlink id target (hop_name_eq_ok_iff.mpr ⟨hsearch, hx, hr⟩)
    | none =>
      rcases hpass with hpass | hpass
      · contradiction
      · exact hd id (reach?_eq_some_iff.mp hr).1 hpass
  · obtain ⟨es'', dest, n'', -, hdest, hw'⟩ := hwalk.passes hsearch.hasDirectory hmem hr'
    have hop := hl.hop_of_walks hw' rfl rfl
    exact hd dest (reach?_eq_some_iff.mp (hop_name_eq_ok_iff.mp hop).2.2).1 hdest

end Disk

end IconPainter
