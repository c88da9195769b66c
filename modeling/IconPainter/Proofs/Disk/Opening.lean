import IconPainter.Proofs.Disk.Passing

/-! # Opening a path

A path names an entry, and leads to another if a link stands there. What is read
from the path is what that other entry holds.
-/

namespace IconPainter

namespace Disk

variable {a b d : Disk} {dir id dest : NodeId} {step : Step} {steps : List Step}
  {es es' : List Entry} {n : Nat} {final slash : Bool} {place place' : Place}
  {e : Entry} {p : Path}

/-- The way to the place of a path comes by the entries `es`. -/
def Finds (d : Disk) (final : Bool) (p : Path) (es : List Entry) (place : Place) : Prop :=
  p.validate = .ok () ∧ ∃ n, n ≤ maxLinks ∧
    d.Leads final (start d.working p) p.steps p.endsInSlash es place n

/-- The way to the place of a path comes by an entry. -/
def Passes (d : Disk) (final : Bool) (p : Path) (e : Entry) : Prop :=
  ∃ es place, d.Finds final p es place ∧ e ∈ es

/-- The entry that a path names. -/
def named? (d : Disk) (p : Path) : Option Entry :=
  match d.locate false p with
  | .ok place => place.named?.filter (·.name.length ≤ maxName)
  | .error _ => none

/-- The entry that a path leads to through all links. -/
def target? (d : Disk) (p : Path) : Option Entry :=
  match d.locate true p with
  | .ok place => if place.slash then none else place.named?.filter (·.name.length ≤ maxName)
  | .error _ => none

def contentAt? (d : Disk) (e : Entry) : Option Bytes := (d.kindAt? e).bind Kind.content?

/-- What opening a path yields, if it can be opened. -/
def content? (d : Disk) (p : Path) : Option Bytes := (d.read p).toOption

theorem locate_eq_ok_iff : d.locate final p = .ok place ↔ ∃ es, d.Finds final p es place := by
  simp only [locate, Finds]
  cases hv : p.validate with
  | error e => simp
  | ok u =>
    simp only [locateFrom_eq_ok_iff, true_and]

theorem Finds.unique (h : d.Finds final p es place) (h' : d.Finds final p es' place') :
    es = es' ∧ place = place' := by
  obtain ⟨-, _, -, hl⟩ := h
  obtain ⟨-, _, -, hl'⟩ := h'
  obtain ⟨rfl, rfl, -⟩ := hl.unique hl'
  exact ⟨rfl, rfl⟩

theorem Finds.passes_iff (h : d.Finds final p es place) : d.Passes final p e ↔ e ∈ es := by
  constructor
  · rintro ⟨es', place', h', he⟩
    obtain ⟨rfl, -⟩ := h.unique h'
    exact he
  · exact fun he => ⟨es, place, h, he⟩

theorem Place.named?_eq_some_iff :
    place.named? = some e ↔ place = ⟨e.directory, some (.name e.name), place.slash⟩ := by
  obtain ⟨directory, _ | step, slash⟩ := place
  · simp [Place.named?]
  · obtain ⟨directory', name⟩ := e
    cases step <;> simp [Place.named?, Step.named?]

theorem named?_eq_some_iff : d.named? p = some e ↔ e.name.length ≤ maxName ∧
    ∃ es slash, d.Finds false p es ⟨e.directory, some (.name e.name), slash⟩ := by
  unfold named?
  constructor
  · intro h
    split at h
    · rename_i place hl
      obtain ⟨es, hf⟩ := locate_eq_ok_iff.mp hl
      obtain ⟨he, hn⟩ := Option.filter_eq_some_iff.mp h
      rw [Place.named?_eq_some_iff.mp he] at hf
      exact ⟨by simpa using hn, es, _, hf⟩
    · contradiction
  · rintro ⟨hn, es, slash, hf⟩
    rw [locate_eq_ok_iff.mpr ⟨es, hf⟩]
    exact Option.filter_eq_some_iff.mpr ⟨rfl, by simpa using hn⟩

theorem target?_eq_some_iff : d.target? p = some e ↔ e.name.length ≤ maxName ∧
    ∃ es, d.Finds true p es ⟨e.directory, some (.name e.name), false⟩ := by
  unfold target?
  constructor
  · intro h
    split at h
    · rename_i place hl
      obtain ⟨es, hf⟩ := locate_eq_ok_iff.mp hl
      split at h
      · contradiction
      · rename_i hs
        obtain ⟨he, hn⟩ := Option.filter_eq_some_iff.mp h
        rw [Place.named?_eq_some_iff.mp he, Bool.eq_false_of_not_eq_true hs] at hf
        exact ⟨by simpa using hn, es, hf⟩
    · contradiction
  · rintro ⟨hn, es, hf⟩
    rw [locate_eq_ok_iff.mpr ⟨es, hf⟩]
    exact (if_neg Bool.false_ne_true).trans
      (Option.filter_eq_some_iff.mpr ⟨rfl, by simpa using hn⟩)

/-! ### Reading -/

theorem Leads.walks (h : d.Leads true dir steps slash es place n)
    (hp : place = ⟨e.directory, some (.name e.name), false⟩) (hn : e.name.length ≤ maxName)
    (hr : d.reach? e = some (id, none)) :
    ∃ es', d.Walks dir (steps ++ Step.ending slash) es' id n := by
  generalize hf : true = final at h
  induction h with
  | root => simp at hp
  | @stop _ _ _ _ slash _ _ hw hstop =>
    cases hp
    have hop := hop_name_eq_ok_iff.mpr ⟨(stops_name_iff.mp hstop).1, hn, hr⟩
    exact ⟨_, (List.append_nil (_ ++ [_])).symm ▸ hw.append (.on hop .done)⟩
  | follow _ hw hop _ ih =>
    obtain ⟨es', hlast⟩ := ih hp
    rw [← Path.fullSteps_eq, ← List.append_nil (Path.fullSteps _)] at hlast
    exact ⟨_, (List.append_nil (_ ++ [_])).symm ▸ hw.append (.follow hop hlast)⟩

theorem Walks.ending (h : d.Walks dir (Step.ending slash) es dest n) :
    dest = dir ∧ (slash = true → d.HasDirectory dest) := by
  cases slash with
  | false =>
    cases h
    exact ⟨rfl, fun h => by contradiction⟩
  | true =>
    obtain ⟨found, hop⟩ := h.exists_hop
    have hd := hasDirectory_of_hop hop
    cases h with
    | on hop h =>
      cases h
      cases (hop_inside hd).symm.trans hop
      exact ⟨rfl, fun _ => hd⟩
    | follow hop _ => cases (hop_inside hd).symm.trans hop

theorem WellFormed.hasDirectory_start (hw : d.WellFormed) (h : d.HasDirectory dir) (p : Path) :
    d.HasDirectory (start dir p) := by
  unfold start
  split
  · exact hw.hasDirectory_root
  · exact h

theorem Walks.leads (hw : d.WellFormed) (h : d.Walks dir (steps ++ Step.ending slash) es dest n)
    (hdir : d.HasDirectory dir) (hd : ¬ d.HasDirectory dest) :
    ∃ es' e, d.Leads true dir steps slash es' ⟨e.directory, some (.name e.name), false⟩ n ∧
      e.name.length ≤ maxName ∧ d.reach? e = some (dest, none) := by
  induction n using Nat.strongRecOn generalizing dir steps slash es with
  | ind n ih =>
  by_cases hs : steps = []
  · subst hs
    obtain ⟨rfl, -⟩ := h.ending
    exact (hd hdir).elim
  obtain ⟨init, last, rfl⟩ : ∃ init last, steps = init ++ [last] :=
    ⟨_, _, (List.dropLast_concat_getLast hs).symm⟩
  cases slash with
  | true =>
    obtain ⟨mid, es₁, es₂, n₁, n₂, -, h₂, -, -⟩ := h.split
    exact (hd (h₂.ending.2 rfl)).elim
  | false =>
    rw [List.append_assoc] at h
    obtain ⟨mid, es₁, es₂, n₁, n₂, h₁, h₂, rfl, rfl⟩ := h.split
    obtain ⟨found, hop⟩ := h₂.exists_hop
    have hmid := hasDirectory_of_hop hop
    cases h₂ with
    | on hop hlast =>
      cases hlast
      obtain ⟨name, rfl⟩ := hop_eq_name hw hop (.inr hd)
      obtain ⟨hsearch, hn, hr⟩ := hop_name_eq_ok_iff.mp hop
      refine ⟨es₁, ⟨mid, name⟩, .stop h₁ (stops_name_iff.mpr ⟨hsearch, ?_⟩), hn, hr⟩
      intro id target hop'
      cases hop.symm.trans hop'
    | @follow _ _ _ _ target _ _ n₂ hop hlast =>
      have htarget : d.Walks (start mid target) (target.steps ++ Step.ending target.endsInSlash)
          _ dest n₂ := (List.append_nil target.fullSteps) ▸ hlast
      obtain ⟨es', e, hl, hn, hr⟩ :=
        ih n₂ (by omega) htarget (hw.hasDirectory_start hmid target)
      exact ⟨_, e, .follow rfl h₁ hop hl, hn, hr⟩

theorem kindAt?_eq_some_iff {k : Kind} :
    d.kindAt? e = some k ↔ ∃ id, d.at? e = some id ∧ d.kind? id = some k := by
  simp only [kindAt?, Option.bind_eq_some_iff]

theorem resolve_eq_ok_iff : d.resolve p = .ok id ↔ p.validate = .ok () ∧
    ∃ es n, n ≤ maxLinks ∧ d.Walks (start d.working p) p.fullSteps es id n := by
  unfold resolve
  cases p.validate with
  | error e => simp
  | ok u => simp only [walk_eq_ok_iff, true_and]

theorem exists_hop_of_resolve {init : List Step} {last : Step} (hs : p.steps = init ++ [last])
    (h : d.resolve p = .ok id) : p.validate = .ok () ∧ ∃ mid es n found, n ≤ maxLinks ∧
      d.Walks (start d.working p) init es mid n ∧ d.hop mid last = .ok found := by
  obtain ⟨hv, es, n, hn, hw⟩ := resolve_eq_ok_iff.mp h
  rw [Path.fullSteps_eq, hs, List.append_assoc] at hw
  obtain ⟨mid, es₁, es₂, n₁, n₂, h₁, h₂, -, rfl⟩ := hw.split
  obtain ⟨found, hop⟩ := h₂.exists_hop
  exact ⟨hv, mid, es₁, n₁, found, by omega, h₁, hop⟩

theorem resolve_iff_target? (hw : d.WellFormed) (hd : ¬ d.HasDirectory id) :
    d.resolve p = .ok id ↔ ∃ e, d.target? p = some e ∧ d.reach? e = some (id, none) := by
  rw [resolve_eq_ok_iff]
  constructor
  · rintro ⟨hv, es, n, hn, h⟩
    obtain ⟨es', e, hl, hname, hr⟩ :=
      Walks.leads hw h (hw.hasDirectory_start hw.hasDirectory_working p) hd
    exact ⟨e, target?_eq_some_iff.mpr ⟨hname, es', hv, n, hn, hl⟩, hr⟩
  · rintro ⟨e, ht, hr⟩
    obtain ⟨hname, es, hv, n, hn, hl⟩ := target?_eq_some_iff.mp ht
    obtain ⟨es', h⟩ := hl.walks rfl hname hr
    exact ⟨hv, es', n, hn, h⟩

theorem content?_eq_some_iff {c : Bytes} : d.content? p = some c ↔
    ∃ id node, d.resolve p = .ok id ∧ d.node? id = some node ∧
      ((∃ target, node = .link target ∧ c = []) ∨ node.kind.content? = some c) := by
  unfold content? read stat
  cases d.resolve p with
  | error e => simp [Except.toOption]
  | ok id =>
    cases hn : d.node? id with
    | none => simp [hn, Except.toOption]
    | some node => cases node <;> simp [hn, Except.toOption, Node.kind, Kind.content?, eq_comm]

theorem content?_eq (hw : d.WellFormed) (p : Path) :
    d.content? p = (d.target? p).bind d.contentAt? := by
  ext c
  rw [content?_eq_some_iff, Option.bind_eq_some_iff]
  constructor
  · rintro ⟨id, node, hres, hn, hc⟩
    have hk : d.kind? id = some node.kind := by simp [kind?, hn]
    have hd : ¬ d.HasDirectory id := by
      apply not_hasDirectory_of_kind? hk
      rcases hc with ⟨target, rfl, -⟩ | hc
      · rfl
      · cases node <;> first | rfl | contradiction
    obtain ⟨e, ht, hr⟩ := (resolve_iff_target? hw hd).mp hres
    obtain ⟨hat, k, hk', hkt⟩ := reach?_eq_some_iff.mp hr
    cases hk.symm.trans hk'
    refine ⟨e, ht, Option.bind_eq_some_iff.mpr ⟨_, kindAt?_eq_some_iff.mpr ⟨id, hat, hk⟩, ?_⟩⟩
    rcases hc with ⟨target, rfl, -⟩ | hc
    · contradiction
    · exact hc
  · rintro ⟨e, ht, hc⟩
    obtain ⟨k, hk, hc⟩ := Option.bind_eq_some_iff.mp hc
    obtain ⟨id, hat, hk⟩ := kindAt?_eq_some_iff.mp hk
    have hkd : k.isDirectory = false := by cases k <;> first | rfl | contradiction
    have hkt : k.target? = none := by cases k <;> first | rfl | contradiction
    obtain ⟨node, hn, rfl⟩ := Option.map_eq_some_iff.mp hk
    have hres := (resolve_iff_target? hw (not_hasDirectory_of_kind? hk hkd)).mpr
      ⟨e, ht, reach?_eq_some_iff.mpr ⟨hat, _, hk, hkt⟩⟩
    exact ⟨id, node, hres, hn, .inr hc⟩

theorem contentAt?_of_at?_eq_none (h : d.at? e = none) : d.contentAt? e = none := by
  simp [contentAt?, kindAt?, h]

theorem contentAt?_of_link {target : Path} (hr : d.reach? e = some (id, some target)) :
    d.contentAt? e = none := by
  obtain ⟨hat, k, hk, hkt⟩ := reach?_eq_some_iff.mp hr
  rw [contentAt?, kindAt?_of_at? hat, hk]
  cases k <;> first | rfl | contradiction

theorem content?_of_at? {k : Kind} (hw : d.WellFormed) (ht : d.target? p = some e)
    (hat : d.at? e = some id) (hk : d.kind? id = some k) : d.content? p = k.content? := by
  simp [content?_eq hw, ht, contentAt?, kindAt?, hat, hk]

/-! ### Agreement -/

namespace AgreeOff

variable {X : Set Entry}

theorem finds (h : AgreeOff X a b) (hf : a.Finds final p es place) (hes : ∀ e ∈ es, e ∉ X)
    (hlast : ∀ e ∈ place.named?, e ∈ X → final = true →
      ∀ id target, b.reach? e ≠ some (id, some target)) : b.Finds final p es place := by
  obtain ⟨hv, n, hn, hl⟩ := hf
  exact ⟨hv, n, hn, h.directories.working ▸ h.leads hl hes hlast⟩

end AgreeOff

end Disk

end IconPainter
