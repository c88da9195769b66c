import Mathlib.Data.Set.Defs
import Mathlib.Data.Set.Insert
import IconPainter.Proofs.Disk.Route

/-! # Entries on the way

A walk depends on a disk only through its directories and the entries that are
looked up. So two disks that differ elsewhere have the same walks, and an entry
at which a walk cannot go on is on the way to no place.
-/

namespace IconPainter

def Step.ending (slash : Bool) : List Step := if slash then [.inside] else []

theorem Path.fullSteps_eq (p : Path) : p.fullSteps = p.steps ++ Step.ending p.endsInSlash := rfl

namespace Disk

def Place.named? (place : Place) : Option Entry := place.last.bind (·.named? place.directory)

/-- The node that an entry names, and where it leads if it is a link. -/
def reach? (d : Disk) (e : Entry) : Option (NodeId × Option Path) :=
  (d.at? e).bind fun id => (d.kind? id).map fun k => (id, k.target?)

/-- A walk can go on from what the entry names. -/
def Passable (d : Disk) (e : Entry) : Prop := ∃ k, d.kindAt? e = some k ∧ k.Passable

/-- Names may be looked up in the directory. -/
def Searchable (d : Disk) (dir : NodeId) : Prop :=
  ∃ parent access, d.kind? dir = some (.directory parent access) ∧ access ≠ .list

variable {a b d : Disk} {dir id dest dest' : NodeId} {step : Step} {steps more : List Step}
  {es es' : List Entry} {n n' links : Nat} {final slash : Bool} {place place' : Place}
  {e : Entry} {name : Bytes} {target : Path}

theorem Searchable.hasDirectory (h : d.Searchable dir) : d.HasDirectory dir := by
  obtain ⟨parent, access, hk, -⟩ := h
  exact hasDirectory_iff_directory.mpr ⟨parent, access, hk⟩

theorem reach?_eq_some_iff {t : Option Path} :
    d.reach? e = some (id, t) ↔ d.at? e = some id ∧ ∃ k, d.kind? id = some k ∧ k.target? = t := by
  simp only [reach?, Option.bind_eq_some_iff, Option.map_eq_some_iff, Prod.mk.injEq]
  constructor
  · rintro ⟨i, hi, k, hk, rfl, ht⟩
    exact ⟨hi, k, hk, ht⟩
  · rintro ⟨hi, k, hk, ht⟩
    exact ⟨id, hi, k, hk, rfl, ht⟩

/-! ### Steps -/

theorem hop_of_not_hasDirectory (h : ¬ d.HasDirectory dir) :
    d.hop dir step = .error .notDirectory := by
  rw [hasDirectory_iff] at h
  simp only [hop, take]
  cases hn : d.node? dir with
  | none => rfl
  | some node =>
    cases node with
    | directory parent entries => exact (h (by simp [hn, Node.isDirectory])).elim
    | _ => rfl

theorem hasDirectory_of_hop {found : NodeId × Option Path} (h : d.hop dir step = .ok found) :
    d.HasDirectory dir := by
  by_contra hd
  rw [hop_of_not_hasDirectory hd] at h
  contradiction

theorem node?_of_kind?_directory {parent : NodeId} {access : Access}
    (h : d.kind? dir = some (.directory parent access)) :
    ∃ entries, d.node? dir = some (.directory parent entries) ∧ entries.access = access := by
  obtain ⟨node, hn, hk⟩ := Option.map_eq_some_iff.mp h
  cases node <;> cases hk
  exact ⟨_, hn, rfl⟩

theorem lookup_eq {parent : NodeId} {access : Access}
    (h : d.kind? dir = some (.directory parent access)) (name : Bytes) :
    d.lookup dir name = if access = .list then .error .accessDenied
      else if maxName < name.length then .error .nameTooLong
      else .ok ((d.at? ⟨dir, name⟩).bind fun id => (d.node? id).map (id, ·)) := by
  obtain ⟨entries, hn, rfl⟩ := node?_of_kind?_directory h
  simp only [lookup, hn, at?]

theorem hop_name {parent : NodeId} {access : Access}
    (h : d.kind? dir = some (.directory parent access)) :
    d.hop dir (.name name) = if access = .list then .error .accessDenied
      else if maxName < name.length then .error .nameTooLong
      else match d.reach? ⟨dir, name⟩ with
        | none => .error .noEntry
        | some found => .ok found := by
  have hl := lookup_eq h name
  obtain ⟨entries, hn, rfl⟩ := node?_of_kind?_directory h
  simp only [hop, take, hn, hl, reach?, kind?, Option.map_map]
  by_cases ha : entries.access = .list
  · simp only [ha, if_true]
  by_cases hlen : maxName < name.length
  · simp only [ha, hlen, if_true, if_false]
  simp only [ha, hlen, if_false]
  cases d.at? ⟨dir, name⟩ with
  | none => rfl
  | some id => cases hid : d.node? id <;> simp [hid]

theorem hop_of_named?_eq_none (hw : d.WellFormed) {parent : NodeId} {access : Access}
    (h : d.kind? dir = some (.directory parent access)) (hs : step.named? dir = none) :
    d.hop dir step = if step ≠ .inside ∧ access = .list then .error .accessDenied
      else .ok (if step = .up then parent else dir, none) := by
  obtain ⟨parent', access', hp⟩ := hasDirectory_iff_directory.mp (hw.hasDirectory_parent h)
  obtain ⟨entries, hn, rfl⟩ := node?_of_kind?_directory h
  obtain ⟨entries', hn', rfl⟩ := node?_of_kind?_directory hp
  cases step with
  | name bytes => contradiction
  | here =>
    by_cases ha : entries.access = .list <;> simp [hop, take, hn, ha, Node.kind, Kind.target?]
  | up =>
    by_cases ha : entries.access = .list <;> simp [hop, take, hn, hn', ha, Node.kind, Kind.target?]
  | inside => simp [hop, take, hn, Node.kind, Kind.target?]

theorem hop_here {found : NodeId × Option Path} (h : d.hop dir .here = .ok found) :
    found = (dir, none) := by
  obtain ⟨parent, access, hk⟩ := hasDirectory_iff_directory.mp (by
    by_contra hd
    rw [hop_of_not_hasDirectory hd] at h
    contradiction)
  obtain ⟨entries, hn, -⟩ := node?_of_kind?_directory hk
  by_cases ha : entries.access = .list
  · simp [hop, take, hn, ha] at h
  · simpa [hop, take, hn, ha, Node.kind, Kind.target?, eq_comm] using h

theorem hop_inside (h : d.HasDirectory dir) : d.hop dir .inside = .ok (dir, none) := by
  obtain ⟨parent, access, hk⟩ := hasDirectory_iff_directory.mp h
  obtain ⟨entries, hn, -⟩ := node?_of_kind?_directory hk
  simp [hop, take, hn, Node.kind, Kind.target?]

theorem hop_name_eq_ok_iff {t : Option Path} : d.hop dir (.name name) = .ok (id, t) ↔
    d.Searchable dir ∧ name.length ≤ maxName ∧ d.reach? ⟨dir, name⟩ = some (id, t) := by
  by_cases hd : d.HasDirectory dir
  · obtain ⟨parent, access, hk⟩ := hasDirectory_iff_directory.mp hd
    rw [hop_name hk]
    constructor
    · intro h
      split at h
      · contradiction
      split at h
      · contradiction
      split at h
      · contradiction
      · cases h
        exact ⟨⟨parent, access, hk, ‹_›⟩, Nat.le_of_not_lt ‹_›, ‹_›⟩
    · rintro ⟨⟨parent', access', hk', ha⟩, hn, hr⟩
      cases hk.symm.trans hk'
      rw [if_neg ha, if_neg (Nat.not_lt.mpr hn), hr]
  · rw [hop_of_not_hasDirectory hd]
    constructor
    · intro h
      contradiction
    · rintro ⟨hs, -⟩
      exact (hd hs.hasDirectory).elim

theorem stops_name_iff : d.Stops final slash dir (.name name) ↔
    d.Searchable dir ∧ ∀ {id target}, d.hop dir (.name name) = .ok (id, some target) →
      final = false ∨ slash = true := by
  constructor
  · intro h
    refine ⟨?_, h.isLast⟩
    have hd : d.HasDirectory dir := by
      by_contra hd
      exact h.isDirectory (hop_of_not_hasDirectory hd)
    obtain ⟨parent, access, hk⟩ := hasDirectory_iff_directory.mp hd
    refine ⟨parent, access, hk, ?_⟩
    rintro rfl
    exact h.isSearchable (by rw [hop_name hk, if_pos rfl])
  · rintro ⟨⟨parent, access, hk, ha⟩, hl⟩
    refine ⟨?_, ?_, hl⟩ <;> rw [hop_name hk, if_neg ha]
    · split
      · simp
      · split <;> simp
    · split
      · simp
      · split <;> simp

theorem Stops.hasDirectory (h : d.Stops final slash dir step) : d.HasDirectory dir := by
  by_contra hd
  exact h.isDirectory (hop_of_not_hasDirectory hd)

theorem mem_named?_iff : e ∈ step.named? dir ↔ e.directory = dir ∧ step = .name e.name := by
  obtain ⟨directory, name⟩ := e
  cases step with
  | name bytes => simp [Step.named?, eq_comm]
  | _ => simp [Step.named?]

theorem hop_eq_name (hw : d.WellFormed) (h : d.hop dir step = .ok (id, target?))
    (ht : target?.isSome ∨ ¬ d.HasDirectory id) : ∃ name, step = .name name := by
  have hd := hasDirectory_of_hop h
  obtain ⟨parent, access, hk⟩ := hasDirectory_iff_directory.mp hd
  by_cases hs : step.named? dir = none
  · rw [hop_of_named?_eq_none hw hk hs] at h
    split at h
    · contradiction
    · simp only [Except.ok.injEq, Prod.mk.injEq] at h
      obtain ⟨hid, rfl⟩ := h
      rcases ht with ht | ht
      · contradiction
      · refine (ht ?_).elim
        split at hid
        · exact hid ▸ hw.hasDirectory_parent hk
        · exact hid ▸ hd
  · cases step with
    | name bytes => exact ⟨bytes, rfl⟩
    | _ => exact (hs rfl).elim

/-! ### Agreement -/

/-- The disks differ in no directory, and in no entry that is not in the set. -/
structure AgreeOff (X : Set Entry) (a b : Disk) : Prop where
  left : a.WellFormed
  right : b.WellFormed
  directories : a.SameDirectories b
  reach?_eq : ∀ {e}, e ∉ X → a.reach? e = b.reach? e

namespace AgreeOff

variable {X : Set Entry}

theorem symm (h : AgreeOff X a b) : AgreeOff X b a :=
  ⟨h.right, h.left, h.directories.symm, fun he => (h.reach?_eq he).symm⟩

theorem hop_eq (h : AgreeOff X a b) (hs : ∀ e ∈ step.named? dir, e ∉ X) :
    a.hop dir step = b.hop dir step := by
  by_cases hd : a.HasDirectory dir
  · obtain ⟨parent, access, hk⟩ := hasDirectory_iff_directory.mp hd
    have hk' := h.directories.kind?_iff.mp hk
    by_cases he : step.named? dir = none
    · rw [hop_of_named?_eq_none h.left hk he, hop_of_named?_eq_none h.right hk' he]
    · cases step with
      | name bytes => rw [hop_name hk, hop_name hk', h.reach?_eq (hs _ rfl)]
      | _ => exact (he rfl).elim
  · rw [hop_of_not_hasDirectory hd,
      hop_of_not_hasDirectory (fun hb => hd (h.directories.hasDirectory_iff.mpr hb))]

theorem hop {found : NodeId × Option Path} (h : AgreeOff X a b)
    (hop : a.hop dir step = .ok found) (hs : ∀ e ∈ step.named? dir, e ∉ X) :
    b.hop dir step = .ok found :=
  h.hop_eq hs ▸ hop

theorem searchable_iff (h : AgreeOff X a b) : a.Searchable dir ↔ b.Searchable dir := by
  simp only [Searchable, h.directories.kind?_iff]

theorem walks (h : AgreeOff X a b) (hw : a.Walks dir steps es dest n) (hes : ∀ e ∈ es, e ∉ X) :
    b.Walks dir steps es dest n := by
  induction hw with
  | done => exact .done
  | on hop _ ih =>
    exact .on (h.hop hop fun e he => hes e (List.mem_append_left _ (Option.mem_toList.mpr he)))
      (ih fun e he => hes e (List.mem_append_right _ he))
  | follow hop _ ih =>
    exact .follow (h.hop hop fun e he => hes e (List.mem_append_left _ (Option.mem_toList.mpr he)))
      (ih fun e he => hes e (List.mem_append_right _ he))

theorem stops (h : AgreeOff X a b) (hs : a.Stops final slash dir step)
    (hlast : ∀ e ∈ step.named? dir, e ∈ X → final = true →
      ∀ id target, b.reach? e ≠ some (id, some target)) : b.Stops final slash dir step := by
  by_cases he : ∀ e ∈ step.named? dir, e ∉ X
  · exact ⟨h.hop_eq he ▸ hs.isDirectory, h.hop_eq he ▸ hs.isSearchable, h.hop_eq he ▸ hs.isLast⟩
  · simp only [not_forall, not_not] at he
    obtain ⟨e, he, hX⟩ := he
    obtain ⟨rfl, rfl⟩ := mem_named?_iff.mp he
    refine stops_name_iff.mpr ⟨h.searchable_iff.mp (stops_name_iff.mp hs).1, ?_⟩
    intro id target hop
    obtain ⟨-, -, hr⟩ := hop_name_eq_ok_iff.mp hop
    by_cases hf : final = true
    · exact (hlast e he hX hf _ _ hr).elim
    · exact .inl (by simpa using hf)

theorem leads (h : AgreeOff X a b) (hl : a.Leads final dir steps slash es place n)
    (hes : ∀ e ∈ es, e ∉ X)
    (hlast : ∀ e ∈ place.named?, e ∈ X → final = true →
      ∀ id target, b.reach? e ≠ some (id, some target)) :
    b.Leads final dir steps slash es place n := by
  induction hl with
  | root => exact .root
  | stop hw hstop => exact .stop (h.walks hw hes) (h.stops hstop hlast)
  | follow hf hw hop _ ih =>
    have hright e he : e ∉ X := hes e (List.mem_append_right _ he)
    exact .follow hf (h.walks hw fun e he => hes e (List.mem_append_left _ he))
      (h.hop hop fun e he => hright e (List.mem_append_left _ (Option.mem_toList.mpr he)))
      (ih (fun e he => hright e (List.mem_append_right _ he)) hlast)

end AgreeOff

/-! ### Entries passed -/

theorem passable_iff : d.Passable e ↔
    ∃ id t, d.reach? e = some (id, t) ∧ (t.isSome ∨ d.HasDirectory id) := by
  constructor
  · rintro ⟨k, hk, hp⟩
    obtain ⟨id, hid, hk⟩ := Option.bind_eq_some_iff.mp hk
    refine ⟨id, k.target?, reach?_eq_some_iff.mpr ⟨hid, k, hk, rfl⟩, ?_⟩
    rcases hp with hp | hp
    · exact .inr ⟨k, hk, hp⟩
    · exact .inl hp
  · rintro ⟨id, t, hr, ht⟩
    obtain ⟨hid, k, hk, rfl⟩ := reach?_eq_some_iff.mp hr
    refine ⟨k, Option.bind_eq_some_iff.mpr ⟨id, hid, hk⟩, ?_⟩
    rcases ht with ht | ⟨k', hk', hd⟩
    · exact .inr ht
    · cases hk.symm.trans hk'
      exact .inl hd

theorem reach?_of_hop {found : NodeId × Option Path} (h : d.hop dir step = .ok found)
    (he : e ∈ step.named? dir) : d.reach? e = some found := by
  obtain ⟨rfl, rfl⟩ := mem_named?_iff.mp he
  exact (hop_name_eq_ok_iff.mp h).2.2

theorem Walks.exists_hop (h : d.Walks dir (step :: steps) es dest n) :
    ∃ found, d.hop dir step = .ok found := by
  cases h with
  | on hop _ => exact ⟨_, hop⟩
  | follow hop _ => exact ⟨_, hop⟩

theorem Walks.hasDirectory (h : d.Walks dir steps es dest n) (hd : d.HasDirectory dest) :
    d.HasDirectory dir := by
  cases steps with
  | nil =>
    cases h
    exact hd
  | cons step steps =>
    obtain ⟨found, hop⟩ := h.exists_hop
    exact hasDirectory_of_hop hop

theorem Walks.passable (h : d.Walks dir steps es dest n) (hd : d.HasDirectory dest)
    (he : e ∈ es) : d.Passable e := by
  induction h with
  | done => contradiction
  | on hop hw ih =>
    rcases List.mem_append.mp he with he | he
    · exact passable_iff.mpr ⟨_, _, reach?_of_hop hop (Option.mem_toList.mp he),
        .inr (hw.hasDirectory hd)⟩
    · exact ih hd he
  | follow hop hw ih =>
    rcases List.mem_append.mp he with he | he
    · exact passable_iff.mpr ⟨_, _, reach?_of_hop hop (Option.mem_toList.mp he), .inl rfl⟩
    · exact ih hd he

theorem Leads.passable (h : d.Leads final dir steps slash es place n) (he : e ∈ es) :
    d.Passable e := by
  induction h with
  | root => contradiction
  | stop hw hstop => exact hw.passable hstop.hasDirectory he
  | follow _ hw hop _ ih =>
    simp only [List.mem_append] at he
    rcases he with he | he | he
    · exact hw.passable (hasDirectory_of_hop hop) he
    · exact passable_iff.mpr ⟨_, _, reach?_of_hop hop (Option.mem_toList.mp he), .inl rfl⟩
    · exact ih he

theorem Leads.searchable (h : d.Leads final dir steps slash es place n)
    (he : place.last = some (.name name)) : d.Searchable place.directory := by
  induction h with
  | root => contradiction
  | stop _ hstop =>
    cases he
    exact (stops_name_iff.mp hstop).1
  | follow _ _ _ _ ih => exact ih he

theorem Walks.of_heres (h : d.Walks dir steps es dest n) (hs : ∀ step ∈ steps, step = .here) :
    es = [] ∧ dest = dir ∧ n = 0 := by
  induction h with
  | done => exact ⟨rfl, rfl, rfl⟩
  | on hop _ ih =>
    cases hs _ List.mem_cons_self
    cases hop_here hop
    exact ih fun step h => hs step (List.mem_cons_of_mem _ h)
  | follow hop _ _ =>
    cases hs _ List.mem_cons_self
    cases hop_here hop

theorem Walks.passes (h : d.Walks dir steps es dest n) (hd : d.HasDirectory dest) (he : e ∈ es)
    (hr : d.reach? e = some (id, some target)) : ∃ es' dest' n', n' < n ∧ d.HasDirectory dest' ∧
      d.Walks (start e.directory target) target.fullSteps es' dest' n' := by
  induction h with
  | done => contradiction
  | on hop _ ih =>
    rcases List.mem_append.mp he with he | he
    · cases hr.symm.trans (reach?_of_hop hop (Option.mem_toList.mp he))
    · exact ih hd he
  | follow hop hw ih =>
    rcases List.mem_append.mp he with he | he
    · have he := Option.mem_toList.mp he
      cases hr.symm.trans (reach?_of_hop hop he)
      obtain ⟨rfl, -⟩ := mem_named?_iff.mp he
      obtain ⟨id, es₁, es₂, n₁, n₂, h₁, h₂, -, rfl⟩ := hw.split
      exact ⟨es₁, id, n₁, by omega, h₂.hasDirectory hd, h₁⟩
    · obtain ⟨es', dest', n', hn, h⟩ := ih hd he
      exact ⟨es', dest', n', by omega, h⟩

/-- A link to a directory does not stand on its own way. -/
theorem Walks.not_mem_of_link (hr : d.reach? e = some (id, some target))
    (h : d.Walks (start e.directory target) target.fullSteps es dest n)
    (hd : d.HasDirectory dest) : e ∉ es := by
  intro he
  obtain ⟨es', dest', n', hn, -, h'⟩ := h.passes hd he hr
  obtain ⟨-, -, rfl⟩ := h.unique h'
  exact Nat.lt_irrefl _ hn

theorem Leads.passes (h : d.Leads final dir steps slash es place n) (he : e ∈ es)
    (hr : d.reach? e = some (id, some target)) :
    (∃ es' dest' n', n' < n ∧ d.HasDirectory dest' ∧
      d.Walks (start e.directory target) target.fullSteps es' dest' n') ∨
    ∃ es' n', n' < n ∧
      d.Leads final (start e.directory target) target.steps target.endsInSlash es' place n' := by
  induction h with
  | root => contradiction
  | stop hw hstop => exact .inl (hw.passes hstop.hasDirectory he hr)
  | @follow _ _ _ _ _ _ _ es₂ _ n₁ n₂ _ hw hop hl ih =>
    simp only [List.mem_append] at he
    rcases he with he | he | he
    · obtain ⟨es', dest', n', hn, h⟩ := hw.passes (hasDirectory_of_hop hop) he hr
      exact .inl ⟨es', dest', n', by omega, h⟩
    · have he := Option.mem_toList.mp he
      cases hr.symm.trans (reach?_of_hop hop he)
      obtain ⟨rfl, -⟩ := mem_named?_iff.mp he
      exact .inr ⟨es₂, n₂, by omega, hl⟩
    · rcases ih he with ⟨es', dest', n', hn, h⟩ | ⟨es', n', hn, h⟩
      · exact .inl ⟨es', dest', n', by omega, h⟩
      · exact .inr ⟨es', n', by omega, h⟩

namespace Leads

theorem unique (h : d.Leads final dir steps slash es place n)
    (h' : d.Leads final dir steps slash es' place' n') : es = es' ∧ place = place' ∧ n = n' := by
  induction h generalizing es' place' n' with
  | root =>
    obtain ⟨rfl, rfl, rfl⟩ := leads_nil h'
    exact ⟨rfl, rfl, rfl⟩
  | stop hw hstop =>
    obtain ⟨dest', es₁, n₁, hw', ⟨-, rfl, rfl, rfl⟩ |
      ⟨hf, hslash, _, _, _, _, hop', -⟩⟩ := leads_concat_iff.mp h'
    · obtain ⟨rfl, rfl, rfl⟩ := hw.unique hw'
      exact ⟨rfl, rfl, rfl⟩
    · obtain ⟨rfl, rfl, rfl⟩ := hw.unique hw'
      rcases hstop.isLast hop' with h | h
      · exact absurd (h.symm.trans hf) Bool.false_ne_true
      · exact absurd (hslash.symm.trans h) Bool.false_ne_true
  | follow hf hw hop hl ih =>
    obtain ⟨dest', es₁, n₁, hw', ⟨hstop', rfl, rfl, rfl⟩ |
      ⟨-, -, _, _, _, _, hop', hl', rfl, rfl⟩⟩ := leads_concat_iff.mp h'
    · obtain ⟨rfl, rfl, rfl⟩ := hw.unique hw'
      rcases hstop'.isLast hop with h | h
      · exact absurd (h.symm.trans hf) Bool.false_ne_true
      · contradiction
    · obtain ⟨rfl, rfl, rfl⟩ := hw.unique hw'
      cases hop.symm.trans hop'
      obtain ⟨rfl, rfl, rfl⟩ := ih hl'
      exact ⟨rfl, rfl, rfl⟩

theorem le_walks (h : d.Leads final dir steps slash es place n)
    (h' : d.Walks dir (steps ++ Step.ending slash) es' dest n') : n ≤ n' := by
  induction h generalizing es' n' with
  | root => exact Nat.zero_le _
  | stop hw hstop =>
    rw [List.append_assoc] at h'
    obtain ⟨_, _, -, -, rfl⟩ := h'.rest hw
    exact Nat.le_add_right _ _
  | follow hf hw hop hl ih =>
    rw [List.append_assoc] at h'
    obtain ⟨_, _, h₂, -, rfl⟩ := h'.rest hw
    obtain ⟨_, n₂, hlast, rfl⟩ := h₂.along_last hop
    have := ih hlast
    omega

theorem not_mem_of_link (hr : d.reach? e = some (id, some target))
    (h : d.Leads final (start e.directory target) target.steps target.endsInSlash es place n) :
    e ∉ es := by
  intro he
  rcases h.passes he hr with ⟨es', dest', n', hn, -, hw⟩ | ⟨es', n', hn, hl⟩
  · exact absurd (h.le_walks hw) (Nat.not_le.mpr hn)
  · obtain ⟨-, -, rfl⟩ := h.unique hl
    exact Nat.lt_irrefl _ hn

/-- A walk all the way ends at what is found at the place, if links are followed. -/
theorem hop_of_walks (h : d.Leads true dir steps slash es place n)
    (h' : d.Walks dir (steps ++ Step.ending slash) es' dest n') (hp : place.slash = false)
    (hl : place.last = some step) : d.hop place.directory step = .ok (dest, none) := by
  generalize hf : true = final at h
  induction h generalizing es' n' with
  | root => contradiction
  | stop hw hstop =>
    cases hl
    cases hp
    rw [List.append_assoc] at h'
    obtain ⟨_, _, h₂, -, -⟩ := h'.rest hw
    cases h₂ with
    | on hop h₂ =>
      cases h₂
      exact hop
    | follow hop _ =>
      subst hf
      rcases hstop.isLast hop with h | h <;> contradiction
  | follow _ hw hop _ ih =>
    rw [List.append_assoc] at h'
    obtain ⟨_, _, h₂, -, -⟩ := h'.rest hw
    obtain ⟨_, _, hlast, -⟩ := h₂.along_last hop
    exact ih hlast hp hl

end Leads

end Disk

end IconPainter
