import IconPainter.Proofs.Delivery.Outcome
import IconPainter.Proofs.Delivery.Preparation
import IconPainter.Proofs.Path.Ancestors

/-! # Making sure of a directory twice

A directory stands only below directories, so where one above it cannot be had, it
cannot be had either. Making sure of a directory therefore succeeds exactly when the
path leads to one afterwards, and a second time nothing is left to be made.
-/

namespace IconPainter

open Delivery

variable {d e : Disk} {p q : Path} {id : NodeId} {es : List Entry} {n : Nat} {cause : OsError}
  {more : List Step} {ps above : List Path}

/-! ### Directories above directories -/

namespace Disk

theorem Walks.hasDirectoryAt (hw : d.Walks (start d.working p) (q.steps ++ more) es id n)
    (hn : n ≤ maxLinks) (hd : d.HasDirectory id) (hv : p.validate = .ok ()) (hq : q.Begins p)
    (hne : q.bytes ≠ []) : d.HasDirectoryAt q := by
  obtain ⟨mid, es₁, es₂, n₁, n₂, h₁, h₂, -, rfl⟩ := hw.split
  have hmid := h₂.hasDirectory hd
  have hstart : start d.working q = start d.working p := by
    rw [start, start, hq.isAbsolute_eq hne]
  exact ⟨mid, resolve_eq_ok_iff.mpr ⟨hq.validate_eq hne hv, _, n₁, by omega,
    hstart ▸ h₁.append (.inside hmid q.endsInSlash)⟩, hmid⟩

theorem HasDirectoryAt.of_begins (h : d.HasDirectoryAt p) (hq : q.Begins p) (hne : q.bytes ≠ []) :
    d.HasDirectoryAt q := by
  obtain ⟨id, hid, hd⟩ := h
  obtain ⟨hv, es, n, hn, hw⟩ := resolve_eq_ok_iff.mp hid
  obtain ⟨more, hmore⟩ := hq.steps
  rw [Path.fullSteps_eq, ← hmore, List.append_assoc] at hw
  exact hw.hasDirectoryAt hn hd hv hq hne

theorem Makes.hasDirectoryAt_above (h : d.Makes p e) (hq : q.Above p) (hne : q.bytes ≠ []) :
    d.HasDirectoryAt q := by
  obtain ⟨hp, -, -⟩ := h
  obtain ⟨-, es, n, hv, hn, hsearch, init, hs, hw⟩ := named?_iff_approaches.mp hp
  have hinit : q.steps <+: init := by
    rcases List.prefix_concat_iff.mp (hs ▸ hq.steps) with hall | hinit
    · exact absurd hq.fewer (by rw [hs, hall]; exact Nat.lt_irrefl _)
    · exact hinit
  obtain ⟨more, rfl⟩ := hinit
  exact hw.hasDirectoryAt hn hsearch.hasDirectory hv hq.toBegins hne

theorem HasDirectoryAt.makeDirectory_eq (h : d.HasDirectoryAt p) :
    d.makeDirectory p = .error .entryExists := by
  obtain ⟨id, hid, -⟩ := h
  have hfree : d.freeName p = .error .entryExists := by
    rcases List.eq_nil_or_concat p.steps with hs | ⟨init, last, hs⟩
    · have hl : d.locate false p = .ok ⟨start d.working p, none, p.endsInSlash⟩ :=
        locate_eq_ok_iff.mpr ⟨[], (resolve_eq_ok_iff.mp hid).1, 0, Nat.zero_le _, hs ▸ .root⟩
      simp only [freeName, bind, Except.bind, hl]
    · rw [List.concat_eq_append] at hs
      obtain ⟨hv, mid, es, n, found, hn, hw, hop⟩ := exists_hop_of_resolve hs hid
      have hstops : d.Stops false p.endsInSlash mid last :=
        ⟨by simp [hop], by simp [hop], fun _ => .inl rfl⟩
      have hl : d.locate false p = .ok ⟨mid, some last, p.endsInSlash⟩ :=
        locate_eq_ok_iff.mpr ⟨es, hv, n, hn, hs ▸ .stop hw hstops⟩
      cases last with
      | name name =>
        obtain ⟨hsearch, hname, hr⟩ := hop_name_eq_ok_iff.mp hop
        obtain ⟨hat, k, hk, -⟩ := reach?_eq_some_iff.mp hr
        obtain ⟨node, hnode, -⟩ := Option.map_eq_some_iff.mp hk
        have hfound : d.lookup mid name = .ok (some (found.1, node)) :=
          lookup_eq_ok_some_iff.mpr ⟨hsearch, hname, hat, hnode⟩
        simp only [freeName, bind, Except.bind, hl, hfound]
      | _ => simp only [freeName, bind, Except.bind, hl]
  simp only [makeDirectory, bind, Except.bind, hfree]

/-- There is no directory at the path `q` and none can be made, but not because one of those
above is missing. -/
structure Refuses (d : Disk) (q : Path) (above : List Path) : Prop where
  ne_nil : q.bytes ≠ []
  not_hasDirectoryAt : ¬ d.HasDirectoryAt q
  refused : ∃ cause, d.makeDirectory q = .error cause ∧
    (cause = .noEntry → ∀ r ∈ above, r.bytes = [] ∨ d.HasDirectoryAt r)

end Disk

/-! ### Runs -/

open Disk

theorem disk_run_makeAll_of_error (hp : p.bytes ≠ []) (hm : d.makeDirectory p = .error cause)
    (habove : cause = .noEntry → ((makeAll above).run d).disk = d) :
    ((makeAll (p :: above)).run d).disk = d := by
  rcases run_makeAll_cons hp above d with ⟨e, hm', -⟩ | ⟨-, -, -, hdisk, -⟩ |
    ⟨hm', hdisk, -⟩ | ⟨hm', -, hdisk, -⟩
  · cases hm.symm.trans hm'
  · exact hdisk
  · cases hm.symm.trans hm'
    rw [hdisk, habove rfl]
  · cases hm.symm.trans hm'
    rw [habove rfl] at hdisk
    rcases run_makeOne_cases p d with ⟨e, hm', -⟩ | ⟨cause, -, hone, -⟩
    · cases hm.symm.trans hm'
    · rw [hdisk, hone]

theorem hasDirectoryAt_of_head (hps : ps.Pairwise fun p q => q.Above p)
    (h : ∀ p ∈ ps.head?, p.bytes = [] ∨ d.HasDirectoryAt p) :
    ∀ q ∈ ps, q.bytes = [] ∨ d.HasDirectoryAt q := by
  cases ps with
  | nil => simp
  | cons p above =>
    have hp := h p rfl
    intro q hq
    rcases List.mem_cons.mp hq with rfl | hq
    · exact hp
    have hbegins := ((List.pairwise_cons.mp hps).1 q hq).toBegins
    by_cases hne : q.bytes = []
    · exact .inl hne
    rcases hp with hp | hp
    · exact .inl (List.prefix_nil.mp (hp ▸ hbegins.bytes))
    · exact .inr (hp.of_begins hbegins hne)

/-- Making a directory and those above it fails at one that is refused on the disk that is left,
where nothing above it is missing. -/
theorem exists_refuses (hw : d.WellFormed) (hps : ps.Pairwise fun p q => q.Above p)
    (hne : ps ≠ []) (hv : ((makeAll ps).run d).value = .error cause) :
    ∃ q more, (q :: more) <:+ ps ∧ ((makeAll ps).run d).disk.Refuses q more := by
  induction ps generalizing cause with
  | nil => contradiction
  | cons p above ih =>
    obtain ⟨-, habove⟩ := List.pairwise_cons.mp hps
    by_cases hp : p.bytes = []
    · simp [makeAll, hp, Script.run] at hv
    rcases run_makeAll_cons hp above d with ⟨e, -, -, hvalue⟩ | ⟨cause', hm, hc, hdisk, hvalue⟩ |
      ⟨hm, hdisk, cause', hv', -⟩ | ⟨-, hok, hdisk, hvalue⟩
    · cases hv.symm.trans hvalue
    · refine ⟨p, above, List.suffix_rfl, ?_⟩
      rw [hdisk]
      refine ⟨hp, fun h => ?_, cause', hm, fun h => (hc h).elim⟩
      cases hv.symm.trans (hvalue.mpr h)
    · rw [hdisk]
      by_cases hnil : above = []
      · subst hnil
        refine ⟨p, [], List.suffix_rfl, hp, fun h => ?_, _, hm, by simp⟩
        cases hm.symm.trans h.makeDirectory_eq
      · obtain ⟨q, more, hsuffix, hrefuses⟩ := ih habove hnil hv'
        exact ⟨q, more, hsuffix.trans (List.suffix_cons p _), hrefuses⟩
    · obtain ⟨-, hhead⟩ := run_makeAll above hw
      refine ⟨p, above, List.suffix_rfl, ?_⟩
      rcases run_makeOne_cases p ((makeAll above).run d).disk with
        ⟨e, -, -, hone⟩ | ⟨cause', hm, hone, hiff⟩
      · cases hv.symm.trans (hvalue.trans hone)
      · rw [hdisk, hone]
        refine ⟨hp, fun h => ?_, cause', hm, fun _ => hasDirectoryAt_of_head habove (hhead hok)⟩
        cases hv.symm.trans (hvalue.trans (hiff.mpr h))

theorem value_run_makeAll (hw : d.WellFormed) (hps : (p :: above).Pairwise fun p q => q.Above p)
    (hp : p.bytes ≠ []) : ((makeAll (p :: above)).run d).value = .ok () ↔
      ((makeAll (p :: above)).run d).disk.HasDirectoryAt p := by
  refine ⟨fun h => ((run_makeAll _ hw).2 h p rfl).resolve_left hp, fun hdir => ?_⟩
  cases hv : ((makeAll (p :: above)).run d).value with
  | ok u => rfl
  | error cause =>
    obtain ⟨q, more, hsuffix, hrefuses⟩ := exists_refuses hw hps (List.cons_ne_nil _ _) hv
    have hq : q ∈ p :: above := hsuffix.subset List.mem_cons_self
    have hthere := hasDirectoryAt_of_head hps (fun _ h => by cases h; exact .inr hdir) q hq
    exact (hrefuses.not_hasDirectoryAt (hthere.resolve_left hrefuses.ne_nil)).elim

/-- Making a directory and those above it a second time changes nothing: what is refused at the
end of the first run is refused in the second. -/
theorem disk_run_makeAll_again (hw : d.WellFormed) (hps : ps.Pairwise fun p q => q.Above p) :
    ((makeAll ps).run ((makeAll ps).run d).disk).disk = ((makeAll ps).run d).disk := by
  induction ps with
  | nil => rfl
  | cons p above ih =>
    obtain ⟨hhead, habove⟩ := List.pairwise_cons.mp hps
    by_cases hp : p.bytes = []
    · simp only [makeAll, hp, if_true, Script.run]
    have hthere {f : Disk} (h : f.HasDirectoryAt p) : ((makeAll (p :: above)).run f).disk = f :=
      disk_run_makeAll_of_error hp h.makeDirectory_eq fun h => by contradiction
    -- In each case the directory is there by now or is refused again, and if that is for want
    -- of those above, they are tried on the disk that their own first run left.
    rcases run_makeAll_cons hp above d with ⟨e, hm, hdisk, -⟩ | ⟨cause, hm, hc, hdisk, -⟩ |
      ⟨hm, hdisk, cause, hv, -⟩ | ⟨-, -, hdisk, -⟩ <;> rw [hdisk]
    · exact hthere (((makeDirectory_eq_ok_iff hw).mp hm).hasDirectoryAt hw)
    · exact disk_run_makeAll_of_error hp hm fun h => (hc h).elim
    -- What was refused above is still missing, so no directory can be made below it.
    · by_cases hnil : above = []
      · subst hnil
        exact disk_run_makeAll_of_error hp hm fun _ => ih habove
      obtain ⟨q, more, hsuffix, hrefuses⟩ := exists_refuses hw habove hnil hv
      have hq := hhead q (hsuffix.subset List.mem_cons_self)
      have hw' := (run_makeAll above hw).1.right
      cases hm : ((makeAll above).run d).disk.makeDirectory p with
      | ok e =>
        have hmakes := (makeDirectory_eq_ok_iff hw').mp hm
        exact (hrefuses.not_hasDirectoryAt (hmakes.hasDirectoryAt_above hq hrefuses.ne_nil)).elim
      | error cause => exact disk_run_makeAll_of_error hp hm fun _ => ih habove
    · have hw' := (run_makeAll above hw).1.right
      rcases run_makeOne_cases p ((makeAll above).run d).disk with
        ⟨e, hm, hone, -⟩ | ⟨cause, hm, hone, -⟩ <;> rw [hone]
      · exact hthere (((makeDirectory_eq_ok_iff hw').mp hm).hasDirectoryAt hw')
      · exact disk_run_makeAll_of_error hp hm fun _ => ih habove

/-- Making sure of a directory adds directories that begin its path and nothing else. It succeeds
when the path then leads to a directory, and it fails only at one of the directories on the
way that cannot be made even then. When it is repeated, the same comes of it without a change. -/
theorem prepareDirectory_settles (hw : d.WellFormed) (hp : p.bytes ≠ []) :
    let first := (prepareDirectory p).run d
    let second := (prepareDirectory p).run first.disk
    Extended d first.disk ∧
      (∀ x id, d.at? x = none → first.disk.at? x = some id → d.kind? id = none ∧
        first.disk.kind? id = some (.directory x.directory .change) ∧
          ∃ q, q.Begins p ∧ first.disk.named? q = some x) ∧
      (first.value = .ok () ↔ first.disk.HasDirectoryAt p) ∧
      (first.value ≠ .ok () →
        ∃ q above, (q :: above) <:+ (p :: p.ancestors) ∧ first.disk.Refuses q above) ∧
      second.disk = first.disk ∧ (second.value = .ok () ↔ first.value = .ok ()) := by
  intro first second
  have hps := Path.pairwise_ancestors hp
  obtain ⟨hgrown, -⟩ := run_prepareDirectory p hw
  have hiff {e : Disk} (he : e.WellFormed) : ((prepareDirectory p).run e).value = .ok () ↔
      ((prepareDirectory p).run e).disk.HasDirectoryAt p := by
    rw [value_run_prepareDirectory, disk_run_prepareDirectory]
    exact value_run_makeAll he hps hp
  have hagain : second.disk = first.disk := by
    have h := disk_run_makeAll_again hw hps
    rwa [← disk_run_prepareDirectory, ← disk_run_prepareDirectory] at h
  refine ⟨hgrown.toExtended, ?_, hiff hw, ?_, hagain, ?_⟩
  · intro x id hnone hsome
    obtain ⟨hfresh, hk, q, hq, hx⟩ := hgrown.new hnone hsome
    exact ⟨hfresh, hk, q, Path.begins_of_mem_ancestors hp hq, hx⟩
  · intro hfailed
    have hvalue := mt (value_run_prepareDirectory p d).mpr hfailed
    cases hv : ((makeAll (p :: p.ancestors)).run d).value with
    | ok u => exact (hvalue hv).elim
    | error cause =>
      have hrefuses := exists_refuses hw hps (List.cons_ne_nil _ _) hv
      rwa [← disk_run_prepareDirectory] at hrefuses
  · rw [hiff hgrown.right, hiff hw]
    exact iff_of_eq (congrArg (HasDirectoryAt · p) hagain)

/-- What was made before a failure stays, and is all that there is after the next. -/
theorem prepareDirectory_halfway :
    let p : Path := .ofString "d/../old.png/e"
    let first := (prepareDirectory p).run Disk.used
    let second := (prepareDirectory p).run first.disk
    Disk.used.WellFormed ∧ p.bytes ≠ [] ∧ first.value = .error (.makeDirectory p .entryExists) ∧
      Disk.used.at? ⟨1, .ofString "d"⟩ = none ∧
      first.disk.at? ⟨1, .ofString "d"⟩ = some 5 ∧
      first.disk.kind? 5 = some (.directory 1 .change) ∧ ¬ first.disk.HasDirectoryAt p ∧
      second.disk = first.disk ∧ second.value ≠ .ok () := by
  intro p first second
  have hw : Disk.used.WellFormed := wellFormed_of_wellFormedB (by decide +kernel)
  have hp : p.bytes ≠ [] := by decide +kernel
  have hnone : Disk.used.at? ⟨1, .ofString "d"⟩ = none := by decide +kernel
  have hsome : first.disk.at? ⟨1, .ofString "d"⟩ = some 5 := by decide +kernel
  have hfirst : first.value = .error (.makeDirectory p .entryExists) := by decide +kernel
  obtain ⟨-, hnew, hvalue, -, hdisk, hagain⟩ := prepareDirectory_settles hw hp
  have hfailed : first.value ≠ .ok () := by simp [hfirst]
  exact ⟨hw, hp, hfirst, hnone, hsome, (hnew _ _ hnone hsome).2.1,
    fun h => hfailed (hvalue.mpr h), hdisk, fun h => hfailed (hagain.mp h)⟩

end IconPainter
