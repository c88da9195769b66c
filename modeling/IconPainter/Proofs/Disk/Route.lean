import IconPainter.Proofs.Disk.WellFormed

/-! # Routes

A walk that arrives has a derivation, which names the entries that were looked
up on the way and counts the links. Finding the place of an entry is a walk to
the directory of the last step, from which a link that stands there may lead on.
-/

namespace IconPainter

def Step.named? (dir : NodeId) : Step → Option Entry
  | .name bytes => some ⟨dir, bytes⟩
  | _ => none

namespace Disk

/-- What a step from a directory leads to, and where that leads if it is a link. -/
def hop (d : Disk) (dir : NodeId) (step : Step) : Except OsError (NodeId × Option Path) :=
  match d.take dir step with
  | .ok (id, n) => .ok (id, n.kind.target?)
  | .error e => .error e

/-- A walk through directories that arrives. -/
inductive Walks (d : Disk) : NodeId → List Step → List Entry → NodeId → Nat → Prop where

  | done {dir : NodeId} : Walks d dir [] [] dir 0

  | on {dir id dest : NodeId} {step : Step} {steps : List Step} {es : List Entry} {n : Nat} :
      d.hop dir step = .ok (id, none) → Walks d id steps es dest n →
      Walks d dir (step :: steps) ((step.named? dir).toList ++ es) dest n

  | follow {dir id dest : NodeId} {step : Step} {target : Path} {steps : List Step}
      {es : List Entry} {n : Nat} :
      d.hop dir step = .ok (id, some target) →
      Walks d (start dir target) (target.fullSteps ++ steps) es dest n →
      Walks d dir (step :: steps) ((step.named? dir).toList ++ es) dest (n + 1)

/-- The last step is taken no further than to the directory that it starts from. -/
structure Stops (d : Disk) (final slash : Bool) (dir : NodeId) (step : Step) : Prop where
  isDirectory : d.hop dir step ≠ .error .notDirectory
  isSearchable : d.hop dir step ≠ .error .accessDenied
  isLast : ∀ {id target}, d.hop dir step = .ok (id, some target) → final = false ∨ slash = true

/-- The place that steps lead to, a link at their end being followed if `final` says so. -/
inductive Leads (d : Disk) (final : Bool) :
    NodeId → List Step → Bool → List Entry → Place → Nat → Prop where

  | root {dir : NodeId} {slash : Bool} : Leads d final dir [] slash [] ⟨dir, none, slash⟩ 0

  | stop {dir dest : NodeId} {steps : List Step} {step : Step} {slash : Bool} {es : List Entry}
      {n : Nat} :
      d.Walks dir steps es dest n → d.Stops final slash dest step →
      Leads d final dir (steps ++ [step]) slash es ⟨dest, some step, slash⟩ n

  | follow {dir dest id : NodeId} {steps : List Step} {step : Step} {target : Path}
      {es es' : List Entry} {place : Place} {n n' : Nat} :
      final = true → d.Walks dir steps es dest n → d.hop dest step = .ok (id, some target) →
      Leads d final (start dest target) target.steps target.endsInSlash es' place n' →
      Leads d final dir (steps ++ [step]) false (es ++ ((step.named? dest).toList ++ es')) place
        (n + (n' + 1))

variable {d : Disk} {dir id dest dest' : NodeId} {step : Step} {steps more : List Step}
  {es es' : List Entry} {n n' links : Nat} {final slash : Bool} {place place' : Place}

/-! ### Walks -/

theorem walkWith_cons (follow : NodeId → List Step → Except OsError NodeId) :
    d.walkWith follow dir (step :: steps) =
      match d.hop dir step with
      | .error e => .error e
      | .ok (_, some target) => follow (start dir target) (target.fullSteps ++ steps)
      | .ok (id, none) => d.walkWith follow id steps := by
  simp only [walkWith, hop]
  cases d.take dir step with
  | error e => rfl
  | ok found =>
    obtain ⟨id, node⟩ := found
    cases node <;> rfl

theorem walks_of_walkWith {follow : NodeId → List Step → Except OsError NodeId}
    (hf : ∀ {dir steps}, follow dir steps = .ok dest →
      ∃ es n, n < links ∧ d.Walks dir steps es dest n)
    (h : d.walkWith follow dir steps = .ok dest) :
    ∃ es n, n ≤ links ∧ d.Walks dir steps es dest n := by
  induction steps generalizing dir with
  | nil =>
    cases h
    exact ⟨[], 0, Nat.zero_le _, .done⟩
  | cons step steps ih =>
    rw [walkWith_cons] at h
    split at h
    · contradiction
    · rename_i hop
      obtain ⟨es, n, hn, hw⟩ := hf h
      exact ⟨_, n + 1, hn, .follow hop hw⟩
    · rename_i hop
      obtain ⟨es, n, hn, hw⟩ := ih h
      exact ⟨_, n, hn, .on hop hw⟩

theorem walks_of_walk (h : d.walk links dir steps = .ok dest) :
    ∃ es n, n ≤ links ∧ d.Walks dir steps es dest n := by
  induction links generalizing dir steps with
  | zero => exact walks_of_walkWith (fun h => by contradiction) h
  | succ links ih =>
    refine walks_of_walkWith ?_ h
    intro dir steps h
    obtain ⟨es, n, hn, hw⟩ := ih h
    exact ⟨es, n, Nat.lt_succ_of_le hn, hw⟩

theorem Walks.walk_eq (h : d.Walks dir steps es dest n) (hn : n ≤ links) :
    d.walk links dir steps = .ok dest := by
  induction h generalizing links with
  | done => cases links <;> rfl
  | on hop _ ih =>
    have := ih hn
    cases links <;> rw [walk, walkWith_cons, hop] <;> exact this
  | follow hop _ ih =>
    obtain ⟨links, rfl⟩ := Nat.exists_eq_add_of_le' (Nat.le_trans (Nat.le_add_left 1 _) hn)
    rw [walk, walkWith_cons, hop]
    exact ih (Nat.le_of_succ_le_succ hn)

theorem walk_eq_ok_iff :
    d.walk links dir steps = .ok dest ↔ ∃ es n, n ≤ links ∧ d.Walks dir steps es dest n :=
  ⟨walks_of_walk, fun ⟨_, _, hn, hw⟩ => hw.walk_eq hn⟩

namespace Walks

theorem unique (h : d.Walks dir steps es dest n) (h' : d.Walks dir steps es' dest' n') :
    es = es' ∧ dest = dest' ∧ n = n' := by
  induction h generalizing es' n' with
  | done =>
    cases h'
    exact ⟨rfl, rfl, rfl⟩
  | on hop _ ih =>
    cases h' with
    | on hop' h' =>
      cases hop.symm.trans hop'
      obtain ⟨rfl, rfl, rfl⟩ := ih h'
      exact ⟨rfl, rfl, rfl⟩
    | follow hop' h' => cases hop.symm.trans hop'
  | follow hop _ ih =>
    cases h' with
    | on hop' h' => cases hop.symm.trans hop'
    | follow hop' h' =>
      cases hop.symm.trans hop'
      obtain ⟨rfl, rfl, rfl⟩ := ih h'
      exact ⟨rfl, rfl, rfl⟩

theorem append (h : d.Walks dir steps es id n) (h' : d.Walks id more es' dest n') :
    d.Walks dir (steps ++ more) (es ++ es') dest (n + n') := by
  induction h with
  | done => simpa using h'
  | on hop _ ih =>
    rw [List.append_assoc]
    exact .on hop (ih h')
  | follow hop _ ih =>
    have := ih h'
    rw [List.append_assoc] at this ⊢
    rw [Nat.add_right_comm]
    exact .follow hop this

theorem split (h : d.Walks dir (steps ++ more) es dest n) : ∃ id es₁ es₂ n₁ n₂,
    d.Walks dir steps es₁ id n₁ ∧ d.Walks id more es₂ dest n₂ ∧ es = es₁ ++ es₂ ∧
      n = n₁ + n₂ := by
  generalize hs : steps ++ more = all at h
  induction h generalizing steps with
  | done =>
    obtain ⟨rfl, rfl⟩ := List.append_eq_nil_iff.mp hs
    exact ⟨_, [], [], 0, 0, .done, .done, rfl, rfl⟩
  | on hop hw ih =>
    cases steps with
    | nil =>
      cases hs
      exact ⟨_, [], _, 0, _, .done, .on hop hw, rfl, (Nat.zero_add _).symm⟩
    | cons step steps =>
      cases hs
      obtain ⟨id, es₁, es₂, n₁, n₂, h₁, h₂, rfl, rfl⟩ := ih rfl
      exact ⟨id, _, es₂, n₁, n₂, .on hop h₁, h₂, (List.append_assoc ..).symm, rfl⟩
  | follow hop hw ih =>
    cases steps with
    | nil =>
      cases hs
      exact ⟨_, [], _, 0, _, .done, .follow hop hw, rfl, (Nat.zero_add _).symm⟩
    | cons step steps =>
      cases hs
      obtain ⟨id, es₁, es₂, n₁, n₂, h₁, h₂, rfl, rfl⟩ := ih (List.append_assoc ..)
      exact ⟨id, _, es₂, n₁ + 1, n₂, .follow hop h₁, h₂, (List.append_assoc ..).symm,
        Nat.add_right_comm ..⟩

theorem rest (h : d.Walks dir (steps ++ more) es dest n) (hw : d.Walks dir steps es' id n') :
    ∃ es₂ n₂, d.Walks id more es₂ dest n₂ ∧ es = es' ++ es₂ ∧ n = n' + n₂ := by
  obtain ⟨id', es₁, es₂, n₁, n₂, h₁, h₂, rfl, rfl⟩ := h.split
  obtain ⟨rfl, rfl, rfl⟩ := hw.unique h₁
  exact ⟨es₂, n₂, h₂, rfl, rfl⟩

theorem along_last {target : Path} (h : d.Walks dir [step] es dest n)
    (hop : d.hop dir step = .ok (id, some target)) :
    ∃ es' n', d.Walks (start dir target) target.fullSteps es' dest n' ∧ n = n' + 1 := by
  cases h with
  | on hop' _ => cases hop.symm.trans hop'
  | follow hop' h =>
    cases hop.symm.trans hop'
    rw [List.append_nil] at h
    exact ⟨_, _, h, rfl⟩

end Walks

/-! ### Places -/

theorem locateWith_singleton (follow : NodeId → List Step → Bool → Except OsError Place) :
    d.locateWith final follow slash dir [step] =
      match d.hop dir step with
      | .ok (_, some target) =>
        if final && !slash then follow (start dir target) target.steps target.endsInSlash
        else .ok ⟨dir, some step, slash⟩
      | .error .notDirectory => .error .notDirectory
      | .error .accessDenied => .error .accessDenied
      | _ => .ok ⟨dir, some step, slash⟩ := by
  simp only [locateWith, hop]
  cases d.take dir step with
  | error e => cases e <;> rfl
  | ok found =>
    obtain ⟨id, node⟩ := found
    cases node <;> rfl

theorem locateWith_cons (follow : NodeId → List Step → Bool → Except OsError Place)
    (hs : steps ≠ []) :
    d.locateWith final follow slash dir (step :: steps) =
      match d.hop dir step with
      | .error e => .error e
      | .ok (_, some target) => follow (start dir target) (target.fullSteps ++ steps) slash
      | .ok (id, none) => d.locateWith final follow slash id steps := by
  obtain ⟨step', steps, rfl⟩ := List.exists_cons_of_ne_nil hs
  simp only [locateWith, hop]
  cases d.take dir step with
  | error e => rfl
  | ok found =>
    obtain ⟨id, node⟩ := found
    cases node <;> rfl

theorem stops_iff : d.Stops final slash dir step ↔ match d.hop dir step with
    | .ok (_, some _) => final = false ∨ slash = true
    | .ok (_, none) => True
    | .error e => e ≠ .notDirectory ∧ e ≠ .accessDenied := by
  constructor
  · intro h
    split
    · exact h.isLast ‹_›
    · trivial
    · rename_i hop
      refine ⟨?_, ?_⟩ <;> rintro rfl
      · exact h.isDirectory hop
      · exact h.isSearchable hop
  · intro h
    split at h <;> rename_i hop
    · exact ⟨by simp [hop], by simp [hop], fun _ => h⟩
    · exact ⟨by simp [hop], by simp [hop], by simp [hop]⟩
    · exact ⟨by simp [hop, h.1], by simp [hop, h.2], by simp [hop]⟩

theorem locateWith_singleton_eq_ok_iff
    {follow : NodeId → List Step → Bool → Except OsError Place} :
    d.locateWith final follow slash dir [step] = .ok place ↔
      (d.Stops final slash dir step ∧ place = ⟨dir, some step, slash⟩) ∨
      (final = true ∧ slash = false ∧ ∃ id target, d.hop dir step = .ok (id, some target) ∧
        follow (start dir target) target.steps target.endsInSlash = .ok place) := by
  rw [locateWith_singleton, stops_iff]
  cases hop : d.hop dir step with
  | error e => cases e <;> simp [eq_comm]
  | ok found =>
    obtain ⟨id, _ | target⟩ := found
    · simp [eq_comm]
    · cases final <;> cases slash <;> simp [and_assoc, eq_comm (a := place)]

theorem leads_nil (h : d.Leads final dir [] slash es place n) :
    es = [] ∧ place = ⟨dir, none, slash⟩ ∧ n = 0 := by
  generalize hs : [] = steps at h
  cases h with
  | root => exact ⟨rfl, rfl, rfl⟩
  | _ => simp at hs

theorem leads_concat_iff : d.Leads final dir (steps ++ [step]) slash es place n ↔
    ∃ dest es₁ n₁, d.Walks dir steps es₁ dest n₁ ∧
      ((d.Stops final slash dest step ∧ es = es₁ ∧ place = ⟨dest, some step, slash⟩ ∧ n = n₁) ∨
      (final = true ∧ slash = false ∧ ∃ id target es₂ n₂,
        d.hop dest step = .ok (id, some target) ∧
        d.Leads final (start dest target) target.steps target.endsInSlash es₂ place n₂ ∧
        es = es₁ ++ ((step.named? dest).toList ++ es₂) ∧ n = n₁ + (n₂ + 1))) := by
  constructor
  · intro h
    generalize hall : steps ++ [step] = all at h
    cases h with
    | root => simp at hall
    | stop hw hstop =>
      obtain ⟨rfl, hlast⟩ := List.append_inj' hall rfl
      cases hlast
      exact ⟨_, _, _, hw, .inl ⟨hstop, rfl, rfl, rfl⟩⟩
    | follow hf hw hop hl =>
      obtain ⟨rfl, hlast⟩ := List.append_inj' hall rfl
      cases hlast
      exact ⟨_, _, _, hw, .inr ⟨hf, rfl, _, _, _, _, hop, hl, rfl, rfl⟩⟩
  · rintro ⟨dest, es₁, n₁, hw, ⟨hstop, rfl, rfl, rfl⟩ |
      ⟨hf, rfl, id, target, es₂, n₂, hop, hl, rfl, rfl⟩⟩
    · exact .stop hw hstop
    · exact .follow hf hw hop hl

namespace Leads

theorem on (hop : d.hop dir step = .ok (id, none)) (hs : steps ≠ [])
    (h : d.Leads final id steps slash es place n) :
    d.Leads final dir (step :: steps) slash ((step.named? dir).toList ++ es) place n := by
  cases h with
  | root => contradiction
  | stop hw hstop => exact .stop (.on hop hw) hstop
  | follow hf hw hop' hl =>
    rw [← List.append_assoc]
    exact .follow hf (.on hop hw) hop' hl

theorem along {target : Path} (hop : d.hop dir step = .ok (id, some target)) (hs : steps ≠ [])
    (h : d.Leads final (start dir target) (target.fullSteps ++ steps) slash es place n) :
    d.Leads final dir (step :: steps) slash ((step.named? dir).toList ++ es) place (n + 1) := by
  obtain ⟨init, last, rfl⟩ : ∃ init last, steps = init ++ [last] :=
    ⟨_, _, (List.dropLast_concat_getLast hs).symm⟩
  rw [← List.append_assoc] at h
  obtain ⟨dest, es₁, n₁, hw, ⟨hstop, rfl, rfl, rfl⟩ |
    ⟨hf, rfl, id', target', es₂, n₂, hop', hl, rfl, rfl⟩⟩ := leads_concat_iff.mp h
  · exact .stop (.follow hop hw) hstop
  · rw [← List.append_assoc, Nat.add_right_comm]
    exact .follow hf (.follow hop hw) hop' hl

end Leads

theorem leads_of_locateWith {follow : NodeId → List Step → Bool → Except OsError Place}
    (hf : ∀ {dir steps slash}, follow dir steps slash = .ok place →
      ∃ es n, n < links ∧ d.Leads final dir steps slash es place n)
    (h : d.locateWith final follow slash dir steps = .ok place) :
    ∃ es n, n ≤ links ∧ d.Leads final dir steps slash es place n := by
  induction steps generalizing dir with
  | nil =>
    rw [locateWith] at h
    cases h
    exact ⟨[], 0, Nat.zero_le _, .root⟩
  | cons step steps ih =>
    by_cases hs : steps = []
    · subst hs
      rcases locateWith_singleton_eq_ok_iff.mp h with
        ⟨hstop, rfl⟩ | ⟨hfinal, rfl, id, target, hop, h⟩
      · exact ⟨[], 0, Nat.zero_le _, .stop .done hstop⟩
      · obtain ⟨es, n, hn, hl⟩ := hf h
        exact ⟨_, 0 + (n + 1), by omega, .follow hfinal .done hop hl⟩
    · rw [locateWith_cons follow hs] at h
      split at h
      · contradiction
      · rename_i hop
        obtain ⟨es, n, hn, hl⟩ := hf h
        exact ⟨_, n + 1, hn, hl.along hop hs⟩
      · rename_i hop
        obtain ⟨es, n, hn, hl⟩ := ih h
        exact ⟨_, n, hn, hl.on hop hs⟩

theorem leads_of_locateFrom (h : d.locateFrom final links dir steps slash = .ok place) :
    ∃ es n, n ≤ links ∧ d.Leads final dir steps slash es place n := by
  induction links generalizing dir steps slash with
  | zero => exact leads_of_locateWith (fun h => by contradiction) h
  | succ links ih =>
    refine leads_of_locateWith ?_ h
    intro dir steps slash h
    obtain ⟨es, n, hn, hl⟩ := ih h
    exact ⟨es, n, Nat.lt_succ_of_le hn, hl⟩

theorem Walks.locateFrom_append (h : d.Walks dir steps es dest n) (hm : more ≠ []) :
    d.locateFrom final (links + n) dir (steps ++ more) slash =
      d.locateFrom final links dest more slash := by
  have hne (init : List Step) : init ++ more ≠ [] := List.append_ne_nil_of_right_ne_nil init hm
  induction h with
  | done => rfl
  | @on _ _ _ _ steps _ n hop hw ih =>
    rw [← ih]
    cases links + n <;> rw [locateFrom, List.cons_append, locateWith_cons _ (hne _), hop] <;> rfl
  | follow hop hw ih =>
    rw [← ih, ← Nat.add_assoc, locateFrom, List.cons_append, locateWith_cons _ (hne _), hop,
      List.append_assoc]

theorem Leads.locateFrom_eq (h : d.Leads final dir steps slash es place n) (hn : n ≤ links) :
    d.locateFrom final links dir steps slash = .ok place := by
  induction h generalizing links with
  | root => cases links <;> rfl
  | stop hw hstop =>
    obtain ⟨links, rfl⟩ := Nat.exists_eq_add_of_le' hn
    rw [hw.locateFrom_append (List.cons_ne_nil _ _)]
    cases links <;> exact locateWith_singleton_eq_ok_iff.mpr (.inl ⟨hstop, rfl⟩)
  | @follow dir dest id steps step target es es' place n n' hf hw hop hl ih =>
    obtain ⟨links, rfl⟩ := Nat.exists_eq_add_of_le' hn
    rw [← Nat.add_assoc, Nat.add_right_comm, ← Nat.add_assoc,
      hw.locateFrom_append (List.cons_ne_nil _ _)]
    exact locateWith_singleton_eq_ok_iff.mpr
      (.inr ⟨hf, rfl, _, _, hop, ih (Nat.le_add_left _ _)⟩)

theorem locateFrom_eq_ok_iff : d.locateFrom final links dir steps slash = .ok place ↔
    ∃ es n, n ≤ links ∧ d.Leads final dir steps slash es place n :=
  ⟨leads_of_locateFrom, fun ⟨_, _, hn, hl⟩ => hl.locateFrom_eq hn⟩

end Disk

end IconPainter
