import Mathlib.Tactic.Tauto
import IconPainter.Delivery
import IconPainter.Disk.Lookup

/-! # Steps of a staging path

A walker reads a path by its steps and a program by its components. The staging
path of a path that ends in a name leads to the same directory, by the same
steps up to dots before the last name, and ends in a name of its own.
-/

namespace IconPainter

namespace Path

variable {p q : Path} {lead name : Bytes} {ps more pieces : List Bytes} {init : List Step}

def stepsOf (pieces : List Bytes) : List Step := (pieces.filter (· != [])).map stepOf

def leadSteps (lead : Bytes) : List Step := if lead = [dot] then [.here] else []

/-- A piece that is a name to a walker. -/
structure IsName (name : Bytes) : Prop where
  ne_nil : name ≠ []
  ne_here : name ≠ [dot]
  ne_up : name ≠ [dot, dot]
  slash_notMem : slash ∉ name

instance (name : Bytes) : Decidable (IsName name) :=
  decidable_of_iff (name ≠ [] ∧ name ≠ [dot] ∧ name ≠ [dot, dot] ∧ slash ∉ name)
    ⟨fun ⟨hnil, hhere, hup, hslash⟩ => ⟨hnil, hhere, hup, hslash⟩,
      fun h => ⟨h.ne_nil, h.ne_here, h.ne_up, h.slash_notMem⟩⟩

theorem validate_eq_ok_iff :
    p.validate = .ok () ↔ 0 ∉ p.bytes ∧ p.bytes ≠ [] ∧ p.bytes.length < 4096 := by
  unfold validate
  by_cases hzero : 0 ∈ p.bytes
  · simp [hzero]
  by_cases hnil : p.bytes = []
  · simp [hnil]
  by_cases hlen : 4096 ≤ p.bytes.length
  · simp [hzero, hnil, hlen, Nat.not_lt.mpr hlen]
  · simp [hzero, hnil, hlen, Nat.lt_of_not_le hlen]

theorem stepsOf_append (ps more : List Bytes) :
    stepsOf (ps ++ more) = stepsOf ps ++ stepsOf more := by
  simp [stepsOf]

theorem IsName.stepsOf_eq (h : IsName name) : stepsOf [name] = [.name name] := by
  simp [stepsOf, stepOf, h.ne_nil, h.ne_here, h.ne_up]

theorem steps_append_slash (bytes more : Bytes) :
    (Path.mk (bytes ++ slash :: more)).steps = (Path.mk bytes).steps ++ (Path.mk more).steps := by
  simp [steps, List.splitOn_append_cons_self]

theorem steps_eq_stepsOf (h : slash ∉ name) : (Path.mk name).steps = stepsOf [name] := by
  rw [steps, List.splitOn_eq_singleton h]
  rfl

theorem slash_notMem_of_mem_splitOn {bytes piece : Bytes} (h : piece ∈ bytes.splitOn slash) :
    slash ∉ piece := by
  induction bytes generalizing piece with
  | nil => simp_all
  | cons b bytes ih =>
    rw [List.splitOn_cons_eq_if_modifyHead] at h
    split at h
    · rcases List.mem_cons.mp h with rfl | h
      · exact List.not_mem_nil
      · exact ih h
    · rename_i hb
      obtain ⟨first, rest, hs⟩ := List.exists_cons_of_ne_nil (List.splitOn_ne_nil slash bytes)
      rw [hs, List.modifyHead_cons] at h
      rcases List.mem_cons.mp h with rfl | h
      · rintro hmem
        rcases List.mem_cons.mp hmem with rfl | hmem
        · simp at hb
        · exact ih (hs ▸ List.mem_cons_self) hmem
      · exact ih (hs ▸ List.mem_cons_of_mem _ h)

theorem steps_intercalate (h : ∀ piece ∈ ps, slash ∉ piece) :
    (Path.mk ([slash].intercalate ps)).steps = stepsOf ps := by
  by_cases hps : ps = []
  · subst hps
    rfl
  · rw [steps, List.splitOn_intercalate slash h hps]
    rfl

/-! ### The lead -/

theorem lead_append_drop (p : Path) : p.lead ++ p.bytes.drop p.lead.length = p.bytes := by
  obtain ⟨bytes⟩ := p
  rcases bytes with _ | ⟨b, _ | ⟨b', bytes⟩⟩
  · rfl
  · simp only [lead]
    split <;> rfl
  · simp only [lead]
    split <;> rfl

theorem bytes_eq (p : Path) : p.bytes = p.lead ++ [slash].intercalate p.pieces := by
  rw [pieces, List.intercalate_splitOn, lead_append_drop]

theorem lead_cases (p : Path) : (p.lead = [] ∧ p.isAbsolute = false) ∨ p.lead = [slash] ∨
    (p.lead = [dot] ∧ p.pieces.head? = some []) := by
  obtain ⟨bytes⟩ := p
  rcases bytes with _ | ⟨b, _ | ⟨b', bytes⟩⟩
  · exact .inl ⟨rfl, rfl⟩
  · by_cases hs : b = slash
    · subst hs
      exact .inr (.inl rfl)
    · by_cases hd : b = dot
      · subst hd
        exact .inr (.inr ⟨rfl, rfl⟩)
      · exact .inl (by simp [lead, isAbsolute, hs, hd])
  · by_cases hs : b = slash
    · subst hs
      exact .inr (.inl (by simp [lead]))
    · by_cases hd : b = dot ∧ b' = slash
      · obtain ⟨rfl, rfl⟩ := hd
        refine .inr (.inr ⟨by simp [lead], ?_⟩)
        simp [pieces, lead, List.splitOn_cons_eq_if_modifyHead]
      · exact .inl (by simp [lead, isAbsolute, hs, hd])

theorem steps_lead (h : ∀ piece ∈ ps, slash ∉ piece)
    (hl : lead = [] ∨ lead = [slash] ∨ (lead = [dot] ∧ (ps = [] ∨ ps.head? = some []))) :
    (Path.mk (lead ++ [slash].intercalate ps)).steps = leadSteps lead ++ stepsOf ps := by
  rcases hl with rfl | rfl | ⟨rfl, rfl | hhead⟩
  · exact steps_intercalate h
  · exact (steps_append_slash [] _).trans (steps_intercalate h)
  · rfl
  · obtain ⟨rest, rfl⟩ : ∃ rest, ps = [] :: rest := by
      cases ps with
      | nil => contradiction
      | cons piece rest => exact ⟨rest, by simpa using hhead⟩
    by_cases hrest : rest = []
    · subst hrest
      rfl
    · rw [List.intercalate_cons_of_ne_nil hrest]
      refine (steps_append_slash [dot] _).trans (congrArg ([Step.here] ++ ·) ?_)
      exact steps_intercalate fun piece hp => h piece (List.mem_cons_of_mem _ hp)

theorem intercalate_prefix (ps more : List Bytes) :
    [slash].intercalate ps <+: [slash].intercalate (ps ++ more) := by
  induction ps with
  | nil => exact List.nil_prefix
  | cons piece ps ih =>
    by_cases hps : ps = []
    · subst hps
      by_cases hmore : more = []
      · subst hmore
        exact List.prefix_rfl
      · rw [List.cons_append, List.nil_append, List.intercalate_cons_of_ne_nil hmore,
          List.intercalate_singleton, List.append_assoc]
        exact List.prefix_append _ _
    · rw [List.cons_append, List.intercalate_cons_of_ne_nil hps,
        List.intercalate_cons_of_ne_nil (List.append_ne_nil_of_left_ne_nil hps _)]
      exact (List.prefix_append_right_inj _).mpr ih

/-! ### Joined paths -/

theorem IsName.isAbsolute_eq (h : IsName name) : (Path.mk name).isAbsolute = false := by
  cases name with
  | nil => rfl
  | cons b bytes =>
    have hb : b ≠ slash := fun hb => h.slash_notMem (hb ▸ List.mem_cons_self)
    simpa [isAbsolute] using hb

theorem bytes_join_of_not_isAbsolute (h : q.isAbsolute = false) :
    (p.bytes = [] ∧ (p.join q).bytes = q.bytes) ∨
      (∃ bytes, p.bytes = bytes ++ [slash] ∧ (p.join q).bytes = bytes ++ slash :: q.bytes) ∨
      (p.bytes ≠ [] ∧ (p.join q).bytes = p.bytes ++ slash :: q.bytes) := by
  rcases List.eq_nil_or_concat p.bytes with hp | ⟨bytes, b, hp⟩
  · exact .inl ⟨hp, by rw [join_empty p hp]⟩
  · rw [List.concat_eq_append] at hp
    right
    by_cases hb : b = slash
    · subst hb
      exact .inl ⟨bytes, hp, by simp [join, h, hp]⟩
    · exact .inr ⟨by simp [hp], by simp [join, h, hp, hb]⟩

theorem bytes_join (h : IsName name) : (p.bytes = [] ∧ (p.join ⟨name⟩).bytes = name) ∨
    (∃ bytes, p.bytes = bytes ++ [slash] ∧ (p.join ⟨name⟩).bytes = bytes ++ slash :: name) ∨
    (p.bytes ≠ [] ∧ (p.join ⟨name⟩).bytes = p.bytes ++ slash :: name) :=
  bytes_join_of_not_isAbsolute h.isAbsolute_eq

theorem mem_bytes_join {b : UInt8} (h : IsName name) (hb : b ∈ (p.join ⟨name⟩).bytes) :
    b ∈ p.bytes ∨ b ∈ name ∨ b = slash := by
  rcases bytes_join (p := p) h with ⟨-, hj⟩ | ⟨bytes, hp, hj⟩ | ⟨-, hj⟩
  · exact .inr (.inl (hj ▸ hb))
  · simp only [hj, hp, List.mem_append, List.mem_cons] at hb ⊢
    tauto
  · simp only [hj, List.mem_append, List.mem_cons] at hb ⊢
    tauto

theorem bytes_join_ne_nil (h : IsName name) : (p.join ⟨name⟩).bytes ≠ [] := by
  rcases bytes_join (p := p) h with ⟨-, hj⟩ | ⟨bytes, -, hj⟩ | ⟨-, hj⟩ <;> simp [hj, h.ne_nil]

theorem steps_join (h : IsName name) : (p.join ⟨name⟩).steps = p.steps ++ [.name name] := by
  have hname : (Path.mk name).steps = [.name name] := by
    rw [steps_eq_stepsOf h.slash_notMem, h.stepsOf_eq]
  rcases bytes_join (p := p) h with ⟨hp, hj⟩ | ⟨bytes, hp, hj⟩ | ⟨-, hj⟩
  · rw [show p.join ⟨name⟩ = ⟨name⟩ from congrArg mk hj, hname, show p = ⟨[]⟩ from congrArg mk hp]
    rfl
  · rw [show p.join ⟨name⟩ = _ from congrArg mk hj, show p = _ from congrArg mk hp,
      steps_append_slash, steps_append_slash, hname]
    simp [steps]
  · rw [show p.join ⟨name⟩ = _ from congrArg mk hj, steps_append_slash, hname]

theorem isAbsolute_join (h : IsName name) : (p.join ⟨name⟩).isAbsolute = p.isAbsolute := by
  rcases bytes_join (p := p) h with ⟨hp, hj⟩ | ⟨bytes, hp, hj⟩ | ⟨hp, hj⟩
  · rw [show p.join ⟨name⟩ = ⟨name⟩ from congrArg mk hj, h.isAbsolute_eq]
    simp [isAbsolute, hp]
  · cases bytes <;> simp [isAbsolute, hp, hj]
  · obtain ⟨b, bytes, hb⟩ := List.exists_cons_of_ne_nil hp
    simp [isAbsolute, hj, hb]

theorem endsInSlash_join (h : IsName name) : (p.join ⟨name⟩).endsInSlash = false := by
  have hlast : name.getLast? ≠ some slash := fun hs => h.slash_notMem (List.mem_of_getLast? hs)
  have hsome : name.getLast?.isSome := by simpa using h.ne_nil
  obtain ⟨b, hb⟩ := Option.isSome_iff_exists.mp hsome
  rcases bytes_join (p := p) h with ⟨-, hj⟩ | ⟨bytes, -, hj⟩ | ⟨-, hj⟩ <;>
  · simp only [endsInSlash, hj, List.getLast?_append, List.getLast?_cons]
    simpa [hb] using hlast

/-! ### The last name -/

theorem stepOf_eq_name_iff {piece : Bytes} : stepOf piece = .name name ↔
    piece = name ∧ name ≠ [dot] ∧ name ≠ [dot, dot] := by
  unfold stepOf
  constructor
  · intro h
    split at h
    · contradiction
    split at h
    · contradiction
    cases h
    exact ⟨rfl, ‹_›, ‹_›⟩
  · rintro ⟨rfl, hd, hu⟩
    rw [if_neg hd, if_neg hu]

theorem steps_eq (p : Path) : p.steps = leadSteps p.lead ++ stepsOf p.pieces := by
  have h : ∀ piece ∈ p.pieces, slash ∉ piece := fun _ => slash_notMem_of_mem_splitOn
  have hp : p.steps = (Path.mk (p.lead ++ [slash].intercalate p.pieces)).steps :=
    congrArg (fun bytes => (Path.mk bytes).steps) p.bytes_eq
  rw [hp]
  rcases p.lead_cases with ⟨hl, -⟩ | hl | ⟨hl, hp⟩
  · exact steps_lead h (.inl hl)
  · exact steps_lead h (.inr (.inl hl))
  · exact steps_lead h (.inr (.inr ⟨hl, .inr hp⟩))

/-- Where the last step is a name, it is the last piece that is not empty. -/
theorem exists_pieces (h : p.steps = init ++ [.name name]) : IsName name ∧
    ∃ above below, p.pieces = above ++ name :: below ∧ (∀ piece ∈ below, piece = []) := by
  rw [steps_eq] at h
  rcases List.eq_nil_or_concat (stepsOf p.pieces) with hs | ⟨front, last, hs⟩
  · rw [hs, leadSteps] at h
    split at h
    · have := congrArg List.getLast? h
      simp at this
    · simp at h
  · rw [List.concat_eq_append] at hs
    rw [hs, ← List.append_assoc] at h
    obtain ⟨-, hlast⟩ := List.append_inj' h rfl
    cases hlast
    obtain ⟨front', last', hf, -, hlast⟩ := List.map_eq_append_iff.mp hs
    obtain ⟨piece, tail, rfl, hname, hnil⟩ := List.map_eq_cons_iff.mp hlast
    cases List.map_eq_nil_iff.mp hnil
    obtain ⟨above, more, hpieces, -, hmore⟩ := List.filter_eq_append_iff.mp hf
    obtain ⟨empty, below, rfl, -, hne, hbelow⟩ := List.filter_eq_cons_iff.mp hmore
    obtain ⟨rfl, hd, hu⟩ := stepOf_eq_name_iff.mp hname
    refine ⟨⟨by simpa using hne, hd, hu, ?_⟩, above ++ empty, below, by simp [hpieces], ?_⟩
    · exact slash_notMem_of_mem_splitOn (hpieces ▸ by simp : piece ∈ p.pieces)
    · simpa using hbelow

end Path

end IconPainter
