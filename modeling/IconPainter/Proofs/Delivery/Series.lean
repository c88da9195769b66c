import IconPainter.Proofs.Delivery.Crash
import IconPainter.Proofs.Delivery.Success

/-! # A series of deliveries

Paths that name entries of their own, none of them a staging entry, do not
disturb each other: after any series of deliveries to them, each holds the
last picture that was delivered to it. What the paths and the staging paths name
stays as it must be for the next delivery.
-/

namespace IconPainter

open Delivery Disk

variable {codec : Codec} {ι : Type} {p : ι → Path} {x : ι → Entry} {d d' e f g : Disk}
  {image a b : Raster} {i j k : ι} {ok ok' : Prop} {X : Set Entry}

/-- Every path names an entry of its own, at which there is nothing, a directory, or a file of
its own, and which is the staging entry of none; the staging paths are free. -/
structure Targets (p : ι → Path) (x : ι → Entry) (d : Disk) : Prop where
  named?_eq : ∀ i, d.named? (p i) = some (x i)
  injective : Function.Injective x
  ne_staging : ∀ i j, x i ≠ (x j).staging
  settled : ∀ i, d.Sole (x i) ∨ ∃ k, d.kindAt? (x i) = some k ∧ k.isDirectory
  free : ∀ i, d.Free (stagingPath (p i))

/-- The path names a file with the picture, and that is what is read from it. -/
def Disk.Holds (d : Disk) (codec : Codec) (p : Path) (image : Raster) : Prop :=
  ∃ x bytes, d.named? p = some x ∧ d.kindAt? x = some (.file bytes true) ∧
    codec.decode bytes = some image ∧ d.content? p = some bytes

/-- The path holds the picture that was last delivered there, or what it named at first. -/
def Disk.Reflects (d : Disk) (codec : Codec) (p : Path) : Option Raster → Disk → Prop
  | some image, e => e.Holds codec p image
  | none, e => d.Untouched p e

/-- Deliver one picture after the other, whatever comes of each. -/
def series (codec : Codec) (p : ι → Path) : List (ι × Raster) → Script (List (Except Failure Unit))
  | [] => .done []
  | (i, image) :: calls => (writePicture codec image (p i)).bind fun r =>
    (series codec p calls).bind fun results => .done (r :: results)

/-- The picture of the last delivery to a path that succeeded. -/
def lastDelivered [DecidableEq ι] (i : ι) (calls : List (ι × Raster))
    (results : List (Except Failure Unit)) : Option Raster :=
  ((calls.zip results).filter fun call => call.1.1 = i ∧ call.2 = .ok ()).getLast?.map (·.1.2)

/-! ### One delivery -/

theorem Disk.Untouched.holds {p : Path} (h : d.Untouched p e) (hd : d.Holds codec p image) :
    e.Holds codec p image := by
  obtain ⟨y, bytes, hy, hk, hdecode, hc⟩ := hd
  exact ⟨y, bytes, h.named?_eq.trans hy, (h.kindAt?_eq y hy).trans hk, hdecode,
    h.content?_eq.trans hc⟩

namespace Targets

theorem of_sameOff (h : Targets p x d) (hw : d.WellFormed) (hwf : f.WellFormed)
    (hs : SameOff X d f) (hX : ∀ y ∈ X, d.Sole y ∧ f.Sole y) : Targets p x f where
  named?_eq i := (hs.named?_eq hw hwf hX _).trans (h.named?_eq i)
  injective := h.injective
  ne_staging := h.ne_staging
  settled i := by
    by_cases hi : x i ∈ X
    · exact .inl (hX _ hi).2
    · rw [← hs.kindAt?_eq _ hi]
      exact (h.settled i).imp_left (hs.sole fun y hy => (hX y hy).2)
  free i s hsf := by
    rw [hs.named?_eq hw hwf hX] at hsf
    obtain ⟨⟨parent, hc⟩, hsole⟩ := h.free i s hsf
    exact ⟨⟨parent, hs.directories.kind?_iff.mp hc⟩, hs.sole (fun y hy => (hX y hy).2) hsole⟩

theorem eq_staging (h : Targets p x d) {s : Entry} (hs : d.named? (stagingPath (p i)) = some s) :
    s = (x i).staging :=
  named?_stagingPath (h.named?_eq i) hs

theorem not_link (h : Targets p x d) (i : ι) (id : NodeId) (target : Path) :
    d.reach? (x i) ≠ some (id, some target) := by
  rcases h.settled i with hs | ⟨k, hk, hd⟩
  · exact hs.not_link
  · intro hr
    obtain ⟨hat, k', hk', hkt⟩ := reach?_eq_some_iff.mp hr
    rw [kindAt?_of_at? hat, hk'] at hk
    cases hk
    cases k <;> contradiction

theorem sole_of_changed (h : Targets p x d) (he : Effect codec image (p i) d ok f) :
    ∀ y ∈ Changed (p i) d ok, d.Sole y ∧ f.Sole y := by
  rintro y (hy | ⟨hok, hy⟩)
  · exact ⟨(h.free i y hy).2, .inl (he.gone y hy)⟩
  · obtain ⟨z, hz, hleaf, -, hsingle, -⟩ := he.delivered hok
    cases hz.1.symm.trans hy
    cases (h.named?_eq i).symm.trans hy
    refine ⟨(h.settled i).resolve_right ?_, .inr hsingle⟩
    rintro ⟨k, hk, hd⟩
    rcases hleaf with hnone | ⟨k', hk', hd'⟩
    · simp [kindAt?, hnone] at hk
    · cases hk.symm.trans hk'
      simp [hd'] at hd

theorem effect (h : Targets p x d) (hw : d.WellFormed) (he : Effect codec image (p i) d ok f)
    (hwf : f.WellFormed) : Targets p x f :=
  h.of_sameOff hw hwf he.sameOff (h.sole_of_changed he)

theorem named?_effect (h : Targets p x d) (hw : d.WellFormed) (he : Effect codec image (p i) d ok f)
    (hwf : f.WellFormed) (q : Path) : f.named? q = d.named? q :=
  he.sameOff.named?_eq hw hwf (h.sole_of_changed he) q

theorem notMem_changed (h : Targets p x d) (hk : i = k → ¬ ok) :
    x k ∉ Changed (p i) d ok := by
  rintro (hs | ⟨hok, hs⟩)
  · exact h.ne_staging k i (h.eq_staging hs)
  · exact hk (h.injective (Option.some.inj ((h.named?_eq i).symm.trans hs))) hok

theorem disjoint_changed (h : Targets p x d) (hij : i ≠ j) {y : Entry}
    (hi : y ∈ Changed (p i) d ok) : y ∉ Changed (p j) d ok' := by
  rcases hi with hs | ⟨-, hx⟩
  · cases h.eq_staging hs
    rintro (hs' | ⟨-, hx'⟩)
    · exact hij (h.injective (Entry.staging_injective (h.eq_staging hs')))
    · exact h.ne_staging j i (Option.some.inj ((h.named?_eq j).symm.trans hx'))
  · cases (h.named?_eq i).symm.trans hx
    exact h.notMem_changed fun hji => (hij hji.symm).elim

/-- After a delivery its path holds the picture if it succeeded, and every other path is
untouched. -/
theorem reflects_effect (h : Targets p x d) (hw : d.WellFormed)
    (he : Effect codec image (p i) d ok f) (hwf : f.WellFormed) (k : ι) :
    (i = k ∧ ok → f.Holds codec (p k) image) ∧ (¬ (i = k ∧ ok) → d.Untouched (p k) f) := by
  have hf := h.effect hw he hwf
  constructor
  · rintro ⟨rfl, hok⟩
    obtain ⟨y, hy, -, hencode, -, hkind⟩ := he.delivered hok
    cases (h.named?_eq i).symm.trans hy.1
    refine ⟨x i, _, hf.named?_eq i, hkind, hencode.decode_bytes, ?_⟩
    rw [content?_of_named? hwf (hf.named?_eq i) (hf.not_link i), hy.2]
    simp [contentAt?, hkind, Kind.content?]
  · intro hno
    have hnot := h.notMem_changed fun hik hok => hno ⟨hik, hok⟩
    refine ⟨h.named?_effect hw he hwf _, ?_, ?_, ?_⟩
    · intro y hy
      cases (h.named?_eq k).symm.trans hy
      exact (he.sameOff.at?_eq _ hnot).symm
    · intro y hy
      cases (h.named?_eq k).symm.trans hy
      exact (he.sameOff.kindAt?_eq _ hnot).symm
    · rw [content?_of_named? hwf (hf.named?_eq k) (hf.not_link k),
        content?_of_named? hw (h.named?_eq k) (h.not_link k), contentAt?, contentAt?,
        he.sameOff.kindAt?_eq _ hnot]

end Targets

/-! ### Two deliveries -/

namespace Targets

theorem effect_writePicture (h : Targets p x d) (codec : Codec) (hw : d.WellFormed) (i : ι)
    (image : Raster) :
    Effect codec image (p i) d (((writePicture codec image (p i)).run d).value = .ok ())
      ((writePicture codec image (p i)).run d).disk :=
  IconPainter.effect_writePicture codec image hw (h.free i)

theorem value_eq_ok_of_other (h : Targets p x d) (hw : d.WellFormed)
    (he : Effect codec image (p i) d ok f) (hwf : f.WellFormed) (hij : i ≠ j) (b : Raster) :
    (((writePicture codec b (p j)).run f).value = .ok ()) =
      (((writePicture codec b (p j)).run d).value = .ok ()) := by
  have hentry := h.named?_effect hw he hwf
  have hkind {y : Entry} (hy : d.named? (p j) = some y ∨
      d.named? (stagingPath (p j)) = some y) : d.kindAt? y = f.kindAt? y :=
    he.sameOff.kindAt?_eq y (h.disjoint_changed hij.symm (show y ∈ Changed (p j) d True by
      rcases hy with hy | hy
      · exact .inr ⟨trivial, hy⟩
      · exact .inl hy))
  rw [value_writePicture_eq_ok_iff codec b hwf ((h.effect hw he hwf).free j),
    value_writePicture_eq_ok_iff codec b hw (h.free j)]
  apply propext
  apply and_congr_right
  intro _
  constructor
  · intro hr
    apply hr.congr (hentry _) (hentry _)
    intro y hy
    rw [hentry, hentry] at hy
    exact (hkind hy).symm
  · intro hr
    exact hr.congr (hentry _).symm (hentry _).symm fun y hy => hkind hy

theorem changed_congr {p : Path} (hp : f.named? p = d.named? p)
    (hs : f.named? (stagingPath p) = d.named? (stagingPath p)) :
    Changed p f ok = Changed p d ok := by
  simp only [Changed, hp, hs]

theorem agree_of_other (h : Targets p x d) (hw : d.WellFormed) (hij : i ≠ j)
    (he : Effect codec a (p i) d ok e) (hf : Effect codec b (p j) e ok' f)
    (hg : Effect codec a (p i) d' ok g)
    (hwe : e.WellFormed) (hwg : g.WellFormed) (hentry : ∀ q, d'.named? q = d.named? q) :
    ∀ y ∈ Changed (p i) d ok, f.Sole y ∧ g.Sole y ∧ f.kindAt? y = g.kindAt? y := by
  intro y hy
  obtain ⟨hse, hsg, hk⟩ := he.agree hg hwe hwg (hentry _).symm (hentry _).symm y hy
  have hentry := h.named?_effect hw he hwe
  have hyj : y ∉ Changed (p j) e ok' := by
    rw [changed_congr (hentry _) (hentry _)]
    exact h.disjoint_changed hij hy
  refine ⟨hf.sameOff.sole (fun z hz => ((h.effect hw he hwe).sole_of_changed hf z hz).2) hse, hsg,
    (hf.sameOff.kindAt?_eq y hyj).symm.trans hk⟩

/-- Two deliveries to different paths may be made in either order. -/
theorem alike_swap (h : Targets p x d) (hw : d.WellFormed) (hij : i ≠ j) (a b : Raster) :
    ((writePicture codec b (p j)).run ((writePicture codec a (p i)).run d).disk).disk.Alike
      ((writePicture codec a (p i)).run ((writePicture codec b (p j)).run d).disk).disk := by
  have hi := h.effect_writePicture codec hw i a
  have hj := h.effect_writePicture codec hw j b
  have hwi := Script.wellFormed_run (writePicture codec a (p i)) hw
  have hwj := Script.wellFormed_run (writePicture codec b (p j)) hw
  have hij' := (h.effect hw hi hwi).effect_writePicture codec hwi j b
  have hji' := (h.effect hw hj hwj).effect_writePicture codec hwj i a
  have hwij := Script.wellFormed_run (writePicture codec b (p j)) hwi
  have hwji := Script.wellFormed_run (writePicture codec a (p i)) hwj
  rw [h.value_eq_ok_of_other hw hi hwi hij b] at hij'
  rw [h.value_eq_ok_of_other hw hj hwj hij.symm a] at hji'
  have hei := h.named?_effect hw hi hwi
  have hej := h.named?_effect hw hj hwj
  have hsij := hij'.sameOff
  have hsji := hji'.sameOff
  rw [changed_congr (hei _) (hei _)] at hsij
  rw [changed_congr (hej _) (hej _)] at hsji
  refine (Alike.refl d).step
    ((hi.sameOff.mono Set.subset_union_left).trans (hsij.mono Set.subset_union_right))
    ((hj.sameOff.mono Set.subset_union_right).trans (hsji.mono Set.subset_union_left)) ?_
  rintro y (hy | hy)
  · exact h.agree_of_other hw hij hi hij' hji' hwi hwji hej y hy
  · obtain ⟨hs, hs', hk⟩ := h.agree_of_other hw hij.symm hj hji' hij' hwj hwij hei y hy
    exact ⟨hs', hs, hk.symm⟩

theorem sameOff_of_alike (h : d.Alike d') : SameOff {y | d.Sole y ∧ d'.Sole y} d d' :=
  ⟨h.directories, fun y hy => (h.at?_eq y).resolve_right hy, fun y _ => h.kindAt?_eq y⟩

theorem alike (h : Targets p x d) (hw : d.WellFormed) (hw' : d'.WellFormed) (ha : d.Alike d') :
    Targets p x d' :=
  h.of_sameOff hw hw' (sameOff_of_alike ha) fun _ hy => hy

theorem alike_writePicture (h : Targets p x d) (hw : d.WellFormed) (hw' : d'.WellFormed)
    (ha : d.Alike d') (i : ι) (image : Raster) :
    ((writePicture codec image (p i)).run d).disk.Alike
      ((writePicture codec image (p i)).run d').disk := by
  have h' := h.alike hw hw' ha
  have he := h.effect_writePicture codec hw i image
  have he' := h'.effect_writePicture codec hw' i image
  have hentry := (sameOff_of_alike ha).named?_eq hw hw' fun _ hy => hy
  have hok : (((writePicture codec image (p i)).run d').value = .ok ()) =
      (((writePicture codec image (p i)).run d).value = .ok ()) := by
    rw [value_writePicture_eq_ok_iff codec image hw' (h'.free i),
      value_writePicture_eq_ok_iff codec image hw (h.free i)]
    apply propext
    apply and_congr_right
    intro _
    constructor
    · intro hr
      exact hr.congr (hentry _) (hentry _) fun y _ => (ha.kindAt?_eq y).symm
    · intro hr
      exact hr.congr (hentry _).symm (hentry _).symm fun y _ => ha.kindAt?_eq y
  rw [hok] at he'
  have hsame := he'.sameOff
  rw [changed_congr (hentry _) (hentry _)] at hsame
  exact ha.step he.sameOff hsame (he.agree he' (Script.wellFormed_run _ hw)
    (Script.wellFormed_run _ hw') (hentry _).symm (hentry _).symm)

end Targets

/-! ### The series -/

theorem value_series_cons (p : ι → Path) (i : ι) (image : Raster) (calls : List (ι × Raster))
    (d : Disk) : ((series codec p ((i, image) :: calls)).run d).value =
      ((writePicture codec image (p i)).run d).value ::
        ((series codec p calls).run ((writePicture codec image (p i)).run d).disk).value := by
  simp only [series, Script.value_run_bind, Script.run]

theorem disk_series_cons (p : ι → Path) (i : ι) (image : Raster) (calls : List (ι × Raster))
    (d : Disk) : ((series codec p ((i, image) :: calls)).run d).disk =
      ((series codec p calls).run ((writePicture codec image (p i)).run d).disk).disk := by
  simp only [series, Script.disk_run_bind, Script.run]

theorem disk_series_append (p : ι → Path) (calls calls' : List (ι × Raster)) (d : Disk) :
    ((series codec p (calls ++ calls')).run d).disk =
      ((series codec p calls').run ((series codec p calls).run d).disk).disk := by
  induction calls generalizing d with
  | nil => rfl
  | cons call calls ih => rw [List.cons_append, disk_series_cons, disk_series_cons, ih]

theorem lastDelivered_cons [DecidableEq ι] (i : ι) (call : ι × Raster) (calls : List (ι × Raster))
    (r : Except Failure Unit) (results : List (Except Failure Unit)) :
    lastDelivered i (call :: calls) (r :: results) = (lastDelivered i calls results).or
      (if call.1 = i ∧ r = .ok () then some call.2 else none) := by
  unfold lastDelivered
  rw [List.zip_cons_cons, List.filter_cons]
  split <;> rename_i hcall <;> simp only [decide_eq_true_eq] at hcall
  · rw [List.getLast?_cons, if_pos hcall]
    cases List.getLast? _ <;> rfl
  · rw [if_neg hcall, Option.or_none]

namespace Targets

/-- Every delivery of a series finds the targets as they must be. -/
theorem series (h : Targets p x d) (codec : Codec) (hw : d.WellFormed)
    (calls : List (ι × Raster)) :
    Targets p x ((series codec p calls).run d).disk := by
  induction calls generalizing d with
  | nil => exact h
  | cons call calls ih =>
    rw [disk_series_cons]
    have hwf := Script.wellFormed_run (writePicture codec call.2 (p call.1)) hw
    exact ih (h.effect hw (h.effect_writePicture codec hw _ _) hwf) hwf

theorem alike_series (h : Targets p x d) (hw : d.WellFormed) (hw' : d'.WellFormed)
    (ha : d.Alike d') (calls : List (ι × Raster)) :
    ((IconPainter.series codec p calls).run d).disk.Alike
      ((IconPainter.series codec p calls).run d').disk := by
  induction calls generalizing d d' with
  | nil => exact ha
  | cons call calls ih =>
    rw [disk_series_cons, disk_series_cons]
    have hwf := Script.wellFormed_run (writePicture codec call.2 (p call.1)) hw
    have hwf' := Script.wellFormed_run (writePicture codec call.2 (p call.1)) hw'
    exact ih (h.effect hw (h.effect_writePicture codec hw _ _) hwf) hwf hwf'
      (h.alike_writePicture hw hw' ha _ _)

theorem reflects_series [DecidableEq ι] (h : Targets p x d) (hw : d.WellFormed)
    (calls : List (ι × Raster)) (i : ι) :
    d.Reflects codec (p i) (lastDelivered i calls ((IconPainter.series codec p calls).run d).value)
      ((IconPainter.series codec p calls).run d).disk := by
  induction calls generalizing d with
  | nil => exact .refl d (p i)
  | cons call calls ih =>
    have hwf := Script.wellFormed_run (writePicture codec call.2 (p call.1)) hw
    have he := h.effect_writePicture codec hw call.1 call.2
    obtain ⟨hholds, huntouched⟩ := h.reflects_effect hw he hwf i
    have hrest := ih (h.effect hw he hwf) hwf
    rw [value_series_cons, disk_series_cons, lastDelivered_cons]
    cases hlast : lastDelivered i calls ((IconPainter.series codec p calls).run
        ((writePicture codec call.2 (p call.1)).run d).disk).value with
    | some image =>
      rw [hlast] at hrest
      exact hrest
    | none =>
      rw [hlast] at hrest
      rw [Option.none_or]
      split
      · rename_i hcall
        exact hrest.holds (hholds hcall)
      · rename_i hcall
        exact (huntouched hcall).trans hrest

theorem alike_series_swap (h : Targets p x d) (hw : d.WellFormed) (hij : i ≠ j) (a b : Raster)
    (before after : List (ι × Raster)) :
    ((IconPainter.series codec p (before ++ (i, a) :: (j, b) :: after)).run d).disk.Alike
      ((IconPainter.series codec p (before ++ (j, b) :: (i, a) :: after)).run d).disk := by
  have hwf := Script.wellFormed_run (IconPainter.series codec p before) hw
  have ht := h.series codec hw before
  simp only [disk_series_append, disk_series_cons]
  generalize ((IconPainter.series codec p before).run d).disk = e at *
  have hi := Script.wellFormed_run (writePicture codec a (p i)) hwf
  have hj := Script.wellFormed_run (writePicture codec b (p j)) hwf
  have hti := ht.effect hwf (ht.effect_writePicture codec hwf i a) hi
  have htij := hti.effect hi (hti.effect_writePicture codec hi j b) (Script.wellFormed_run _ hi)
  exact htij.alike_series (Script.wellFormed_run _ hi) (Script.wellFormed_run _ hj)
    (ht.alike_swap hwf hij a b) after

end Targets

/-- Whatever the order of the deliveries and whichever of them fail, every path holds the picture
that was last delivered to it, and neighbours in the order may be exchanged. -/
theorem series_reflects_last_delivered [DecidableEq ι] (codec : Codec) (h : Targets p x d)
    (hw : d.WellFormed) :
    (∀ calls i, d.Reflects codec (p i) (lastDelivered i calls ((series codec p calls).run d).value)
      ((series codec p calls).run d).disk) ∧
    ∀ before after i j a b, i ≠ j →
      ((series codec p (before ++ (i, a) :: (j, b) :: after)).run d).disk.Alike
        ((series codec p (before ++ (j, b) :: (i, a) :: after)).run d).disk :=
  ⟨fun calls i => h.reflects_series hw calls i,
    fun before after _ _ a b hij => h.alike_series_swap hw hij a b before after⟩

/-- A picture beside a staging file that was left behind. -/
def Disk.stale : Disk where
  nodes := #[
    .directory 0 ⟨[(.ofString "work", 1)], .search⟩,
    .directory 0 ⟨[(.ofString "icon.png", 2), (.ofString ".icon.png.partial", 3)], .change⟩,
    .file [1] true,
    .file [2] true]
  working := 1

def pictureName : Bool → Bytes
  | true => .ofString "icon.png"
  | false => .ofString "logo.png"

theorem targets_stale : Targets (fun i => ⟨pictureName i⟩) (fun i => ⟨1, pictureName i⟩)
    Disk.stale where
  named?_eq := by decide +kernel
  injective := by
    unfold Function.Injective
    decide +kernel
  ne_staging := by decide +kernel
  settled i := by
    left
    cases i with
    | true =>
      have hkind : Disk.stale.kind? 2 = some (.file [1] true) := by decide +kernel
      exact .inr (single_of_links (by decide +kernel) hkind (by decide +kernel))
    | false => exact .inl (by decide +kernel)
  free i s hs := by
    have hchange : Disk.stale.MayChange 1 := ⟨0, by decide +kernel⟩
    have hstaging : ∀ i, Disk.stale.named? (stagingPath ⟨pictureName i⟩) =
        some (Entry.staging ⟨1, pictureName i⟩) := by decide +kernel
    cases (hstaging i).symm.trans hs
    refine ⟨hchange, ?_⟩
    cases i with
    | true =>
      have hkind : Disk.stale.kind? 3 = some (.file [2] true) := by decide +kernel
      exact .inr (single_of_links (by decide +kernel) hkind (by decide +kernel))
    | false => exact .inl (by decide +kernel)

/-- A failure after a success leaves the picture, and may be exchanged with another success. -/
theorem series_stale :
    Disk.stale.Reflects Png.codec ⟨pictureName true⟩ (some (.clear 1 1))
      ((series Png.codec (fun i => ⟨pictureName i⟩)
        [(true, .clear 1 1), (true, .empty), (false, .clear 1 2)]).run Disk.stale).disk ∧
    ((series Png.codec (fun i => ⟨pictureName i⟩)
        [(true, .clear 1 1), (true, .empty), (false, .clear 1 2)]).run Disk.stale).disk.Alike
      ((series Png.codec (fun i => ⟨pictureName i⟩)
        [(true, .clear 1 1), (false, .clear 1 2), (true, .empty)]).run Disk.stale).disk := by
  obtain ⟨hlast, hswap⟩ := series_reflects_last_delivered Png.codec targets_stale
    (wellFormed_of_wellFormedB (by decide +kernel))
  have hdelivered : lastDelivered true [(true, .clear 1 1), (true, .empty), (false, .clear 1 2)]
      ((series Png.codec (fun i => ⟨pictureName i⟩)
        [(true, .clear 1 1), (true, .empty), (false, .clear 1 2)]).run Disk.stale).value =
      some (.clear 1 1) := by decide +kernel
  exact ⟨hdelivered ▸ hlast _ true, hswap [(true, .clear 1 1)] [] true false _ _ (by decide)⟩

end IconPainter
