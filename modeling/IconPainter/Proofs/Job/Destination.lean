import IconPainter.Job
import IconPainter.Proofs.Path.Spelling
import IconPainter.Proofs.Text.Utf8

/-! # Where the icon is said to go

The text that tells where the icon went, read as a path, leads there, whatever
slashes the directory ends in. Only an empty directory and an absolute name are
told in another way than they are joined. A directory of any bytes is told piece
by piece, with U+FFFD for what is not UTF-8 and with slashes for backslashes.
-/

namespace IconPainter.Job

open IconPainter.Path Utf8

variable {j : Job} {t : String}

/-! ### The directory -/

def told (bytes : Bytes) : String :=
  .ofList ((lossyChars bytes).map fun c => if c = '\\' then '/' else c)

theorem told_ofString (hb : '\\' ∉ t.toList) : told (Path.ofString t).bytes = t := by
  have hmap : t.toList.map (fun c => if c = '\\' then '/' else c) = t.toList := by
    calc
      _ = t.toList.map id :=
        List.map_congr_left fun c hc => if_neg (ne_of_mem_of_not_mem hc hb)
      _ = t.toList := List.map_id _
  rw [told, Path.ofString, lossyChars_ofString, hmap, String.ofList_toList]

theorem told_append (bytes more : Bytes) :
    (told (bytes ++ slash :: more)).toList = (told bytes).toList ++ '/' :: (told more).toList := by
  have hslash : slash < 0x80 := by decide
  simp only [told, String.toList_ofList, lossyChars, decode_append_of_lt hslash, List.map_append,
    List.map_cons]
  rfl

/-- A directory is told piece by piece, though a backslash makes several pieces of one. -/
theorem piecewise_told : Piecewise fun bytes => .ofString (told bytes) where
  eq_nil_iff bytes := by
    rw [ofString_eq_nil_iff, told, String.toList_ofList, List.map_eq_nil_iff, lossyChars,
      List.map_eq_nil_iff, decode_eq_nil_iff]
  here := by decide +kernel
  append bytes more := by
    rw [ofString_eq, ofString_eq, ofString_eq, told_append, List.flatMap_append, List.flatMap_cons]
    rfl

/-! ### The text -/

theorem exists_dropSlashes_append (text : List Char) :
    ∃ k, text = dropSlashes text ++ List.replicate k '/' := by
  obtain ⟨slashes, htext, hall⟩ := exists_reverse_dropWhile (· == '/') text.reverse
  rw [List.reverse_reverse] at htext
  have hslashes := List.eq_replicate_of_mem fun c hc => beq_iff_eq.mp (hall c hc)
  rw [hslashes] at htext
  exact ⟨_, htext⟩

theorem flatMap_replicate_slash (k : Nat) :
    (List.replicate k '/').flatMap String.utf8EncodeChar = List.replicate k slash := by
  have hslash : String.utf8EncodeChar '/' = [slash] := by decide
  rw [List.flatMap_replicate, hslash, List.flatten_replicate_singleton]

theorem bytes_dropSlashes_append (directory : List Char) (name : String) :
    Bytes.ofString (.ofList (dropSlashes directory ++ '/' :: name.toList)) =
      (dropSlashes directory).flatMap String.utf8EncodeChar ++ slash :: Bytes.ofString name := by
  rw [ofString_eq, String.toList_ofList, List.flatMap_append, List.flatMap_cons, ofString_eq]
  rfl

theorem components_dropSlashes_append {directory : String} (h : Bytes.ofString directory ≠ [])
    (name : String) :
    (Path.ofString (.ofList (dropSlashes directory.toList ++ '/' :: name.toList))).components =
      (Path.ofString directory).components ++ componentsOf (Bytes.ofString name) := by
  obtain ⟨k, hk⟩ := exists_dropSlashes_append directory.toList
  have hbytes : Bytes.ofString directory =
      (dropSlashes directory.toList).flatMap String.utf8EncodeChar ++ List.replicate k slash := by
    rw [← flatMap_replicate_slash, ← List.flatMap_append, ← hk, ofString_eq]
  rw [hbytes] at h
  rw [Path.ofString, Path.ofString, hbytes, bytes_dropSlashes_append,
    components_append_of_slashes h]

theorem destinationText_eq_told (j : Job) : j.destinationText =
    .ofList (dropSlashes (told j.directory.bytes).toList ++ '/' :: j.fileName.toList) := by
  rw [told, String.toList_ofList]
  rfl

theorem destinationText_eq (h : j.directory = .ofString t) (hb : '\\' ∉ t.toList) :
    j.destinationText = .ofList (dropSlashes t.toList ++ '/' :: j.fileName.toList) := by
  rw [destinationText_eq_told, h, told_ofString hb]

theorem components_destinationText_of_empty (h : j.directory = .ofString t)
    (hb : '\\' ∉ t.toList) (hdir : j.directory.bytes = []) :
    (Path.ofString j.destinationText).components =
      .root :: componentsOf (Path.ofString j.fileName).bytes := by
  rw [h] at hdir
  have ht : t.toList = [] := (ofString_eq_nil_iff t).mp hdir
  rw [destinationText_eq h hb, Path.ofString, bytes_dropSlashes_append, ht]
  exact components_cons_slash _

theorem components_destinationText_told (hdir : j.directory.bytes ≠ []) :
    (Path.ofString j.destinationText).components =
      (Path.ofString (told j.directory.bytes)).components ++
        componentsOf (Path.ofString j.fileName).bytes := by
  have htold : Bytes.ofString (told j.directory.bytes) ≠ [] :=
    mt (piecewise_told.eq_nil_iff _).mp hdir
  rw [destinationText_eq_told, components_dropSlashes_append htold]
  rfl

theorem components_destinationText (h : j.directory = .ofString t) (hb : '\\' ∉ t.toList)
    (hdir : j.directory.bytes ≠ []) : (Path.ofString j.destinationText).components =
      j.directory.components ++ componentsOf (Path.ofString j.fileName).bytes := by
  rw [components_destinationText_told hdir, h, told_ofString hb]

/-! ### The path -/

/-- The text leads to where the icon goes, if its directory is not empty and its name is not
absolute. If the name is absolute, it does where nothing but the root stands before it. -/
theorem destinationText_same_iff (h : j.directory = .ofString t) (hb : '\\' ∉ t.toList) :
    (Path.ofString j.destinationText).Same j.destination ↔
      ((Path.ofString j.fileName).isAbsolute = false ∧ j.directory.bytes ≠ []) ∨
        ((Path.ofString j.fileName).isAbsolute = true ∧
          (j.directory.components = [] ∨ j.directory.components = [.root])) := by
  unfold Path.Same
  by_cases hdir : j.directory.bytes = []
  · rw [components_destinationText_of_empty h hb hdir, destination, join_empty _ hdir]
    cases habs : (Path.ofString j.fileName).isAbsolute with
    | false =>
      have hroot := root_notMem_components habs
      exact iff_of_false (fun heq => hroot (heq ▸ List.mem_cons_self)) (by simp [hdir])
    | true =>
      exact iff_of_true (components_of_isAbsolute habs).symm
        (.inr ⟨rfl, .inl (components_empty hdir)⟩)
  · rw [components_destinationText h hb hdir, destination]
    cases habs : (Path.ofString j.fileName).isAbsolute with
    | false => exact iff_of_true (components_join habs hdir).symm (.inl ⟨rfl, hdir⟩)
    | true =>
      rw [join_of_isAbsolute habs, components_of_isAbsolute habs, ← List.singleton_append,
        List.append_left_inj]
      simp [components_eq_nil_iff, hdir]

/-- A directory with slashes at its end, and an absolute name beside the root and in a directory
that is not the root. -/
theorem destinationText_same_iff_slashes :
    let j : Job := ⟨1, .ofString "out//", "icon.png"⟩
    let k : Job := ⟨1, .ofString "//.", "/icon.png"⟩
    let l : Job := ⟨1, .ofString "out", "/icon.png"⟩
    '\\' ∉ "out//".toList ∧ j.destinationText = "out/icon.png" ∧
      (Path.ofString j.destinationText).Same j.destination ∧
      (Path.ofString k.destinationText).Same k.destination ∧
      ¬ (Path.ofString l.destinationText).Same l.destination := by
  intro j k l
  have hout : '\\' ∉ "out//".toList := by decide
  refine ⟨hout, by decide +kernel, ?_, ?_, ?_⟩
  · exact (destinationText_same_iff (j := j) rfl hout).mpr (.inl (by decide +kernel))
  · exact (destinationText_same_iff (j := k) rfl (by decide)).mpr (.inr (by decide +kernel))
  · rw [destinationText_same_iff (j := l) rfl (by decide)]
    decide +kernel

end IconPainter.Job
