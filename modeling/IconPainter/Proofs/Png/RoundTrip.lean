import IconPainter.Png.Basic

/-! # Reading back what was encoded

Every reader undoes its writer and leaves what follows, so the picture file of a
raster is read back as that raster, whatever its size.
-/

namespace IconPainter.Png

theorem readWord32_word32 (n : UInt32) (rest : Bytes) :
    readWord32 (word32 n ++ rest) = some (n, rest) := by
  have h : (n >>> 24).toUInt8.toUInt32 <<< 24 ||| (n >>> 16).toUInt8.toUInt32 <<< 16 |||
      (n >>> 8).toUInt8.toUInt32 <<< 8 ||| n.toUInt8.toUInt32 = n := by
    apply UInt32.toBitVec_inj.mp
    apply BitVec.eq_of_getLsbD_eq
    intro i hi
    simp only [UInt32.toBitVec_or, UInt32.toBitVec_shiftLeft, UInt32.toBitVec_shiftRight,
      UInt8.toBitVec_toUInt32, UInt32.toBitVec_toUInt8, BitVec.getLsbD_or]
    simp [BitVec.getLsbD_shiftLeft, BitVec.getLsbD_setWidth, BitVec.getLsbD_ushiftRight]
    grind
  simp only [word32, List.cons_append, List.nil_append, readWord32, h]

theorem readWord16_word16 (n : UInt16) (rest : Bytes) :
    readWord16 (word16 n ++ rest) = some (n, rest) := by
  have h : (n >>> 8).toUInt8.toUInt16 <<< 8 ||| n.toUInt8.toUInt16 = n := by
    apply UInt16.toBitVec_inj.mp
    apply BitVec.eq_of_getLsbD_eq
    intro i hi
    simp only [UInt16.toBitVec_or, UInt16.toBitVec_shiftLeft, UInt16.toBitVec_shiftRight,
      UInt8.toBitVec_toUInt16, UInt16.toBitVec_toUInt8, BitVec.getLsbD_or]
    simp [BitVec.getLsbD_shiftLeft, BitVec.getLsbD_setWidth, BitVec.getLsbD_ushiftRight]
    grind
  simp only [word16, List.cons_append, List.nil_append, readWord16, h]

theorem readBytes_append {n : Nat} {data : Bytes} (h : data.length = n) (rest : Bytes) :
    readBytes n (data ++ rest) = some (data, rest) := by
  subst h
  simp [readBytes, List.splitAt_eq]

/-! ### Parts -/

theorem flatten_cutFrom (n count : Nat) (bytes : Bytes) :
    (cutFrom n count bytes).flatten = bytes := by
  induction count generalizing bytes with
  | zero => simp [cutFrom]
  | succ count ih =>
    unfold cutFrom
    split
    · simp
    · rw [List.flatten_cons, ih, List.take_append_drop]

theorem flatten_cut (n : Nat) (bytes : Bytes) : (cut n bytes).flatten = bytes :=
  flatten_cutFrom n _ bytes

theorem cut_ne_nil (n : Nat) (bytes : Bytes) : cut n bytes ≠ [] := by
  unfold cut
  cases bytes.length / n with
  | zero => simp [cutFrom]
  | succ count => unfold cutFrom; split <;> simp

theorem length_le_of_mem_cutFrom {n count : Nat} {bytes part : Bytes}
    (hb : bytes.length ≤ n * count + n) (h : part ∈ cutFrom n count bytes) : part.length ≤ n := by
  induction count generalizing bytes with
  | zero =>
    obtain rfl : part = bytes := by simpa [cutFrom] using h
    simpa using hb
  | succ count ih =>
    unfold cutFrom at h
    split at h
    · rename_i hd
      obtain rfl : part = bytes := by simpa using h
      exact List.drop_eq_nil_iff.mp hd
    · rcases List.mem_cons.mp h with rfl | h
      · exact List.length_take_le n bytes
      · refine ih ?_ h
        rw [List.length_drop]
        rw [Nat.mul_succ] at hb
        omega

theorem length_le_of_mem_cut {n : Nat} (hn : 0 < n) {bytes part : Bytes}
    (h : part ∈ cut n bytes) : part.length ≤ n := by
  refine length_le_of_mem_cutFrom ?_ h
  have hdiv := Nat.div_add_mod bytes.length n
  have hmod := Nat.mod_lt bytes.length hn
  omega

/-! ### Stored data -/

namespace Zlib

theorem readBlocks_block {count : Nat} {final : Bool} {data : Bytes} (h : data.length ≤ maxBlock)
    (rest : Bytes) :
    readBlocks (count + 1) (block final data ++ rest) =
      if final then some (data, rest)
      else (readBlocks count rest).map fun r => (data ++ r.1, r.2) := by
  have hl : (UInt16.ofNat data.length).toNat = data.length := by
    apply UInt16.toNat_ofNat_of_lt
    unfold maxBlock at h
    exact Nat.lt_of_le_of_lt h (by decide)
  simp only [block, List.cons_append, List.append_assoc, readBlocks, readWord16_word16,
    Option.bind_eq_bind, Option.bind_some, readBytes_append hl.symm]
  cases final with
  | true => simp
  | false => cases readBlocks count rest <;> simp

theorem length_le_length_blocks (parts : List Bytes) : parts.length ≤ (blocks parts).length := by
  induction parts with
  | nil => exact Nat.zero_le _
  | cons data parts ih =>
    cases parts with
    | nil => simp [blocks, block]
    | cons data' parts =>
      simp only [blocks, block, List.cons_append, List.length_cons, List.length_append] at ih ⊢
      omega

theorem readBlocks_blocks {parts : List Bytes} (hn : parts ≠ [])
    (h : ∀ part ∈ parts, part.length ≤ maxBlock) {count : Nat} (hc : parts.length ≤ count)
    (rest : Bytes) : readBlocks count (blocks parts ++ rest) = some (parts.flatten, rest) := by
  induction parts generalizing count with
  | nil => exact absurd rfl hn
  | cons data parts ih =>
    obtain ⟨count, rfl⟩ := Nat.exists_eq_add_one_of_ne_zero (n := count) (by
      rintro rfl
      simp at hc)
    have hd := h data List.mem_cons_self
    cases parts with
    | nil => simp [blocks, readBlocks_block hd]
    | cons data' parts =>
      have hr := ih (by simp) (fun part hp => h part (List.mem_cons_of_mem _ hp))
        (Nat.le_of_succ_le_succ hc)
      rw [blocks, List.append_assoc, readBlocks_block hd, hr]
      · simp
      · simp

theorem load_store (data : Bytes) : load (store data) = some data := by
  have hcount : (cut maxBlock data).length ≤
      (blocks (cut maxBlock data) ++ word32 (adler32 data)).length :=
    Nat.le_trans (length_le_length_blocks _) (by simp)
  have hb := readBlocks_blocks (cut_ne_nil maxBlock data)
    (fun part hp => length_le_of_mem_cut (by decide) hp) hcount (word32 (adler32 data))
  rw [flatten_cut] at hb
  rw [store, List.append_assoc, load, readBytes_append (show header.length = 2 from rfl)]
  simp only [Option.bind_eq_bind, Option.bind_some, hb, and_self, if_true]

end Zlib

/-! ### Chunks -/

theorem readChunk_chunk (kind : Bytes) {data : Bytes} (hk : kind.length = 4)
    (hd : data.length < UInt32.size) (rest : Bytes) :
    readChunk (chunk kind data ++ rest) = some ((kind, data), rest) := by
  have hl : (UInt32.ofNat data.length).toNat = data.length :=
    UInt32.toNat_ofNat_of_lt hd
  simp only [chunk, List.append_assoc, readChunk, readWord32_word32, Option.bind_eq_bind,
    Option.bind_some, readBytes_append hk, readBytes_append hl.symm, if_true]

theorem readData_chunks {parts : List Bytes} (h : ∀ part ∈ parts, part.length < UInt32.size)
    {count : Nat} (hc : parts.length < count) :
    readData count ((parts.map (chunk dataKind)).flatten ++ chunk endKind []) =
      some parts.flatten := by
  induction parts generalizing count with
  | nil =>
    obtain ⟨count, rfl⟩ := Nat.exists_eq_add_one_of_ne_zero (Nat.pos_iff_ne_zero.mp hc)
    have he := readChunk_chunk endKind rfl (show ([] : Bytes).length < UInt32.size by decide) []
    rw [List.append_nil] at he
    have hk : endKind ≠ dataKind := by decide
    simp only [List.map_nil, List.flatten_nil, List.nil_append, readData, he, Option.bind_eq_bind,
      Option.bind_some, hk, and_self, if_true, if_false]
  | cons part parts ih =>
    obtain ⟨count, rfl⟩ := Nat.exists_eq_add_one_of_ne_zero (n := count) (by
      rintro rfl
      simp at hc)
    have hp := h part List.mem_cons_self
    have hr := ih (fun part' hp' => h part' (List.mem_cons_of_mem _ hp'))
      (Nat.lt_of_succ_lt_succ hc)
    simp only [List.map_cons, List.flatten_cons, List.append_assoc, readData,
      readChunk_chunk dataKind rfl hp, Option.bind_eq_bind, Option.bind_some, if_true, hr]

/-! ### Rows -/

theorem readRow_colors (colors : List Color) (rest : Bytes) :
    readRow colors.length (colors.flatMap colorBytes ++ rest) = some (colors, rest) := by
  induction colors with
  | nil => rfl
  | cons c colors ih =>
    simp only [List.length_cons, List.flatMap_cons, colorBytes, List.cons_append, List.nil_append,
      readRow, ih, Option.bind_eq_bind, Option.bind_some]

theorem readRows_rows {width : Nat} {rows : List (List Color)}
    (h : ∀ row ∈ rows, row.length = width) :
    readRows width rows.length (rows.map fun row => 0 :: row.flatMap colorBytes).flatten =
      some rows := by
  induction rows with
  | nil => rfl
  | cons row rows ih =>
    have hw := h row List.mem_cons_self
    subst hw
    have hr := ih fun row' hr' => h row' (List.mem_cons_of_mem _ hr')
    simp only [List.length_cons, List.map_cons, List.flatten_cons, List.cons_append, readRows,
      readRow_colors, hr, Option.bind_eq_bind, Option.bind_some]

def colorRows (r : Raster) : List (List Color) :=
  (List.range r.height.toNat).map fun y =>
    (r.pixels.extract (y * r.width.toNat) ((y + 1) * r.width.toNat)).toList

theorem colorRow_eq (r : Raster) (y : Nat) :
    (r.pixels.extract (y * r.width.toNat) ((y + 1) * r.width.toNat)).toList =
      (r.pixels.toList.drop (y * r.width.toNat)).take r.width.toNat := by
  rw [Array.toList_extract, List.extract_eq_take_drop, Nat.add_mul, Nat.one_mul,
    Nat.add_sub_cancel_left]

theorem length_of_mem_colorRows {r : Raster} {row : List Color} (h : row ∈ colorRows r) :
    row.length = r.width.toNat := by
  obtain ⟨y, hy, rfl⟩ := List.mem_map.mp h
  have hlt := List.mem_range.mp hy
  have hle : (y + 1) * r.width.toNat ≤ r.width.toNat * r.height.toNat := by
    rw [Nat.mul_comm]
    exact Nat.mul_le_mul_left _ hlt
  rw [colorRow_eq, List.length_take, List.length_drop, Array.length_toList, r.size_pixels]
  rw [Nat.add_mul, Nat.one_mul] at hle
  omega

theorem flatten_rows {α : Type} (l : List α) (width height : Nat) :
    ((List.range height).map fun y => (l.drop (y * width)).take width).flatten =
      l.take (height * width) := by
  induction height with
  | zero => simp
  | succ height ih =>
    rw [List.range_succ, List.map_append, List.flatten_append, ih, List.map_singleton,
      List.flatten_singleton, Nat.add_mul, Nat.one_mul, List.take_add]

theorem flatten_colorRows (r : Raster) : (colorRows r).flatten = r.pixels.toList := by
  have hlength : r.pixels.toList.length = r.height.toNat * r.width.toNat := by
    rw [Array.length_toList, r.size_pixels, Nat.mul_comm]
  simp only [colorRows, colorRow_eq]
  rw [flatten_rows, List.take_of_length_le (Nat.le_of_eq hlength)]

theorem readRows_rows_raster (r : Raster) :
    readRows r.width.toNat r.height.toNat (rows r).flatten = some (colorRows r) := by
  have h := readRows_rows (fun _ => length_of_mem_colorRows (r := r))
  have hl : (colorRows r).length = r.height.toNat := by simp [colorRows]
  have hr : (colorRows r).map (fun row => 0 :: row.flatMap colorBytes) = rows r := by
    simp [colorRows, rows]
  rwa [hl, hr] at h

theorem assemble_colors (r : Raster) : assemble r.width r.height r.pixels.toList = some r := by
  simp [assemble, r.size_pixels]

theorem readHeader_header {width height : UInt32} (hw : width ≠ 0) (hh : height ≠ 0) :
    readHeader (word32 width ++ word32 height ++ format) = some (width, height) := by
  rw [List.append_assoc, readHeader]
  simp only [readWord32_word32, Option.bind_eq_bind, Option.bind_some, hw, hh, ne_eq,
    not_false_eq_true, and_self, if_true]

theorem length_lt_length_chunks (parts : List Bytes) (rest : Bytes) :
    parts.length < ((parts.map (chunk dataKind)).flatten ++ chunk endKind rest).length := by
  induction parts with
  | nil => simp [chunk, word32]
  | cons part parts ih =>
    simp only [List.map_cons, List.flatten_cons, List.length_append, List.length_cons, chunk,
      word32] at ih ⊢
    omega

/-- A picture file holds the raster that was encoded, every pixel of it. -/
theorem decode_encode {r : Raster} {pieces : List Bytes} (h : encode r = .ok pieces) :
    decode pieces.flatten = some r := by
  unfold encode at h
  split at h
  · contradiction
  rename_i hw
  split at h
  · contradiction
  rename_i hh
  cases h
  generalize hparts : cut maxData (Zlib.store (rows r).flatten) = parts
  have hlt : ∀ part ∈ parts, part.length < UInt32.size := fun part hp =>
    Nat.lt_of_le_of_lt (length_le_of_mem_cut (by decide) (hparts ▸ hp)) (by decide)
  have hload : Zlib.load parts.flatten = some (rows r).flatten := by
    rw [← hparts, flatten_cut, Zlib.load_store]
  have hhead : (word32 r.width ++ word32 r.height ++ format).length < UInt32.size := by
    simp only [word32, format, List.length_append, List.length_cons, List.length_nil]
    decide
  have hbytes : ((signature ++ chunk headerKind (word32 r.width ++ word32 r.height ++ format)) ::
      parts.map (chunk dataKind) ++ [chunk endKind []]).flatten =
      signature ++ (chunk headerKind (word32 r.width ++ word32 r.height ++ format) ++
        ((parts.map (chunk dataKind)).flatten ++ chunk endKind [])) := by
    simp
  rw [hbytes, decode, readBytes_append (show signature.length = 8 from rfl)]
  simp only [Option.bind_eq_bind, Option.bind_some, readChunk_chunk headerKind rfl hhead,
    and_self, if_true, readHeader_header hw hh,
    readData_chunks hlt (length_lt_length_chunks parts []), hload, readRows_rows_raster,
    flatten_colorRows, assemble_colors]

end IconPainter.Png
