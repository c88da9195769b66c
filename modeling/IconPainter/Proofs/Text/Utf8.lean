import Mathlib.Data.List.Basic
import Mathlib.Tactic.SplitIfs
import IconPainter.Text.Utf8

/-! # Decoded bytes

Reading loses nothing: the bytes of the pieces, one after the other, are the
bytes that were read. So a text is read back from its bytes, and no other bytes
are read as that text.
-/

namespace IconPainter.Utf8

def Piece.bytes : Piece → Bytes
  | .char c => String.utf8EncodeChar c
  | .invalid bytes => bytes

def extend (value : Nat) (rest : Bytes) : Nat :=
  rest.foldl (fun v b => v * 64 + (b.toNat - 0x80)) value

theorem extend_nil (value : Nat) : extend value [] = value := rfl

theorem extend_cons (value : Nat) (b : UInt8) (rest : Bytes) :
    extend value (b :: rest) = extend (value * 64 + (b.toNat - 0x80)) rest := by
  rw [extend, List.foldl_cons, extend]

namespace Begun

def more (g : Begun) (b : UInt8) : Begun :=
  ⟨g.bytes ++ [b], g.value * 64 + (b.toNat - 0x80), g.missing - 1, 0x80, 0xBF⟩

/-- The bytes complete the character that has begun. -/
inductive Completes : Begun → Bytes → Prop where
  | last {g : Begun} {b : UInt8} : g.missing = 1 → g.least ≤ b ∧ b ≤ g.most → Completes g [b]
  | more {g : Begun} {b : UInt8} {rest : Bytes} : 1 < g.missing → g.least ≤ b ∧ b ≤ g.most →
      Completes (g.more b) rest → Completes g (b :: rest)

/-- Something is missing, and whatever completes the character encodes it. -/
structure Sound (g : Begun) : Prop where
  missing : 0 < g.missing
  encodes : ∀ rest, g.Completes rest →
    String.utf8EncodeChar (.ofNat (extend g.value rest)) = g.bytes ++ rest

end Begun

variable {b b₁ b₂ b₃ : UInt8} {v : Nat} {g : Begun}

/-! ### First bytes -/

theorem begin?_two (h : 0xC2 ≤ b.toNat ∧ b.toNat ≤ 0xDF) :
    begin? b = some ⟨[b], b.toNat - 0xC0, 1, 0x80, 0xBF⟩ := by
  simp only [begin?, UInt8.le_iff_toNat_le]
  exact if_pos h

theorem begin?_three (h : b.toNat = 0xE0 + v) (hv : v < 16) :
    begin? b = some ⟨[b], v, 2, if v = 0 then 0xA0 else 0x80, if v = 0xD then 0x9F else 0xBF⟩ := by
  simp only [begin?, UInt8.le_iff_toNat_le, ← UInt8.toNat_inj, UInt8.toNat_ofNat, h]
  split_ifs <;> first | omega | simp [*]

theorem begin?_four (h : b.toNat = 0xF0 + v) (hv : v < 5) :
    begin? b = some ⟨[b], v, 3, if v = 0 then 0x90 else 0x80, if v = 4 then 0x8F else 0xBF⟩ := by
  simp only [begin?, UInt8.le_iff_toNat_le, ← UInt8.toNat_inj, UInt8.toNat_ofNat, h]
  split_ifs <;> first | omega | simp [*]

theorem begin?_cases (h : begin? b = some g) : (0xC2 ≤ b.toNat ∧ b.toNat ≤ 0xDF) ∨
    (∃ v < 16, b.toNat = 0xE0 + v) ∨ ∃ v < 5, b.toNat = 0xF0 + v := by
  simp only [begin?, UInt8.le_iff_toNat_le, ← UInt8.toNat_inj, UInt8.toNat_ofNat] at h
  by_cases h2 : b.toNat ≤ 0xDF
  · left
    split_ifs at h <;> omega
  by_cases h3 : b.toNat ≤ 0xEF
  · exact .inr (.inl ⟨b.toNat - 0xE0, by omega, by omega⟩)
  · refine .inr (.inr ⟨b.toNat - 0xF0, ?_, by omega⟩)
    split_ifs at h <;> omega

/-! ### Encoded characters -/

theorem toNat_ofNat (h : v.isValidChar) : (Char.ofNat v).val.toNat = v := by
  rw [Char.ofNat, dif_pos h]
  rfl

theorem ofNat_eq {n : Nat} (h : n = b.toNat) : UInt8.ofNat n = b := by
  rw [h, UInt8.ofNat_toNat]

theorem encode_two (h : 0xC2 ≤ b.toNat ∧ b.toNat ≤ 0xDF) (h₁ : 0x80 ≤ b₁ ∧ b₁ ≤ 0xBF) :
    String.utf8EncodeChar (.ofNat (extend (b.toNat - 0xC0) [b₁])) = [b, b₁] := by
  simp only [UInt8.le_iff_toNat_le, UInt8.toNat_ofNat] at h₁
  simp only [extend, List.foldl_cons, List.foldl_nil]
  have hvalid : Nat.isValidChar ((b.toNat - 0xC0) * 64 + (b₁.toNat - 0x80)) := .inl (by omega)
  rw [String.utf8EncodeChar, toNat_ofNat hvalid, if_neg (by omega), if_pos (by omega),
    ofNat_eq (b := b) (by omega), ofNat_eq (b := b₁) (by omega)]

theorem encode_three (h : b.toNat = 0xE0 + v) (hv : v < 16)
    (h₁ : (if v = 0 then 0xA0 else 0x80) ≤ b₁ ∧ b₁ ≤ if v = 0xD then 0x9F else 0xBF)
    (h₂ : 0x80 ≤ b₂ ∧ b₂ ≤ 0xBF) :
    String.utf8EncodeChar (.ofNat (extend v [b₁, b₂])) = [b, b₁, b₂] := by
  simp only [UInt8.le_iff_toNat_le, UInt8.toNat_ofNat, apply_ite UInt8.toNat] at h₁ h₂
  simp only [extend, List.foldl_cons, List.foldl_nil]
  have hrange : 0x80 ≤ b₁.toNat ∧ b₁.toNat ≤ 0xBF ∧ (v = 0 → 0xA0 ≤ b₁.toNat) ∧
      (v = 0xD → b₁.toNat ≤ 0x9F) := by
    split_ifs at h₁ <;> omega
  have hvalid : Nat.isValidChar ((v * 64 + (b₁.toNat - 0x80)) * 64 + (b₂.toNat - 0x80)) := by
    simp only [Nat.isValidChar]
    omega
  rw [String.utf8EncodeChar, toNat_ofNat hvalid, if_neg (by omega), if_neg (by omega),
    if_pos (by omega), ofNat_eq (b := b) (by omega), ofNat_eq (b := b₁) (by omega),
    ofNat_eq (b := b₂) (by omega)]

theorem encode_four (h : b.toNat = 0xF0 + v) (hv : v < 5)
    (h₁ : (if v = 0 then 0x90 else 0x80) ≤ b₁ ∧ b₁ ≤ if v = 4 then 0x8F else 0xBF)
    (h₂ : 0x80 ≤ b₂ ∧ b₂ ≤ 0xBF) (h₃ : 0x80 ≤ b₃ ∧ b₃ ≤ 0xBF) :
    String.utf8EncodeChar (.ofNat (extend v [b₁, b₂, b₃])) = [b, b₁, b₂, b₃] := by
  simp only [UInt8.le_iff_toNat_le, UInt8.toNat_ofNat, apply_ite UInt8.toNat] at h₁ h₂ h₃
  simp only [extend, List.foldl_cons, List.foldl_nil]
  have hrange : 0x80 ≤ b₁.toNat ∧ b₁.toNat ≤ 0xBF ∧ (v = 0 → 0x90 ≤ b₁.toNat) ∧
      (v = 4 → b₁.toNat ≤ 0x8F) := by
    split_ifs at h₁ <;> omega
  have hvalid : Nat.isValidChar (((v * 64 + (b₁.toNat - 0x80)) * 64 + (b₂.toNat - 0x80)) * 64 +
      (b₃.toNat - 0x80)) := by
    simp only [Nat.isValidChar]
    omega
  rw [String.utf8EncodeChar, toNat_ofNat hvalid, if_neg (by omega), if_neg (by omega),
    if_neg (by omega), ofNat_eq (b := b) (by omega), ofNat_eq (b := b₁) (by omega),
    ofNat_eq (b := b₂) (by omega), ofNat_eq (b := b₃) (by omega)]

theorem sound_of_begin? (h : begin? b = some g) : g.Sound := by
  rcases begin?_cases h with htwo | ⟨v, hv, hthree⟩ | ⟨v, hv, hfour⟩
  · cases h.symm.trans (begin?_two htwo)
    refine ⟨Nat.one_pos, fun rest hrest => ?_⟩
    cases hrest with
    | last _ h₁ => exact encode_two htwo h₁
    | more hm => contradiction
  · cases h.symm.trans (begin?_three hthree hv)
    refine ⟨Nat.two_pos, fun rest hrest => ?_⟩
    cases hrest with
    | last hm => simp at hm
    | more _ h₁ hrest =>
      cases hrest with
      | last _ h₂ => exact encode_three hthree hv h₁ h₂
      | more hm => contradiction
  · cases h.symm.trans (begin?_four hfour hv)
    refine ⟨Nat.succ_pos 2, fun rest hrest => ?_⟩
    cases hrest with
    | last hm => simp at hm
    | more _ h₁ hrest =>
      cases hrest with
      | last hm => simp [Begun.more] at hm
      | more _ h₂ hrest =>
        cases hrest with
        | last _ h₃ => exact encode_four hfour hv h₁ h₂ h₃
        | more hm => contradiction

theorem Begun.Sound.more (hg : g.Sound) (hb : g.least ≤ b ∧ b ≤ g.most) (hm : 1 < g.missing) :
    (g.more b).Sound where
  missing := Nat.sub_pos_of_lt hm
  encodes rest h := by
    rw [Begun.more, ← extend_cons, hg.encodes (b :: rest) (.more hm hb h), List.append_assoc,
      List.singleton_append]

/-! ### Nothing is lost -/

def pending : Option Begun → Bytes
  | none => []
  | some g => g.bytes

theorem encode_single (h : b < 0x80) : String.utf8EncodeChar (.ofNat b.toNat) = [b] := by
  have hb : b.toNat < 128 := UInt8.lt_iff_toNat_lt.mp h
  have hvalid : Nat.isValidChar b.toNat := .inl (by omega)
  rw [String.utf8EncodeChar, toNat_ofNat hvalid, if_pos (by omega), UInt8.ofNat_toNat]

theorem first_spec (b : UInt8) :
    (first b).1.flatMap Piece.bytes ++ pending (first b).2 = [b] ∧ ∀ g ∈ (first b).2, g.Sound := by
  unfold first
  split_ifs with hb
  · simp [Piece.bytes, encode_single hb, pending]
  · cases h : begin? b with
    | none => simp [Piece.bytes, pending]
    | some g =>
      have hbytes : g.bytes = [b] := by
        rcases begin?_cases h with htwo | ⟨v, hv, hthree⟩ | ⟨v, hv, hfour⟩
        · cases h.symm.trans (begin?_two htwo)
          rfl
        · cases h.symm.trans (begin?_three hthree hv)
          rfl
        · cases h.symm.trans (begin?_four hfour hv)
          rfl
      simpa [pending, hbytes] using sound_of_begin? h

theorem step_spec {begun : Option Begun} (h : ∀ g ∈ begun, g.Sound) (b : UInt8) :
    (step begun b).1.flatMap Piece.bytes ++ pending (step begun b).2 = pending begun ++ [b] ∧
      ∀ g ∈ (step begun b).2, g.Sound := by
  cases begun with
  | none => exact first_spec b
  | some g =>
    have hg := h g rfl
    unfold step
    split
    · contradiction
    rename_i g' heq
    cases heq
    -- The byte is the last of the character, or one more of it, or it breaks it off.
    split_ifs with hb hm
    · have hlast := hg.encodes [b] (.last (Nat.le_antisymm hm hg.missing) hb)
      rw [extend_cons, extend_nil] at hlast
      exact ⟨by simpa [Piece.bytes, pending] using hlast, by simp⟩
    · have hmore := hg.more hb (Nat.lt_of_not_le hm)
      exact ⟨by simp [pending], fun _ hnext => Option.some.inj hnext ▸ hmore⟩
    · obtain ⟨hfirst, hsound⟩ := first_spec b
      exact ⟨by simp [Piece.bytes, pending, ← hfirst], hsound⟩

theorem decodeFrom_cons (begun : Option Begun) (b : UInt8) (bytes : Bytes) :
    decodeFrom begun (b :: bytes) = (step begun b).1 ++ decodeFrom (step begun b).2 bytes := by
  cases begun <;> rfl

theorem flatMap_bytes_decodeFrom {begun : Option Begun} (h : ∀ g ∈ begun, g.Sound) (bytes : Bytes) :
    (decodeFrom begun bytes).flatMap Piece.bytes = pending begun ++ bytes := by
  induction bytes generalizing begun with
  | nil =>
    cases begun with
    | none => rfl
    | some g => simp [decodeFrom, Piece.bytes, pending]
  | cons b bytes ih =>
    obtain ⟨hstep, hsound⟩ := step_spec h b
    rw [decodeFrom_cons, List.flatMap_append, ih hsound, ← List.append_assoc, hstep,
      List.append_assoc]
    rfl

theorem flatMap_bytes_decode (bytes : Bytes) : (decode bytes).flatMap Piece.bytes = bytes :=
  flatMap_bytes_decodeFrom (fun _ h => by contradiction) bytes

theorem decode_eq_nil_iff (bytes : Bytes) : decode bytes = [] ↔ bytes = [] := by
  refine ⟨fun h => ?_, fun h => h ▸ rfl⟩
  rw [← flatMap_bytes_decode bytes, h, List.flatMap_nil]

/-! ### At a byte of ASCII -/

theorem least_of_begin? (h : begin? b = some g) : 0x80 ≤ g.least := by
  rcases begin?_cases h with htwo | ⟨v, hv, hthree⟩ | ⟨v, hv, hfour⟩
  · cases h.symm.trans (begin?_two htwo)
    exact UInt8.le_refl _
  · cases h.symm.trans (begin?_three hthree hv)
    dsimp only
    split <;> decide
  · cases h.symm.trans (begin?_four hfour hv)
    dsimp only
    split <;> decide

theorem least_of_first (b : UInt8) : ∀ g ∈ (first b).2, 0x80 ≤ g.least := by
  intro g hg
  unfold first at hg
  split_ifs at hg with hb
  · contradiction
  · cases h : begin? b with
    | none =>
      rw [h] at hg
      contradiction
    | some begun =>
      rw [h] at hg
      cases hg
      exact least_of_begin? h

theorem least_of_step (begun : Option Begun) (b : UInt8) :
    ∀ g ∈ (step begun b).2, 0x80 ≤ g.least := by
  intro g hg
  cases begun with
  | none => exact least_of_first b g hg
  | some begun =>
    simp only [step] at hg
    split_ifs at hg with hb hm
    · contradiction
    · cases hg
      exact UInt8.le_refl _
    · exact least_of_first b g hg

theorem step_of_lt {begun : Option Begun} (h : ∀ g ∈ begun, 0x80 ≤ g.least) (hb : b < 0x80) :
    step begun b = (decodeFrom begun [] ++ [.char (.ofNat b.toNat)], none) := by
  have hfirst : first b = ([.char (.ofNat b.toNat)], none) := if_pos hb
  cases begun with
  | none => exact hfirst
  | some g =>
    have hout : ¬ (g.least ≤ b ∧ b ≤ g.most) := fun hin =>
      absurd (UInt8.lt_of_lt_of_le hb (h g rfl)) (UInt8.not_lt.mpr hin.1)
    simp only [step, if_neg hout, hfirst, decodeFrom, List.singleton_append]

theorem decodeFrom_append_of_lt {begun : Option Begun} (h : ∀ g ∈ begun, 0x80 ≤ g.least)
    (hb : b < 0x80) (bytes more : Bytes) : decodeFrom begun (bytes ++ b :: more) =
      decodeFrom begun bytes ++ .char (.ofNat b.toNat) :: decode more := by
  induction bytes generalizing begun with
  | nil =>
    rw [List.nil_append, decodeFrom_cons, step_of_lt h hb, List.append_assoc]
    rfl
  | cons c bytes ih =>
    rw [List.cons_append, decodeFrom_cons, decodeFrom_cons, ih (least_of_step begun c),
      List.append_assoc]

/-- Bytes can be cut at a byte of ASCII and read one part after the other, whether they are UTF-8
or not. -/
theorem decode_append_of_lt (hb : b < 0x80) (bytes more : Bytes) :
    decode (bytes ++ b :: more) = decode bytes ++ .char (.ofNat b.toNat) :: decode more :=
  decodeFrom_append_of_lt (fun _ h => by contradiction) hb bytes more

/-! ### Texts -/

theorem decodeFrom_append {rest : Bytes} (h : g.Completes rest) (bytes : Bytes) :
    decodeFrom (some g) (rest ++ bytes) =
      .char (.ofNat (extend g.value rest)) :: decodeFrom none bytes := by
  induction h with
  | last hm hb =>
    rw [List.singleton_append, decodeFrom_cons, extend_cons, extend_nil]
    simp [step, hb, hm]
  | @more g b rest hm hb _ ih =>
    have hstep : step (some g) b = ([], some (g.more b)) := by
      simp [step, hb, Nat.not_le.mpr hm, Begun.more]
    rw [List.cons_append, decodeFrom_cons, hstep, List.nil_append, ih, extend_cons, Begun.more]

theorem toNat_trailing (v : Nat) : (UInt8.ofNat (v % 64 + 128)).toNat = v % 64 + 0x80 := by
  rw [UInt8.toNat_ofNat']
  omega

theorem trailing_mem (v : Nat) :
    0x80 ≤ UInt8.ofNat (v % 64 + 128) ∧ UInt8.ofNat (v % 64 + 128) ≤ 0xBF := by
  simp only [UInt8.le_iff_toNat_le, UInt8.toNat_ofNat, toNat_trailing]
  omega

theorem exists_begin_of_encode (c : Char) (h : 127 < c.val.toNat) : ∃ b g rest,
    begin? b = some g ∧ g.Completes rest ∧ extend g.value rest = c.val.toNat ∧
      String.utf8EncodeChar c = b :: rest := by
  have hc : c.val.toNat < 55296 ∨ 57343 < c.val.toNat ∧ c.val.toNat < 1114112 := c.valid
  unfold String.utf8EncodeChar
  generalize c.val.toNat = v at h hc
  simp only [if_neg (Nat.not_le.mpr h)]
  split_ifs with htwo hthree
  · have hb : (UInt8.ofNat (v / 64 % 32 + 192)).toNat = 0xC0 + v / 64 := by
      rw [UInt8.toNat_ofNat']
      omega
    refine ⟨_, _, _, begin?_two (by omega), .last rfl (trailing_mem v), ?_, rfl⟩
    simp only [extend_cons, extend_nil, hb, toNat_trailing]
    omega
  · have hb : (UInt8.ofNat (v / 4096 % 16 + 224)).toNat = 0xE0 + v / 4096 := by
      rw [UInt8.toNat_ofNat']
      omega
    refine ⟨_, _, _, begin?_three hb (by omega),
      .more Nat.one_lt_two ?_ (.last rfl (trailing_mem v)), ?_, rfl⟩
    · simp only [UInt8.le_iff_toNat_le, UInt8.toNat_ofNat, toNat_trailing, apply_ite UInt8.toNat]
      split_ifs <;> omega
    · simp only [extend_cons, extend_nil, toNat_trailing]
      omega
  · have hb : (UInt8.ofNat (v / 262144 % 8 + 240)).toNat = 0xF0 + v / 262144 := by
      rw [UInt8.toNat_ofNat']
      omega
    refine ⟨_, _, _, begin?_four hb (by omega), .more (Nat.lt_add_of_pos_left Nat.two_pos) ?_
      (.more Nat.one_lt_two (trailing_mem _) (.last rfl (trailing_mem v))), ?_, rfl⟩
    · simp only [UInt8.le_iff_toNat_le, UInt8.toNat_ofNat, toNat_trailing, apply_ite UInt8.toNat]
      split_ifs <;> omega
    · simp only [extend_cons, extend_nil, toNat_trailing]
      omega

theorem decode_cons_of_lt {b : UInt8} (h : b < 0x80) (bytes : Bytes) :
    decode (b :: bytes) = .char (.ofNat b.toNat) :: decode bytes := by
  rw [decode, decodeFrom_cons, step, first, if_pos h]
  rfl

theorem decode_utf8EncodeChar_append (c : Char) (bytes : Bytes) :
    decode (String.utf8EncodeChar c ++ bytes) = .char c :: decode bytes := by
  by_cases hc : c.val.toNat ≤ 127
  · have hb : (UInt8.ofNat c.val.toNat).toNat = c.val.toNat := by
      rw [UInt8.toNat_ofNat']
      omega
    have hlow : UInt8.ofNat c.val.toNat < 0x80 := by
      simp only [UInt8.lt_iff_toNat_lt, UInt8.toNat_ofNat, hb]
      omega
    rw [String.utf8EncodeChar, if_pos hc, List.singleton_append, decode_cons_of_lt hlow, hb]
    congr 2
    exact Char.ofNat_toNat c
  obtain ⟨b, g, rest, hg, hrest, hvalue, hencode⟩ := exists_begin_of_encode c (Nat.lt_of_not_le hc)
  have hb : 0x80 ≤ b.toNat := by rcases begin?_cases hg with h | ⟨v, -, h⟩ | ⟨v, -, h⟩ <;> omega
  have hlow : ¬ b < 0x80 := by
    simp only [UInt8.lt_iff_toNat_lt, UInt8.toNat_ofNat]
    omega
  have hfirst : step none b = ([], some g) := by simp only [step, first, hlow, hg, if_false]
  rw [hencode, decode, List.cons_append, decodeFrom_cons, hfirst, List.nil_append,
    decodeFrom_append hrest, hvalue, ← decode]
  congr 2
  exact Char.ofNat_toNat c

theorem ofString_eq (s : String) : Bytes.ofString s = s.toList.flatMap String.utf8EncodeChar := by
  rw [Bytes.ofString, String.toUTF8_eq_toByteArray, ← String.utf8Encode_toList, List.utf8Encode,
    List.data_toByteArray]

/-- A text is read back from its bytes. -/
theorem decode_ofString (s : String) : decode (.ofString s) = s.toList.map .char := by
  rw [ofString_eq]
  induction s.toList with
  | nil => rfl
  | cons c cs ih => rw [List.flatMap_cons, decode_utf8EncodeChar_append, ih, List.map_cons]

theorem lossyChars_ofString (s : String) : lossyChars (.ofString s) = s.toList := by
  rw [lossyChars, decode_ofString, List.map_map]
  exact List.map_id _

theorem ofString_eq_nil_iff (s : String) : Bytes.ofString s = [] ↔ s.toList = [] := by
  rw [← decode_eq_nil_iff, decode_ofString, List.map_eq_nil_iff]

end IconPainter.Utf8
