import KvStore.Foundation.Text

/-! # Texts and their bytes

A text is held as code points, and crosses the wire and the disk as bytes (`core/codec.py`): UTF-8, with
the `surrogateescape` handler, which writes the surrogate that stands for an undecodable byte as that byte.

* **`encode`** — `to_bytes`; `none` for the error that any other surrogate raises. `decode` is `to_str`.
* **`encode_decode`** — bytes come back. Texts need not: the surrogates of two bytes that make up one
  character are read as that character. -/

namespace KvStore

/-- The bytes of one code point. -/
def encodeCode (c : Nat) : Option Str :=
  if c < 0x80 then some [.ofNat c]
  else if c < 0x800 then some [.ofNat (0xC0 + c / 64), .ofNat (0x80 + c % 64)]
  else if 0xDC80 ≤ c ∧ c ≤ 0xDCFF then some [.ofNat (c - 0xDC00)]
  else if 0xD800 ≤ c ∧ c ≤ 0xDFFF then none
  else if c < 0x10000 then
    some [.ofNat (0xE0 + c / 4096), .ofNat (0x80 + c / 64 % 64), .ofNat (0x80 + c % 64)]
  else
    some [.ofNat (0xF0 + c / 262144), .ofNat (0x80 + c / 4096 % 64), .ofNat (0x80 + c / 64 % 64),
      .ofNat (0x80 + c % 64)]

/-- **`to_bytes`**. -/
def encode : List Nat → Option Str
  | [] => some []
  | c :: rest => (encodeCode c).bind fun bytes => (encode rest).map (bytes ++ ·)

/-- A byte is known by its number. -/
theorem ofNat_eq_byte {n : Nat} {b : UInt8} (h : n = b.toNat) : UInt8.ofNat n = b := by
  rw [h, UInt8.ofNat_toNat]

/-- What continues a sequence carries six bits. -/
theorem toNat_of_isCont {b : UInt8} (h : isCont b = true) : 0x80 ≤ b.toNat ∧ b.toNat < 0xC0 := by
  simp only [isCont, Bool.and_eq_true, decide_eq_true_eq, UInt8.le_iff_toNat_le] at h
  exact ⟨h.1, Nat.lt_succ_of_le h.2⟩

/-- **A well-formed sequence is written as it was read.** -/
theorem encodeCode_multiByte {s : Str} {c len : Nat} (h : multiByte s = some (c, len)) :
    0 < len ∧ encodeCode c = some (s.take len) := by
  unfold multiByte at h
  split at h
  case h_2 => cases h
  case h_1 b₀ b₁ rest =>
    simp only [UInt8.le_iff_toNat_le, ← UInt8.toNat_inj] at h
    split_ifs at h with h₂ h₃ h₄
    · -- two bytes
      obtain ⟨hlo, hhi, hcont⟩ := h₂
      have hb₁ := toNat_of_isCont hcont
      obtain ⟨rfl, rfl⟩ := Prod.mk.inj (Option.some.inj h)
      simp only [UInt8.reduceToNat] at hlo hhi
      rw [encodeCode, if_neg (by omega), if_pos (by omega)]
      refine ⟨by decide, ?_⟩
      rw [ofNat_eq_byte (b := b₀) (by omega), ofNat_eq_byte (b := b₁) (by omega)]
      rfl
    · -- three
      obtain ⟨hlo, hhi, hcont, hfirst, hlast⟩ := h₃
      have hb₁ := toNat_of_isCont hcont
      split at h
      case h_2 => cases h
      case h_1 b₂ rest' =>
        split_ifs at h with hcont₂
        have hb₂ := toNat_of_isCont hcont₂
        obtain ⟨rfl, rfl⟩ := Prod.mk.inj (Option.some.inj h)
        simp only [UInt8.reduceToNat] at hlo hhi hfirst hlast
        rw [encodeCode, if_neg (by omega), if_neg (by omega), if_neg (by omega), if_neg (by omega),
          if_pos (by omega)]
        refine ⟨by decide, ?_⟩
        rw [ofNat_eq_byte (b := b₀) (by omega), ofNat_eq_byte (b := b₁) (by omega),
          ofNat_eq_byte (b := b₂) (by omega)]
        rfl
    · -- four
      obtain ⟨hlo, hhi, hcont, hfirst, hlast⟩ := h₄
      have hb₁ := toNat_of_isCont hcont
      split at h
      case h_2 => cases h
      case h_1 b₂ b₃ rest' =>
        split_ifs at h with hconts
        have hb₂ := toNat_of_isCont hconts.1
        have hb₃ := toNat_of_isCont hconts.2
        obtain ⟨rfl, rfl⟩ := Prod.mk.inj (Option.some.inj h)
        simp only [UInt8.reduceToNat] at hlo hhi hfirst hlast
        rw [encodeCode, if_neg (by omega), if_neg (by omega), if_neg (by omega), if_neg (by omega),
          if_neg (by omega)]
        refine ⟨by decide, ?_⟩
        rw [ofNat_eq_byte (b := b₀) (by omega), ofNat_eq_byte (b := b₁) (by omega),
          ofNat_eq_byte (b := b₂) (by omega), ofNat_eq_byte (b := b₃) (by omega)]
        rfl

/-- **Bytes come back**: `to_bytes(to_str(data)) == data`. -/
theorem encode_decode (s : Str) : encode (decode s) = some s := by
  have hloop : ∀ (fuel : Nat) (s : Str), s.length ≤ fuel → encode (decodeAux fuel s) = some s := by
    intro fuel
    induction fuel with
    | zero =>
      intro s hlen
      rw [List.length_eq_zero_iff.mp (Nat.le_zero.mp hlen)]
      rfl
    | succ fuel ih =>
      intro s hlen
      cases s with
      | nil => rfl
      | cons b rest =>
        have hrest := ih rest (Nat.le_of_succ_le_succ hlen)
        rw [decodeAux]
        split
        case isTrue hascii =>
          have hb : b.toNat < 0x80 := UInt8.lt_iff_toNat_lt.mp hascii
          rw [encode, encodeCode, if_pos hb, hrest, UInt8.ofNat_toNat]
          rfl
        case isFalse hascii =>
          split
          case h_1 c len hmulti =>
            obtain ⟨hpos, hcode⟩ := encodeCode_multiByte hmulti
            have hdrop : (rest.drop (len - 1)).length ≤ fuel := by
              rw [List.length_drop]
              exact (Nat.sub_le _ _).trans (Nat.le_of_succ_le_succ hlen)
            rw [encode, hcode, ih _ hdrop]
            obtain ⟨n, rfl⟩ := Nat.exists_eq_add_of_le' hpos
            simp
          case h_2 =>
            -- the byte stands for itself
            have hb : 0x80 ≤ b.toNat := by simpa [UInt8.lt_iff_toNat_lt] using hascii
            have hlt := b.toNat_lt
            rw [encode, encodeCode, if_neg (by omega), if_neg (by omega), if_pos (by omega), hrest,
              ofNat_eq_byte (b := b) (by omega)]
            rfl
  exact hloop s.length s le_rfl

end KvStore
