import Mathlib.Data.Nat.Digits.Lemmas
import Mathlib.Data.Prod.Lex
import Mathlib.Data.List.Lex
import Mathlib.Order.Lex

/-! # Text as the interpreter sees it

Strings cross the wire and the disk as bytes, decoded as UTF-8 with the `surrogateescape` handler:
any byte that is not part of a well-formed sequence becomes a lone surrogate, and encoding restores
it. A text is represented here by its *bytes*, and the code points are recovered with `decode` where the
language works on characters: in `upper()`, `int()` and the comparison of strings. No two texts that were
decoded have the same bytes; a text put together from the halves of a character can share its bytes with
the one that has the character (`Foundation/Codec.lean` has both directions).

* **`decode`** — the code points of a text, surrogate escapes included.
* **`upper`** — `str.upper()`, as far as a comparison with an ASCII word can tell.
* **`int`** — `int(text)`: surrounding white space, a sign, decimal digits of any script, single
  underscores between digits, at most 4300 digits.
* **`showInt`** — `str(n)`, with `int_showInt` the round trip.
* **`strKey`** — the key by which texts are ordered. -/

namespace KvStore

open List

/-- A text, as its bytes: one that is the decoding of its bytes. -/
abbrev Str := List UInt8

instance : LawfulBEq Str := inferInstanceAs (LawfulBEq (List UInt8))

/-- The text of an ASCII literal. -/
def text (s : String) : Str := s.toList.map fun c => c.toNat.toUInt8

/-- The code points of an ASCII literal. -/
def codes (s : String) : List Nat := s.toList.map Char.toNat

/-! ## Code points -/

/-- Whether a byte continues a multi-byte sequence. -/
def isCont (b : UInt8) : Bool := 0x80 ≤ b && b ≤ 0xBF

/-- The well-formed multi-byte sequence at the front of a text: its code point and its length. The
ranges of the second byte exclude overlong forms, surrogates and values past `U+10FFFF`. -/
def multiByte : Str → Option (Nat × Nat)
  | b₀ :: b₁ :: rest =>
    if 0xC2 ≤ b₀ ∧ b₀ ≤ 0xDF ∧ isCont b₁ then
      some ((b₀.toNat - 0xC0) * 64 + (b₁.toNat - 0x80), 2)
    else if 0xE0 ≤ b₀ ∧ b₀ ≤ 0xEF ∧ isCont b₁ ∧ (b₀ = 0xE0 → 0xA0 ≤ b₁) ∧
        (b₀ = 0xED → b₁ ≤ 0x9F) then
      match rest with
      | b₂ :: _ =>
        if isCont b₂ then
          some ((b₀.toNat - 0xE0) * 4096 + (b₁.toNat - 0x80) * 64 + (b₂.toNat - 0x80), 3)
        else none
      | _ => none
    else if 0xF0 ≤ b₀ ∧ b₀ ≤ 0xF4 ∧ isCont b₁ ∧ (b₀ = 0xF0 → 0x90 ≤ b₁) ∧
        (b₀ = 0xF4 → b₁ ≤ 0x8F) then
      match rest with
      | b₂ :: b₃ :: _ =>
        if isCont b₂ ∧ isCont b₃ then
          some ((b₀.toNat - 0xF0) * 262144 + (b₁.toNat - 0x80) * 4096
            + (b₂.toNat - 0x80) * 64 + (b₃.toNat - 0x80), 4)
        else none
      | _ => none
    else none
  | _ => none

/-- The loop of `decode`, with at least one byte consumed for each unit of fuel. -/
def decodeAux : Nat → Str → List Nat
  | 0, _ => []
  | _, [] => []
  | fuel + 1, b :: rest =>
    if b < 0x80 then b.toNat :: decodeAux fuel rest
    else match multiByte (b :: rest) with
      | some (c, len) => c :: decodeAux fuel (rest.drop (len - 1))
      | none => (0xDC00 + b.toNat) :: decodeAux fuel rest

/-- **The code points of a text**, an undecodable byte `b` standing for the surrogate
`U+DC00 + b`. -/
def decode (s : Str) : List Nat := decodeAux s.length s

/-- On ASCII text the code points are the bytes. -/
theorem decode_ascii {s : Str} (h : ∀ b ∈ s, b < 0x80) : decode s = s.map UInt8.toNat := by
  have aux : ∀ (fuel : Nat) (s : Str), s.length ≤ fuel → (∀ b ∈ s, b < 0x80) →
      decodeAux fuel s = s.map UInt8.toNat := by
    intro fuel
    induction fuel with
    | zero =>
      intro s hlen _
      have : s = [] := length_eq_zero_iff.mp (Nat.le_zero.mp hlen)
      simp [this, decodeAux]
    | succ fuel ih =>
      intro s hlen hs
      cases s with
      | nil => simp [decodeAux]
      | cons b rest =>
        have hb : b < 0x80 := hs b (by simp)
        have hrest := ih rest (by simpa using hlen) fun c hc => hs c (by simp [hc])
        simp [decodeAux, hb, hrest]
  exact aux s.length s le_rfl h

/-! ## Upper case -/

/-- The upper case of one code point, where it is ASCII: the letters, and the ten other characters
whose upper case is ASCII. Every other character stays as it is; its upper case holds a character
outside ASCII. -/
def upperCode (c : Nat) : List Nat :=
  if 97 ≤ c ∧ c ≤ 122 then [c - 32]
  else match c with
    | 0xDF => codes "SS"
    | 0x131 => codes "I"
    | 0x17F => codes "S"
    | 0xFB00 => codes "FF"
    | 0xFB01 => codes "FI"
    | 0xFB02 => codes "FL"
    | 0xFB03 => codes "FFI"
    | 0xFB04 => codes "FFL"
    | 0xFB05 => codes "ST"
    | 0xFB06 => codes "ST"
    | _ => [c]

/-- `text.upper()`, up to the characters whose upper case is not ASCII. -/
def upper (s : Str) : List Nat := (decode s).flatMap upperCode

/-- Whether a text is an ASCII word, in any case: `text.upper() == word`. -/
def isWord (s : Str) (word : String) : Bool := upper s = codes word

/-! ## Integers -/

/-- The code point of the digit zero in each script with decimal digits. -/
def decimalZeros : List Nat :=
  [0x30, 0x660, 0x6f0, 0x7c0, 0x966, 0x9e6, 0xa66, 0xae6, 0xb66, 0xbe6, 0xc66, 0xce6, 0xd66, 0xde6,
   0xe50, 0xed0, 0xf20, 0x1040, 0x1090, 0x17e0, 0x1810, 0x1946, 0x19d0, 0x1a80, 0x1a90, 0x1b50,
   0x1bb0, 0x1c40, 0x1c50, 0xa620, 0xa8d0, 0xa900, 0xa9d0, 0xa9f0, 0xaa50, 0xabf0, 0xff10, 0x104a0,
   0x10d30, 0x11066, 0x110f0, 0x11136, 0x111d0, 0x112f0, 0x11450, 0x114d0, 0x11650, 0x116c0,
   0x11730, 0x118e0, 0x11950, 0x11c50, 0x11d50, 0x11da0, 0x16a60, 0x16ac0, 0x16b50, 0x1d7ce,
   0x1d7d8, 0x1d7e2, 0x1d7ec, 0x1d7f6, 0x1e140, 0x1e2f0, 0x1e950, 0x1fbf0]

/-- White space outside ASCII. -/
def wideSpaces : List Nat :=
  [0x85, 0xa0, 0x1680, 0x2000, 0x2001, 0x2002, 0x2003, 0x2004, 0x2005, 0x2006, 0x2007, 0x2008,
   0x2009, 0x200a, 0x2028, 0x2029, 0x202f, 0x205f, 0x3000]

/-- A code point as the number parser reads it: wide spaces become a blank, digits of any script
become ASCII digits, anything else outside ASCII a character no number contains. -/
def asciiCode (c : Nat) : Nat :=
  if c < 127 then c
  else if c ∈ wideSpaces then 32
  else match decimalZeros.find? (fun z => z ≤ c ∧ c < z + 10) with
    | some z => 48 + (c - z)
    | none => 63

/-- ASCII white space. -/
def isBlank (c : Nat) : Bool := c = 32 || (9 ≤ c && c ≤ 13)

/-- The value of a digit, letters counting from ten. -/
def digitValue (c : Nat) : Option Nat :=
  if 48 ≤ c ∧ c ≤ 57 then some (c - 48)
  else if 97 ≤ c ∧ c ≤ 122 then some (c - 87)
  else if 65 ≤ c ∧ c ≤ 90 then some (c - 55)
  else none

/-- Digits with single underscores between them, then only white space: the value and the number of
digits. `afterDigit` says whether the previous character was a digit, so that an underscore may
follow and the number may end. -/
def digits (base : Nat) (afterDigit : Bool) (acc count : Nat) : List Nat → Option (Nat × Nat)
  | [] => if afterDigit then some (acc, count) else none
  | c :: rest =>
    if c = 95 then
      if afterDigit then digits base false acc count rest else none
    else match digitValue c with
      | some d =>
        if d < base then digits base true (acc * base + d) (count + 1) rest else none
      | none =>
        if afterDigit ∧ (c :: rest).all isBlank then some (acc, count) else none

/-- A signed number, its leading white space already dropped. -/
def signed (base : Nat) : List Nat → Option (Int × Nat)
  | 43 :: rest => (digits base false 0 0 rest).map fun (n, count) => ((n : Int), count)
  | 45 :: rest => (digits base false 0 0 rest).map fun (n, count) => (-(n : Int), count)
  | rest => (digits base false 0 0 rest).map fun (n, count) => ((n : Int), count)

/-- The longest decimal text that converts to an integer. -/
def maxStrDigits : Nat := 4300

/-- **`int(text)`**: the integer a text denotes in base ten, or `none` for a `ValueError`. -/
def int (s : Str) : Option Int :=
  match signed 10 (((decode s).map asciiCode).dropWhile isBlank) with
  | some (n, count) => if count ≤ maxStrDigits then some n else none
  | none => none

/-- The decimal digits of a natural number, most significant first. -/
def showNat (n : Nat) : Str :=
  if n = 0 then [48] else ((Nat.digits 10 n).reverse.map fun d => 48 + d.toUInt8)

/-- **`str(n)`**: the decimal text of an integer. -/
def showInt (n : Int) : Str :=
  if n < 0 then 45 :: showNat n.natAbs else showNat n.natAbs

/-- The number parser on a block of ASCII digits: Horner's rule, counting the digits. -/
theorem digits_map_add (ds : List Nat) (hds : ∀ d ∈ ds, d < 10) (after : Bool) (acc count : Nat)
    (hne : ds ≠ [] ∨ after = true) :
    digits 10 after acc count (ds.map (48 + ·)) =
      some (ds.foldl (fun a d => a * 10 + d) acc, count + ds.length) := by
  induction ds generalizing after acc count with
  | nil => simpa [digits] using hne
  | cons d rest ih =>
    have hd : d < 10 := hds d (by simp)
    have hval : digitValue (48 + d) = some d := by
      have h₁ : 48 ≤ 48 + d ∧ 48 + d ≤ 57 := by omega
      simp [digitValue, h₁]
    have hne95 : 48 + d ≠ 95 := by omega
    have hrest := ih (fun c hc => hds c (by simp [hc])) true (acc * 10 + d) (count + 1) (by simp)
    simp only [map_cons, digits, hne95, if_false, hval, hd, if_true, hrest, foldl_cons, length_cons]
    congr 2
    omega

/-- Horner's rule on the digits of `n`, most significant first, gives `n` back. -/
theorem foldl_reverse_digits (n : Nat) :
    (Nat.digits 10 n).reverse.foldl (fun a d => a * 10 + d) 0 = n := by
  rw [foldl_reverse]
  conv_rhs => rw [← Nat.ofDigits_digits 10 n, Nat.ofDigits_eq_foldr]
  congr 1
  funext a b
  simp; ring

/-- The bytes of a decimal text are the digits shifted to ASCII. -/
theorem map_toNat_showNat (n : Nat) :
    (showNat n).map UInt8.toNat =
      if n = 0 then [48] else (Nat.digits 10 n).reverse.map (48 + ·) := by
  unfold showNat
  split
  · rfl
  · rw [map_map]
    apply map_congr_left
    intro d hd
    have hlt : d < 10 := Nat.digits_lt_base (by norm_num) (mem_reverse.mp hd)
    simp only [Function.comp_apply]
    rw [UInt8.toNat_add]
    simp
    omega

theorem showNat_ascii (n : Nat) : ∀ b ∈ showNat n, b < 0x80 := by
  intro b hb
  have hmem : b.toNat ∈ (showNat n).map UInt8.toNat := mem_map_of_mem hb
  rw [map_toNat_showNat] at hmem
  have : b.toNat < 0x80 := by
    split at hmem
    · simp_all
    · obtain ⟨d, hd, hde⟩ := mem_map.mp hmem
      have := Nat.digits_lt_base (b := 10) (by norm_num) (mem_reverse.mp hd)
      omega
  exact UInt8.lt_iff_toNat_lt.mpr this

/-- A decimal text as a non-empty block of digits with the right value and length. -/
theorem showNat_digits (n : Nat) : ∃ ds : List Nat, (∀ d ∈ ds, d < 10) ∧ ds ≠ [] ∧
    (showNat n).map UInt8.toNat = ds.map (48 + ·) ∧ ds.foldl (fun a d => a * 10 + d) 0 = n ∧
    (n < 10 ^ maxStrDigits → ds.length ≤ maxStrDigits) := by
  by_cases hn : n = 0
  · exact ⟨[0], by simp, by simp, by simp [map_toNat_showNat, hn], by simp [hn], by
      intro; simp [maxStrDigits]⟩
  · refine ⟨(Nat.digits 10 n).reverse, ?_, ?_, ?_, foldl_reverse_digits n, ?_⟩
    · exact fun d hd => Nat.digits_lt_base (by norm_num) (mem_reverse.mp hd)
    · simpa [Nat.digits_eq_nil_iff_eq_zero] using hn
    · simp [map_toNat_showNat, hn]
    · intro hlt
      rw [length_reverse]
      exact (Nat.digits_length_le_iff (by norm_num) n).mpr hlt

theorem map_asciiCode_add {ds : List Nat} (hds : ∀ d ∈ ds, d < 10) :
    (ds.map (48 + ·)).map asciiCode = ds.map (48 + ·) := by
  rw [map_map]
  apply map_congr_left
  intro d hd
  have hlt : 48 + d < 127 := by have := hds d hd; omega
  simp [asciiCode, hlt]

/-- A block of ASCII digits has no leading white space and no sign. -/
theorem signed_add {ds : List Nat} (hds : ∀ d ∈ ds, d < 10) (hne : ds ≠ []) :
    signed 10 ((ds.map (48 + ·)).dropWhile isBlank) =
      some (((ds.foldl (fun a d => a * 10 + d) 0 : Nat) : Int), ds.length) := by
  cases ds with
  | nil => exact absurd rfl hne
  | cons d rest =>
    have hd : d < 10 := hds d (by simp)
    have hblank : isBlank (48 + d) = false := by
      simp only [isBlank, Bool.or_eq_false_iff, Bool.and_eq_false_iff, decide_eq_false_iff_not]
      omega
    have hdigits := digits_map_add (d :: rest) hds false 0 0 (Or.inl hne)
    rw [map_cons] at hdigits ⊢
    rw [dropWhile_cons_of_neg (by simp [hblank])]
    have h₁ : 48 + d ≠ 43 := by omega
    have h₂ : 48 + d ≠ 45 := by omega
    rw [signed]
    · simp [hdigits]
    · intro _ h; simp at h; omega
    · intro _ h; simp at h; omega

/-- The text of an integer is read back, or refused because it is too long. -/
theorem int_showInt_or (n : Int) :
    int (showInt n) = some n ∨ (int (showInt n) = none ∧ 10 ^ maxStrDigits ≤ n.natAbs) := by
  obtain ⟨ds, hds, hne, hmap, hval, hlen⟩ := showNat_digits n.natAbs
  have hint : int (showInt n) = if ds.length ≤ maxStrDigits then some n else none := by
    unfold int showInt
    by_cases hneg : n < 0
    · have hascii : ∀ b ∈ (45 :: showNat n.natAbs), b < 0x80 := by
        intro b hb
        rcases mem_cons.mp hb with rfl | hb
        · decide
        · exact showNat_ascii _ b hb
      have hdigits := digits_map_add ds hds false 0 0 (Or.inl hne)
      have hcodes : ((decode (45 :: showNat n.natAbs)).map asciiCode).dropWhile isBlank =
          45 :: ds.map (48 + ·) := by
        rw [decode_ascii hascii, map_cons, hmap, map_cons, map_asciiCode_add hds]
        rfl
      rw [if_pos hneg, hcodes]
      simp only [signed, hdigits, Option.map_some, hval]
      have hsign : -(n.natAbs : Int) = n := by omega
      simp only [Nat.zero_add, hsign]
    · rw [if_neg hneg, decode_ascii (showNat_ascii _), hmap, map_asciiCode_add hds,
        signed_add hds hne, hval]
      have hsign : (n.natAbs : Int) = n := by omega
      simp only [hsign]
  by_cases hcount : ds.length ≤ maxStrDigits
  · exact Or.inl (by rw [hint, if_pos hcount])
  · exact Or.inr ⟨by rw [hint, if_neg hcount], not_lt.mp fun h => hcount (hlen h)⟩

/-- **`int(str(n)) = n`**, for every integer short enough to convert. -/
theorem int_showInt {n : Int} (hn : n.natAbs < 10 ^ maxStrDigits) : int (showInt n) = some n := by
  rcases int_showInt_or n with h | ⟨-, h⟩
  · exact h
  · exact absurd hn (not_lt.mpr h)

/-! ## Order -/

/-- **The key by which texts are compared**: the code points. (The bytes break no tie, since a text
is determined by its code points; they make that plain.) -/
def strKey (s : Str) : List Nat ×ₗ List Nat := toLex (decode s, s.map UInt8.toNat)

theorem strKey_injective : Function.Injective strKey := by
  intro s t h
  have : (ofLex (strKey s)).2 = (ofLex (strKey t)).2 := by rw [h]
  have hinj : Function.Injective UInt8.toNat := fun a b hab => UInt8.toNat_inj.mp hab
  exact map_injective_iff.mpr hinj (by simpa [strKey] using this)

/-- `left < right` on texts. -/
def strLt (left right : Str) : Bool := decide (strKey left < strKey right)

end KvStore
