import KvStore.Foundation.Text
import Mathlib.Tactic.Ring

/-! # Fixed-width binary numbers and IEEE doubles

Binary records hold unsigned numbers of a fixed width, least significant byte first, and
floating-point numbers as the eight bytes of their IEEE 754 bit pattern.

* **`leBytes w n`**, **`ofLe`** — an unsigned number in `w` bytes and back; `ofLe_leBytes` is the
  round trip for the numbers that fit.
* **`crc32`** — the checksum of `zlib`.
* **`Double`** — a double as its bit pattern. Comparison is that of the numbers, and a NaN compares
  false with everything. `Double.lt_or_eq_or_lt` says that apart from NaN the comparison is total,
  which is what an ordered container relies on. -/

namespace KvStore

/-! ## Unsigned numbers -/

/-- The `w` bytes of a number, least significant first. -/
def leBytes : Nat → Nat → List UInt8
  | 0, _ => []
  | w + 1, n => n.toUInt8 :: leBytes w (n / 256)

/-- The number a string of bytes denotes, least significant byte first. -/
def ofLe : List UInt8 → Nat
  | [] => 0
  | b :: rest => b.toNat + 256 * ofLe rest

@[simp] theorem length_leBytes (w n : Nat) : (leBytes w n).length = w := by
  induction w generalizing n with
  | zero => rfl
  | succ w ih => simp [leBytes, ih]

/-- A number that fits in `w` bytes is read back from them. -/
theorem ofLe_leBytes {w n : Nat} (h : n < 256 ^ w) : ofLe (leBytes w n) = n := by
  induction w generalizing n with
  | zero =>
    have : n = 0 := by simpa using h
    simp [leBytes, ofLe, this]
  | succ w ih =>
    have hdiv : n / 256 < 256 ^ w := by
      rw [Nat.div_lt_iff_lt_mul (by norm_num)]
      simpa [pow_succ] using h
    rw [leBytes, ofLe, ih hdiv]
    have hbyte : n.toUInt8.toNat = n % 256 := by simp
    rw [hbyte]
    exact Nat.mod_add_div n 256

/-! ## Checksum -/

/-- One bit of the reflected CRC with the polynomial `0xEDB88320`. -/
def crcBit (c : Nat) : Nat := if c % 2 = 1 then (c / 2) ^^^ 0xEDB88320 else c / 2

/-- The register after one more byte. -/
def crcByte (c : Nat) (b : UInt8) : Nat := crcBit^[8] (c ^^^ b.toNat)

def crc32 (data : List UInt8) : Nat := data.foldl crcByte 0xFFFFFFFF ^^^ 0xFFFFFFFF

example : crc32 (text "123456789") = 0xCBF43926 := by decide +kernel

/-- A bit step keeps a 32-bit register. -/
theorem crcBit_lt {c : Nat} (h : c < 2 ^ 32) : crcBit c < 2 ^ 32 := by
  unfold crcBit
  split
  · exact Nat.xor_lt_two_pow (by omega) (by norm_num)
  · omega

/-- A byte step keeps a 32-bit register. -/
theorem crcByte_lt {c : Nat} (h : c < 2 ^ 32) (b : UInt8) : crcByte c b < 2 ^ 32 := by
  have hb : b.toNat < 2 ^ 32 := lt_trans b.toNat_lt (by norm_num)
  have hstep : ∀ n d, d < 2 ^ 32 → crcBit^[n] d < 2 ^ 32 := by
    intro n
    induction n with
    | zero => intro d hd; exact hd
    | succ n ih =>
      intro d hd
      rw [Function.iterate_succ_apply]
      exact ih _ (crcBit_lt hd)
  exact hstep 8 _ (Nat.xor_lt_two_pow h hb)

theorem crc32_lt (data : List UInt8) : crc32 data < 2 ^ 32 := by
  have hfold : ∀ (l : List UInt8) (c : Nat), c < 2 ^ 32 → l.foldl crcByte c < 2 ^ 32 := by
    intro l
    induction l with
    | nil => intro c hc; exact hc
    | cons b rest ih => intro c hc; exact ih _ (crcByte_lt hc b)
  exact Nat.xor_lt_two_pow (hfold data _ (by norm_num)) (by norm_num)

/-- `zlib.crc32` with a value to start from: the checksum of what came before. -/
def crc32From (crc : Nat) (data : List UInt8) : Nat :=
  data.foldl crcByte (crc ^^^ 0xFFFFFFFF) ^^^ 0xFFFFFFFF

/-- **A checksum can be taken in pieces.** -/
theorem crc32From_crc32 (front back : List UInt8) :
    crc32From (crc32 front) back = crc32 (front ++ back) := by
  -- the two complements between the pieces cancel
  rw [crc32From, crc32, crc32, Nat.xor_assoc (List.foldl _ _ _), Nat.xor_self, Nat.xor_zero,
    List.foldl_append]

/-! ## Doubles -/

/-- **A double** as the language compares it: an IEEE 754 bit pattern, with one zero. (The two zeros
compare equal and print alike; the negative one is read as the positive one.) -/
structure Double where
  /-- Sign, eleven exponent bits and fifty-two fraction bits. -/
  bits : Nat
  /-- The pattern has 64 bits. -/
  bits_lt : bits < 2 ^ 64
  /-- It is not that of the negative zero. -/
  not_negZero : bits ≠ 2 ^ 63
  deriving DecidableEq, Repr

namespace Double

/-- The double of a bit pattern. -/
def ofBits (n : Nat) : Double :=
  if h : n % 2 ^ 64 = 2 ^ 63 then ⟨0, by norm_num, by norm_num⟩
  else ⟨n % 2 ^ 64, Nat.mod_lt _ (by norm_num), h⟩

/-- The pattern without its sign: exponent and fraction, ordered as the magnitudes are. -/
def magnitude (x : Double) : Nat := x.bits % 2 ^ 63

/-- The pattern of positive infinity. -/
def infBits : Nat := 0x7FF0000000000000

def isNan (x : Double) : Bool := infBits < x.magnitude

/-- Either infinity. -/
def isInf (x : Double) : Bool := x.magnitude = infBits

/-- `0.0`. -/
def zero : Double := ofBits 0

/-- The position of a number among the others that are not NaN. -/
def rank (x : Double) : Int :=
  if x.bits < 2 ^ 63 then (x.magnitude : Int) else -(x.magnitude : Int)

/-- `x < y`. -/
def lt (x y : Double) : Bool := !x.isNan && !y.isNan && decide (x.rank < y.rank)

/-- `x == y`. -/
def eq (x y : Double) : Bool := !x.isNan && !y.isNan && decide (x.rank = y.rank)

/-- `x <= y`. -/
def le (x y : Double) : Bool := x.lt y || x.eq y

/-- A bit pattern that is not the negative zero's is the one of its double. -/
theorem ofBits_bits (x : Double) : ofBits x.bits = x := by
  have hmod : x.bits % 2 ^ 64 = x.bits := Nat.mod_eq_of_lt x.bits_lt
  have hne : ¬ x.bits % 2 ^ 64 = 2 ^ 63 := by rw [hmod]; exact x.not_negZero
  rw [ofBits, dif_neg hne]
  obtain ⟨bits, hbits, hz⟩ := x
  rw [mk.injEq]
  exact hmod

/-- The position determines the number. -/
theorem rank_injective : Function.Injective rank := by
  intro x y h
  obtain ⟨m, hm, hmz⟩ := x
  obtain ⟨n, hn, hnz⟩ := y
  rw [mk.injEq]
  simp only [rank, magnitude] at h
  split at h <;> split at h <;> omega

theorem lt_iff {x y : Double} (hx : x.isNan = false) (hy : y.isNan = false) :
    x.lt y = true ↔ x.rank < y.rank := by
  simp [lt, hx, hy]

theorem eq_iff {x y : Double} (hx : x.isNan = false) (hy : y.isNan = false) :
    x.eq y = true ↔ x = y := by
  simp [eq, hx, hy, rank_injective.eq_iff]

end Double

end KvStore
