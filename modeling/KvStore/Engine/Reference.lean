import KvStore.Engine.Lifecycle
import Mathlib.Tactic.IntervalCases

/-! # A reference interpreter

An interpreter that satisfies the laws of `CPython`, so that they can be met: a number that is not
printed as an integer is printed as its bit pattern. It serves, with the policy that never evicts, to
run the engine on concrete inputs.

The point is that a printed number determines the number (`formatFloatWith_injective`); for the
integers this is `Double.toInt?_injective`. -/

namespace KvStore

open List

/-! ## Integers among the doubles -/

namespace Double

/-- The significand of a magnitude, with its leading bit. -/
def significand (m : Nat) : Nat := if m / 2 ^ 52 = 0 then m % 2 ^ 52 else 2 ^ 52 + m % 2 ^ 52

/-- The exponent of a magnitude, that of the subnormal numbers being one. -/
def exponent (m : Nat) : Nat := max (m / 2 ^ 52) 1

/-- The number that a magnitude stands for, in units of the smallest one. -/
def scaled (m : Nat) : Nat := significand m * 2 ^ exponent m

def sign (x : Double) : Int := if x.bits < 2 ^ 63 then 1 else -1

/-- The integer a double equals, in these terms. -/
theorem toInt?_eq (x : Double) : x.toInt? =
    if infBits ≤ x.magnitude then none
    else if 1075 ≤ x.magnitude / 2 ^ 52 then
      some (x.sign * (significand x.magnitude * 2 ^ (x.magnitude / 2 ^ 52 - 1075) : Nat))
    else if significand x.magnitude % 2 ^ (1075 - exponent x.magnitude) = 0 then
      some (x.sign * (significand x.magnitude / 2 ^ (1075 - exponent x.magnitude) : Nat))
    else none := rfl

theorem natAbs_sign_mul (x : Double) (a : Nat) : (x.sign * (a : Int)).natAbs = a := by
  unfold sign
  split <;> simp

/-- The integer a double equals is the scaled magnitude with the sign of the double. -/
theorem scaled_of_toInt? {x : Double} {n : Int} (h : x.toInt? = some n) :
    n = x.sign * n.natAbs ∧ scaled x.magnitude = n.natAbs * 2 ^ 1075 := by
  rw [toInt?_eq] at h
  unfold scaled
  split at h
  · cases h
  split at h
  · rename_i hbig
    rw [Option.some.injEq] at h
    have hexp : exponent x.magnitude = x.magnitude / 2 ^ 52 - 1075 + 1075 := by
      unfold exponent
      omega
    rw [← h, natAbs_sign_mul, hexp, pow_add, mul_assoc]
    exact ⟨rfl, rfl⟩
  split at h
  · rename_i hsmall hdvd
    rw [Option.some.injEq] at h
    have hexp : 1075 - exponent x.magnitude + exponent x.magnitude = 1075 := by
      unfold exponent
      omega
    rw [← h, natAbs_sign_mul, ← hexp, pow_add, ← mul_assoc, hexp,
      Nat.div_mul_cancel (Nat.dvd_of_mod_eq_zero hdvd)]
    exact ⟨rfl, rfl⟩
  · cases h

/-- A larger magnitude stands for a larger number. -/
theorem scaled_strictMono : StrictMono scaled := by
  refine strictMono_nat_of_lt_succ fun m => ?_
  have hlt := Nat.mod_lt m (show 0 < 2 ^ 52 by norm_num)
  unfold scaled significand exponent
  by_cases hcarry : m % 2 ^ 52 + 1 = 2 ^ 52
  · rw [show (m + 1) / 2 ^ 52 = m / 2 ^ 52 + 1 by omega, show (m + 1) % 2 ^ 52 = 0 by omega]
    by_cases hzero : m / 2 ^ 52 = 0
    · rw [hzero]
      norm_num
      omega
    · -- the significand is halved, and the exponent makes up for it
      rw [if_neg hzero, if_neg (by omega), max_eq_left (by omega), max_eq_left (by omega),
        pow_succ 2 (m / 2 ^ 52), mul_comm _ 2, ← mul_assoc]
      gcongr
      omega
  · rw [show (m + 1) / 2 ^ 52 = m / 2 ^ 52 by omega, show (m + 1) % 2 ^ 52 = m % 2 ^ 52 + 1 by omega]
    gcongr
    split <;> omega

/-- **The integer determines the double.** -/
theorem toInt?_injective {x y : Double} {n : Int} (hx : x.toInt? = some n) (hy : y.toInt? = some n) :
    x = y := by
  obtain ⟨hsx, hmx⟩ := scaled_of_toInt? hx
  obtain ⟨hsy, hmy⟩ := scaled_of_toInt? hy
  have hmag : x.magnitude = y.magnitude := scaled_strictMono.injective (hmx.trans hmy.symm)
  apply rank_injective
  by_cases hn : n.natAbs = 0
  · -- only zero equals zero
    have hzero : x.magnitude = 0 := by
      apply scaled_strictMono.injective
      rw [hmx, hn, Nat.zero_mul]
      rfl
    simp [rank, hzero, ← hmag]
  · have hsign : x.sign = y.sign := by
      have h : x.sign * (n.natAbs : Int) = y.sign * (n.natAbs : Int) := hsx.symm.trans hsy
      exact mul_right_cancel₀ (by exact_mod_cast hn) h
    clear hmx hmy hsx hsy
    unfold rank
    unfold sign at hsign
    rw [hmag]
    by_cases hbx : x.bits < 2 ^ 63 <;> by_cases hby : y.bits < 2 ^ 63 <;>
      simp only [hbx, hby, if_true, if_false] at hsign ⊢ <;> omega

end Double

/-! ## Printed numbers -/

/-- A number printed as its bit pattern, after a letter no integer begins with. -/
def reprBits (x : Double) : Str := 98 :: showInt x.bits

/-- A text that begins with that letter is not an integer. -/
theorem int_cons_b (s : Str) : int (98 :: s) = none := by
  have hdecode : decode (98 :: s) = 98 :: decodeAux s.length s := rfl
  have hblank : isBlank (asciiCode 98) = false := by decide
  have hsigned : ∀ rest, signed 10 (98 :: rest) = none := fun rest => rfl
  have hcode : asciiCode 98 = 98 := by decide
  rw [int, hdecode, map_cons, dropWhile_cons_of_neg (by simp [hblank]), hcode, hsigned]

/-- An integer that is not too long is read back. -/
theorem int_showInt_small {n : Int} (h : n.natAbs < 10 ^ 64) : int (showInt n) = some n :=
  int_showInt (lt_of_lt_of_le h (Nat.pow_le_pow_right (by norm_num) (by decide)))

/-- **The forms of a printed number**: an integer, an infinity, or a bit pattern. -/
theorem formatFloatWith_cases (x : Double) :
    (∃ n : Int, formatFloatWith reprBits x = showInt n ∧ int (showInt n) = some n ∧
      x.toInt? = some n) ∨
    (formatFloatWith reprBits x = text "inf" ∧ x = Double.posInf) ∨
    (formatFloatWith reprBits x = text "-inf" ∧ x = Double.negInf) ∨
    formatFloatWith reprBits x = reprBits x := by
  unfold formatFloatWith
  split
  · exact .inr (.inl ⟨rfl, by assumption⟩)
  split
  · exact .inr (.inr (.inl ⟨rfl, by assumption⟩))
  split
  · rename_i n hn
    split
    · rename_i hsmall
      exact .inl ⟨n, rfl, int_showInt_small (hsmall.trans (by norm_num)), hn⟩
    · exact .inr (.inr (.inr rfl))
  · exact .inr (.inr (.inr rfl))

theorem reprBits_injective : Function.Injective reprBits := by
  intro x y h
  have hread : ∀ z : Double, int (showInt z.bits) = some (z.bits : Int) := by
    intro z
    apply int_showInt_small
    rw [Int.natAbs_natCast]
    exact z.bits_lt.trans (by norm_num)
  have hbits := hread x
  rw [(List.cons.inj h).2, hread y, Option.some.injEq] at hbits
  rw [← Double.ofBits_bits x, ← Double.ofBits_bits y]
  congr 1
  omega

/-- **A printed number determines the number.** -/
theorem formatFloatWith_injective : Function.Injective (formatFloatWith reprBits) := by
  have hother : ∀ x, (formatFloatWith reprBits x = text "inf" ∧ x = Double.posInf) ∨
      (formatFloatWith reprBits x = text "-inf" ∧ x = Double.negInf) ∨
      formatFloatWith reprBits x = reprBits x → int (formatFloatWith reprBits x) = none := by
    rintro x (⟨h, -⟩ | ⟨h, -⟩ | h) <;> rw [h]
    · decide +kernel
    · decide +kernel
    · exact int_cons_b _
  intro x y h
  rcases formatFloatWith_cases x with ⟨n, hx, hn, hxn⟩ | hx <;>
    rcases formatFloatWith_cases y with ⟨m, hy, hm, hym⟩ | hy
  · rw [← hx, h, hy, hm, Option.some.injEq] at hn
    exact Double.toInt?_injective hxn (hn ▸ hym)
  · have hnone := hother y hy
    rw [← h, hx, hn] at hnone
    cases hnone
  · have hnone := hother x hx
    rw [h, hy, hm] at hnone
    cases hnone
  · rcases hx with ⟨hx, rfl⟩ | ⟨hx, rfl⟩ | hx <;> rcases hy with ⟨hy, rfl⟩ | ⟨hy, rfl⟩ | hy <;>
      first
      | rfl
      | rw [hx, hy] at h
        first
        | exact reprBits_injective h
        | exact absurd (congrArg List.head? h) (by simp [reprBits, text])

/-! ## The interpreter -/

/-- The upper case of a text that begins with an ASCII character. -/
theorem upper_cons {b : UInt8} (hb : b < 0x80) (s : Str) :
    upper (b :: s) = upperCode b.toNat ++ upper s := by
  simp [upper, decode, decodeAux, hb]

theorem showInt_cons (n : Int) : ∃ b rest, showInt n = b :: rest ∧ (b = 45 ∨ 48 ≤ b ∧ b ≤ 57) := by
  unfold showInt
  split
  · exact ⟨45, _, rfl, .inl rfl⟩
  · obtain ⟨ds, hds, hne, hmap, -, -⟩ := showNat_digits n.natAbs
    obtain ⟨d, ds, rfl⟩ := exists_cons_of_ne_nil hne
    cases hshow : showNat n.natAbs with
    | nil => simp [hshow] at hmap
    | cons b rest =>
      have hb : b.toNat = 48 + d := by
        rw [hshow] at hmap
        exact (List.cons.inj hmap).1
      have hd := hds d mem_cons_self
      refine ⟨b, rest, rfl, .inr ⟨?_, ?_⟩⟩ <;> rw [UInt8.le_iff_toNat_le, hb]
      · exact Nat.le_add_right 48 d
      · change 48 + d ≤ 57
        omega

/-- A text that begins with a sign, a digit or a `b` is not an option word. -/
theorem isWord_option {b : UInt8} {rest : Str} (hb : b = 45 ∨ 48 ≤ b ∧ b ≤ 57 ∨ b = 98) {word : String}
    (hword : word ∈ ["NX", "XX", "GT", "LT", "CH", "INCR"]) : isWord (b :: rest) word = false := by
  obtain ⟨hascii, c, hc, hupper⟩ : b < 0x80 ∧ ∃ c ≤ 66, upperCode b.toNat = [c] := by
    rcases hb with rfl | ⟨hlo, hhi⟩ | rfl
    · exact ⟨by decide, 45, by decide, by decide⟩
    · rw [UInt8.le_iff_toNat_le] at hlo hhi
      have hlo' : 48 ≤ b.toNat := hlo
      have hhi' : b.toNat ≤ 57 := hhi
      refine ⟨UInt8.lt_iff_toNat_lt.mpr (lt_of_le_of_lt hhi' (by decide)), b.toNat, by omega, ?_⟩
      interval_cases b.toNat <;> rfl
    · exact ⟨by decide, 66, by decide, by decide⟩
  obtain ⟨w, ws, hw, hcodes⟩ : ∃ w ws, 67 ≤ w ∧ codes word = w :: ws := by
    simp only [mem_cons, not_mem_nil, or_false] at hword
    rcases hword with rfl | rfl | rfl | rfl | rfl | rfl <;> exact ⟨_, _, by decide, rfl⟩
  have hne : c ≠ w := by omega
  simp [isWord, upper_cons hascii, hupper, hcodes, hne]

/-- A printed number is not an option word. -/
theorem isWord_formatFloatWith (x : Double) {word : String}
    (hword : word ∈ ["NX", "XX", "GT", "LT", "CH", "INCR"]) :
    isWord (formatFloatWith reprBits x) word = false := by
  rcases formatFloatWith_cases x with ⟨n, hx, -, -⟩ | ⟨hx, -⟩ | ⟨hx, -⟩ | hx <;> rw [hx]
  · obtain ⟨b, rest, hshow, hb⟩ := showInt_cons n
    rw [hshow]
    exact isWord_option (by tauto) hword
  · simp only [mem_cons, not_mem_nil, or_false] at hword
    rcases hword with rfl | rfl | rfl | rfl | rfl | rfl <;> decide +kernel
  · simp only [mem_cons, not_mem_nil, or_false] at hword
    rcases hword with rfl | rfl | rfl | rfl | rfl | rfl <;> decide +kernel
  · exact isWord_option (.inr (.inr rfl)) hword

open Classical in
/-- The number a printed form belongs to. -/
noncomputable def parsePrinted (s : Str) : Option Double :=
  if h : ∃ x : Double, formatFloatWith reprBits x = s then some h.choose else none

/-- **The reference interpreter.** -/
@[reducible] noncomputable def referencePython : CPython where
  parseFloat := parsePrinted
  reprFloat := reprBits
  addFloat x _ := x
  strSize s := 49 + s.length
  parseFloat_format x _ := by
    have h : ∃ y : Double, formatFloatWith reprBits y = formatFloatWith reprBits x := ⟨x, rfl⟩
    rw [parsePrinted, dif_pos h]
    exact congrArg some (formatFloatWith_injective h.choose_spec)
  parseFloat_word s word hword hs := by
    rw [parsePrinted, dif_neg]
    rintro ⟨x, rfl⟩
    rw [isWord_formatFloatWith x hword] at hs
    cases hs

/-! ## A quiet environment -/

/-- The choice of the first elements. -/
def Sampler.first : Sampler where
  pick l k := l.take k
  subperm l k := (take_sublist k l).subperm
  length_eq _ _ := length_take

/-- An environment in which nothing happens but the time of the clock, in microseconds. -/
def Env.quiet (now : Nat) : Env where
  now := now
  sampler _ := .first
  choices l k := (l.take 1).flatMap fun x => List.replicate k x
  introspect _ _ := .ok ()
  written := none
  saved := true

namespace Engine

/-- An engine without files or limits. -/
def plainConfig (levels : Levels) : Config NoEviction where
  policy := {}
  maxKeys := 0
  maxmemory := 0
  levels := levels

/-- Levels that put every member on the lowest level. -/
def allLow : Levels := fun _ => ⟨0, by decide⟩

end Engine

end KvStore
