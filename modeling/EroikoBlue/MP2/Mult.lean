/-
# `MP2.Mult` — multiplication of the simulated processor

`Mult` multiplies two words into a double word, with shifts and additions of
words:

    hi:lo     the sum so far
    bHi:bLo   the second factor, shifted once for each bit of the first that is done

The signs are taken off first, and put back on the double word at the end.  The
first factor is shifted as a signed number, so a copy of its sign comes in at
the top; after 32 rounds none of the copies has been looked at.

## The invariant of the loop

With `n` rounds to go the result is `hi:lo` and, added to it, `bHi:bLo` times
the lowest `n` bits of what is left of the first factor, all of it modulo 2^64
(`multLoop_eq`).  A carry between the two words is found by comparing the sum
with a summand, which `double_add` says is right.

`multu_product` and `mult_product` are the two products, for all words.
-/
import Mathlib.Algebra.Group.Nat.Defs
import EroikoBlue.Lib.Bytes

namespace EroikoBlue.MP2

open Bytes (Word)

/-- The loop of `Mult`, with `n` rounds left; the result is `hi`, `lo`. -/
def multLoop : Nat → Word → Word → Word → Word → Word → Word × Word
  | 0, _, _, _, hi, lo => (hi, lo)
  | n + 1, a, bHi, bLo, hi, lo =>
    let bHi' := if bLo &&& 0x80000000 ≠ 0 then bHi <<< 1 ||| 1 else bHi <<< 1
    let bLo' := bLo <<< 1
    let a' := a.sshiftRight 1
    if a &&& 1 ≠ 0 then
      let lo' := lo + bLo
      let hi' := (if lo' < bLo then hi + 1 else hi) + bHi
      if a &&& 0xfffffffe = 0 then (hi', lo')
        else multLoop n a' bHi' bLo' hi' lo'
    else multLoop n a' bHi' bLo' hi lo

/-- `Mult`: what is written to `*hiPtr` and `*loPtr`. -/
def mult (a b : Word) (signedArith : Bool) : Word × Word :=
  if a = 0 ∨ b = 0 then (0, 0)
  else
    let negA := signedArith && a.slt 0
    let negB := signedArith && b.slt 0
    let (hi, lo) :=
      multLoop 32 (if negA then -a else a) 0 (if negB then -b else b) 0 0
    if negA != negB then
      let lo' := ~~~lo + 1
      (if lo' = 0 then ~~~hi + 1 else ~~~hi, lo')
    else (hi, lo)

/-! ## Masks of one bit -/

theorem and_twoPow_ne_zero (w : Word) (i : Nat) : w &&& BitVec.twoPow 32 i ≠ 0 ↔
    w.getLsbD i = true := by
  rw [BitVec.and_twoPow]
  split
  · next h =>
      refine iff_of_true (fun hzero => ?_) h
      have htwo := congrArg BitVec.toNat hzero
      rw [BitVec.toNat_twoPow_of_lt (BitVec.lt_of_getLsbD h)] at htwo
      exact absurd htwo (Nat.ne_of_gt (Nat.two_pow_pos i))
  · next h => exact iff_of_false (fun hne => hne rfl) h

theorem and_top_ne_zero (w : Word) : w &&& 0x80000000 ≠ 0 ↔
    2147483648 ≤ w.toNat := by
  have hmsb := BitVec.msb_eq_decide w
  rw [BitVec.msb_eq_getLsbD_last] at hmsb
  rw [show (0x80000000 : Word) = BitVec.twoPow 32 31 by decide,
    and_twoPow_ne_zero, hmsb, decide_eq_true_iff]

theorem and_one_ne_zero (w : Word) : w &&& 1 ≠ 0 ↔ w.toNat % 2 = 1 := by
  rw [show (1 : Word) = BitVec.twoPow 32 0 by decide, and_twoPow_ne_zero,
    BitVec.getLsbD, Nat.testBit_zero,
    decide_eq_true_iff]

theorem and_rest_eq_zero {w : Word} : w &&& 0xfffffffe = 0 ↔ w.toNat < 2 := by
  constructor
  · intro h
    have hshift : (w &&& 0xfffffffe) >>> 1 = w >>> 1 := by
      rw [show (0xfffffffe : Word) = BitVec.allOnes 32 <<< 1 by decide]
      apply BitVec.eq_of_getLsbD_eq
      intro i hi
      rw [BitVec.getLsbD_ushiftRight, BitVec.getLsbD_ushiftRight,
        BitVec.getLsbD_and, BitVec.getLsbD_shiftLeft,
        BitVec.getLsbD_allOnes]
      grind
    have hhalf := congrArg BitVec.toNat hshift
    rw [h, BitVec.toNat_ushiftRight, BitVec.toNat_ushiftRight] at hhalf
    have hzero : w.toNat >>> 1 = 0 := hhalf.symm
    rw [Nat.shiftRight_eq_div_pow] at hzero
    omega
  · intro h
    have hw : w = 0 ∨ w = 1 := by bv_omega
    rcases hw with rfl | rfl
    · decide
    · decide

/-! ## Double words -/

section
variable {hi lo bHi bLo : Word}

/-- The double word `hi:lo`. -/
def double (hi lo : Word) : BitVec 64 := hi ++ lo

theorem toNat_double (hi lo : Word) :
    (double hi lo).toNat = hi.toNat * 4294967296 + lo.toNat := by
  rw [double, BitVec.toNat_append, ← Nat.shiftLeft_add_eq_or_of_lt lo.isLt,
    Nat.shiftLeft_eq]

theorem double_add :
    double ((if lo + bLo < bLo then hi + 1 else hi) + bHi) (lo + bLo) =
    double hi lo + double bHi bLo := by
  apply BitVec.eq_of_toNat_eq
  rw [BitVec.toNat_add, toNat_double, toNat_double, toNat_double]
  split <;> bv_omega

theorem double_shift : double (if bLo &&& 0x80000000 ≠ 0 then bHi <<< 1 ||| 1
      else bHi <<< 1) (bLo <<< 1) =
    double bHi bLo + double bHi bLo := by
  have hlow : bHi <<< 1 &&& 1 = 0 := by
    by_contra hne
    have hone := (and_one_ne_zero _).mp hne
    bv_omega
  apply BitVec.eq_of_toNat_eq
  rw [BitVec.toNat_add, toNat_double, toNat_double,
    ← BitVec.add_eq_or_of_and_eq_zero _ _ hlow]
  simp only [and_top_ne_zero]
  split <;> bv_omega

theorem double_neg : double (if ~~~lo + 1 = 0 then ~~~hi + 1
      else ~~~hi) (~~~lo + 1) = -double hi lo := by
  apply BitVec.eq_of_toNat_eq
  rw [BitVec.toNat_neg, toNat_double, toNat_double]
  split <;> bv_omega

end

/-! ## The product -/

theorem toNat_sshiftRight_mod (a : Word) {n : Nat} (hn : n ≤ 31) :
    (a.sshiftRight 1).toNat % 2 ^ n = a.toNat / 2 % 2 ^ n := by
  apply Nat.eq_of_testBit_eq
  intro i
  rw [Nat.testBit_mod_two_pow, Nat.testBit_mod_two_pow, Nat.testBit_div_two,
    ← BitVec.getLsbD, ← BitVec.getLsbD,
    BitVec.getLsbD_sshiftRight]
  grind

theorem mod_two_pow_succ (a n : Nat) :
    a % 2 ^ (n + 1) = a % 2 + 2 * (a / 2 % 2 ^ n) := by
  rw [Nat.pow_succ', Nat.mod_mul]

/-- The rounds add the second factor as often as the bits of the first that are
left say. -/
theorem multLoop_eq : ∀ {n : Nat} {a bHi bLo hi lo : Word}, n ≤ 32 →
    double (multLoop n a bHi bLo hi lo).1 (multLoop n a bHi bLo hi lo).2 =
      double hi lo + BitVec.ofNat 64 (a.toNat % 2 ^ n) * double bHi bLo
  | 0, a, bHi, bLo, hi, lo, _ => by
      rw [multLoop, Nat.pow_zero, Nat.mod_one, BitVec.zero_mul, BitVec.add_zero]
  | n + 1, a, bHi, bLo, hi, lo, h => by
      have hnext : ∀ hi lo : Word, double (multLoop n (a.sshiftRight 1)
            (if bLo &&& 0x80000000 ≠ 0 then bHi <<< 1 ||| 1 else bHi <<< 1)
              (bLo <<< 1) hi lo).1
          (multLoop n (a.sshiftRight 1)
            (if bLo &&& 0x80000000 ≠ 0 then bHi <<< 1 ||| 1
              else bHi <<< 1) (bLo <<< 1) hi lo).2 =
          double hi lo + BitVec.ofNat 64 (2 * (a.toNat / 2 % 2 ^ n)) * double
              bHi bLo := by
        intro hi lo
        rw [multLoop_eq (by omega), toNat_sshiftRight_mod a (by omega),
          double_shift, Nat.two_mul, BitVec.ofNat_add,
          BitVec.mul_add, BitVec.add_mul]
      rw [multLoop, mod_two_pow_succ]
      dsimp only
      split
      · next hone =>
        have hbit := (and_one_ne_zero a).mp hone
        split
        · next hlast =>
            have hrest : a.toNat / 2 % 2 ^ n = 0 := by
              have hlt := and_rest_eq_zero.mp hlast
              rw [Nat.div_eq_of_lt hlt, Nat.zero_mod]
            rw [double_add, hbit, hrest, Nat.mul_zero, BitVec.one_mul]
        · rw [hnext, double_add, hbit, BitVec.ofNat_add, BitVec.add_mul,
            BitVec.one_mul, BitVec.add_assoc]
      · next hzero =>
        have hbit : a.toNat % 2 = 0 := by
          have hne := mt (and_one_ne_zero a).mpr hzero
          omega
        rw [hnext, hbit, Nat.zero_add]

theorem toNat_multLoop (a b : Word) :
    (double (multLoop 32 a 0 b 0 0).1 (multLoop 32 a 0 b 0 0).2).toNat =
      a.toNat * b.toNat := by
  have ha := a.isLt
  have hb := b.isLt
  have hlt : a.toNat * b.toNat < 2 ^ 64 := by
    calc a.toNat * b.toNat
        < 2 ^ 32 * 2 ^ 32 := Nat.mul_lt_mul'' ha hb
      _ = 2 ^ 64 := by decide
  rw [multLoop_eq (Nat.le_refl 32), BitVec.toNat_add, BitVec.toNat_mul,
    toNat_double, toNat_double, BitVec.toNat_ofNat,
    Nat.mod_eq_of_lt ha, Nat.mod_eq_of_lt (Nat.lt_trans ha (by decide))]
  show (0 * 4294967296 + 0 + a.toNat * (0 * 4294967296 + b.toNat) %
    2 ^ 64) % 2 ^ 64 = _
  rw [Nat.zero_mul, Nat.zero_add, Nat.zero_add, Nat.mod_mod,
    Nat.mod_eq_of_lt hlt]

theorem toNat_magnitude (w : Word) : (if w.slt 0 then -w else w).toNat =
    w.toInt.natAbs := by
  rw [show w.slt 0 = w.msb from BitVec.slt_zero_eq_msb,
    BitVec.toInt_eq_msb_cond]
  have hlt := w.isLt
  split
  · next h =>
      have hmsb := BitVec.le_toNat_of_msb_true h
      bv_omega
  · omega

theorem toInt_neg_iff (w : Word) : w.slt 0 = true ↔ w.toInt < 0 := by
  rw [BitVec.slt_iff_toInt_lt]
  rfl

theorem multu_product (a b : Word) :
    (double (mult a b false).1 (mult a b false).2).toNat =
      a.toNat * b.toNat := by
  rw [mult]
  split
  · next h => rcases h with rfl | rfl <;> simp [double]
  · exact toNat_multLoop a b

theorem toNat_multLoop_magnitude (a b : Word) :
    (double (multLoop 32 (if a.slt 0 then -a else a) 0 (if b.slt 0 then -b
      else b) 0 0).1
      (multLoop 32 (if a.slt 0 then -a else a) 0 (if b.slt 0 then -b
        else b) 0 0).2).toNat =
      (a.toInt * b.toInt).natAbs := by
  rw [toNat_multLoop, toNat_magnitude, toNat_magnitude, Int.natAbs_mul]

theorem natAbs_product_le (a b : Word) :
    (a.toInt * b.toInt).natAbs ≤ 4611686018427387904 := by
  have ha : a.toInt.natAbs ≤ 2147483648 := by
    have := BitVec.le_toInt a
    have := BitVec.toInt_lt (x := a)
    omega
  have hb : b.toInt.natAbs ≤ 2147483648 := by
    have := BitVec.le_toInt b
    have := BitVec.toInt_lt (x := b)
    omega
  rw [Int.natAbs_mul]
  exact Nat.mul_le_mul ha hb

theorem toInt_double_signed {hi lo : Word} {n : Int} {neg : Bool}
    (hle : n.natAbs ≤ 4611686018427387904) (hneg : neg = true ↔ n < 0)
    (h : (double hi lo).toNat = n.natAbs) :
    (double (if neg then if ~~~lo + 1 = 0 then ~~~hi + 1 else ~~~hi else hi)
        (if neg then ~~~lo + 1 else lo)).toInt
      = n := by
  have hpos : (double hi lo).toInt = n.natAbs := by
    rw [BitVec.toInt_eq_toNat_of_lt (by omega), h]
  cases neg with
  | false =>
      have hn : ¬n < 0 := mt hneg.mpr Bool.false_ne_true
      rw [if_neg Bool.false_ne_true, if_neg Bool.false_ne_true, hpos]
      omega
  | true =>
      have hn : n < 0 := hneg.mp rfl
      rw [if_pos rfl, if_pos rfl, double_neg,
        BitVec.toInt_neg_of_ne_intMin, hpos]
      · omega
      · intro hmin
        rw [hmin, BitVec.toInt_intMin] at hpos
        omega

theorem signs_differ_iff {a b : Word} (ha : a ≠ 0) (hb : b ≠ 0) :
    (a.slt 0 != b.slt 0) = true ↔ a.toInt * b.toInt < 0 := by
  have ha' : a.toInt ≠ 0 := fun h => ha (BitVec.eq_of_toInt_eq h)
  have hb' : b.toInt ≠ 0 := fun h => hb (BitVec.eq_of_toInt_eq h)
  rw [bne_iff_ne, ne_eq, Bool.eq_iff_iff, toInt_neg_iff, toInt_neg_iff]
  rcases Int.lt_or_gt_of_ne ha' with ha | ha
    <;> rcases Int.lt_or_gt_of_ne hb' with hb | hb
  · have := Int.mul_pos_of_neg_of_neg ha hb
    omega
  · have := Int.mul_neg_of_neg_of_pos ha hb
    omega
  · have := Int.mul_neg_of_pos_of_neg ha hb
    omega
  · have := Int.mul_pos ha hb
    omega

theorem mult_product (a b : Word) :
    (double (mult a b true).1 (mult a b true).2).toInt = a.toInt * b.toInt := by
  rw [mult]
  split
  · next h => rcases h with rfl | rfl <;> simp [double]
  · next h =>
      have hnz := not_or.mp h
      have hsigned := toInt_double_signed (natAbs_product_le a b)
        (signs_differ_iff hnz.1 hnz.2)
        (toNat_multLoop_magnitude a b)
      simp only [Bool.true_and]
      split
      · next hne => rw [if_pos hne, if_pos hne] at hsigned; exact hsigned
      · next heq => rw [if_neg heq, if_neg heq] at hsigned; exact hsigned

end EroikoBlue.MP2
