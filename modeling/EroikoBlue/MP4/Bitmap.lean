/-
# `MP4.Bitmap` — `lib/bitmap.cc`

An array of bits kept in 32-bit words, with two fields added for speed: `cur`,
where the last search stopped, and `size`, meant to be the number of clear bits.
`Mark` and `Clear` keep `size` right; `FindAndSet` marks its bit through `Mark`
and then decrements `size` once more, so every call lowers it by two.
`findAndSet_cases` says so, and it is the only fact about the search that the
rest of the development uses.

The length of the word array and the bound on `cur` are fields of the structure:
no operation can build a bitmap that breaks them.
-/
import Mathlib.Data.List.Basic
import EroikoBlue.Debug
import EroikoBlue.Lib.Bytes

namespace EroikoBlue.MP4

open Bytes

abbrev BitsInByte : Nat := 8

/-- `sizeof(unsigned int) * BitsInByte`. -/
abbrev BitsInWord : Nat := 32

/-- `divRoundUp(numBits, BitsInWord)`. -/
def numWords (numBits : Nat) : Nat :=
  numBits / BitsInWord + if numBits % BitsInWord > 0 then 1 else 0

theorem div_lt_numWords {i n : Nat} (h : i < n) :
    i / BitsInWord < numWords n := by
  simp only [numWords, BitsInWord]
  split <;> omega

structure Bitmap where
  numBits : Nat
  /-- Last found index. -/
  cur : Nat
  /-- Meant to be the number of clear bits. -/
  size : Int
  /-- Bit storage. -/
  map : List Word
  length_map : map.length = numWords numBits
  cur_le : cur ≤ numBits

namespace Bitmap

theorem ext' {a b : Bitmap} (hn : a.numBits = b.numBits) (hc : a.cur = b.cur)
    (hs : a.size = b.size) (hm : a.map = b.map) : a = b := by
  cases a; cases b
  simp only at hn hc hs hm
  subst hn; subst hc; subst hs; subst hm
  rfl

/-- `map[which / BitsInWord] & (1 << (which % BitsInWord))`. -/
def bit (b : Bitmap) (which : Nat) : Bool :=
  (b.map.getD (which / BitsInWord) 0).getLsbD (which % BitsInWord)

/-- `Bitmap::Test`. -/
def test (b : Bitmap) (which : Int) : Except Fault Bool := do
  assertMsg (0 ≤ which ∧ which < b.numBits) ""
  pure (b.bit which.toNat)

/-- The body of `Mark`: `map[which / BitsInWord] |= 1 << (which % BitsInWord)`,
with `size` lowered when the bit was clear. -/
def setBit (b : Bitmap) (which : Nat) : Bitmap :=
  { b with
    size := if b.bit which then b.size else b.size - 1
    map :=
      b.map.modify (which / BitsInWord) (· ||| 1#32 <<< (which % BitsInWord))
    length_map := by rw [List.length_modify, b.length_map] }

/-- The body of `Clear`:
`map[which / BitsInWord] &= ~(1 << (which % BitsInWord))`, with `size` raised
when the bit was set. -/
def clearBit (b : Bitmap) (which : Nat) : Bitmap :=
  { b with
    size := if b.bit which then b.size + 1 else b.size
    map := b.map.modify (which / BitsInWord)
      (· &&& ~~~(1#32 <<< (which % BitsInWord)))
    length_map := by rw [List.length_modify, b.length_map] }

/-- `Bitmap::Mark`. -/
def mark (b : Bitmap) (which : Int) : Except Fault Bitmap := do
  assertMsg (0 ≤ which ∧ which < b.numBits) ""
  let b' := b.setBit which.toNat
  assertMsg (b'.bit which.toNat) ""
  pure b'

/-- `Bitmap::Clear`. -/
def clear (b : Bitmap) (which : Int) : Except Fault Bitmap := do
  assertMsg (0 ≤ which ∧ which < b.numBits) ""
  let b' := b.clearBit which.toNat
  assertMsg (!b'.bit which.toNat) ""
  pure b'

/-- `Bitmap::Bitmap(numItems)`: zero words, then `Clear` on every bit.  Its
`ASSERT(numItems > 0)` holds of every constant the program passes.  `new_eq`
says what it builds; a map of the whole disk must not be unfolded. -/
@[irreducible] def new (numItems : Nat) : Bitmap :=
  (List.range numItems).foldl clearBit
    { numBits := numItems, cur := 0, size := numItems
      map := List.replicate (numWords numItems) 0
      length_map := List.length_replicate, cur_le := Nat.zero_le _ }

/-- `Bitmap::NumClear`: the cached field. -/
def numClear (b : Bitmap) : Int := b.size

/-- One pass of the search of `FindAndSet`: the first clear bit of
`[lo, hi)`. -/
def firstClear (b : Bitmap) (lo hi : Nat) : Option Nat :=
  (List.range' lo (hi - lo)).find? fun i => !b.bit i

theorem firstClear_some {b : Bitmap} {lo hi i : Nat}
    (h : b.firstClear lo hi = some i) :
    i < hi ∧ b.bit i = false := by
  have hmem := List.mem_of_find?_eq_some h
  have hbit := List.find?_some h
  rw [List.mem_range'_1] at hmem
  exact ⟨by omega, by simpa using hbit⟩

theorem firstClear_none {b : Bitmap} {lo hi : Nat}
    (h : b.firstClear lo hi = none) {i : Nat} (hlo : lo ≤ i) (hhi : i < hi) :
    b.bit i = true := by
  have := List.find?_eq_none.mp h i (List.mem_range'_1.mpr ⟨hlo, by omega⟩)
  simpa using this

/-- What `FindAndSet` does at the bit it found: `Mark(i); cur = i; size--`. -/
def take (b : Bitmap) (i : Nat) (h : i ≤ b.numBits) : Bitmap :=
  { b.setBit i with cur := i, size := (b.setBit i).size - 1, cur_le := h }

/-- `Bitmap::FindAndSet`: from `cur` to the end, then from the start to `cur`.
The loops keep `i` in range, so the assertions of `Test` and `Mark` hold. -/
def findAndSet (b : Bitmap) : Int × Bitmap :=
  if b.size = 0 then (-1, b)
  else match h : b.firstClear b.cur b.numBits with
    | some i => (i, b.take i (Nat.le_of_lt (firstClear_some h).1))
    | none => match h' : b.firstClear 0 b.cur with
      | some i => (i, b.take i
            (Nat.le_trans (Nat.le_of_lt (firstClear_some h').1) b.cur_le))
      | none => (-1, b)

/-- `memcpy(map, buf, n)`: the first words are overwritten. -/
def load (b : Bitmap) (buf : List Word) : Bitmap :=
  { b with
    map := buf.take (numWords b.numBits) ++ b.map.drop
      (buf.take (numWords b.numBits)).length
    length_map := by
      rw [List.length_append, List.length_drop, b.length_map,
        List.length_take]; omega }

/-- The number of clear bits, counted. -/
def clearCount (b : Bitmap) : Nat :=
  (List.range b.numBits).countP fun i => !b.bit i

/-- `Bitmap::Export`. -/
def «export» (b : Bitmap) : List Word := b.map

/-- `Bitmap::Import`: `memcpy`, then `cur = 0` and `size` recounted. -/
def «import» (b : Bitmap) (buf : List Word) : Bitmap :=
  { b.load buf with cur := 0, size := (b.load buf).clearCount, cur_le := Nat.zero_le _ }

/-! ## Single bits -/

@[simp] theorem setBit_numBits (b : Bitmap) (i : Nat) :
    (b.setBit i).numBits = b.numBits := rfl
@[simp] theorem load_numBits (b : Bitmap) (buf : List Word) :
    (b.load buf).numBits = b.numBits := rfl
@[simp] theorem load_size (b : Bitmap) (buf : List Word) :
    (b.load buf).size = b.size := rfl

theorem getLsbD_mask (k j : Nat) (hk : k < 32) :
    (1#32 <<< k).getLsbD j = decide (j = k) := by
  rw [BitVec.getLsbD_shiftLeft, BitVec.getLsbD_one]
  by_cases h : j = k
  · subst h; simp [hk]
  · simp only [h, decide_false, Bool.and_eq_false_iff, decide_eq_false_iff_not]
    by_cases hj : j < 32
    · by_cases hlt : j < k
      · left; right; simpa using hlt
      · right; right; omega
    · left; left; exact hj

theorem bit_setBit {b : Bitmap} {i : Nat} (hi : i < b.numBits) (j : Nat) :
    (b.setBit i).bit j = (decide (j = i) || b.bit j) := by
  have hlen : i / BitsInWord <
    b.map.length := by rw [b.length_map]; exact div_lt_numWords hi
  simp only [bit, setBit, List.getD_eq_getElem?_getD, List.getElem?_modify]
  by_cases hw : i / BitsInWord = j / BitsInWord
  · simp only [hw, if_true] at hlen ⊢
    rw [List.getElem?_eq_getElem hlen]
    simp only [Option.map_eq_map, Option.map_some, Option.getD_some,
      BitVec.getLsbD_or,
      getLsbD_mask (i % BitsInWord) _ (Nat.mod_lt _ (by decide))]
    rw [Bool.or_comm]
    congr 1
    simp only [decide_eq_decide, BitsInWord] at hw ⊢
    omega
  · have hne : j ≠ i := fun h => hw (by rw [h])
    simp [hw, hne]

theorem bit_clearBit (b : Bitmap) (i j : Nat) :
    (b.clearBit i).bit j = (!decide (j = i) && b.bit j) := by
  simp only [bit, clearBit, List.getD_eq_getElem?_getD, List.getElem?_modify]
  by_cases hw : i / BitsInWord = j / BitsInWord
  · simp only [hw, if_true]
    cases hm : b.map[j / BitsInWord]? with
    | none => simp
    | some w =>
        simp only [Option.map_eq_map, Option.map_some, Option.getD_some,
          BitVec.getLsbD_and,
          BitVec.getLsbD_not, getLsbD_mask (i % BitsInWord)
            _ (Nat.mod_lt _ (by decide))]
        have hlt : j % BitsInWord < 32 := Nat.mod_lt _ (by decide)
        simp only [hlt, decide_true, Bool.true_and]
        rw [Bool.and_comm]
        congr 2
        simp only [decide_eq_decide, BitsInWord] at hw ⊢
        omega
  · have hne : j ≠ i := fun h => hw (by rw [h])
    simp [hw, hne]

@[simp] theorem bit_take {b : Bitmap} {i : Nat} (hi : i < b.numBits)
    (h : i ≤ b.numBits) (j : Nat) :
    (b.take i h).bit j = (decide (j = i) || b.bit j) := bit_setBit hi j

theorem test_eq {b : Bitmap} {i : Nat} (hi : i < b.numBits) :
    b.test i = .ok (b.bit i) := by
  rw [test, assertMsg_pos ⟨Int.natCast_nonneg i, Int.ofNat_lt.mpr hi⟩]
  rfl

theorem mark_eq {b : Bitmap} {i : Nat} (hi : i < b.numBits) :
    b.mark i = .ok (b.setBit i) := by
  rw [mark, assertMsg_pos ⟨Int.natCast_nonneg i, Int.ofNat_lt.mpr hi⟩]
  simp only [Outcome.ok_bind, Int.toNat_natCast]
  rw [assertMsg_pos (by rw [bit_setBit hi]; simp)]
  rfl

theorem clear_eq {b : Bitmap} {i : Nat} (hi : i < b.numBits) :
    b.clear i = .ok (b.clearBit i) := by
  rw [clear, assertMsg_pos ⟨Int.natCast_nonneg i, Int.ofNat_lt.mpr hi⟩]
  simp only [Outcome.ok_bind, Int.toNat_natCast]
  rw [assertMsg_pos (by rw [bit_clearBit]; simp)]
  rfl

/-! ## A fresh bitmap -/

/-- The `Clear` loop of the constructor finds every bit clear and changes
nothing. -/
theorem clearBit_zero {b : Bitmap} (h : ∀ w ∈ b.map, w = 0) (i : Nat) :
    b.clearBit i = b := by
  have hbit : b.bit i = false := by
    simp only [bit, List.getD_eq_getElem?_getD]
    cases hm : b.map[i / BitsInWord]? with
    | none => simp
    | some w => rw [h w (List.mem_of_getElem? hm)]; simp
  refine ext' rfl rfl ?_ ?_
  · simp [clearBit, hbit]
  · apply List.ext_getElem?
    intro k
    simp only [clearBit, List.getElem?_modify]
    split
    · cases hm : b.map[k]? with
      | none => rfl
      | some w => rw [h w (List.mem_of_getElem? hm)]; simp
    · simp

theorem new_eq (n : Nat) : new n =
    { numBits := n, cur := 0, size := n, map := List.replicate (numWords n) 0
      length_map := List.length_replicate, cur_le := Nat.zero_le _ } := by
  rw [new]
  generalize hb : Bitmap.mk n 0 n (List.replicate (numWords n) 0) _ _ = b
  have hzero : ∀ w ∈ b.map, w = 0 := by
    subst hb
    exact fun w hw => (List.mem_replicate.mp hw).2
  clear hb
  induction List.range n with
  | nil => rfl
  | cons i l ih => rw [List.foldl_cons, clearBit_zero hzero, ih]

@[simp] theorem new_numBits (n : Nat) : (new n).numBits = n := by rw [new_eq]
@[simp] theorem new_size (n : Nat) : (new n).size = n := by rw [new_eq]

@[simp] theorem new_bit (n i : Nat) : (new n).bit i = false := by
  rw [new_eq, bit, List.getD_eq_getElem?_getD, List.getElem?_replicate]
  split <;> simp

/-! ## The cached count

`Mark` keeps `size` equal to the number of clear bits, and `Import` counts them
again, so a bitmap that is only marked comes back unchanged from an `Export`. -/

theorem countP_ne {l : List Nat} (hl : l.Nodup) {i : Nat} (hi : i ∈ l)
    (p : Nat → Bool) :
    l.countP p = l.countP (fun j => !decide (j = i) && p j) + if p i then 1
      else 0 := by
  induction l with
  | nil => simp at hi
  | cons a l ih =>
      obtain ⟨hal, hl⟩ := List.nodup_cons.mp hl
      rw [List.countP_cons, List.countP_cons]
      by_cases ha : a = i
      · subst ha
        have hsame : l.countP (fun j => !decide (j = a) && p j) =
            l.countP p := by
          apply List.countP_congr
          intro j hj
          have : j ≠ a := fun h => hal (h ▸ hj)
          simp [this]
        rw [hsame]
        simp
      · have hil : i ∈ l := (List.mem_cons.mp hi).resolve_left (Ne.symm ha)
        rw [ih hl hil]
        simp only [ha, decide_false, Bool.not_false, Bool.true_and]
        omega

theorem clearCount_setBit {b : Bitmap} {i : Nat} (hi : i < b.numBits) :
    b.clearCount = (b.setBit i).clearCount + if b.bit i then 0 else 1 := by
  have h := countP_ne List.nodup_range (List.mem_range.mpr hi) fun j => !b.bit j
  simp only [clearCount, setBit_numBits, bit_setBit hi, Bool.not_or]
  rw [h]
  cases b.bit i <;> simp

theorem setBit_size {b : Bitmap} {i : Nat} (hi : i < b.numBits)
    (h : b.size = b.clearCount) :
    (b.setBit i).size = (b.setBit i).clearCount := by
  have hc := clearCount_setBit hi
  simp only [setBit] at hc ⊢
  cases hbit : b.bit i <;> simp only [hbit] at hc ⊢ <;> simp at hc ⊢ <;> omega

theorem clearCount_new (n : Nat) : (new n).clearCount = n := by
  simp [clearCount]

theorem clearCount_congr {a b : Bitmap} (hn : a.numBits = b.numBits)
    (h : ∀ j, a.bit j = b.bit j) :
    a.clearCount = b.clearCount := by
  simp only [clearCount, hn, h]

theorem load_map {b : Bitmap} {buf : List Word}
    (h : numWords b.numBits ≤ buf.length) :
    (b.load buf).map = buf.take (numWords b.numBits) := by
  have hlen : (buf.take (numWords b.numBits)).length = numWords b.numBits := by
    rw [List.length_take]; omega
  simp only [load, hlen, List.drop_eq_nil_of_le (Nat.le_of_eq b.length_map),
    List.append_nil]

/-- Reading a bitmap out of the words it was stored in, followed by anything. -/
theorem import_export {a b : Bitmap} (hn : a.numBits = b.numBits)
    (hc : b.cur = 0) (hs : b.size = b.clearCount) (rest : List Word) :
    a.import (b.export ++ rest) = b := by
  have hmap : (a.load (b.export ++ rest)).map = b.map := by
    have hlen : b.export.length = numWords a.numBits := by rw [hn]; exact b.length_map
    rw [load_map (by rw [List.length_append]; omega), ← hlen, List.take_left]
    rfl
  refine ext' hn hc.symm ?_ hmap
  rw [hs]
  show ((a.load (b.export ++ rest)).clearCount : Int) = b.clearCount
  simp only [clearCount, bit, hmap, load_numBits, hn]

/-! ## `FindAndSet` -/

/-- All that one search can do: give up, or take a clear bit and lower the
cached count by two. -/
theorem findAndSet_cases (b : Bitmap) :
    (b.findAndSet = (-1, b) ∧ (b.size = 0 ∨ ∀ i < b.numBits, b.bit i = true)) ∨
    ∃ i, ∃ h : i < b.numBits, b.size ≠ 0 ∧ b.bit i = false ∧
      b.findAndSet = (↑i, b.take i (Nat.le_of_lt h)) := by
  unfold findAndSet
  by_cases hs : b.size = 0
  · exact .inl ⟨by rw [if_pos hs], .inl hs⟩
  · rw [if_neg hs]
    split
    · next i hi => exact .inr ⟨i, (firstClear_some hi).1, hs,
        (firstClear_some hi).2, rfl⟩
    · next hnone =>
      split
      · next i hi =>
          exact .inr ⟨i, Nat.lt_of_lt_of_le (firstClear_some hi).1 b.cur_le, hs,
            (firstClear_some hi).2, rfl⟩
      · next hnone' =>
          refine .inl ⟨rfl, .inr fun i hi => ?_⟩
          by_cases hc : b.cur ≤ i
          · exact firstClear_none hnone hc hi
          · exact firstClear_none hnone' (Nat.zero_le i) (by omega)

theorem take_size {b : Bitmap} {i : Nat} (h : i ≤ b.numBits)
    (hbit : b.bit i = false) :
    (b.take i h).size = b.size - 2 := by
  simp only [take, setBit, hbit, Bool.false_eq_true, if_false]
  omega

end Bitmap

end EroikoBlue.MP4
