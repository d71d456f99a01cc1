/-
# `Lib.Bytes` — bytes, 32-bit words, and copying between buffers

A buffer is a list of bytes.  A 32-bit word occupies four of them, least
significant first, and the two conversions are mutually inverse; a C `int` is a
word read as a signed number.  `blit` is `memcpy` into the middle of a buffer,
and the last section is about a buffer cut into blocks of one size: where byte
`k` of the whole lies, and what replacing a run of blocks does.

Everything is stated through `l[k]?`, so a statement about a buffer is a
statement about each of its bytes and case splits on offsets are `omega`'s.
-/
import Mathlib.Data.List.Basic
import Mathlib.Data.List.Flatten

namespace Bytes

abbrev Byte := BitVec 8
abbrev Word := BitVec 32

/-! ## Words and their bytes -/

/-- The four bytes of a word, least significant first. -/
def wordBytes (w : Word) : List Byte :=
  [w.extractLsb' 0 8, w.extractLsb' 8 8, w.extractLsb' 16 8, w.extractLsb' 24 8]

def byteWord (b₀ b₁ b₂ b₃ : Byte) : Word := b₃ ++ b₂ ++ b₁ ++ b₀

def wordsToBytes (ws : List Word) : List Byte := ws.flatMap wordBytes

/-- Four bytes at a time; a tail of fewer than four is dropped. -/
def bytesToWords : List Byte → List Word
  | b₀ :: b₁ :: b₂ :: b₃ :: bs => byteWord b₀ b₁ b₂ b₃ :: bytesToWords bs
  | _ => []

theorem byteWord_extract (w : Word) :
    byteWord (w.extractLsb' 0 8) (w.extractLsb' 8 8) (w.extractLsb' 16 8)
      (w.extractLsb' 24 8) = w := by
  apply BitVec.eq_of_getLsbD_eq
  intro i hi
  simp only [byteWord, BitVec.getLsbD_append, BitVec.getLsbD_extractLsb']
  grind

theorem wordBytes_byteWord (b₀ b₁ b₂ b₃ : Byte) :
    wordBytes (byteWord b₀ b₁ b₂ b₃) = [b₀, b₁, b₂, b₃] := by
  simp only [wordBytes, List.cons.injEq, and_true]
  refine ⟨?_, ?_, ?_, ?_⟩ <;>
  · apply BitVec.eq_of_getLsbD_eq
    intro i hi
    simp only [byteWord, BitVec.getLsbD_append, BitVec.getLsbD_extractLsb', hi,
      decide_true, Bool.true_and]
    grind

theorem wordsToBytes_cons (w : Word) (ws : List Word) :
    wordsToBytes (w :: ws) = wordBytes w ++ wordsToBytes ws := rfl

theorem bytesToWords_wordsToBytes :
    ∀ ws : List Word, bytesToWords (wordsToBytes ws) = ws
  | [] => rfl
  | w :: ws => by
      show byteWord _ _ _ _ :: bytesToWords (wordsToBytes ws) = w :: ws
      rw [byteWord_extract, bytesToWords_wordsToBytes ws]

@[simp] theorem length_wordsToBytes (ws : List Word) :
    (wordsToBytes ws).length = 4 * ws.length := by
  induction ws with
  | nil => rfl
  | cons w ws ih =>
      rw [wordsToBytes_cons, List.length_append, ih, List.length_cons]
      simp only [wordBytes, List.length_cons, List.length_nil]
      omega

/-! ## Signed integers -/

/-- A C `int`: arithmetic wraps at `2 ^ 32`. -/
def int32 (x : Int) : Int := (BitVec.ofInt 32 x).toInt

/-- The range of a C `int`. -/
def IsInt32 (x : Int) : Prop := -2147483648 ≤ x ∧ x < 2147483648

theorem int32_range (x : Int) : IsInt32 (int32 x) := by
  simp only [IsInt32, int32, BitVec.toInt_ofInt, Int.bmod_def]
  omega

theorem int32_of_range {x : Int} (h : IsInt32 x) : int32 x = x := by
  obtain ⟨h₁, h₂⟩ := h
  simp only [int32, BitVec.toInt_ofInt, Int.bmod_def]
  omega

theorem int32_of_nat {n : Nat} (h : n < 2147483648) : int32 n = n :=
  int32_of_range ⟨by omega, by omega⟩

theorem toInt_ofInt {x : Int} (h : IsInt32 x) : (BitVec.ofInt 32 x).toInt = x :=
  int32_of_range h

theorem map_toInt_ofInt {xs : List Int} (h : ∀ x ∈ xs, IsInt32 x) :
    (xs.map (BitVec.ofInt 32)).map BitVec.toInt = xs := by
  rw [List.map_map]
  exact (List.map_congr_left (fun x hx => toInt_ofInt (h x hx))).trans
    (List.map_id xs)

/-! ## Copying into a buffer -/

section Blit
variable {α : Type}

/-- `memcpy (dst + off, src, |src|)`. -/
def blit (dst src : List α) (off : Nat) : List α :=
  dst.take off ++ src ++ dst.drop (off + src.length)

theorem length_blit {dst src : List α} {off : Nat}
    (h : off + src.length ≤ dst.length) :
    (blit dst src off).length = dst.length := by
  simp only [blit, List.length_append, List.length_take, List.length_drop]
  omega

theorem getElem?_blit {dst src : List α} {off : Nat}
    (h : off + src.length ≤ dst.length) (k : Nat) : (blit dst src off)[k]? =
      if off ≤ k ∧ k < off + src.length then src[k - off]? else dst[k]? := by
  have htake : (dst.take off).length = off := by rw [List.length_take]; omega
  simp only [blit, List.getElem?_append, List.length_append, htake,
    List.getElem?_take,
    List.getElem?_drop]
  grind

theorem blit_nil (dst : List α) (off : Nat) : blit dst [] off = dst := by
  simp only [blit, List.append_nil, List.length_nil, Nat.add_zero,
    List.take_append_drop]

theorem blit_zero {dst src : List α} (h : src.length = dst.length) :
    blit dst src 0 = src := by
  simp only [blit, List.take_zero, List.nil_append, Nat.zero_add, h,
    List.drop_length,
    List.append_nil]

/-- Two copies side by side are one. -/
theorem blit_blit {dst a b : List α} {off : Nat} (h : off ≤ dst.length) :
    blit (blit dst a off) b (off + a.length) = blit dst (a ++ b) off := by
  have hfront : (dst.take off ++ a).length = off + a.length := by
    rw [List.length_append, List.length_take, Nat.min_eq_left h]
  have htake : (blit dst a off).take (off + a.length) = dst.take off ++ a := by
    rw [blit, ← hfront, List.take_left]
  have hdrop : (blit dst a off).drop (off + a.length + b.length) =
      dst.drop (off + (a ++ b).length) := by
    rw [← List.drop_drop, blit]
    conv_lhs => rw [← hfront, List.drop_left, List.drop_drop]
    rw [hfront, List.length_append, Nat.add_assoc]
  rw [blit, htake, hdrop, blit, List.append_assoc (dst.take off)]

end Blit

/-! ## A buffer cut into blocks of one size -/

section Blocks
variable {α β : Type} {n : Nat} {f : α → List β}

theorem length_blocks (hf : ∀ a, (f a).length = n) (l : List α) :
    (l.flatMap f).length = l.length * n := by
  induction l with
  | nil => simp
  | cons a l ih => rw [List.flatMap_cons, List.length_append, ih, hf,
        List.length_cons, Nat.succ_mul,
      Nat.add_comm]

theorem drop_blocks (hf : ∀ a, (f a).length = n) :
    ∀ (i : Nat) (l : List α), (l.flatMap f).drop (i * n) = (l.drop i).flatMap f
  | 0, l => by simp
  | i + 1, [] => by simp
  | i + 1, a :: l => by
      have hle : (f a).length ≤ (i + 1) * n := by rw [hf, Nat.succ_mul]; omega
      have hsub : (i + 1) * n - n = i * n := by rw [Nat.succ_mul]; omega
      rw [List.flatMap_cons, List.drop_append, List.drop_eq_nil_of_le hle,
        List.nil_append, hf, hsub,
        drop_blocks hf i l, List.drop_succ_cons]

theorem take_blocks (hf : ∀ a, (f a).length = n) :
    ∀ (i : Nat) (l : List α), (l.flatMap f).take (i * n) = (l.take i).flatMap f
  | 0, l => by simp
  | i + 1, [] => by simp
  | i + 1, a :: l => by
      have hle : (f a).length ≤ (i + 1) * n := by rw [hf, Nat.succ_mul]; omega
      have hsub : (i + 1) * n - n = i * n := by rw [Nat.succ_mul]; omega
      rw [List.flatMap_cons, List.take_append,
        List.take_of_length_le hle, hf, hsub,
        take_blocks hf i l, List.take_succ_cons, List.flatMap_cons]

/-- Rewriting the blocks `i`, …, `i + m - 1` is copying their new contents
in. -/
theorem flatMap_blit (hf : ∀ a, (f a).length = n) {f' : α → List β}
    {l : List α} {i m : Nat} {buf : List β} (hpre : ∀ a ∈ l.take i, f' a = f a)
    (hmid : ((l.drop i).take m).flatMap f' = buf) (hbuf : buf.length = m * n)
    (hpost : ∀ a ∈ l.drop (i + m), f' a = f a) :
    l.flatMap f' = blit (l.flatMap f) buf (i * n) := by
  have hsplit : l = l.take i ++ (l.drop i).take m ++ l.drop (i + m) := by
    rw [List.append_assoc, ← List.drop_drop, List.take_append_drop,
      List.take_append_drop]
  have hcongr : ∀ l' : List α, (∀ a ∈ l', f' a = f a) →
      l'.flatMap f' = l'.flatMap f :=
    fun l' h => by
      rw [List.flatMap_def, List.flatMap_def, List.map_congr_left h]
  calc l.flatMap f'
      = (l.take i).flatMap f' ++ ((l.drop i).take m).flatMap f' ++
          (l.drop (i + m)).flatMap f' := by
        rw [← List.flatMap_append, ← List.flatMap_append, ← hsplit]
    _ = (l.take i).flatMap f ++ buf ++ (l.drop (i + m)).flatMap f := by
        rw [hmid, hcongr _ hpre, hcongr _ hpost]
    _ = blit (l.flatMap f) buf (i * n) := by
        rw [blit, hbuf, ← Nat.add_mul, take_blocks hf, drop_blocks hf]

end Blocks

end Bytes
