/-
# `MP2.Unaligned` — words at any address

A word that starts at no multiple of four is in two words of memory.  A program
reads it with two instructions, each of which merges a part of a word of memory
with what the other left:

    LWL rt, 3(rs)     the bytes from the start of the second word
    LWR rt, 0(rs)     the bytes up to the end of the first

LWR has to see the value LWL has loaded, which is still in `LoadValueReg`.  SWL
and SWR write such a word, each over a word that it reads first.

## The four lemmas for one instruction

`mergeLeft_eq`, `mergeRight_eq`, `storeLeft_eq` and `storeRight_eq` say byte by
byte what the `switch` over the offset makes of two words.  The machine is
little endian; the four bytes of a word are those of `wordOf`.

`unaligned_load` then puts the two loads together: the second one finds the
first half in `LoadValueReg`, and after it the register gets all four bytes.
`unaligned_store` needs that no load to `rt` is pending (`Settled`), for
otherwise the two stores would store parts of different values.
-/
import Mathlib.Data.List.Perm.Subperm
import EroikoBlue.MP2.Arithmetic

namespace EroikoBlue.MP2

open Bytes (Byte Word wordBytes byteWord wordBytes_byteWord byteWord_extract)
open ExceptionType OpCode Register Machine

/-! ## Parts of words -/

/-- The word of four bytes. -/
def wordOf (f : Nat → Byte) : Word := byteWord (f 0) (f 1) (f 2) (f 3)

section
variable {a b c d a' b' c' d' : Byte} {f g : Nat → Byte} {i k : Nat}

theorem getLsbD_byteWord : (byteWord a b c d).getLsbD i =
    if i < 8 then a.getLsbD i else if i < 16 then b.getLsbD (i - 8)
      else if i < 24 then c.getLsbD (i - 16)
    else d.getLsbD (i - 24) := by
  simp only [byteWord, BitVec.getLsbD_append]
  grind

theorem byteWord_and : byteWord a b c d &&& byteWord a' b' c' d' =
    byteWord (a &&& a') (b &&& b') (c &&& c') (d &&& d') := by
  apply BitVec.eq_of_getLsbD_eq
  intro i hi
  rw [BitVec.getLsbD_and, getLsbD_byteWord, getLsbD_byteWord, getLsbD_byteWord]
  simp only [BitVec.getLsbD_and]
  grind

theorem byteWord_or : byteWord a b c d ||| byteWord a' b' c' d' =
    byteWord (a ||| a') (b ||| b') (c ||| c') (d ||| d') := by
  apply BitVec.eq_of_getLsbD_eq
  intro i hi
  rw [BitVec.getLsbD_or, getLsbD_byteWord, getLsbD_byteWord, getLsbD_byteWord]
  simp only [BitVec.getLsbD_or]
  grind

theorem getLsbD_byte_zero : (0 : Byte).getLsbD i = false := BitVec.getLsbD_zero

theorem byteWord_shiftLeft : byteWord a b c d <<< 8 = byteWord 0 a b c := by
  apply BitVec.eq_of_getLsbD_eq
  intro i hi
  rw [BitVec.getLsbD_shiftLeft, getLsbD_byteWord, getLsbD_byteWord,
    getLsbD_byte_zero]
  grind

theorem byteWord_ushiftRight : byteWord a b c d >>> 8 = byteWord b c d 0 := by
  apply BitVec.eq_of_getLsbD_eq
  intro i hi
  rw [BitVec.getLsbD_ushiftRight, getLsbD_byteWord, getLsbD_byteWord,
    getLsbD_byte_zero]
  grind

/-- The sign that is shifted in is masked out. -/
theorem sshiftRight_and (w : Word) (n : Nat) :
    w.sshiftRight n &&& BitVec.allOnes 32 >>> n = w >>> n := by
  apply BitVec.eq_of_getLsbD_eq
  intro i hi
  rw [BitVec.getLsbD_and, BitVec.getLsbD_sshiftRight,
    BitVec.getLsbD_ushiftRight, BitVec.getLsbD_ushiftRight,
    BitVec.getLsbD_allOnes]
  grind

theorem sshiftRight_8 : (byteWord a b c d).sshiftRight 8 &&& 0xffffff =
    byteWord b c d 0 := by
  rw [show (0xffffff : Word) = BitVec.allOnes 32 >>> 8 by decide,
    sshiftRight_and, byteWord_ushiftRight]

theorem sshiftRight_16 : (byteWord a b c d).sshiftRight 16 &&& 0xffff =
    byteWord c d 0 0 := by
  rw [show (0xffff : Word) = BitVec.allOnes 32 >>> 16 by decide,
    sshiftRight_and, show 16 = 8 + 8 from rfl,
    BitVec.shiftRight_add, byteWord_ushiftRight, byteWord_ushiftRight]

theorem sshiftRight_24 : (byteWord a b c d).sshiftRight 24 &&& 0xff =
    byteWord d 0 0 0 := by
  rw [show (0xff : Word) = BitVec.allOnes 32 >>> 24 by decide, sshiftRight_and,
    show 24 = 8 + 8 + 8 from rfl,
    BitVec.shiftRight_add, BitVec.shiftRight_add, byteWord_ushiftRight,
      byteWord_ushiftRight, byteWord_ushiftRight]

theorem shiftLeft_16 : byteWord a b c d <<< 16 = byteWord 0 0 a b := by
  rw [show 16 = 8 + 8 from rfl, BitVec.shiftLeft_add, byteWord_shiftLeft,
    byteWord_shiftLeft]

theorem shiftLeft_24 : byteWord a b c d <<< 24 = byteWord 0 0 0 a := by
  rw [show 24 = 8 + 8 + 8 from rfl, BitVec.shiftLeft_add, BitVec.shiftLeft_add,
    byteWord_shiftLeft,
    byteWord_shiftLeft, byteWord_shiftLeft]

theorem keep_or {b₀ b₁ b₂ b₃ m₀ m₁ m₂ m₃ : Byte} :
    byteWord a b c d &&& byteWord m₀ m₁ m₂ m₃ ||| byteWord b₀ b₁ b₂ b₃ =
    byteWord (a &&& m₀ ||| b₀) (b &&& m₁ ||| b₁) (c &&& m₂ ||| b₂)
      (d &&& m₃ ||| b₃) := by
  rw [byteWord_and, byteWord_or]

theorem byte_and_ones (b : Byte) : b &&& 0xff = b := BitVec.and_allOnes

theorem byte_and_zero (b : Byte) : b &&& 0 = 0 := BitVec.and_zero

theorem byte_or_zero (b : Byte) : b ||| 0 = b := BitVec.or_zero

theorem byte_zero_or (b : Byte) : 0 ||| b = b := BitVec.zero_or

theorem offset_cases (hk : k < 4) : k = 0 ∨ k = 1 ∨ k = 2 ∨ k = 3 := by omega

theorem mergeLeft_eq (hk : k < 4) :
    Instruction.mergeLeft (BitVec.ofNat 32 k) (wordOf f) (wordOf g) =
    wordOf fun i => if i + k < 3 then g i else f (i + k - 3) := by
  rcases offset_cases hk with rfl | rfl | rfl | rfl
  · show wordOf g &&& byteWord 0xff 0xff 0xff 0 ||| wordOf f <<< 24 = _
    rw [wordOf, wordOf, shiftLeft_24, keep_or]
    simp only [byte_and_ones, byte_and_zero, byte_or_zero, byte_zero_or]
    rfl
  · show wordOf g &&& byteWord 0xff 0xff 0 0 ||| wordOf f <<< 16 = _
    rw [wordOf, wordOf, shiftLeft_16, keep_or]
    simp only [byte_and_ones, byte_and_zero, byte_or_zero, byte_zero_or]
    rfl
  · show wordOf g &&& byteWord 0xff 0 0 0 ||| wordOf f <<< 8 = _
    rw [wordOf, wordOf, byteWord_shiftLeft, keep_or]
    simp only [byte_and_ones, byte_and_zero, byte_or_zero, byte_zero_or]
    rfl
  · rfl

theorem mergeRight_eq (hk : k < 4) :
    Instruction.mergeRight (BitVec.ofNat 32 k) (wordOf f) (wordOf g) =
    wordOf fun i => if i + k < 4 then f (i + k) else g i := by
  rcases offset_cases hk with rfl | rfl | rfl | rfl
  · rfl
  · show wordOf g &&& byteWord 0 0 0 0xff ||| (wordOf f).sshiftRight
      8 &&& 0xffffff = _
    rw [wordOf, wordOf, sshiftRight_8, keep_or]
    simp only [byte_and_ones, byte_and_zero, byte_or_zero, byte_zero_or]
    rfl
  · show wordOf g &&& byteWord 0 0 0xff 0xff ||| (wordOf f).sshiftRight
      16 &&& 0xffff = _
    rw [wordOf, wordOf, sshiftRight_16, keep_or]
    simp only [byte_and_ones, byte_and_zero, byte_or_zero, byte_zero_or]
    rfl
  · show wordOf g &&& byteWord 0 0xff 0xff 0xff ||| (wordOf f).sshiftRight
      24 &&& 0xff = _
    rw [wordOf, wordOf, sshiftRight_24, keep_or]
    simp only [byte_and_ones, byte_and_zero, byte_or_zero, byte_zero_or]
    rfl

theorem storeLeft_eq (hk : k < 4) :
    Instruction.storeLeft (BitVec.ofNat 32 k) (wordOf f) (wordOf g) =
    wordOf fun i => if i ≤ k then g (i + 3 - k) else f i := by
  rcases offset_cases hk with rfl | rfl | rfl | rfl
  · show wordOf f &&& byteWord 0 0xff 0xff 0xff ||| (wordOf g).sshiftRight
      24 &&& 0xff = _
    rw [wordOf, wordOf, sshiftRight_24, keep_or]
    simp only [byte_and_ones, byte_and_zero, byte_or_zero, byte_zero_or]
    rfl
  · show wordOf f &&& byteWord 0 0 0xff 0xff ||| (wordOf g).sshiftRight
      16 &&& 0xffff = _
    rw [wordOf, wordOf, sshiftRight_16, keep_or]
    simp only [byte_and_ones, byte_and_zero, byte_or_zero, byte_zero_or]
    rfl
  · show wordOf f &&& byteWord 0 0 0 0xff ||| (wordOf g).sshiftRight
      8 &&& 0xffffff = _
    rw [wordOf, wordOf, sshiftRight_8, keep_or]
    simp only [byte_and_ones, byte_and_zero, byte_or_zero, byte_zero_or]
    rfl
  · rfl

theorem storeRight_eq (hk : k < 4) :
    Instruction.storeRight (BitVec.ofNat 32 k) (wordOf f) (wordOf g) =
    wordOf fun i => if k ≤ i then g (i - k) else f i := by
  rcases offset_cases hk with rfl | rfl | rfl | rfl
  · rfl
  · show wordOf f &&& byteWord 0xff 0 0 0 ||| wordOf g <<< 8 = _
    rw [wordOf, wordOf, byteWord_shiftLeft, keep_or]
    simp only [byte_and_ones, byte_and_zero, byte_or_zero, byte_zero_or]
    rfl
  · show wordOf f &&& byteWord 0xff 0xff 0 0 ||| wordOf g <<< 16 = _
    rw [wordOf, wordOf, shiftLeft_16, keep_or]
    simp only [byte_and_ones, byte_and_zero, byte_or_zero, byte_zero_or]
    rfl
  · show wordOf f &&& byteWord 0xff 0xff 0xff 0 ||| wordOf g <<< 24 = _
    rw [wordOf, wordOf, shiftLeft_24, keep_or]
    simp only [byte_and_ones, byte_and_zero, byte_or_zero, byte_zero_or]
    rfl

end

/-! ## One instruction -/

/-- The instruction at `PCReg` is `op rt, addr`, and it runs to its end. -/
structure Completes (m : Machine) (op : OpCode) (rt : BitVec 5) (addr : Word)
    (m' : Machine) : Prop where
  ready : m.Ready
  opCode : m.instruction.opCode = op
  rt : m.instruction.rt = rt
  address : m.registers (general m.instruction.rs) + m.instruction.extra = addr
  ends : oneInstruction m = .ok () m'

/-- What `LWL` and `LWR` merge into. -/
def Machine.pending (m : Machine) (rt : BitVec 5) : Word :=
  if m.registers LoadReg = rt.setWidth 32 then m.registers LoadValueReg
    else m.registers (general rt)

section
variable {m m' : Machine} {op : OpCode} {rt : BitVec 5} {addr : Word}
  {i : Instruction}
  {merge : Word → Word → Word → Word}

theorem word_eq (w : View) (v : Nat) : w.word v 4 = wordOf fun i =>
    w.byte (v + i) := rfl

theorem view_byte_some {v : Nat} (hv : v < m.pageTableSize * PageSize) :
    m.view.bytes v = some (m.view.byte v) := by
  rw [View.byte, show m.view.bytes v = _ from if_pos hv]
  rfl

theorem toNat_and_three (w : Word) : (w &&& 3).toNat = w.toNat % 4 := by
  rw [BitVec.toNat_and]
  exact Nat.and_two_pow_sub_one_eq_mod _ 2

theorem offset_eq (w : Word) : w &&& 3 = BitVec.ofNat 32 (w.toNat % 4) := by
  apply BitVec.eq_of_toNat_eq
  rw [toNat_and_three, BitVec.toNat_ofNat]
  omega

theorem toNat_sub_offset (w : Word) :
    (w - (w &&& 3)).toNat = w.toNat - w.toNat % 4 := by
  rw [BitVec.toNat_sub, toNat_and_three]
  omega

theorem Completes.fetched (h : Completes m op rt addr m') :
    m.view.check (m.registers PCReg).toNat 4 false = NoException := by
  by_contra hcheck
  cases (oneInstruction_raised h.ready hcheck).symm.trans h.ends

theorem Completes.executed (h : Completes m op rt addr m') : ∃ next m₁,
    m.instruction.execute (m.touched (m.registers PCReg).toNat false) =
      .ok next m₁ ∧ advance next m₁ = .ok () m' := by
  have hends := h.ends
  rw [oneInstruction_fetched h.ready h.fetched] at hends
  exact Outcome.bind_run_eq_ok.mp hends

theorem Machine.Ready.numPages_le (hm : m.Ready) :
    m.pageTableSize ≤ NumPhysPages := by
  have hsub : m.space.frames ⊆ List.range NumPhysPages :=
    fun frame h => List.mem_range.mpr (hm.placed.frames frame h)
  have hlen := (List.subperm_of_subset hm.placed.nodup hsub).length_le
  rw [AddrSpace.length_frames hm.placed.toMapped, List.length_range] at hlen
  exact hlen

theorem word_le {v : Nat} {writing : Bool}
    (h : m.view.check v 4 writing = NoException) :
    v + 4 ≤ m.pageTableSize * PageSize := by
  obtain ⟨hin, hpage⟩ := AddrSpace.check_ok (by decide) h
  have hin' : v < m.pageTableSize * PageSize := hin
  simp only [PageSize] at *
  omega

theorem loadUnaligned_run {next : Next}
    (hm : m.Ready) (haddr : m.registers (general i.rs) + i.extra = addr)
    (hrun : i.loadUnaligned merge m = .ok next m') :
    m.view.check (addr - (addr &&& 3)).toNat 4 false = NoException ∧
      m' = m.touched (addr - (addr &&& 3)).toNat false ∧
      next.nextLoadReg = i.rt ∧
      next.nextLoadValue = merge (addr &&& 3)
        (m.view.word (addr - (addr &&& 3)).toNat 4) (m.pending i.rt) := by
  have hread := @readMem_eq m (addr - (addr &&& 3)) 4 hm (by decide)
  have haddress : i.address m = .ok addr m := haddr ▸ rfl
  rw [Instruction.loadUnaligned, Outcome.bind_of_ok haddress] at hrun
  split at hread
  · next hcheck =>
      rw [Outcome.bind_of_ok hread] at hrun
      cases hrun
      exact ⟨hcheck, rfl, rfl, rfl⟩
  · rw [Outcome.bind_of_error hread] at hrun
    cases hrun

/-- What a program has after `LWL` or `LWR`. -/
structure Merged (m m' : Machine) (rt : BitVec 5) (addr : Nat)
    (merge : Word → Word → Word → Word) : Prop where
  mapped : addr - addr % 4 + 4 ≤ m.pageTableSize * PageSize
  bytes : m'.view.bytes = m.view.bytes
  register : m'.registers LoadReg = rt.setWidth 32
  value : m'.registers LoadValueReg =
    merge (BitVec.ofNat 32 (addr % 4))
      (wordOf fun i => m.view.byte (addr - addr % 4 + i)) (m.pending rt)

theorem Completes.merged (h : Completes m op rt addr m')
    (hx : m.instruction.execute = m.instruction.loadUnaligned merge) :
    Merged m m' rt addr.toNat merge := by
  obtain ⟨next, m₁, hrun, hadvance⟩ := h.executed
  rw [hx] at hrun
  obtain ⟨hcheck, rfl, hreg, hvalue⟩ :=
    loadUnaligned_run h.ready.touched h.address hrun
  cases (advance_eq h.ready.touched.touched.load next).symm.trans hadvance
  rw [toNat_sub_offset, view_touched, check_touch] at hcheck
  refine ⟨word_le hcheck, ?_, ?_, ?_⟩
  · show ((m.touched _ false).touched _ false).view.bytes = _
    rw [view_touched, view_touched]
    rfl
  · show next.nextLoadReg.setWidth 32 = _
    rw [hreg, h.rt]
  · show next.nextLoadValue = _
    rw [hvalue, toNat_sub_offset, offset_eq, word_eq, h.rt, view_touched]
    rfl

end

/-- No load to `rt` is pending; `$0` is 0, and a load to it is none. -/
def Machine.Settled (m : Machine) (rt : BitVec 5) : Prop :=
  if rt = 0 then m.registers 0 = 0 else m.registers LoadReg ≠ rt.setWidth 32

/-- What a program has after `SWL` or `SWR`. -/
structure Stored (m m' : Machine) (rt : BitVec 5) (addr : Nat)
    (merge : Word → Word → Word → Word) : Prop where
  mapped : addr - addr % 4 + 4 ≤ m.pageTableSize * PageSize
  size : m'.pageTableSize = m.pageTableSize
  value : m.Settled rt → m'.registers (general rt) = m.registers (general rt)
  bytes : m'.view.bytes = (m.view.write (addr - addr % 4)
    (wordBytes (merge (BitVec.ofNat 32 (addr % 4))
    (wordOf fun i => m.view.byte (addr - addr % 4 + i))
      (m.registers (general rt))))).bytes

section
variable {m m' : Machine} {op : OpCode} {rt : BitVec 5} {addr : Word}
  {i : Instruction}
  {merge : Word → Word → Word → Word}

theorem register_eq (r : Register) (m : Machine) :
    register r m = .ok (m.registers r) m := rfl

theorem pcAfter_eq (m : Machine) :
    Instruction.pcAfter m = .ok (m.registers NextPCReg + 4) m := rfl

theorem stepped_general (h : m.Settled rt) (next : Next) :
    stepped m.registers next (general rt) = m.registers (general rt) := by
  have hgeneral : ∀ r : Register, 32 ≤ r.val → general rt ≠ r := by
    rintro _ hr rfl
    exact absurd hr (Nat.not_le.mpr rt.isLt)
  rw [stepped, if_neg (hgeneral NextPCReg (by decide)),
    if_neg (hgeneral PCReg (by decide)),
    if_neg (hgeneral PrevPCReg (by decide)), loaded,
      if_neg (hgeneral LoadValueReg (by decide)),
    if_neg (hgeneral LoadReg (by decide))]
  rw [Machine.Settled] at h
  split at h
  · next hzero =>
      subst hzero
      exact (if_pos rfl).trans h.symm
  · next hzero =>
      have hrt : general rt ≠ 0 := by
        intro heq
        have hval : rt.toNat = 0 := congrArg Fin.val heq
        exact hzero (BitVec.eq_of_toNat_eq hval)
      have hother : (general rt).val ≠ (m.registers LoadReg).toNat := by
        intro heq
        refine h (BitVec.eq_of_toNat_eq ?_)
        rw [BitVec.toNat_setWidth,
          Nat.mod_eq_of_lt (Nat.lt_trans rt.isLt (by decide))]
        exact heq.symm
      rw [if_neg hrt, if_neg hother]

theorem storeUnaligned_run {next : Next}
    (hm : m.Ready) (haddr : m.registers (general i.rs) + i.extra = addr)
    (hrun : i.storeUnaligned merge m = .ok next m') :
    m'.Ready ∧ m'.registers = m.registers ∧
      Stored m m' i.rt addr.toNat merge := by
  have hread := @readMem_eq m (addr - (addr &&& 3)) 4 hm (by decide)
  have haddress : i.address m = .ok addr m := haddr ▸ rfl
  rw [Instruction.storeUnaligned, Outcome.bind_of_ok haddress] at hrun
  split at hread
  · next hcheck =>
      have hwrite := @writeMem_eq (m.touched (addr - (addr &&& 3)).toNat false)
        (addr - (addr &&& 3))
        (merge (addr &&& 3) (m.view.word (addr - (addr &&& 3)).toNat 4)
          (m.registers (general i.rt))) 4 hm.touched
        (by decide)
      rw [Outcome.bind_of_ok hread, Outcome.bind_of_ok (register_eq _ _),
        Outcome.bind_of_ok (pcAfter_eq _)] at hrun
      split at hwrite
      · obtain ⟨mem', hok, hview, _⟩ := hwrite
        rw [toNat_sub_offset] at hcheck
        cases hrun.symm.trans (Outcome.bind_of_ok hok)
        refine ⟨hm.touched.touched.store mem', rfl, word_le hcheck, rfl,
          fun _ => rfl, ?_⟩
        show (((m.touched _ false).space.touch _ true).view mem').bytes = _
        rw [AddrSpace.view_touch, hview, view_touched, toNat_sub_offset,
          offset_eq, word_eq]
        rfl
      · next herror =>
          cases hrun.symm.trans (Outcome.bind_of_error hwrite)
  · rw [Outcome.bind_of_error hread] at hrun
    cases hrun

theorem Completes.stored (h : Completes m op rt addr m')
    (hx : m.instruction.execute = m.instruction.storeUnaligned merge) :
    Stored m m' rt addr.toNat merge := by
  obtain ⟨next, m₁, hrun, hadvance⟩ := h.executed
  rw [hx] at hrun
  obtain ⟨hready, hregisters, hstored⟩ :=
    storeUnaligned_run h.ready.touched h.address hrun
  cases (advance_eq hready.load next).symm.trans hadvance
  refine ⟨hstored.mapped, hstored.size, fun hsettled => ?_, ?_⟩
  · show stepped m₁.registers next (general rt) = _
    rw [hregisters]
    exact stepped_general hsettled next
  show m₁.view.bytes = _
  rw [hstored.bytes, h.rt, view_touched]
  rfl

end

/-! ## Two instructions -/

section
variable {m m₁ m₂ : Machine} {rt : BitVec 5} {a : Word}
  {f : Nat → Byte} {i : Nat}

theorem wordBytes_wordOf (hi : i < 4) :
    (wordBytes (wordOf f))[i]? = some (f i) := by
  rw [wordOf, wordBytes_byteWord]
  rcases offset_cases hi with rfl | rfl | rfl | rfl <;> rfl

theorem eq_wordOf (w : Word) : ∃ g, w = wordOf g :=
  ⟨fun i => w.extractLsb' (8 * i) 8, (byteWord_extract w).symm⟩

/-- The last byte of a word that can be loaded has no smaller address than the
first. -/
theorem toNat_add_three (hm : m.Ready)
    (hmapped : a.toNat - a.toNat % 4 + 4 ≤ m.pageTableSize * PageSize) :
    (a + 3).toNat = a.toNat + 3 := by
  have hle := hm.numPages_le
  simp only [PageSize, NumPhysPages] at *
  rw [BitVec.toNat_add]
  show (a.toNat + 3) % 2 ^ 32 = _
  omega

theorem write_wordOf {w : View} {v u : Nat} :
    (w.write v (wordBytes (wordOf f))).bytes u =
    if v ≤ u ∧ u < v + 4 then some (f (u - v)) else w.bytes u := by
  rw [View.write]
  dsimp only
  rw [show (wordBytes (wordOf f)).length = 4 from rfl]
  split
  · next h => exact wordBytes_wordOf (by omega)
  · rfl

theorem execute_lwl (h : m.instruction.opCode = OP_LWL) :
    m.instruction.execute =
      m.instruction.loadUnaligned Instruction.mergeLeft := by
  unfold Instruction.execute
  rw [h]

theorem execute_lwr (h : m.instruction.opCode = OP_LWR) :
    m.instruction.execute =
      m.instruction.loadUnaligned Instruction.mergeRight := by
  unfold Instruction.execute
  rw [h]

/-- `LWL rt, 3(rs)` and `LWR rt, 0(rs)` load the word at any address. -/
theorem unaligned_load (h : Completes m OP_LWL rt (a + 3) m₁)
    (h' : Completes m₁ OP_LWR rt a m₂) :
    m₂.registers LoadReg = rt.setWidth 32 ∧ m₂.view.bytes = m.view.bytes ∧
      ∀ i < 4, (wordBytes (m₂.registers LoadValueReg))[i]? =
        m.view.bytes (a.toNat + i) := by
  have hleft := h.merged (execute_lwl h.opCode)
  have hright := h'.merged (execute_lwr h'.opCode)
  have hadd := toNat_add_three h'.ready hright.mapped
  have hbytes : ∀ v, m₁.view.byte v = m.view.byte v := by
    intro v
    rw [View.byte, View.byte, hleft.bytes]
  obtain ⟨g, hg⟩ := eq_wordOf (m.pending rt)
  refine ⟨hright.register, hright.bytes.trans hleft.bytes, fun i hi => ?_⟩
  have hmapped := hleft.mapped
  have hpending : m₁.pending rt = m₁.registers LoadValueReg :=
    if_pos hleft.register
  rw [hadd] at hmapped
  rw [hright.value, hpending, hleft.value, hg,
    mergeLeft_eq (Nat.mod_lt _ (by decide)),
    mergeRight_eq (Nat.mod_lt _ (by decide)), wordBytes_wordOf hi,
      view_byte_some (by omega), hadd]
  refine congrArg some ?_
  split
  · next hlow =>
      rw [hbytes]
      exact congrArg m.view.byte (by omega)
  · next hhigh =>
      rw [if_neg (by omega)]
      exact congrArg m.view.byte (by omega)

theorem execute_swl (h : m.instruction.opCode = OP_SWL) :
    m.instruction.execute =
      m.instruction.storeUnaligned Instruction.storeLeft := by
  unfold Instruction.execute
  rw [h]

theorem execute_swr (h : m.instruction.opCode = OP_SWR) :
    m.instruction.execute =
      m.instruction.storeUnaligned Instruction.storeRight := by
  unfold Instruction.execute
  rw [h]

/-- `SWL` writes the bytes from the start of the word up to the address. -/
theorem Stored.left {addr u : Nat}
    (h : Stored m m₁ rt addr Instruction.storeLeft)
    (hg : m.registers (general rt) = wordOf f) : m₁.view.bytes u =
      if addr - addr % 4 ≤ u ∧ u ≤ addr then some (f (u + 3 - addr))
        else m.view.bytes u := by
  have hmapped := h.mapped
  rw [h.bytes, hg, storeLeft_eq (Nat.mod_lt _ (by decide)), write_wordOf]
  split
  · next hin =>
      split
      · next hle =>
          rw [if_pos ⟨hin.1, by omega⟩]
          exact congrArg (fun i => some (f i)) (by omega)
      · next hlt =>
          rw [if_neg (by omega),
            view_byte_some (show u < m.pageTableSize * PageSize by omega)]
          exact congrArg (fun i => some (m.view.byte i)) (by omega)
  · rw [if_neg (by omega)]

/-- `SWR` writes the bytes from the address up to the end of the word. -/
theorem Stored.right {addr u : Nat}
    (h : Stored m m₁ rt addr Instruction.storeRight)
    (hg : m.registers (general rt) = wordOf f) : m₁.view.bytes u =
      if addr ≤ u ∧ u < addr - addr % 4 + 4 then some (f (u - addr))
        else m.view.bytes u := by
  have hmapped := h.mapped
  rw [h.bytes, hg, storeRight_eq (Nat.mod_lt _ (by decide)), write_wordOf]
  split
  · next hin =>
      split
      · next hle =>
          rw [if_pos (by omega)]
          exact congrArg (fun i => some (f i)) (by omega)
      · next hlt =>
          rw [if_neg (by omega),
            view_byte_some (show u < m.pageTableSize * PageSize by omega)]
          exact congrArg (fun i => some (m.view.byte i)) (by omega)
  · rw [if_neg (by omega)]

/-- `SWL rt, 3(rs)` and `SWR rt, 0(rs)` store a word at any address, and nothing
else. -/
theorem unaligned_store (h : Completes m OP_SWL rt (a + 3) m₁)
    (h' : Completes m₁ OP_SWR rt a m₂) (hsettled : m.Settled rt) :
    m₂.view.bytes =
      (m.view.write a.toNat (wordBytes (m.registers (general rt)))).bytes := by
  have hleft := h.stored (execute_swl h.opCode)
  have hright := h'.stored (execute_swr h'.opCode)
  obtain ⟨g, hg⟩ := eq_wordOf (m.registers (general rt))
  have hadd := toNat_add_three h'.ready hright.mapped
  rw [hadd] at hleft
  funext u
  rw [hright.right ((hleft.value hsettled).trans hg), hleft.left hg, hg,
    write_wordOf]
  split
  · next hhigh => rw [if_pos (by omega)]
  · next hlow =>
      split
      · next hin =>
          rw [if_pos (by omega)]
          exact congrArg (fun i => some (g i)) (by omega)
      · rw [if_neg (by omega)]

end

/-- One page, with two words of code. -/
def twoWords (first second : Word) : Machine where
  registers := (onePage first).registers
  mainMemory := fun x => (wordBytes first ++ wordBytes second)[x]?.getD 0
  pageTable := (onePage first).pageTable
  pageTableSize := (onePage first).pageTableSize

theorem twoWords_ready (first second : Word) : (twoWords first second).Ready :=
  ⟨(onePage_ready first).placed, (onePage_ready first).load⟩

/-- `LWL $1, 6($0)` and `LWR $1, 3($0)`: the word at address 3. -/
theorem twoWords_load :
    ∃ m₁ m₂, oneInstruction (twoWords 0x88010006 0x98010003) = .ok () m₁ ∧
    oneInstruction m₁ = .ok () m₂ ∧ m₂.registers LoadReg = 1 ∧
      m₂.view.bytes = (twoWords 0x88010006 0x98010003).view.bytes ∧
      ∀ i < 4, (wordBytes (m₂.registers LoadValueReg))[i]? =
        (twoWords 0x88010006 0x98010003).view.bytes (3 + i) := by
  have hready := (confined_oneInstruction.stays
    _ (twoWords_ready 0x88010006 0x98010003)).ready
  refine ⟨_, _, rfl, rfl, @unaligned_load _ _ _ 1 3 ⟨twoWords_ready _ _, rfl,
    rfl, rfl, rfl⟩ ⟨hready, rfl, rfl, rfl, rfl⟩⟩

/-- `SWL $2, 12($0)` and `SWR $2, 9($0)`: -7, at address 9. -/
theorem twoWords_store :
    ∃ m₁ m₂, oneInstruction (twoWords 0xa802000c 0xb8020009) = .ok () m₁ ∧
    oneInstruction m₁ = .ok () m₂ ∧
      m₂.view.bytes = ((twoWords 0xa802000c 0xb8020009).view.write 9
        (wordBytes 0xfffffff9)).bytes := by
  have hready := (confined_oneInstruction.stays
    _ (twoWords_ready 0xa802000c 0xb8020009)).ready
  have hsettled : (twoWords 0xa802000c 0xb8020009).Settled 2 :=
    show (0 : Word) ≠ 2 by decide
  exact ⟨_, _, rfl, rfl, @unaligned_store _ _ _ 2 9 ⟨twoWords_ready _ _, rfl,
    rfl, rfl, rfl⟩
    ⟨hready, rfl, rfl, rfl, rfl⟩ hsettled⟩

end EroikoBlue.MP2
