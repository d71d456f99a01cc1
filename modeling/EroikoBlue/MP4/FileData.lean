/-
# `MP4.FileData` — an open file is an array of bytes

Over the header tree `t` of a file, the disk holds `t.content d`: the bytes of
the data sectors in file order, cut at the length of the file.  The two
transfers of `MP4.OpenFile` are a slice of it and a `blit` into it:

    readAt_eq     ReadAt  =  (content.drop position).take numBytes
    writeAt_eq    WriteAt =  content ↦ blit content (src.take count) position

for every alignment of both ends, and `WriteAt` touches no sector outside the
data sectors of the file.  When the length is a multiple of the sector size, as
for the free map and every directory, writing the content back as it is does not
change the disk at all (`eq_of_content`).
-/
import EroikoBlue.MP4.HdrWalk
import EroikoBlue.MP4.OpenFile

namespace EroikoBlue.MP4

open Bytes

namespace HdrTree

/-- The bytes of the data sectors, in file order. -/
def data (d : Disk) (t : HdrTree) : List Byte :=
  t.leaves.flatMap fun s => (d s).bytes

/-- The bytes of the file. -/
def content (d : Disk) (t : HdrTree) : List Byte := (t.data d).take t.bytes

theorem length_data (d : Disk) (t : HdrTree) :
    (t.data d).length = t.leaves.length * SectorSize :=
  length_blocks (fun s => (d s).length_bytes) t.leaves

/-- Distinct sectors of the disk are no more than it has. -/
theorem Backed.count {t : HdrTree} (h : t.Backed) :
    t.leaves.length ≤ NumSectors := by
  have hsub : t.leaves ⊆ List.range NumSectors :=
    fun s hs => List.mem_range.mpr (h.leaf_lt s hs)
  exact (h.leaves_nodup.subperm hsub).length_le.trans_eq List.length_range

theorem length_content {t : HdrTree} (h : t.Backed) (d : Disk) :
    (t.content d).length = t.bytes := by
  rw [content, List.length_take, length_data]
  exact Nat.min_eq_left h.bytes_le

theorem Backed.bytes_int32 {t : HdrTree} (h : t.Backed) :
    t.bytes < 2147483648 := by
  have hcount : t.leaves.length ≤ NumSectors := h.count
  have hle := h.bytes_le
  rw [numSectors_eq] at hcount
  simp only [SectorSize] at hle
  omega

theorem content_congr {t : HdrTree} {d d' : Disk}
    (h : ∀ s ∈ t.leaves, d' s = d s) :
    t.content d' = t.content d := by
  rw [content, content, data, data, List.flatMap_def, List.flatMap_def,
    List.map_congr_left fun s hs => by rw [h s hs]]

/-! ## Reading sectors -/

theorem int32_sector {k : Nat} (h : k * SectorSize < 2147483648) :
    int32 ((k : Int) * SectorSize) = (k * SectorSize : Nat) := by
  rw [← Int.natCast_mul]
  exact int32_of_nat h

theorem Backed.sector_int32 {t : HdrTree} (h : t.Backed) {k : Nat}
    (hk : k < t.leaves.length) :
    k * SectorSize < 2147483648 := by
  have hcount : t.leaves.length ≤ NumSectors := h.count
  have hsize : SectorSize = 128 := rfl
  rw [numSectors_eq] at hcount
  rw [hsize]
  omega

theorem readSectors_eq {t : HdrTree} (h : t.Backed) (d : Disk) :
    ∀ {k i : Nat}, i + k ≤ t.leaves.length →
      OpenFile.readSectors t.header d k i =
        .ok (((t.leaves.drop i).take k).flatMap fun s => (d s).bytes)
  | 0, _, _ => by simp [OpenFile.readSectors]
  | k + 1, i, hk => by
      have hi : i < t.leaves.length := by omega
      have hmem := List.getElem_mem hi
      have hget : t.leaves.getD i 0 = t.leaves[i] := by
        rw [List.getD_eq_getElem?_getD, List.getElem?_eq_getElem hi]
        rfl
      have ih := readSectors_eq h d (k := k) (i := i + 1) (by omega)
      rw [OpenFile.readSectors, int32_sector (h.sector_int32 hi),
        byteToSector_eq h hi, hget]
      simp only [Outcome.ok_bind, readSector_eq (h.leaf_lt _ hmem)]
      rw [show ((i : Int) + 1) = ((i + 1 : Nat) : Int) from rfl, ih,
        List.drop_eq_getElem_cons hi,
        List.take_succ_cons, List.flatMap_cons]
      rfl

theorem sectors_slice (t : HdrTree) (d : Disk) (k i : Nat) :
    (((t.leaves.drop i).take k).flatMap fun s => (d s).bytes) =
      ((t.data d).drop (i * SectorSize)).take (k * SectorSize) := by
  have hlen : ∀ s, (d s).bytes.length = SectorSize :=
    fun s => (d s).length_bytes
  rw [data, drop_blocks hlen, take_blocks hlen]

/-! ## `ReadAt` -/

/-- A request inside an `int`, cut at the end of the file. -/
theorem clip_eq {L n p : Nat} (hL : L < 2147483648) (hp : p < L)
    (hsum : p + n < 2147483648) :
    OpenFile.clip L n p = (min n (L - p) : Nat) := by
  have hs : int32 ((p : Int) + n) = (p + n : Nat) :=
    int32_of_nat (n := p + n) hsum
  have hd : int32 ((L : Int) - p) = (L - p : Nat) := by
    rw [← Int.ofNat_sub (Nat.le_of_lt hp)]
    exact int32_of_nat (by omega)
  rw [OpenFile.clip, hs, hd]
  split <;> omega

theorem lastSector_eq {m p : Nat} (hm : 0 < m) (hsum : p + m < 2147483648) :
    OpenFile.lastSector m p = ((p + m - 1) / SectorSize : Nat) := by
  have hs : int32 ((p : Int) + m - 1) = (p + m - 1 : Nat) := by
    rw [show (p : Int) + m - 1 = (p + m - 1 : Nat) by omega]
    exact int32_of_nat (by omega)
  rw [OpenFile.lastSector, hs]
  rfl

theorem slice_slice {l : List Byte} {i k p m : Nat} (hi : i * SectorSize ≤ p)
    (hk : p + m ≤ (i + k) * SectorSize) :
    (((l.drop (i * SectorSize)).take (k * SectorSize)).drop
        (p - i * SectorSize)).take m =
      (l.drop p).take m := by
  rw [List.drop_take, List.take_take, List.drop_drop, Nat.add_sub_cancel' hi]
  congr 1
  rw [Nat.add_mul] at hk
  omega

theorem newBuffer_eq (k : Nat) (h : k * SectorSize < 2147483648) :
    OpenFile.newBuffer (int32 ((k : Int) * SectorSize)) =
      .ok (List.replicate (k * SectorSize) 0) := by
  rw [int32_sector h, OpenFile.newBuffer, if_neg (by omega)]
  rfl

theorem copyFrom_eq {buf : List Byte} {off n : Nat} (h : off + n ≤ buf.length) :
    OpenFile.copyFrom buf off n = .ok ((buf.drop off).take n) := by
  rw [OpenFile.copyFrom, if_pos (by omega)]
  rfl

/-- The sectors of a request that is not empty and ends inside the file. -/
structure Request (t : HdrTree) (m p : Nat) where
  pos : 0 < m
  end_le : p + m ≤ t.bytes

namespace Request
variable {t : HdrTree} {m p : Nat}

/-- The number of sectors of the request. -/
def count (_ : Request t m p) : Nat :=
  (p + m - 1) / SectorSize + 1 - p / SectorSize

theorem numSectors (r : Request t m p) (h : t.Backed) :
    1 + OpenFile.lastSector m p - ((p : Int).tdiv SectorSize) = r.count := by
  have hL := h.bytes_int32
  have hend := r.end_le
  have hdiv : (p : Int).tdiv SectorSize = (p / SectorSize : Nat) := rfl
  have hle : p / SectorSize ≤ (p + m - 1) / SectorSize :=
    Nat.div_le_div_right (by have := r.pos; omega)
  rw [lastSector_eq r.pos (by omega), hdiv, count]
  omega

/-- Its sectors are sectors of the file, and they cover it. -/
theorem covers (r : Request t m p) (h : t.Backed) :
    p / SectorSize + r.count ≤ t.leaves.length ∧
      p / SectorSize * SectorSize ≤ p ∧
      p + m ≤ (p / SectorSize + r.count) * SectorSize := by
  have hle := h.bytes_le
  have hend := r.end_le
  have hpos := r.pos
  simp only [count, SectorSize] at *
  omega

theorem count_int32 (r : Request t m p) (h : t.Backed) :
    r.count * SectorSize < 2147483648 := by
  have hcov : r.count ≤ t.leaves.length :=
    Nat.le_trans (Nat.le_add_left _ _) (r.covers h).1
  have hcount : t.leaves.length ≤ NumSectors := h.count
  have hsize : SectorSize = 128 := rfl
  rw [numSectors_eq] at hcount
  rw [hsize]
  omega

end Request

theorem readAt_eq {t : HdrTree} (h : t.Backed)
    {file : OpenFile} (hfile : file.hdr = t.header) (d : Disk) {n p : Nat}
    (hsum : p + n < 2147483648) :
    file.readAt d n p = .ok (((t.content d).drop p).take n) := by
  have hlen : file.hdr.fileLength = t.bytes := by rw [hfile]; rfl
  have hL := h.bytes_int32
  rw [OpenFile.readAt, hlen]
  by_cases hnone : (n : Int) ≤ 0 ∨ (p : Int) ≥ t.bytes
  · rw [if_pos hnone]
    rcases hnone with hn | hp
    · obtain rfl : n = 0 := by omega
      simp
    · rw [List.drop_eq_nil_of_le (by rw [length_content h]; omega)]
      simp
  · rw [if_neg hnone]
    have r : Request t (min n (t.bytes - p)) p := ⟨by omega, by omega⟩
    obtain ⟨hin, hlo, hhi⟩ := r.covers h
    have hdiv : (p : Int).tdiv SectorSize = (p / SectorSize : Nat) := rfl
    have hoff : (p : Int) - (p / SectorSize : Nat) * SectorSize =
        (p - p / SectorSize * SectorSize : Nat) := by
      rw [← Int.natCast_mul]
      omega
    simp only [clip_eq hL (by omega) hsum, r.numSectors h,
      newBuffer_eq _ (r.count_int32 h),
      Outcome.ok_bind, Int.toNat_natCast]
    rw [hdiv, hfile, readSectors_eq h d hin, Outcome.ok_bind, sectors_slice,
      hoff, copyFrom_eq,
      slice_slice hlo hhi]
    · -- the request is cut once by the code and once by the end of the content
      rw [content, List.drop_take, List.take_take]
    · rw [List.length_take, List.length_drop, length_data]
      rw [Nat.add_mul] at hhi
      have := Nat.mul_le_mul_right SectorSize hin
      rw [Nat.add_mul] at this
      omega

/-! ## `WriteAt` -/

/-- The buffer of `WriteAt` over a file of content `c`, with its two partial
sectors. -/
def overlay (c src : List Byte) (p m first last : Nat) : List Byte :=
  let zeros := List.replicate ((last + 1 - first) * SectorSize) 0
  let head := if p = first * SectorSize then zeros
    else blit zeros ((c.drop (first * SectorSize)).take SectorSize) 0
  let tail := if p + m ≠ (last + 1) * SectorSize ∧
    (first ≠ last ∨ p = first * SectorSize)
    then blit head ((c.drop (last * SectorSize)).take SectorSize)
      ((last - first) * SectorSize)
    else head
  blit tail (src.take m) (p - first * SectorSize)

/-- Where a request starts and ends, in sectors. -/
structure Spans (p m first last : Nat) : Prop where
  le : first ≤ last
  start : first * SectorSize ≤ p ∧ p < (first + 1) * SectorSize
  stop : last * SectorSize < p + m ∧ p + m ≤ (last + 1) * SectorSize

section Overlay
variable {c src : List Byte} {p m first last : Nat}

theorem length_head (hs : Spans p m first last) {b : List Byte}
    (hb : b.length = (last + 1 - first) * SectorSize) :
    (blit b ((c.drop (first * SectorSize)).take SectorSize) 0).length =
      b.length := by
  have hle := hs.le
  refine length_blit ?_
  simp only [List.length_take, SectorSize] at *
  omega

theorem length_tail (hs : Spans p m first last) {b : List Byte}
    (hb : b.length = (last + 1 - first) * SectorSize) :
    (blit b ((c.drop (last * SectorSize)).take SectorSize)
        ((last - first) * SectorSize)).length =
      b.length := by
  have hle := hs.le
  refine length_blit ?_
  simp only [List.length_take, SectorSize] at *
  omega

/-- The two intermediate buffers, byte by byte: after the first is read, the
head of the request is right; after the second, so is everything outside it. -/
theorem getElem?_old (hs : Spans p m first last) {zeros head tail : List Byte}
    (hz : zeros.length = (last + 1 - first) * SectorSize)
    (hhead : head = if p = first * SectorSize then zeros
      else blit zeros ((c.drop (first * SectorSize)).take SectorSize) 0)
    (htail : tail = if p + m ≠ (last + 1) * SectorSize ∧
      (first ≠ last ∨ p = first * SectorSize)
      then blit head ((c.drop (last * SectorSize)).take SectorSize)
        ((last - first) * SectorSize)
      else head) :
    tail.length = zeros.length ∧ ∀ j, j < zeros.length →
      first * SectorSize + j < c.length →
      ¬ (p ≤ first * SectorSize + j ∧ first * SectorSize + j < p + m) →
      tail[j]? = (c)[first * SectorSize + j]? := by
  have hle := hs.le
  have hstart := hs.start
  have hstop := hs.stop
  have hlen : head.length = zeros.length := by
    rw [hhead]
    split
    · rfl
    · exact length_head hs hz
  have hfirst : ∀ j, p ≠ first * SectorSize → j < SectorSize →
      first * SectorSize + j < c.length →
      head[j]? = (c)[first * SectorSize + j]? := by
    intro j hp hj hc
    rw [hhead, if_neg hp, getElem?_blit, if_pos, Nat.sub_zero,
      List.getElem?_take_of_lt hj,
      List.getElem?_drop]
    · simp only [List.length_take, List.length_drop, SectorSize] at *
      omega
    · simp only [List.length_take, SectorSize] at *
      omega
  by_cases hcond : p + m ≠ (last + 1) * SectorSize ∧
    (first ≠ last ∨ p = first * SectorSize)
  · rw [if_pos hcond] at htail
    refine ⟨by rw [htail, length_tail hs (hlen.trans hz), hlen],
      fun j hj hc hout => ?_⟩
    rw [htail,
      getElem?_blit (by simp only [List.length_take, SectorSize] at *; omega)]
    split
    · next hin =>
        -- the last sector, as it is on the disk
        rw [List.getElem?_take_of_lt
          (by simp only [List.length_take, SectorSize] at *; omega),
          List.getElem?_drop]
        congr 1
        simp only [SectorSize] at *
        omega
    · next hnin =>
        refine hfirst j ?_ ?_ hc
        · simp only [List.length_take, List.length_drop, SectorSize] at *
          omega
        · simp only [List.length_take, List.length_drop, SectorSize] at *
          omega
  · rw [if_neg hcond] at htail
    refine ⟨by rw [htail, hlen], fun j hj hc hout => ?_⟩
    rw [htail]
    refine hfirst j ?_ ?_ hc
    · simp only [SectorSize] at *
      omega
    · simp only [SectorSize] at *
      omega

/-- Byte `j` of the buffer: the new byte inside the request, and the old one of
the file in the rest of the partial sectors. -/
theorem overlay_spec (hs : Spans p m first last) (hm : m ≤ src.length) :
    (overlay c src p m first last).length = (last + 1 - first) * SectorSize ∧
      ∀ j, j < (last + 1 - first) * SectorSize →
        first * SectorSize + j < c.length →
        (overlay c src p m first last)[j]? =
          if p ≤ first * SectorSize + j ∧ first * SectorSize + j < p + m then
            src[first * SectorSize + j - p]?
          else (c)[first * SectorSize + j]? := by
  obtain ⟨hlen, hold⟩ :=
    getElem?_old (c := c) hs (List.length_replicate (a := (0 : Byte))) rfl rfl
  have hle := hs.le
  have hstart := hs.start
  have hstop := hs.stop
  have hlm : (src.take m).length = m := by rw [List.length_take]; omega
  rw [List.length_replicate] at hlen hold
  have hroom : p - first * SectorSize + m ≤
      (last + 1 - first) * SectorSize := by
    simp only [SectorSize] at *
    omega
  refine ⟨?_, fun j hj hc => ?_⟩
  · rw [overlay, length_blit (by rw [hlm, hlen]; exact hroom), hlen]
  · rw [overlay, getElem?_blit (by rw [hlm, hlen]; exact hroom), hlm]
    by_cases hin : p ≤ first * SectorSize + j ∧ first * SectorSize + j < p + m
    · rw [if_pos hin, if_pos (by omega), List.getElem?_take_of_lt (by omega)]
      congr 1
      omega
    · rw [if_neg hin, if_neg (by omega)]
      exact hold j hj hc hin

end Overlay

theorem copyInto_eq {buf src : List Byte} {off : Nat}
    (h : off + src.length ≤ buf.length) :
    OpenFile.copyInto buf src off = .ok (blit buf src off) := by
  rw [OpenFile.copyInto, if_pos (by omega)]
  rfl

namespace Request
variable {t : HdrTree} {m p : Nat}

/-- The last sector. -/
def last (_ : Request t m p) : Nat := (p + m - 1) / SectorSize

theorem spans (r : Request t m p) : Spans p m (p / SectorSize) r.last where
  le := Nat.div_le_div_right (by have := r.pos; omega)
  start := by
    simp only [SectorSize]
    omega
  stop := by
    have hpos := r.pos
    simp only [last, SectorSize]
    omega

theorem count_eq (r : Request t m p) : r.count = r.last + 1 - p / SectorSize :=
  rfl

/-- The buffer of `WriteAt` is the overlay of the new bytes over the content. -/
theorem writeBuffer_eq (r : Request t m p) (h : t.Backed)
    {file : OpenFile} (hfile : file.hdr = t.header) (d : Disk) {src : List Byte}
    (hm : m ≤ src.length) :
    file.writeBuffer d src m p =
      .ok (overlay (t.content d) src p m (p / SectorSize) r.last) := by
  have hs := r.spans
  have hL := h.bytes_int32
  have hend := r.end_le
  have hcount := r.count_int32 h
  have hlc := length_content h d
  obtain ⟨hin, _, _⟩ := r.covers h
  have hdiv : (p : Int).tdiv SectorSize = (p / SectorSize : Nat) := rfl
  have hlast : OpenFile.lastSector m p = (r.last : Nat) :=
    lastSector_eq r.pos (by omega)
  have hnum := r.numSectors h
  rw [hlast, hdiv] at hnum
  have hfsec : p / SectorSize * SectorSize <
    2147483648 := by have := hs.start; omega
  have hlsec : (r.last + 1) * SectorSize < 2147483648 := by
    have hle := hs.le
    have hstop := hs.stop
    have hsz : SectorSize = 128 := rfl
    have hb : t.leaves.length ≤ NumSectors := h.count
    rw [numSectors_eq] at hb
    rw [count_eq] at hin
    rw [hsz] at hin ⊢
    omega
  have hsum : int32 ((p : Int) + m) = (p + m : Nat) :=
    int32_of_nat (n := p + m) (by omega)
  have hlsec' : int32 (((r.last : Int) + 1) * SectorSize) =
      ((r.last + 1) * SectorSize : Nat) :=
    int32_sector hlsec
  have hsub : ((r.last : Int) - (p / SectorSize : Nat)) * SectorSize =
      ((r.last - p / SectorSize) * SectorSize : Nat) := by
    rw [← Int.ofNat_sub hs.le, ← Int.natCast_mul]
  have hoff : (p : Int) - (p / SectorSize : Nat) * SectorSize =
      (p - p / SectorSize * SectorSize : Nat) := by
    rw [← Int.natCast_mul, ← Int.ofNat_sub hs.start.1]
  have hread : ∀ {part part' : Prop} [Decidable part] [Decidable part']
      (buf : List Byte) (off i : Nat),
      (part ↔ part') → i ≤ r.last → off + SectorSize ≤ buf.length →
      file.readPartial d part buf off i =
        .ok (if part' then
          blit buf (((t.content d).drop (i * SectorSize)).take SectorSize) off
          else buf) := by
    intro part part' _ _ buf off i hpart hi hroom
    have hi' := Nat.mul_le_mul_right SectorSize hi
    rw [Nat.add_mul] at hlsec
    by_cases hp : part
    · rw [OpenFile.readPartial, if_pos hp, if_pos (hpart.mp hp),
        int32_sector (by omega),
        readAt_eq h hfile d (by omega), Outcome.ok_bind, copyInto_eq]
      rw [List.length_take]
      omega
    · rw [OpenFile.readPartial, if_neg hp, if_neg (mt hpart.mpr hp)]
      rfl
  obtain ⟨hold, _⟩ := getElem?_old (c := t.content d) hs
    (List.length_replicate (a := (0 : Byte))) rfl rfl
  rw [List.length_replicate] at hold
  have hle := hs.le
  have hone : 0 + SectorSize ≤ (r.last + 1 - p / SectorSize) * SectorSize := by
    have := Nat.mul_le_mul_right SectorSize
      (show 1 ≤ r.last + 1 - p / SectorSize by omega)
    omega
  rw [count_eq] at hcount hnum
  rw [OpenFile.writeBuffer]
  simp only [hdiv, hlast, hnum, newBuffer_eq _ hcount, int32_sector hfsec, hsum,
    hlsec', hsub, hoff,
    Outcome.ok_bind]
  refine Outcome.bind_eq_ok.mpr ⟨_,
      hread _ 0 _ (not_congr Int.ofNat_inj) hle (by
    rw [List.length_replicate]; exact hone), ?_⟩
  have hhead : (if ¬ p = p / SectorSize * SectorSize
      then blit (List.replicate ((r.last + 1 - p / SectorSize) * SectorSize) 0)
        (((t.content d).drop (p / SectorSize * SectorSize)).take SectorSize) 0
      else
        List.replicate ((r.last + 1 - p / SectorSize) * SectorSize) 0).length =
        (r.last + 1 - p / SectorSize) * SectorSize := by
    split
    · rw [length_head hs List.length_replicate, List.length_replicate]
    · rw [List.length_replicate]
  refine Outcome.bind_eq_ok.mpr ⟨_,
    hread _ _ _ (and_congr (not_congr Int.ofNat_inj)
    (or_congr (not_congr Int.ofNat_inj) Int.ofNat_inj)) (Nat.le_refl _) ?_, ?_⟩
  · rw [hhead, ← Nat.succ_mul]
    exact Nat.mul_le_mul_right _ (by omega)
  refine Outcome.bind_eq_ok.mpr ⟨_,
    copyFrom_eq (show 0 + m ≤ src.length by omega), ?_⟩
  rw [List.drop_zero, ite_not, copyInto_eq]
  · rfl
  · have hstart := hs.start
    have hstop := hs.stop
    rw [hold, List.length_take, Nat.min_eq_left hm]
    simp only [SectorSize] at *
    omega

end Request

theorem writeSectors_eq {t : HdrTree} (h : t.Backed) :
    ∀ {k i : Nat} {buf : List Byte} (d : Disk), i + k ≤ t.leaves.length →
      buf.length = k * SectorSize →
      ∃ d', OpenFile.writeSectors t.header k i buf d = .ok () d' ∧
        (∀ s, s ∉ (t.leaves.drop i).take k → d' s = d s) ∧
        (((t.leaves.drop i).take k).flatMap fun s => (d' s).bytes) = buf
  | 0, i, buf, d, _, hbuf => by
      obtain rfl : buf = [] := List.eq_nil_of_length_eq_zero (by omega)
      exact ⟨d, rfl, fun _ _ => rfl, rfl⟩
  | k + 1, i, buf, d, hk, hbuf => by
      have hi : i < t.leaves.length := by omega
      have hmem := List.getElem_mem hi
      have hget : t.leaves.getD i 0 = t.leaves[i] := by
        rw [List.getD_eq_getElem?_getD, List.getElem?_eq_getElem hi]
        rfl
      have hsplit := List.drop_eq_getElem_cons hi
      have hfresh : t.leaves[i] ∉ (t.leaves.drop (i + 1)).take k := by
        have hnd := h.leaves_nodup.sublist (List.drop_sublist i _)
        rw [hsplit] at hnd
        exact fun hin => (List.nodup_cons.mp hnd).1 (List.mem_of_mem_take hin)
      rw [Nat.succ_mul] at hbuf
      obtain ⟨d', hrun, hframe, hdata⟩ := writeSectors_eq h (k := k)
        (i := i + 1)
        (Function.update d t.leaves[i] (Sector.ofBytes (buf.take SectorSize)))
        (by omega) (show (buf.drop SectorSize).length = k * SectorSize by
          rw [List.length_drop]; omega)
      refine ⟨d', ?_, fun s hs => ?_, ?_⟩
      · rw [OpenFile.writeSectors, int32_sector (h.sector_int32 hi),
          Outcome.bind_of_ok (Outcome.lift_of_ok (byteToSector_eq h hi)), hget,
          Outcome.bind_of_ok (writeSector_eq (h.leaf_lt _ hmem) _)]
        exact hrun
      · rw [hsplit, List.take_succ_cons, List.mem_cons, not_or] at hs
        rw [hframe s hs.2, Function.update_of_ne hs.1]
      · rw [hsplit, List.take_succ_cons, List.flatMap_cons, hdata,
          hframe _ hfresh,
          Function.update_self, Sector.ofBytes_bytes
            (by rw [List.length_take]; omega),
          List.take_append_drop]

theorem Backed.not_mem_run {t : HdrTree} (h : t.Backed)
    {i k s : Nat} (hs : s ∈ t.leaves.take i ∨ s ∈ t.leaves.drop (i + k)) :
    s ∉ (t.leaves.drop i).take k := by
  have hnd := h.leaves_nodup
  rw [← List.take_append_drop i t.leaves] at hnd
  obtain ⟨_, hdrop, hdisj⟩ := List.nodup_append.mp hnd
  intro hin
  rcases hs with hs | hs
  · exact hdisj s hs s (List.mem_of_mem_take hin) rfl
  · rw [← List.take_append_drop k (t.leaves.drop i)] at hdrop
    rw [← List.drop_drop] at hs
    exact (List.nodup_append.mp hdrop).2.2 s hin s hs rfl

theorem content_overlay {t : HdrTree} (h : t.Backed) {d d' : Disk} {m p : Nat}
    (r : Request t m p) {src : List Byte} (hm : m ≤ src.length) (hframe : ∀ s,
      s ∉ (t.leaves.drop (p / SectorSize)).take r.count → d' s = d s)
    (hdata : (((t.leaves.drop (p / SectorSize)).take r.count).flatMap fun s =>
      (d' s).bytes) =
      overlay (t.content d) src p m (p / SectorSize) r.last) :
    t.content d' = blit (t.content d) (src.take m) p := by
  obtain ⟨hin, hlo, hhi⟩ := r.covers h
  obtain ⟨hlen, hbytes⟩ := overlay_spec (c := t.content d) r.spans hm
  have hend := r.end_le
  have hlm : (src.take m).length = m := by rw [List.length_take]; omega
  have hlc := length_content h d
  have hld := length_data d t
  have hle := h.bytes_le
  have hroom := Nat.mul_le_mul_right SectorSize hin
  rw [Nat.add_mul] at hroom hhi
  rw [← r.count_eq] at hlen hbytes
  have hblit : t.data d' =
      blit (t.data d) (overlay (t.content d) src p m (p / SectorSize) r.last)
      (p / SectorSize * SectorSize) :=
    flatMap_blit (fun s => (d s).length_bytes)
      (fun s hs => by rw [hframe s (h.not_mem_run (.inl hs))]) hdata hlen
      (fun s hs => by rw [hframe s (h.not_mem_run (.inr hs))])
  apply List.ext_getElem?
  intro j
  by_cases hj : j < t.bytes
  · have hold : (t.content d)[j]? = (t.data d)[j]? := by
      rw [content, List.getElem?_take_of_lt hj]
    rw [content, List.getElem?_take_of_lt hj, hblit, getElem?_blit (by omega),
      getElem?_blit (by omega), hlm, hlen]
    by_cases hrun : p / SectorSize * SectorSize ≤ j ∧
        j < p / SectorSize * SectorSize + r.count * SectorSize
    · rw [if_pos hrun, hbytes _ (by omega) (by omega),
        Nat.add_sub_cancel' hrun.1]
      by_cases hreq : p ≤ j ∧ j < p + m
      · rw [if_pos hreq, if_pos hreq, List.getElem?_take_of_lt (by omega)]
      · rw [if_neg hreq, if_neg hreq]
    · rw [if_neg hrun, if_neg (by omega), hold]
  · have hl' : (t.content d').length = t.bytes := length_content h d'
    rw [List.getElem?_eq_none (by omega), List.getElem?_eq_none]
    rw [length_blit (by omega)]
    omega

/-- `WriteAt` replaces a slice of the content and touches nothing else; of the
buffer it needs only the bytes that find room in the file. -/
theorem writeAt_spec {t : HdrTree} (h : t.Backed) {file : OpenFile}
    (hfile : file.hdr = t.header) (d : Disk) {src : List Byte} {n p : Nat}
    (hm : min n (t.bytes - p) ≤ src.length) (hsum : p + n < 2147483648) :
    ∃ d', file.writeAt src n p d = .ok (min n (t.bytes - p) : Nat) d' ∧
      (∀ s, s ∉ t.leaves → d' s = d s) ∧
      t.content d' = blit (t.content d) (src.take (min n (t.bytes - p))) p := by
  have hlen : file.hdr.fileLength = t.bytes := by rw [hfile]; rfl
  have hL := h.bytes_int32
  rw [OpenFile.writeAt, hlen]
  by_cases hnone : (n : Int) ≤ 0 ∨ (p : Int) ≥ t.bytes
  · have hzero : min n (t.bytes - p) = 0 := by omega
    rw [if_pos hnone, hzero]
    exact ⟨d, rfl, fun _ _ => rfl, by rw [List.take_zero, blit_nil]⟩
  · rw [if_neg hnone]
    have r : Request t (min n (t.bytes - p)) p := ⟨by omega, by omega⟩
    have hclip := clip_eq hL (by omega) hsum
    generalize min n (t.bytes - p) = m at r hclip hm ⊢
    obtain ⟨hin, _, _⟩ := r.covers h
    obtain ⟨d', hrun, hframe, hdata⟩ := writeSectors_eq h d hin
      (overlay_spec (c := t.content d) r.spans hm).1
    have hdiv : (p : Int).tdiv SectorSize = (p / SectorSize : Nat) := rfl
    refine ⟨d', ?_, fun s hs => hframe s fun hin =>
      hs (List.mem_of_mem_drop (List.mem_of_mem_take hin)),
      content_overlay h r hm hframe hdata⟩
    have hbuf : Outcome.reads (fun d => file.writeBuffer d src m p) d =
        .ok _ d :=
      Outcome.reads_of_ok (r.writeBuffer_eq h hfile d hm)
    simp only [hclip, r.numSectors h, Int.toNat_natCast]
    rw [Outcome.bind_of_ok hbuf, hdiv, hfile, Outcome.bind_of_ok hrun]
    rfl

theorem writeAt_eq {t : HdrTree} (h : t.Backed) {file : OpenFile}
    (hfile : file.hdr = t.header) (d : Disk) {src : List Byte} {n p : Nat}
    (hn : n ≤ src.length) (hsum : p + n < 2147483648) :
    ∃ d', file.writeAt src n p d = .ok (min n (t.bytes - p) : Nat) d' ∧
      (∀ s, s ∉ t.leaves → d' s = d s) ∧
      t.content d' = blit (t.content d) (src.take (min n (t.bytes - p))) p :=
  writeAt_spec h hfile d (Nat.le_trans (Nat.min_le_left _ _) hn) hsum

/-- `WriteSector` on the sector of a leaf, or an assertion that fails. -/
theorem writeSector_frame {t : HdrTree} {sector : Int}
    (hsec : sector = INVALID_SECTOR ∨ ∃ l ∈ t.leaves, sector = (l : Nat))
    (data : Sector) (d : Disk) {s : Nat} (hs : s ∉ t.leaves) :
    Outcome.final (writeSector sector data d) s = d s := by
  rcases hsec with rfl | ⟨l, hl, rfl⟩
  · have hbad : ¬ (0 ≤ INVALID_SECTOR ∧ INVALID_SECTOR < (NumSectors : Int)) :=
        fun h =>
      absurd h.1 (by decide)
    rw [writeSector,
      Outcome.bind_of_error (Outcome.lift_of_error (assertMsg_neg hbad))]
    rfl
  · by_cases hlt : l < NumSectors
    · rw [writeSector_eq hlt]
      exact Function.update_of_ne (fun h : s = l => hs (h ▸ hl)) data d
    · have hbad : ¬ (0 ≤ ((l : Nat) : Int) ∧
          ((l : Nat) : Int) < (NumSectors : Int)) := fun h =>
        hlt (Int.ofNat_lt.mp h.2)
      rw [writeSector,
        Outcome.bind_of_error (Outcome.lift_of_error (assertMsg_neg hbad))]
      rfl

/-- The loop of `WriteAt`, wherever it starts and whatever it writes. -/
theorem writeSectors_frame {t : HdrTree} (h : t.Backed) {s : Nat}
    (hs : s ∉ t.leaves) :
    ∀ (k : Nat) (i : Int) (buf : List Byte) (d : Disk),
      Outcome.final (OpenFile.writeSectors t.header k i buf d) s = d s
  | 0, _, _, _ => rfl
  | k + 1, i, buf, d => by
      rw [OpenFile.writeSectors]
      refine Outcome.final_bind (P := fun d' : Disk => d' s = d s) ?_ ?_
      · rw [Outcome.lift, Outcome.final_reads]
      intro sector d₁ hsec hd₁
      obtain ⟨hsec, -⟩ := Outcome.lift_eq_ok.mp hsec
      refine Outcome.final_bind (P := fun d' : Disk => d' s = d s) ?_ ?_
      · rw [writeSector_frame (byteToSector_mem h hsec) _ d₁ hs, hd₁]
      intro _ d₂ _ hd₂
      rw [writeSectors_frame h hs k, hd₂]

/-- Whatever the request, `WriteAt` touches data sectors of the file only. -/
theorem writeAt_frame {t : HdrTree} (h : t.Backed) {file : OpenFile}
    (hfile : file.hdr = t.header) (d : Disk) (src : List Byte) (n p : Int)
    {s : Nat} (hs : s ∉ t.leaves) :
    Outcome.final (file.writeAt src n p d) s = d s := by
  rw [OpenFile.writeAt, hfile]
  split
  · rfl
  refine Outcome.final_bind (P := fun d' : Disk => d' s = d s) ?_ ?_
  · rw [Outcome.final_reads]
  intro buf d₁ _ hd₁
  refine Outcome.final_bind (P := fun d' : Disk => d' s = d s) ?_
    fun _ _ _ hd₂ => hd₂
  rw [writeSectors_frame h hs, hd₁]

/-- Before the start of the file nothing is written. -/
theorem writeAt_neg {t : HdrTree} {file : OpenFile}
    (hfile : file.hdr = t.header) (d : Disk) (src : List Byte) (n : Int)
    {p : Int} (hp : p < 0) (hint : IsInt32 p) :
    Outcome.final (file.writeAt src n p d) = d := by
  rw [OpenFile.writeAt, hfile]
  split
  · rfl
  refine Outcome.final_bind (P := (· = d)) (Outcome.final_reads _ _) ?_
  rintro buf _ hbuf rfl
  obtain ⟨hbuf, -⟩ := Outcome.reads_eq_ok.mp hbuf
  refine Outcome.final_bind (P := (· = _)) ?_ fun _ _ _ hd => hd
  -- the bytes fit into the buffer only at the start of a sector, and the first
  -- one is missing
  obtain ⟨_, _, hbuf⟩ := Outcome.bind_eq_ok.mp hbuf
  obtain ⟨_, _, hbuf⟩ := Outcome.bind_eq_ok.mp hbuf
  obtain ⟨_, _, hbuf⟩ := Outcome.bind_eq_ok.mp hbuf
  obtain ⟨_, _, hbuf⟩ := Outcome.bind_eq_ok.mp hbuf
  have hfit : 0 ≤ p - p.tdiv SectorSize * SectorSize := by
    rw [OpenFile.copyInto] at hbuf
    split at hbuf
    · next hin => exact hin.1
    · cases hbuf
  have hmod := Int.tmod_add_mul_tdiv p SectorSize
  have hle : p.tmod SectorSize ≤ 0 := by
    have hnonneg := Int.tmod_nonneg (SectorSize : Int) (show 0 ≤ -p by omega)
    rw [Int.neg_tmod] at hnonneg
    omega
  have hfirst : p.tdiv SectorSize * SectorSize = p := by
    rw [Int.mul_comm] at hmod
    omega
  generalize (1 + OpenFile.lastSector _ p - p.tdiv SectorSize).toNat = k
  cases k with
  | zero => rfl
  | succ k =>
      have hneg : p.tdiv SectorSize < 0 := by
        simp only [SectorSize] at *
        omega
      obtain ⟨e, he⟩ := byteToSector_neg t hneg
      rw [OpenFile.writeSectors, hfirst, int32_of_range hint,
        Outcome.bind_of_error (Outcome.lift_of_error he)]
      rfl

theorem copyFrom_le {buf out : List Byte} {off n : Int}
    (h : OpenFile.copyFrom buf off n = .ok out) :
    off + n ≤ buf.length := by
  rw [OpenFile.copyFrom] at h
  split at h
  · next hin => exact hin.2.2
  · cases h

/-- `WriteAt` that returns: it has replaced the bytes it counts, and they were
in the buffer. -/
theorem writeAt_ok {t : HdrTree} (h : t.Backed)
    {file : OpenFile} (hfile : file.hdr = t.header) {d d' : Disk}
    {src : List Byte} {n r : Int} {p : Nat} (hsum : p + n < 2147483648)
    (hrun : file.writeAt src n p d = .ok r d') :
    ∃ m : Nat, r = m ∧ m ≤ src.length ∧ m ≤ t.bytes - p ∧
      t.content d' = blit (t.content d) (src.take m) p := by
  have hlen : file.hdr.fileLength = t.bytes := by rw [hfile]; rfl
  by_cases hnone : n ≤ 0 ∨ (p : Int) ≥ t.bytes
  · rw [OpenFile.writeAt, hlen, if_pos hnone] at hrun
    cases hrun
    exact ⟨0, rfl, Nat.zero_le _,
      Nat.zero_le _, by rw [List.take_zero, blit_nil]⟩
  · obtain ⟨n, rfl⟩ := Int.eq_ofNat_of_zero_le (show 0 ≤ n by omega)
    have hclip :=
      clip_eq h.bytes_int32 (show p < t.bytes by omega) (n := n) (by omega)
    have hm : min n (t.bytes - p) ≤ src.length := by
      rw [OpenFile.writeAt, hlen, if_neg hnone] at hrun
      simp only [hclip] at hrun
      obtain ⟨buf, _, hbuf, _⟩ := Outcome.bind_run_eq_ok.mp hrun
      obtain ⟨hbuf, -⟩ := Outcome.reads_eq_ok.mp hbuf
      obtain ⟨_, _, hbuf⟩ := Outcome.bind_eq_ok.mp hbuf
      obtain ⟨_, _, hbuf⟩ := Outcome.bind_eq_ok.mp hbuf
      obtain ⟨_, _, hbuf⟩ := Outcome.bind_eq_ok.mp hbuf
      obtain ⟨_, hcopy, _⟩ := Outcome.bind_eq_ok.mp hbuf
      have := copyFrom_le hcopy
      omega
    obtain ⟨d₁, hrun₁, _, hcontent⟩ := writeAt_spec h hfile d hm (by omega)
    rw [hrun₁] at hrun
    cases hrun
    exact ⟨_, rfl, hm, Nat.min_le_right _ _, hcontent⟩

/-! ## Files of whole sectors -/

theorem bytes_eq_of_flatMap {d d' : Disk} : ∀ {l : List Nat},
    (l.flatMap fun s => (d' s).bytes) = (l.flatMap fun s => (d s).bytes) →
      ∀ s ∈ l, d' s = d s
  | [], _, _, hs => absurd hs (List.not_mem_nil)
  | a :: l, heq, s, hs => by
      rw [List.flatMap_cons, List.flatMap_cons] at heq
      obtain ⟨hhead, htail⟩ := List.append_inj heq
        ((d' a).length_bytes.trans (d a).length_bytes.symm)
      rcases List.mem_cons.mp hs with rfl | hs
      · exact Sector.ext' hhead
      · exact bytes_eq_of_flatMap htail s hs

/-- If the length is a whole number of sectors, the content determines them. -/
theorem eq_of_content {t : HdrTree}
    (hfull : t.bytes = t.leaves.length * SectorSize)
    {d d' : Disk} (hframe : ∀ s, s ∉ t.leaves → d' s = d s)
    (hcontent : t.content d' = t.content d) : d' = d := by
  rw [content, content, hfull,
    List.take_of_length_le (Nat.le_of_eq (length_data d' t)),
    List.take_of_length_le (Nat.le_of_eq (length_data d t))] at hcontent
  funext s
  by_cases hs : s ∈ t.leaves
  · exact bytes_eq_of_flatMap hcontent s hs
  · exact hframe s hs

/-- A file of one word in sector 1. -/
def word : HdrTree where
  sector := 0
  bytes := 4
  slots := .leaf 1 .nil

theorem word_backed : word.Backed where
  length := by decide
  narrow := trivial
  bytes_le := by decide
  leaves_nodup := by decide
  leaf_lt := fun s hs => by
    rw [List.mem_singleton.mp hs, numSectors_eq]
    decide

end HdrTree

end EroikoBlue.MP4
