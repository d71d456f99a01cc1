/-
# `MP4.Transfers` — sizes, positions, and the end of the file

`MP4.FileData` proves the two transfers for requests that end inside an `int`.
Here they are stated for the caller (`readAt_writeAt_array`), and then for every
32-bit request, where `position + numBytes` may wrap.

The test that cuts a request at the end of the file adds first and compares
afterwards.  When the sum wraps it is negative, nothing is cut, and a request
that is carried out at all moves all its bytes, more than the file has.  The sum
depends on where earlier calls left the seek position, so the condition is one
on the state before each call (`transfers_clipped_iff`).

## Which sectors, in which order

`readOffsets` and `writeOffsets` are the offsets that `ReadAt` and `WriteAt` ask
`ByteToSector` about.  That these are all the two look at is `readAt_congr` and
`writeAt_congr`: two headers that agree on them (`Agree`) give the same
transfer.  A call is lawful when it returns a count between zero and what is
left of the file, moves the seek position by as much, and looks up offsets of
the file only.

## The defect

`transfers_overrun_word` is a file of one word: after one byte is read, a
request for `INT_MAX` bytes is not cut.
-/
import EroikoBlue.Lib.Trace
import EroikoBlue.MP4.FileSys

namespace EroikoBlue.MP4

open Bytes

namespace OpenFile

/-- The number of bytes a request moves. -/
def transferred (file : OpenFile) (numBytes position : Int) : Int :=
  max 0 (min numBytes (file.length - position))

/-! ## The offsets a request looks up -/

/-- The offsets of the sectors from `i` on, `k` of them. -/
def sectorOffsets : Nat → Int → List Int
  | 0, _ => []
  | k + 1, i => int32 (i * SectorSize) :: sectorOffsets k (i + 1)

/-- The offsets for which `ReadAt` calls `ByteToSector`. -/
def readOffsets (fileLength numBytes position : Int) : List Int :=
  if numBytes ≤ 0 ∨ position ≥ fileLength then []
  else
    let numBytes := clip fileLength numBytes position
    let firstSector := position.tdiv SectorSize
    sectorOffsets
      (1 + lastSector numBytes position - firstSector).toNat firstSector

/-- The offsets for which `WriteAt` calls it: those of the two sectors that it
may have to read first, and those of the sectors it writes. -/
def writeOffsets (fileLength numBytes position : Int) : List Int :=
  if numBytes ≤ 0 ∨ position ≥ fileLength then []
  else
    let numBytes' := clip fileLength numBytes position
    let firstSector := position.tdiv SectorSize
    readOffsets fileLength SectorSize (int32 (firstSector * SectorSize)) ++
      (readOffsets fileLength SectorSize
        (int32 (lastSector numBytes' position * SectorSize)) ++
        readOffsets fileLength numBytes position)

/-- Two headers of one length that agree at these offsets. -/
structure Agree (hdr hdr' : FileHeader) (offsets : List Int) : Prop where
  length : hdr'.fileLength = hdr.fileLength
  lookup : ∀ o ∈ offsets, hdr'.byteToSector o = hdr.byteToSector o

theorem readSectors_congr {hdr hdr' : FileHeader} (d : Disk) :
    ∀ {k : Nat} {i : Int}, (∀ o ∈ sectorOffsets k i,
        hdr'.byteToSector o = hdr.byteToSector o) →
      readSectors hdr' d k i = readSectors hdr d k i
  | 0, _, _ => rfl
  | k + 1, i, h => by
      rw [readSectors, readSectors, h _ (.head _),
        readSectors_congr d fun o ho => h o (.tail _ ho)]

theorem writeSectors_congr {hdr hdr' : FileHeader} :
    ∀ {k : Nat} {i : Int} (buf : List Byte),
      (∀ o ∈ sectorOffsets k i, hdr'.byteToSector o = hdr.byteToSector o) →
      writeSectors hdr' k i buf = writeSectors hdr k i buf
  | 0, _, _, _ => rfl
  | k + 1, i, buf, h => by
      rw [writeSectors, writeSectors, h _ (.head _)]
      simp only [writeSectors_congr _ fun o ho => h o (.tail _ ho)]

/-- `ReadAt` uses the header at its offsets only. -/
theorem readAt_congr {file file' : OpenFile}
    {numBytes position : Int} (h : Agree file.hdr file'.hdr
      (readOffsets file.hdr.fileLength numBytes position)) (d : Disk) :
    file'.readAt d numBytes position = file.readAt d numBytes position := by
  have hlookup := h.lookup
  rw [readAt, readAt, h.length]
  rw [readOffsets] at hlookup
  split
  · rfl
  · next hsome =>
    rw [if_neg hsome] at hlookup
    simp only [readSectors_congr d hlookup]

theorem writeAt_congr {file file' : OpenFile}
    {numBytes position : Int} (h : Agree file.hdr file'.hdr
      (writeOffsets file.hdr.fileLength numBytes position)) (src : List Byte) :
    file'.writeAt src numBytes position =
      file.writeAt src numBytes position := by
  have hlookup := h.lookup
  rw [writeAt, writeAt, h.length]
  rw [writeOffsets] at hlookup
  split
  · rfl
  · next hsome =>
    rw [if_neg hsome] at hlookup
    have hfirst := fun d : Disk => @readAt_congr file file' _ _
      ⟨h.length, fun o ho => hlookup o (List.mem_append_left _ ho)⟩ d
    have hlast := fun d : Disk => @readAt_congr file file' _ _
      ⟨h.length, fun o ho =>
        hlookup o (List.mem_append_right _ (List.mem_append_left _ ho))⟩ d
    have hloop : ∀ o ∈ readOffsets file.hdr.fileLength numBytes position,
        file'.hdr.byteToSector o = file.hdr.byteToSector o :=
      fun o ho =>
        hlookup o (List.mem_append_right _ (List.mem_append_right _ ho))
    rw [readOffsets, if_neg hsome] at hloop
    simp only [writeBuffer, readPartial, hfirst, hlast,
      writeSectors_congr _ hloop]

/-! ## Requests inside an `int` -/

theorem mem_sectorOffsets {o : Int} :
    ∀ {k i : Nat}, (i + k) * SectorSize ≤ 2147483648 →
    o ∈ sectorOffsets k i → ∃ j : Nat, i ≤ j ∧ j < i + k ∧
      o = (j * SectorSize : Nat)
  | 0, _, _, ho => absurd ho (List.not_mem_nil)
  | k + 1, i, hle, ho => by
      rcases List.mem_cons.mp ho with rfl | ho
      · refine ⟨i, Nat.le_refl i, by omega, HdrTree.int32_sector ?_⟩
        simp only [SectorSize] at *
        omega
      · obtain ⟨j, hij, hj, rfl⟩ := mem_sectorOffsets (k := k) (i := i + 1)
          (by simp only [SectorSize] at *; omega) ho
        exact ⟨j, by omega, by omega, rfl⟩

/-- A request that starts in the file and ends inside an `int` looks up offsets
of the file. -/
theorem readOffsets_inside {L n p : Nat} (hL : L < 2147483648)
    (hsum : p + n < 2147483648) :
    ∀ o ∈ readOffsets L n p, 0 ≤ o ∧ o < L := by
  intro o ho
  rw [readOffsets] at ho
  split at ho
  · exact absurd ho (List.not_mem_nil)
  · next hsome =>
    have hclip := HdrTree.clip_eq (n := n) hL (by omega : p < L) hsum
    have hlast :=
      HdrTree.lastSector_eq (m := min n (L - p)) (p := p) (by omega) (by omega)
    have hdiv : (p : Int).tdiv SectorSize = (p / SectorSize : Nat) := rfl
    simp only [hclip, hlast, hdiv] at ho
    have hcount : (1 + ((p + min n (L - p) - 1) / SectorSize : Nat) - (p /
        SectorSize : Nat) : Int).toNat =
        (p + min n (L - p) - 1) / SectorSize + 1 - p / SectorSize := by
      have hle : p / SectorSize ≤ (p + min n (L - p) - 1) / SectorSize :=
        Nat.div_le_div_right (by omega)
      omega
    rw [hcount] at ho
    simp only [SectorSize] at ho
    obtain ⟨j, hlo, hhi, rfl⟩ :=
      mem_sectorOffsets (by simp only [SectorSize]; omega) ho
    simp only [SectorSize]
    omega

theorem readOffsets_sector {L k : Nat} (hL : L < 2147483648 - SectorSize)
    (hk : k * SectorSize < L) :
    ∀ o ∈ readOffsets L SectorSize (int32 ((k : Int) * SectorSize)), 0 ≤ o ∧
      o < L := by
  rw [HdrTree.int32_sector (by omega)]
  exact readOffsets_inside (by omega) (by omega)

theorem writeOffsets_inside {L n p : Nat} (hL : L < 2147483648 - SectorSize)
    (hsum : p + n < 2147483648) :
    ∀ o ∈ writeOffsets L n p, 0 ≤ o ∧ o < L := by
  intro o ho
  rw [writeOffsets] at ho
  split at ho
  · exact absurd ho (List.not_mem_nil)
  · next hsome =>
    have hclip := HdrTree.clip_eq (n := n) (by omega) (by omega : p < L) hsum
    have hlast :=
      HdrTree.lastSector_eq (m := min n (L - p)) (p := p) (by omega) (by omega)
    have hdiv : (p : Int).tdiv SectorSize = (p / SectorSize : Nat) := rfl
    simp only [hclip, hlast, hdiv, List.mem_append] at ho
    have hfirstIn : p / SectorSize * SectorSize < L := by
      simp only [SectorSize]
      omega
    have hlastIn : (p + min n (L - p) - 1) / SectorSize * SectorSize < L := by
      simp only [SectorSize]
      omega
    rcases ho with ho | ho | ho
    · exact readOffsets_sector hL hfirstIn o ho
    · exact readOffsets_sector hL hlastIn o ho
    · exact readOffsets_inside (by omega) hsum o ho

end OpenFile

namespace HdrTree

/-- A file is smaller than the disk. -/
theorem Backed.bytes_disk {t : HdrTree} (h : t.Backed) :
    t.bytes ≤ 134217728 := by
  have hcount := h.count
  have hle := h.bytes_le
  rw [numSectors_eq] at hcount
  simp only [SectorSize] at hle
  omega

theorem transferred_eq {t : HdrTree} {file : OpenFile}
    (hfile : file.hdr = t.header) (n p : Nat) :
    file.transferred n p = (min n (t.bytes - p) : Nat) := by
  have hlen : file.length = t.bytes := by rw [OpenFile.length, hfile]; rfl
  rw [OpenFile.transferred, hlen]
  omega

end HdrTree

/-- `ReadAt` and `WriteAt` on a file whose data sectors are distinct, for every
request that ends inside an `int`: the bytes of the file are an array of its
length; both move as many bytes as lie between the position and the end of the
file, and writing changes those bytes and no others. -/
theorem readAt_writeAt_array {t : HdrTree}
    (h : t.Backed) {file : OpenFile} (hfile : file.hdr = t.header)
    (d : Disk) {numBytes position : Int} (hn : 0 ≤ numBytes) (hp : 0 ≤ position)
    (hsum : position + numBytes < 2147483648) :
    ((t.content d).length : Int) = file.length ∧
    (∃ got, file.readAt d numBytes position = .ok got ∧
      (got.length : Int) = file.transferred numBytes position ∧
      ∀ j : Nat, j < file.transferred numBytes position →
      got[j]? = (t.content d)[position.toNat + j]?) ∧
    ∀ src : List Byte, file.transferred numBytes position ≤ src.length →
      ∃ d', file.writeAt src numBytes position d =
        .ok (file.transferred numBytes position) d' ∧
        (t.content d').length = (t.content d).length ∧
        (∀ j : Nat, (t.content d')[j]? =
          if position ≤ j ∧ j < position + file.transferred numBytes position
            then src[j - position.toNat]?
          else (t.content d)[j]?) ∧
        ∀ s, s ∉ t.leaves → d' s = d s := by
  obtain ⟨n, rfl⟩ := Int.eq_ofNat_of_zero_le hn
  obtain ⟨p, rfl⟩ := Int.eq_ofNat_of_zero_le hp
  have hlen : file.length = t.bytes := by rw [OpenFile.length, hfile]; rfl
  have hcontent := HdrTree.length_content h
  have hsum : p + n < 2147483648 := by omega
  rw [HdrTree.transferred_eq hfile, Int.toNat_natCast]
  refine ⟨by rw [hlen, hcontent], ⟨_, HdrTree.readAt_eq h hfile d hsum, ?_,
    fun j hj => ?_⟩, fun src hsrc => ?_⟩
  · rw [List.length_take, List.length_drop, hcontent]
  · rw [List.getElem?_take_of_lt (by omega), List.getElem?_drop]
  · obtain ⟨d', hrun, hframe, hnew⟩ :=
      HdrTree.writeAt_spec h hfile d (Int.ofNat_le.mp hsrc) hsum
    have hlm : (src.take (min n (t.bytes - p))).length =
        min n (t.bytes - p) := by
      rw [List.length_take]
      omega
    refine ⟨d', hrun, by rw [hcontent, hcontent], fun j => ?_, hframe⟩
    rw [hnew]
    by_cases hroom : p ≤ t.bytes
    · rw [getElem?_blit (by rw [hlm, hcontent]; omega), hlm]
      by_cases hin : p ≤ j ∧ j < p + min n (t.bytes - p)
      · rw [if_pos hin, if_pos (by omega), List.getElem?_take_of_lt (by omega)]
      · rw [if_neg hin, if_neg (by omega)]
    · -- a position behind the end: nothing is written
      have hzero : min n (t.bytes - p) = 0 := by omega
      rw [hzero, List.take_zero, blit_nil, if_neg (by omega)]

/-- The two bytes in the middle of a file of four are read, and written. -/
theorem readAt_writeAt_array_word : ∃ got d',
    OpenFile.readAt ⟨HdrTree.word.header, 0⟩ (fun _ => Sector.ofBytes []) 2 1 =
      .ok got ∧ got.length = 2 ∧
      OpenFile.writeAt ⟨HdrTree.word.header, 0⟩ [7,
        8] 2 1 (fun _ => Sector.ofBytes []) = .ok 2 d' ∧
      (HdrTree.word.content d').length = 4 ∧
        (HdrTree.word.content d')[0]? = some 0 ∧
      (HdrTree.word.content d')[1]? = some 7 ∧
        (HdrTree.word.content d')[2]? = some 8 ∧
      (HdrTree.word.content d')[3]? = some 0 := by
  obtain ⟨-, ⟨got, hread, hlen, -⟩, hwrites⟩ := readAt_writeAt_array
    HdrTree.word_backed
    (show (OpenFile.mk HdrTree.word.header 0).hdr = HdrTree.word.header
      from rfl) (fun _ => Sector.ofBytes [])
    (show (0 : Int) ≤ 2 by decide) (show (0 : Int) ≤ 1 by decide) (by decide)
  obtain ⟨d', hwrite, hsame, hbytes, -⟩ := hwrites [7, 8] (by decide)
  have hcontent : HdrTree.word.content (fun _ => Sector.ofBytes []) =
    [0, 0, 0, 0] := by decide +kernel
  rw [hcontent] at hsame hbytes
  exact ⟨got, d', hread, Int.ofNat_inj.mp hlen, hwrite, hsame, hbytes 0,
    hbytes 1, hbytes 2, hbytes 3⟩

/-! ## Requests of any size -/

/-- A call of `Read` or `Write` as the handlers of `SC_Read` and `SC_Write` pass
it on. -/
inductive Transfer where
  | read (size : Int)
  | write (buf : List Byte) (size : Int)

namespace Transfer

def size : Transfer → Int
  | .read size => size
  | .write _ size => size

/-- The call, on the file behind `id`. -/
def run (id : OpenFileId) (fs : FileSystem) : Transfer → FsM (Int × FileSystem)
  | .read size => do
    let (got, fs) ← fs.read size id
    pure (got.length, fs)
  | .write buf size => fs.write buf size id

/-- The offsets for which the call asks `ByteToSector`. -/
def offsets (fileLength position : Int) : Transfer → List Int
  | .read size => OpenFile.readOffsets fileLength size position
  | .write _ size => OpenFile.writeOffsets fileLength size position

/-- The size is an `int`, and the bytes that a file of `fileLength` can take
from the buffer are there. -/
def Valid (fileLength : Int) : Transfer → Prop
  | .read size => IsInt32 size
  | .write buf size => IsInt32 size ∧ min size fileLength ≤ buf.length

/-- A call that returns. -/
def Runs (id : OpenFileId) (s : FileSystem × Disk) (call : Transfer)
    (s' : FileSystem × Disk) : Prop :=
  ∃ r, call.run id s.1 s.2 = .ok (r, s'.1) s'.2

/-- The call returns a count between zero and what is left of the file, moves
the seek position by as much, and asks for offsets of the file only. -/
def Lawful (id : OpenFileId) (s : FileSystem × Disk) (call : Transfer) : Prop :=
  ∃ file, s.1.opTable id = some (some file) ∧
    (∃ r fs' d' file', call.run id s.1 s.2 = .ok (r, fs') d' ∧
      0 ≤ r ∧ r ≤ file.length - file.seekPosition ∧
      fs'.opTable id = some (some file') ∧ file'.hdr = file.hdr ∧
      file'.seekPosition = file.seekPosition + r ∧
        file'.seekPosition ≤ file.length) ∧
    ∀ o ∈ call.offsets file.length file.seekPosition, 0 ≤ o ∧ o < file.length

/-- The call asks for nothing, or at the end of the file, or its sum is an
`int`. -/
def InRange (id : OpenFileId) (s : FileSystem × Disk)
    (call : Transfer) : Prop :=
  ∃ file, s.1.opTable id = some (some file) ∧
    (call.size ≤ 0 ∨ file.length ≤ file.seekPosition ∨
      file.seekPosition + call.size < 2147483648)

end Transfer

namespace OpenFile
variable {t : HdrTree} {file : OpenFile} {size : Int} {p : Nat}

/-- The request of a call that is in range, with its size cut to a natural
number. -/
theorem readAt_inRange (h : t.Backed) (hfile : file.hdr = t.header) (d : Disk)
    (hrange : size ≤ 0 ∨ t.bytes ≤ p ∨ p + size < 2147483648) :
    ∃ got, file.readAt d size p = .ok got ∧ got.length ≤ t.bytes - p := by
  have hlen : file.hdr.fileLength = t.bytes := by rw [hfile]; rfl
  by_cases hnone : size ≤ 0 ∨ (p : Int) ≥ t.bytes
  · rw [readAt, hlen, if_pos hnone]
    exact ⟨[], rfl, Nat.zero_le _⟩
  · obtain ⟨n, rfl⟩ := Int.eq_ofNat_of_zero_le (show 0 ≤ size by omega)
    refine ⟨_, HdrTree.readAt_eq h hfile d (by omega), ?_⟩
    rw [List.length_take, List.length_drop, HdrTree.length_content h]
    exact Nat.min_le_right _ _

theorem writeAt_inRange (h : t.Backed) (hfile : file.hdr = t.header)
    (d : Disk) {src : List Byte} (hsrc : min size t.bytes ≤ src.length)
    (hrange : size ≤ 0 ∨ t.bytes ≤ p ∨ p + size < 2147483648) :
    ∃ (r : Nat) (d' : Disk), file.writeAt src size p d = .ok r d' ∧
      r ≤ t.bytes - p := by
  have hlen : file.hdr.fileLength = t.bytes := by rw [hfile]; rfl
  by_cases hnone : size ≤ 0 ∨ (p : Int) ≥ t.bytes
  · rw [writeAt, hlen, if_pos hnone]
    exact ⟨0, d, rfl, Nat.zero_le _⟩
  · obtain ⟨n, rfl⟩ := Int.eq_ofNat_of_zero_le (show 0 ≤ size by omega)
    obtain ⟨d', hrun, -, -⟩ := HdrTree.writeAt_spec h hfile d
      (show min n (t.bytes - p) ≤ src.length by omega) (by omega)
    exact ⟨_, d', hrun, Nat.min_le_right _ _⟩

theorem clip_wraps {L : Nat} (hint : IsInt32 size) (hp : p < 2147483648)
    (hsum : 2147483648 ≤ p + size) :
    clip L size p = size := by
  have hneg : int32 ((p : Int) + size) = p + size - 4294967296 := by
    rw [int32, BitVec.toInt_ofInt, Int.bmod]
    have hhi := hint.2
    omega
  rw [clip, hneg, if_neg]
  have hhi := hint.2
  omega

theorem readAt_wraps (hfile : file.hdr = t.header) {d : Disk} {got : List Byte}
    (hint : IsInt32 size) (hsize : 0 < size) (hp : p < t.bytes)
    (hlt : t.bytes < 2147483648) (hsum : 2147483648 ≤ p + size)
    (hrun : file.readAt d size p = .ok got) : (got.length : Int) = size := by
  have hlen : file.hdr.fileLength = t.bytes := by rw [hfile]; rfl
  have hclip := clip_wraps (L := t.bytes) hint (by omega : p < 2147483648) hsum
  rw [readAt, hlen, if_neg (by omega)] at hrun
  simp only [hclip] at hrun
  obtain ⟨_, _, hrun⟩ := Outcome.bind_eq_ok.mp hrun
  obtain ⟨buf, _, hcopy⟩ := Outcome.bind_eq_ok.mp hrun
  rw [copyFrom] at hcopy
  split at hcopy
  · next hin =>
    cases hcopy
    rw [List.length_take, List.length_drop]
    omega
  · cases hcopy

theorem writeAt_wraps (hfile : file.hdr = t.header)
    {d d' : Disk} {src : List Byte} {r : Int} (hint : IsInt32 size)
    (hsize : 0 < size) (hp : p < t.bytes)
    (hlt : t.bytes < 2147483648) (hsum : 2147483648 ≤ p + size)
    (hrun : file.writeAt src size p d = .ok r d') : r = size := by
  have hlen : file.hdr.fileLength = t.bytes := by rw [hfile]; rfl
  have hclip := clip_wraps (L := t.bytes) hint (by omega : p < 2147483648) hsum
  rw [writeAt, hlen, if_neg (by omega)] at hrun
  simp only [hclip] at hrun
  obtain ⟨_, _, _, hrun⟩ := Outcome.bind_run_eq_ok.mp hrun
  obtain ⟨_, _, _, hrun⟩ := Outcome.bind_run_eq_ok.mp hrun
  cases hrun
  rfl

end OpenFile

namespace Transfer
variable {t : HdrTree} {id : OpenFileId} {fs : FileSystem} {d : Disk}
  {file : OpenFile} {call : Transfer} {p : Nat}

/-- The transfer on the file itself, of `r` bytes at a position. -/
def Moves (file : OpenFile) (position : Int) (d : Disk) (r : Int) (d' : Disk) :
    Transfer → Prop
  | .read size => ∃ got, file.readAt d size position = .ok got ∧
        (got.length : Int) = r ∧ d' = d
  | .write buf size => file.writeAt buf size position d = .ok r d'

theorem run_of_ok (hid : fs.opTable id = some (some file)) {r : Int} {d' : Disk}
    (h : call.Moves file file.seekPosition d r d') :
    call.run id fs d = .ok (r, { fs with
      opTable := Function.update fs.opTable id
        (some (some { file with
            seekPosition := int32 (file.seekPosition + r) })) }) d' := by
  cases call with
  | read size =>
      obtain ⟨got, hread, rfl, rfl⟩ := h
      exact (Outcome.bind_of_ok
        (FileSystem.read_of_ok hid (OpenFile.read_of_ok hread))).trans rfl
  | write buf size => exact FileSystem.write_of_ok hid (OpenFile.write_of_ok h)

/-- What an open file of the tree `t` looks like between two calls. -/
structure Open (t : HdrTree) (id : OpenFileId) (s : FileSystem × Disk)
    (file : OpenFile) (p : Nat) : Prop where
  entry : s.1.opTable id = some (some file)
  hdr : file.hdr = t.header
  position : file.seekPosition = p
  le : p ≤ t.bytes

theorem Open.length {s : FileSystem × Disk} (h : Open t id s file p) :
    file.length = t.bytes := by
  rw [OpenFile.length, h.hdr]
  rfl

theorem moves_of_inRange (ht : t.Backed)
    (hfile : file.hdr = t.header) (hvalid : call.Valid t.bytes)
    (hrange : call.size ≤ 0 ∨ t.bytes ≤ p ∨ p + call.size < 2147483648)
    (d : Disk) :
    ∃ (r : Nat) (d' : Disk), r ≤ t.bytes - p ∧ call.Moves file p d r d' := by
  cases call with
  | read size =>
      obtain ⟨got, hrun, hle⟩ := OpenFile.readAt_inRange ht hfile d hrange
      exact ⟨got.length, d, hle, got, hrun, rfl, rfl⟩
  | write buf size =>
      obtain ⟨r, d', hrun, hle⟩ :=
        OpenFile.writeAt_inRange ht hfile d hvalid.2 hrange
      exact ⟨r, d', hle, hrun⟩

theorem offsets_inside (ht : t.Backed) (hvalid : call.Valid t.bytes)
    (hrange : call.size ≤ 0 ∨ t.bytes ≤ p ∨ p + call.size < 2147483648) :
    ∀ o ∈ call.offsets t.bytes p, 0 ≤ o ∧ o < t.bytes := by
  have hdisk := ht.bytes_disk
  by_cases hnone : call.size ≤ 0 ∨ (p : Int) ≥ t.bytes
  · have hnil : call.offsets t.bytes p = [] := by
      cases call with
      | read size => exact if_pos hnone
      | write buf size => exact if_pos hnone
    rw [hnil]
    exact fun o ho => absurd ho (List.not_mem_nil)
  · obtain ⟨n, hn⟩ := Int.eq_ofNat_of_zero_le (show 0 ≤ call.size by omega)
    have hsum : p + n < 2147483648 := by omega
    cases call with
    | read size =>
        rw [offsets, show size = n from hn]
        exact OpenFile.readOffsets_inside (by omega) hsum
    | write buf size =>
        rw [offsets, show size = n from hn]
        exact OpenFile.writeOffsets_inside
          (by simp only [SectorSize]; omega) hsum

/-- A call whose sum wraps does not keep to the file. -/
theorem size_of_wraps (hfile : file.hdr = t.header)
    (hid : fs.opTable id = some (some file)) (hpos : file.seekPosition = p)
    (hvalid : call.Valid t.bytes) (hsize : 0 < call.size) (hp : p < t.bytes)
    (hlt : t.bytes < 2147483648) (hsum : 2147483648 ≤ p + call.size) {r : Int}
    {fs' : FileSystem} {d' : Disk} (hrun : call.run id fs d = .ok (r, fs') d') :
    r = call.size := by
  cases call with
  | read size =>
      obtain ⟨⟨got, _⟩, _, hread, hret⟩ := Outcome.bind_run_eq_ok.mp hrun
      rw [FileSystem.read, hid] at hread
      obtain ⟨⟨got', _⟩, _, hfileRead, hret'⟩ := Outcome.bind_run_eq_ok.mp hread
      obtain ⟨hfileRead, -⟩ := Outcome.reads_eq_ok.mp hfileRead
      obtain ⟨got'', hreadAt, hret''⟩ := Outcome.bind_eq_ok.mp hfileRead
      rw [hpos] at hreadAt
      cases hret''
      cases hret'
      cases hret
      exact OpenFile.readAt_wraps hfile hvalid hsize hp hlt hsum hreadAt
  | write buf size =>
      rw [run, FileSystem.write, hid] at hrun
      obtain ⟨⟨r', _⟩, _, hwrite, hret⟩ := Outcome.bind_run_eq_ok.mp hrun
      obtain ⟨r'', _, hwriteAt, hret'⟩ := Outcome.bind_run_eq_ok.mp hwrite
      rw [hpos] at hwriteAt
      cases hret'
      cases hret
      exact OpenFile.writeAt_wraps hfile hvalid.1 hsize hp hlt hsum hwriteAt

theorem lawful_iff (ht : t.Backed) {s : FileSystem × Disk}
    (h : Open t id s file p) (hvalid : call.Valid t.bytes) : call.Lawful id s ↔
    call.InRange id s := by
  have hlen := h.length
  have hint := ht.bytes_int32
  have hle := h.le
  constructor
  · rintro ⟨file', hid, ⟨r, fs', d', _, hrun, -, hr, -⟩, -⟩
    rw [h.entry] at hid
    cases hid
    refine ⟨file, h.entry, ?_⟩
    rw [hlen, h.position] at hr ⊢
    by_cases hrange : call.size ≤ 0 ∨ (t.bytes : Int) ≤ p ∨
      p + call.size < 2147483648
    · exact hrange
    · have := size_of_wraps h.hdr h.entry h.position hvalid (by omega)
        (by omega) hint (by omega) hrun
      omega
  · rintro ⟨file', hid, hrange⟩
    rw [h.entry] at hid
    cases hid
    rw [hlen, h.position] at hrange
    have hrange : call.size ≤ 0 ∨ t.bytes ≤ p ∨ p + call.size < 2147483648 := by
      omega
    obtain ⟨r, d', hr, hmoves⟩ := moves_of_inRange ht h.hdr hvalid hrange s.2
    rw [← h.position] at hmoves
    have hnext : int32 (file.seekPosition + r) = file.seekPosition + r := by
      rw [h.position]
      exact int32_of_nat (n := p + r) (by omega)
    refine ⟨file, h.entry, ⟨r, _, d', _, run_of_ok h.entry hmoves,
      Int.natCast_nonneg r, ?_,
      Function.update_self .., rfl, hnext, ?_⟩, ?_⟩
    · rw [hlen, h.position]
      omega
    · show int32 (file.seekPosition + r) ≤ file.length
      rw [hnext, hlen, h.position]
      omega
    · rw [hlen, h.position]
      exact offsets_inside ht hvalid hrange

theorem Open.next {s s' : FileSystem × Disk} (h : Open t id s file p)
    (hlaw : call.Lawful id s) (hrun : call.Runs id s s') :
    ∃ file' p', Open t id s' file' p' := by
  obtain ⟨file₁, hid, ⟨r, fs', d', file', hrun', h0, -, hentry, hhdr, hpos,
    hle⟩, -⟩ := hlaw
  rw [h.entry] at hid
  cases hid
  obtain ⟨r', hrun⟩ := hrun
  rw [hrun'] at hrun
  obtain ⟨q, rfl⟩ := Int.eq_ofNat_of_zero_le h0
  rw [h.position] at hpos
  rw [h.length, hpos] at hle
  cases hrun
  exact ⟨file', p + q, hentry, hhdr.trans h.hdr, hpos, by omega⟩

end Transfer

/-- Along every sequence of calls on an open file, every call is cut at the end
of the file if and only if in no call the sum of the seek position and the size
wraps. -/
theorem transfers_clipped_iff {t : HdrTree} (ht : t.Backed) {id : OpenFileId}
    {fs : FileSystem} (d : Disk) {file : OpenFile}
    (hid : fs.opTable id = some (some file)) (hfile : file.hdr = t.header)
    (h0 : 0 ≤ file.seekPosition) (hle : file.seekPosition ≤ file.length)
    {calls : List Transfer} (hcalls : ∀ call ∈ calls, call.Valid file.length) :
    Trace.Along (fun s call s' => Transfer.Runs id s call s') (Transfer.Lawful
        id) (fs, d) calls ↔
      Trace.Along (fun s call s' => Transfer.Runs id s call s')
          (Transfer.InRange id) (fs, d) calls := by
  obtain ⟨p, hp⟩ := Int.eq_ofNat_of_zero_le h0
  have hlen : file.length = t.bytes := by rw [OpenFile.length, hfile]; rfl
  rw [hlen] at hcalls hle
  have hopen : ∃ file p, Transfer.Open t id (fs, d) file p :=
    ⟨file, p, hid, hfile, hp, by omega⟩
  refine Trace.along_iff (I := fun s => ∃ file p,
    Transfer.Open t id s file p) ?_ ?_ hopen
  · rintro s call hmem ⟨file, p, h⟩
    exact Transfer.lawful_iff ht h (hcalls call hmem)
  · rintro s s' call - ⟨file, p, h⟩ hlaw hrun
    exact h.next hlaw hrun

/-- A file system in which identifier 1 is a file of four bytes. -/
def wordOpen : FileSystem where
  freeMapFile := ⟨HdrTree.word.header, 0⟩
  directoryFile := ⟨HdrTree.word.header, 0⟩
  opTable :=
    fun id => if id = 1 then some (some ⟨HdrTree.word.header, 0⟩) else none

/-- Reading two bytes of it. -/
theorem transfers_clipped_iff_word :
    Trace.Along (fun s call s' => Transfer.Runs 1 s call s') (Transfer.Lawful 1)
      (wordOpen, fun _ => Sector.ofBytes []) [.read 2] := by
  refine (transfers_clipped_iff HdrTree.word_backed (fun _ => Sector.ofBytes [])
    (show wordOpen.opTable 1 = some (some ⟨HdrTree.word.header, 0⟩) from rfl)
      rfl (by decide) (by decide) ?_).mpr ?_
  · intro call hcall
    rw [List.mem_singleton.mp hcall]
    exact ⟨by decide, by decide⟩
  · exact ⟨⟨_, rfl, .inr (.inr (by decide))⟩, fun _ _ => trivial⟩

/-- After one byte is read, a request for `INT_MAX` bytes is not cut. -/
theorem transfers_overrun_word :
    ¬ Trace.Along (fun s call s' => Transfer.Runs 1 s call s')
      (Transfer.Lawful 1)
      (wordOpen, fun _ => Sector.ofBytes []) [.read 1, .read 2147483647] := by
  rintro ⟨-, hrest⟩
  have hmoves : (Transfer.read 1).Moves ⟨HdrTree.word.header,
      0⟩ 0 (fun _ => Sector.ofBytes []) 1
      fun _ => Sector.ofBytes [] := by
    refine ⟨_, HdrTree.readAt_eq HdrTree.word_backed rfl _ (n := 1) (p := 0)
      (by decide), ?_, rfl⟩
    rw [List.length_take, List.length_drop,
      HdrTree.length_content HdrTree.word_backed]
    decide
  have hrun := Transfer.run_of_ok
    (show wordOpen.opTable 1 = some (some ⟨HdrTree.word.header, 0⟩)
      from rfl) hmoves
  obtain ⟨hlaw, -⟩ := hrest (_, _) ⟨1, hrun⟩
  have hopen : Transfer.Open HdrTree.word 1 ({ wordOpen with
      opTable := Function.update wordOpen.opTable 1
        (some (some ⟨HdrTree.word.header, int32 (0 + 1)⟩)) },
      fun _ => Sector.ofBytes []) ⟨HdrTree.word.header, int32 (0 + 1)⟩ 1 :=
    ⟨Function.update_self (1 : OpenFileId) _ wordOpen.opTable, rfl,
      int32_of_nat (n := 1) (by decide), by decide⟩
  have hvalid : (Transfer.read 2147483647).Valid HdrTree.word.bytes :=
    ⟨by decide, by decide⟩
  obtain ⟨file, hid, hrange⟩ :=
    (Transfer.lawful_iff HdrTree.word_backed hopen hvalid).mp hlaw
  rw [hopen.entry] at hid
  cases hid
  rw [hopen.length, hopen.position] at hrange
  rcases hrange with hnone | hend | hsum
  · exact absurd hnone (by decide)
  · exact absurd hend (by decide)
  · exact absurd hsum (by decide)

end EroikoBlue.MP4
