/-
# `MP4.OpenFile` — `filesys/openfile.cc`

A file that is open: its header, read when it was opened, and a seek position.
`ReadAt` and `WriteAt` move whole sectors; a request that starts or ends inside
one is widened to it, and `WriteAt` first reads the sectors it will only change
in part.

Sizes and positions are `int`s and wrap, so a sum of two of them can be
negative; what the code then does with a buffer of negative length, or at an
offset before the start of its buffer, is an outcome of its own here.  Read and
write give back the bytes moved (`into` and `from` are the caller's buffers),
and the count is their number.
-/
import EroikoBlue.MP4.FileHdr

namespace EroikoBlue.MP4

open Bytes

structure OpenFile where
  hdr : FileHeader
  seekPosition : Int

namespace OpenFile

/-- `new OpenFile(sector)`. -/
def «open» (d : Disk) (sector : Int) : Except Fault OpenFile := do
  let hdr ← FileHeader.fresh.fetchFrom d sector
  pure { hdr := hdr, seekPosition := 0 }

/-- `OpenFile::Seek`. -/
def seek (file : OpenFile) (position : Int) : OpenFile :=
  { file with seekPosition := position }

/-- `OpenFile::Length`. -/
def length (file : OpenFile) : Int := file.hdr.fileLength

/-! ## Buffers -/

/-- `new char[n]`, set to zero. -/
def newBuffer (n : Int) : Except Fault (List Byte) :=
  if n < 0 then .error (.exception "bad_array_new_length")
    else .ok (List.replicate n.toNat 0)

/-- `bcopy(src, &buf[off], |src|)`. -/
def copyInto (buf src : List Byte) (off : Int) : Except Fault (List Byte) :=
  if 0 ≤ off ∧ off + src.length ≤ buf.length then .ok (blit buf src off.toNat)
  else .error (.undefined "bcopy outside the buffer")

/-- `bcopy(&buf[off], …, n)`. -/
def copyFrom (buf : List Byte) (off n : Int) : Except Fault (List Byte) :=
  if 0 ≤ off ∧ 0 ≤ n ∧ off + n ≤ buf.length then
    .ok ((buf.drop off.toNat).take n.toNat)
  else .error (.undefined "bcopy outside the buffer")

/-! ## The two loops over sectors -/

/-- The sectors from `i` on, `k` of them. -/
def readSectors (hdr : FileHeader) (d : Disk) : Nat → Int →
    Except Fault (List Byte)
  | 0, _ => pure []
  | k + 1, i => do
    let sector ← hdr.byteToSector (int32 (i * SectorSize))
    let data ← readSector d sector
    let rest ← readSectors hdr d k (i + 1)
    pure (data.bytes ++ rest)

def writeSectors (hdr : FileHeader) : Nat → Int → List Byte → FsM Unit
  | 0, _, _ => pure ()
  | k + 1, i, buf => do
    let secNum ← Outcome.lift (hdr.byteToSector (int32 (i * SectorSize)))
    writeSector secNum (Sector.ofBytes (buf.take SectorSize))
    writeSectors hdr k (i + 1) (buf.drop SectorSize)

/-! ## Reading and writing -/

/-- The request after `numBytes` is cut at the end of the file. -/
def clip (fileLength numBytes position : Int) : Int :=
  if int32 (position + numBytes) > fileLength then int32 (fileLength - position)
    else numBytes

/-- The index of the last sector of a request. -/
def lastSector (numBytes position : Int) : Int :=
  (int32 (position + numBytes - 1)).tdiv SectorSize

/-- `OpenFile::ReadAt`: the bytes copied out. -/
def readAt (file : OpenFile) (d : Disk) (numBytes position : Int) :
    Except Fault (List Byte) :=
  let fileLength := file.hdr.fileLength
  if numBytes ≤ 0 ∨ position ≥ fileLength then pure []
  else do
    let numBytes := clip fileLength numBytes position
    let firstSector := position.tdiv SectorSize
    let lastSector := lastSector numBytes position
    let numSectors := 1 + lastSector - firstSector
    let _ ← newBuffer (int32 (numSectors * SectorSize))
    let buf ← readSectors file.hdr d numSectors.toNat firstSector
    copyFrom buf (position - firstSector * SectorSize) numBytes

/-- `if (part) ReadAt(&buf[off], SectorSize, sector * SectorSize)`. -/
def readPartial (file : OpenFile) (d : Disk) (part : Prop) [Decidable part]
    (buf : List Byte) (off sector : Int) : Except Fault (List Byte) :=
  if part then do
    let got ← file.readAt d SectorSize (int32 (sector * SectorSize))
    copyInto buf got off
  else pure buf

/-- The buffer `WriteAt` fills: zeros, the partly changed first and last sectors
as they are on the disk, and over them the bytes to be written. -/
def writeBuffer (file : OpenFile) (d : Disk) (src : List Byte)
    (numBytes position : Int) :
    Except Fault (List Byte) := do
  let firstSector := position.tdiv SectorSize
  let lastSector := lastSector numBytes position
  let numSectors := 1 + lastSector - firstSector
  let firstAligned := position = int32 (firstSector * SectorSize)
  let lastAligned :=
    int32 (position + numBytes) = int32 ((lastSector + 1) * SectorSize)
  let buf ← newBuffer (int32 (numSectors * SectorSize))
  let buf ← file.readPartial d (¬ firstAligned) buf 0 firstSector
  let buf ← file.readPartial d (¬ lastAligned ∧
    (firstSector ≠ lastSector ∨ firstAligned)) buf
    ((lastSector - firstSector) * SectorSize) lastSector
  let src ← copyFrom src 0 numBytes
  copyInto buf src (position - firstSector * SectorSize)

/-- `OpenFile::WriteAt`: the number of bytes written. -/
def writeAt (file : OpenFile) (src : List Byte)
    (numBytes position : Int) : FsM Int :=
  let fileLength := file.hdr.fileLength
  if numBytes ≤ 0 ∨ position ≥ fileLength then pure 0
  else do
    let numBytes := clip fileLength numBytes position
    let firstSector := position.tdiv SectorSize
    let numSectors := 1 + lastSector numBytes position - firstSector
    let buf ← Outcome.reads fun d => file.writeBuffer d src numBytes position
    writeSectors file.hdr numSectors.toNat firstSector buf
    pure numBytes

/-- `OpenFile::Read`. -/
def read (file : OpenFile) (d : Disk) (numBytes : Int) :
    Except Fault (List Byte × OpenFile) := do
  let got ← file.readAt d numBytes file.seekPosition
  pure (got,
    { file with seekPosition := int32 (file.seekPosition + got.length) })

/-- `OpenFile::Write`. -/
def write (file : OpenFile) (src : List Byte) (numBytes : Int) :
    FsM (Int × OpenFile) := do
  let result ← file.writeAt src numBytes file.seekPosition
  pure (result,
    { file with seekPosition := int32 (file.seekPosition + result) })

theorem write_of_ok {file : OpenFile} {src : List Byte} {n r : Int}
    {d d' : Disk} (h : file.writeAt src n file.seekPosition d = .ok r d') :
    file.write src n d = .ok (r,
        { file with seekPosition := int32 (file.seekPosition + r) }) d' := by
  rw [write, Outcome.bind_of_ok h]
  rfl

theorem read_of_ok {file : OpenFile} {d : Disk} {n : Int} {got : List Byte}
    (h : file.readAt d n file.seekPosition = .ok got) :
    file.read d n = .ok (got, { file with
        seekPosition := int32 (file.seekPosition + got.length) }) := by
  rw [read, h]
  rfl

end OpenFile

end EroikoBlue.MP4
