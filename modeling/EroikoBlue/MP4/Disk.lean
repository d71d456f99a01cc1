/-
# `MP4.Disk` — the disk as an array of sectors

The file system runs with one operation at a time, so the synchronous disk of
`synchdisk.cc` over `machine/disk.cc` is an array of 128-byte sectors that
returns the last value written; the two assertions on the sector number are
kept.  `FsM` is the monad of everything that touches the disk: a computation
that stops keeps the disk as it was at that moment, because the disk is a file
of the host and survives the process.
-/
import Mathlib.Logic.Function.Basic
import EroikoBlue.Debug
import EroikoBlue.Lib.Bytes

namespace EroikoBlue.MP4

open Bytes

abbrev SectorSize : Nat := 128
abbrev SectorsPerTrack : Nat := 1024
abbrev NumTracks : Nat := 1024

/-- `SectorsPerTrack * NumTracks`, one million and more; irreducible, so that no
tactic counts up to it. -/
@[irreducible] def NumSectors : Nat := SectorsPerTrack * NumTracks

theorem numSectors_eq : NumSectors = 1048576 := by unfold NumSectors; rfl

structure Sector where
  bytes : List Byte
  length_bytes : bytes.length = SectorSize

namespace Sector

theorem ext' {a b : Sector} (h : a.bytes = b.bytes) : a = b := by
  cases a; cases b; simp only at h; subst h; rfl

/-- The sector holding a buffer, cut or filled with zeros to the right
length. -/
def ofBytes (bs : List Byte) : Sector where
  bytes := bs.take SectorSize ++ List.replicate (SectorSize - bs.length) 0
  length_bytes := by
    rw [List.length_append, List.length_take, List.length_replicate]; omega

theorem ofBytes_bytes {bs : List Byte} (h : bs.length = SectorSize) :
    (ofBytes bs).bytes = bs := by
  simp only [ofBytes, h, Nat.sub_self, List.replicate_zero, List.append_nil]
  exact List.take_of_length_le (Nat.le_of_eq h)

/-- The 32 words of a sector. -/
def words (s : Sector) : List Word := bytesToWords s.bytes

def ofWords (ws : List Word) : Sector := ofBytes (wordsToBytes ws)

theorem words_ofWords {ws : List Word} (h : ws.length = 32) :
    (ofWords ws).words = ws := by
  rw [words, ofWords, ofBytes_bytes (by rw [length_wordsToBytes, h]),
    bytesToWords_wordsToBytes]

end Sector

/-- A formatted or an unformatted disk; only sectors below `NumSectors` are
used. -/
abbrev Disk := Nat → Sector

/-- Computations on the disk. -/
abbrev FsM := EStateM Fault Disk

/-- `SynchDisk::ReadSector`, with the assertion of `Disk::ReadRequest`. -/
def readSector (d : Disk) (sectorNumber : Int) : Except Fault Sector := do
  assertMsg (0 ≤ sectorNumber ∧ sectorNumber < NumSectors) ""
  pure (d sectorNumber.toNat)

/-- `SynchDisk::WriteSector`, with the assertion of `Disk::WriteRequest`. -/
def writeSector (sectorNumber : Int) (data : Sector) : FsM Unit := do
  Outcome.lift (assertMsg (0 ≤ sectorNumber ∧ sectorNumber < NumSectors) "")
  modify fun d => Function.update d sectorNumber.toNat data

theorem readSector_eq {d : Disk} {s : Nat} (h : s < NumSectors) :
    readSector d s = .ok (d s) := by
  rw [readSector, assertMsg_pos ⟨Int.natCast_nonneg s, Int.ofNat_lt.mpr h⟩]
  rfl

theorem writeSector_eq {d : Disk} {s : Nat} (h : s < NumSectors)
    (data : Sector) :
    writeSector s data d = .ok () (Function.update d s data) := by
  rw [writeSector, Outcome.bind_of_ok (Outcome.lift_of_ok
    (assertMsg_pos ⟨Int.natCast_nonneg s, Int.ofNat_lt.mpr h⟩))]
  rfl

end EroikoBlue.MP4
