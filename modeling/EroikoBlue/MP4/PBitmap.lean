/-
# `MP4.PBitmap` — `filesys/pbitmap.cc`

A bitmap kept in a file.  `WriteBack` writes the words, and reading overwrites
the words of a bitmap in memory and leaves its other two fields as they were: a
map read by the constructor is searched from bit 0, and its `size` is the number
of all bits, whatever the file says.

The consequence is in `freeMapOf_map`: what one program wrote, the next one
reads with the same bits and a count of all bits.  `IsMapFile` is what is needed
of the file for that, its length and nothing about its place; `freeMap` is then
the map on a disk, which the invariant of the file system speaks of.
-/
import EroikoBlue.MP4.FileData

namespace EroikoBlue.MP4

open Bytes

namespace PersistentBitmap

/-- The number of bytes of a map: `numWords * sizeof(unsigned)`. -/
def mapSize (b : Bitmap) : Nat := numWords b.numBits * 4

/-- `PersistentBitmap::FetchFrom`: `ReadAt` into the words of the map. -/
def fetchFrom (b : Bitmap) (file : OpenFile) (d : Disk) :
    Except Fault Bitmap := do
  let got ← file.readAt d (mapSize b) 0
  pure (b.load (bytesToWords (blit (wordsToBytes b.map) got 0)))

/-- `PersistentBitmap::PersistentBitmap(file, numItems)`. -/
def ofFile (file : OpenFile) (numItems : Nat) (d : Disk) :
    Except Fault Bitmap :=
  fetchFrom (Bitmap.new numItems) file d

/-- `PersistentBitmap::WriteBack`. -/
def writeBack (b : Bitmap) (file : OpenFile) : FsM Unit := do
  let _ ← file.writeAt (wordsToBytes b.map) (mapSize b) 0
  pure ()

end PersistentBitmap

/-! ## The free map on the disk -/

/-- `FreeMapFileSize`: one bit for each sector. -/
abbrev FreeMapFileSize : Nat := NumSectors / BitsInByte

theorem freeMapFileSize_eq : FreeMapFileSize = 131072 := by
  simp only [FreeMapFileSize, numSectors_eq, BitsInByte]

theorem numWords_numSectors : numWords NumSectors = 32768 := by
  rw [numSectors_eq, numWords]
  simp only [BitsInWord]
  decide

/-- The bitmap a free map of the disk is read into. -/
def freeMapOf (words : List Word) : Bitmap := (Bitmap.new NumSectors).load words

@[simp] theorem freeMapOf_numBits (words : List Word) :
    (freeMapOf words).numBits = NumSectors := by
  rw [freeMapOf, Bitmap.load_numBits, Bitmap.new_numBits]

@[simp] theorem freeMapOf_size (words : List Word) :
    (freeMapOf words).size = NumSectors := by
  rw [freeMapOf, Bitmap.load_size, Bitmap.new_size]

theorem freeMapOf_map {words : List Word} (h : words.length = 32768) :
    (freeMapOf words).map = words := by
  have hn : numWords (Bitmap.new NumSectors).numBits = 32768 := by
    rw [Bitmap.new_numBits, numWords_numSectors]
  rw [freeMapOf, Bitmap.load_map (by omega), hn, ← h, List.take_length]

theorem freeMapOf_bit {b : Bitmap} (hn : b.numBits = NumSectors) (j : Nat) :
    (freeMapOf b.map).bit j = b.bit j := by
  have hlen : b.map.length = 32768 := by
    rw [b.length_map, hn, numWords_numSectors]
  rw [Bitmap.bit, Bitmap.bit, freeMapOf_map hlen]

namespace HdrTree

/-- The words of the free map, read from its file. -/
def mapWords (d : Disk) (t : HdrTree) : List Word := bytesToWords (t.content d)

/-- The free map on the disk. -/
def freeMap (d : Disk) (t : HdrTree) : Bitmap := freeMapOf (t.mapWords d)

theorem freeMap_congr {t : HdrTree} {d d' : Disk}
    (h : ∀ s ∈ t.leaves, d' s = d s) :
    t.freeMap d' = t.freeMap d := by
  rw [freeMap, mapWords, content_congr h, freeMap, mapWords]

theorem fetchFrom_bitmap {t : HdrTree} (h : t.Backed) {file : OpenFile}
    (hfile : file.hdr = t.header) {b : Bitmap}
    (hb : t.bytes = PersistentBitmap.mapSize b) (d : Disk) :
    PersistentBitmap.fetchFrom b file d = .ok (b.load (t.mapWords d)) := by
  have hlc := length_content h d
  have hint := h.bytes_int32
  have hread :=
    readAt_eq h hfile d (n := PersistentBitmap.mapSize b) (p := 0) (by omega)
  rw [List.drop_zero, List.take_of_length_le (by omega)] at hread
  have hmap : (wordsToBytes b.map).length = PersistentBitmap.mapSize b := by
    rw [length_wordsToBytes, b.length_map, PersistentBitmap.mapSize,
      Nat.mul_comm]
  rw [PersistentBitmap.fetchFrom, show (0 : Int) = (0 : Nat) from rfl, hread,
    Outcome.ok_bind,
    blit_zero (by omega)]
  rfl

/-- Writing one: the content is the words, and nothing outside the file
changes. -/
theorem writeBack_bitmap {t : HdrTree} (h : t.Backed) {file : OpenFile}
    (hfile : file.hdr = t.header) {b : Bitmap}
    (hb : t.bytes = PersistentBitmap.mapSize b) (d : Disk) :
    ∃ d', PersistentBitmap.writeBack b file d = .ok () d' ∧
      (∀ s, s ∉ t.leaves → d' s = d s) ∧
      t.mapWords d' = b.map := by
  have hlen : (wordsToBytes b.map).length = PersistentBitmap.mapSize b := by
    rw [length_wordsToBytes, b.length_map, PersistentBitmap.mapSize,
      Nat.mul_comm]
  have hint := h.bytes_int32
  obtain ⟨d', hrun, hframe, hcontent⟩ := writeAt_eq h hfile d
    (n := PersistentBitmap.mapSize b) (p := 0)
    (Nat.le_of_eq hlen.symm) (by omega)
  refine ⟨d', ?_, hframe, ?_⟩
  · rw [PersistentBitmap.writeBack, show (0 : Int) = (0 : Nat) from rfl,
      Outcome.bind_of_ok hrun]
    rfl
  · rw [mapWords, hcontent, hb, List.take_of_length_le (by omega),
      blit_zero (by rw [length_content h, hlen, hb]), bytesToWords_wordsToBytes]

/-- The header of the free-map file. -/
structure IsMapFile (t : HdrTree) : Prop where
  wf : t.WF
  bytes : t.bytes = FreeMapFileSize

namespace IsMapFile
variable {t : HdrTree}

theorem full (h : t.IsMapFile) : t.bytes = t.leaves.length * SectorSize := by
  have hfit := h.wf.fits
  have hb := h.bytes
  rw [freeMapFileSize_eq] at hb
  simp only [HdrSlots.Fits, SectorSize, HdrTree.leaves] at *
  omega

theorem mapSize (h : t.IsMapFile) {b : Bitmap} (hn : b.numBits = NumSectors) :
    t.bytes = PersistentBitmap.mapSize b := by
  rw [h.bytes, freeMapFileSize_eq, PersistentBitmap.mapSize, hn,
    numWords_numSectors]

theorem ofFile_eq (h : t.IsMapFile) {file : OpenFile}
    (hfile : file.hdr = t.header) (d : Disk) :
    PersistentBitmap.ofFile file NumSectors d = .ok (t.freeMap d) :=
  fetchFrom_bitmap h.wf.backed hfile (h.mapSize (Bitmap.new_numBits _)) d

/-- Writing it: the content is the words, and nothing outside the file
changes. -/
theorem writeBack_eq (h : t.IsMapFile)
    {file : OpenFile} (hfile : file.hdr = t.header) (d : Disk) {fm : Bitmap}
    (hn : fm.numBits = NumSectors) :
    ∃ d', PersistentBitmap.writeBack fm file d = .ok () d' ∧
      (∀ s, s ∉ t.leaves → d' s = d s) ∧
      t.mapWords d' = fm.map ∧ ∀ j, (t.freeMap d').bit j = fm.bit j := by
  obtain ⟨d', hrun, hframe, hwords⟩ :=
    writeBack_bitmap h.wf.backed hfile (h.mapSize hn) d
  refine ⟨d', hrun, hframe, hwords, fun j => ?_⟩
  rw [freeMap, hwords, freeMapOf_bit hn]

end IsMapFile

end HdrTree

end EroikoBlue.MP4
