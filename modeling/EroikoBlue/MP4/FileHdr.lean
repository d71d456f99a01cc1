/-
# `MP4.FileHdr` — `filesys/filehdr.cc`

A file header describes where the data of a file lies.  It is a tree: a node has
29 slots, and a slot is either a data sector (a leaf) or the sector of another
node, which `map` tells apart.  `numBytes`, `numSectors`, `map` and
`dataSectors` fill exactly one sector and are written to it; `startSector` (the
index of the first leaf below each slot, with an end marker after the last used
one), `children` and `additionalSector` exist in memory only, and `FetchFrom`
computes them again.

The functions below are those of the source, loop by loop.  A loop over the
slots of a header in memory walks its `children` array; a loop that builds a
header counts the slots left, and takes the recursive call it makes as an
argument.  `Allocate` and `FetchFrom` recurse on a depth bound: `Allocate` needs
one level per sector at most (`allocate` passes that), and a chain of headers
longer than the disk has sectors meets one of them twice, so `FetchFrom` stops
on `NumSectors` levels exactly when the source never returns.

`N_SECTORS ^ floor(log r / log N_SECTORS)` is computed in floating point by the
source; here it is the exact largest power of 29 not above `r`.
-/
import Mathlib.Algebra.Group.Nat.Defs
import Mathlib.Data.Nat.Log
import EroikoBlue.MP4.Bitmap
import EroikoBlue.MP4.Disk

namespace EroikoBlue.MP4

open Bytes

/-- `SectorSize / sizeof(int)`: the number of words of a header. -/
abbrev FILEHDR_SZ : Nat := 32

/-- The number of words in front of `dataSectors`. -/
abbrev MEMBER_SZ : Nat := 3

/-- The number of slots of a header. -/
abbrev N_SECTORS : Nat := FILEHDR_SZ - MEMBER_SZ

abbrev INVALID_SECTOR : Int := -1

/-- A header in memory; a `NULL` child or map is `none`. -/
structure FileHeader where
  numBytes : Int
  numSectors : Int
  map : Option Bitmap
  dataSectors : List Int
  startSector : List Int
  children : List (Option FileHeader)
  additionalSector : Int

namespace FileHeader

/-- `new FileHeader`. -/
def fresh : FileHeader where
  numBytes := -1
  numSectors := -1
  map := none
  dataSectors := List.replicate N_SECTORS INVALID_SECTOR
  startSector := List.replicate (N_SECTORS + 1) INVALID_SECTOR
  children := List.replicate N_SECTORS none
  additionalSector := 1

/-- `FileHeader::FileLength`. -/
def fileLength (hdr : FileHeader) : Int := hdr.numBytes

/-! ## `Allocate` -/

/-- Step 1 of the loop of `Allocate`: the number of sectors slot `i` gets. -/
def curSector (i : Nat) (remainSector totalSector : Int) : Int :=
  let cur : Int := if i + 1 < N_SECTORS then
      (N_SECTORS ^ Nat.log N_SECTORS remainSector.toNat : Nat) else remainSector
  let cur := if cur = totalSector then cur.tdiv N_SECTORS else cur
  if remainSector = 1 then 1 else cur

/-- The number of bytes slot `i` gets. -/
def curBytes (cur remainBytes : Int) : Int :=
  if cur * SectorSize > remainBytes then remainBytes else cur * SectorSize

/-- The `while` loop of `Allocate` from slot `i` on, with `k` slots left.
`alloc freeMap total current bytes` is the recursive call on a new header. -/
def allocateLoop (alloc : Bitmap → Int → Int → Int →
      Except Fault (FileHeader × Bitmap)) (totalSector currentSector : Int) :
    Nat → Nat → FileHeader → Bitmap → Int → Int →
      Except Fault (Nat × FileHeader × Bitmap × Int × Int)
  | k, i, hdr, freeMap, remainSector, remainBytes =>
    if remainSector < 1 then
      pure (i, hdr, freeMap, remainSector, remainBytes)
    else match k with
    | 0 => .error (.undefined "startSector[i], dataSectors[i]")
    | k + 1 => do
      let cur := curSector i remainSector totalSector
      let bytes := curBytes cur remainBytes
      let start := currentSector + totalSector - remainSector
      let (sector, freeMap) := freeMap.findAndSet
      assertMsg (sector ≥ 0) "Not enough space for single sector allocation!"
      let hdr := { hdr with
        startSector := hdr.startSector.set i start
        dataSectors := hdr.dataSectors.set i sector }
      if cur = 1 then
        allocateLoop alloc totalSector currentSector k (i + 1)
          { hdr with children := hdr.children.set i none } freeMap
          (remainSector - cur) (remainBytes - bytes)
      else match hdr.map with
        | none => .error (.undefined "map->Mark")
        | some map => do
          let map ← map.mark i
          let (child, freeMap) ← alloc freeMap cur start bytes
          allocateLoop alloc totalSector currentSector k (i + 1)
            { hdr with
              map := some map
              children := hdr.children.set i (some child)
              additionalSector :=
                hdr.additionalSector + child.additionalSector }
            freeMap (remainSector - cur) (remainBytes - bytes)

/-- `FileHeader::Allocate(freeMap, totalSector, currentSector, totalBytes)`, at
most `fuel` levels deep. -/
def allocateNode : Nat → FileHeader → Bitmap → Int → Int → Int →
    Except Fault (FileHeader × Bitmap)
  | 0, _, _, _, _, _ => .error .diverges
  | fuel + 1, hdr, freeMap, totalSector, currentSector, totalBytes => do
    let hdr := { hdr with
      additionalSector := 1, numSectors := totalSector, numBytes := totalBytes }
    assertMsg (freeMap.numClear > totalSector) "Not enough space for allocation"
    assertMsg hdr.map.isNone
      "Warning: the map member of the FileHeader is not in the initial status!"
    let hdr := { hdr with map := some (Bitmap.new N_SECTORS) }
    let (i, hdr, freeMap, remainSector, remainBytes) ←
      allocateLoop (allocateNode fuel fresh) totalSector currentSector N_SECTORS
        0 hdr freeMap
        totalSector totalBytes
    assertMsg (remainSector = 0 ∧ remainBytes = 0)
      "Error: remainSector or remainBytes is not zero after allocated all file header space!"
    pure ({ hdr with startSector := hdr.startSector.set i (currentSector + totalSector) }, freeMap)

/-- The macro `divRoundUp` at `int`. -/
def divRoundUp (n s : Int) : Int := n.tdiv s + if n.tmod s > 0 then 1 else 0

/-- `FileHeader::Allocate(freeMap, fileSize)`. -/
def allocate (hdr : FileHeader) (freeMap : Bitmap) (fileSize : Int) :
    Except Fault (FileHeader × Bitmap) :=
  let totalSectors := divRoundUp fileSize SectorSize
  allocateNode (totalSectors.toNat + 1) hdr freeMap totalSectors 0 fileSize

/-! ## `Deallocate` -/

mutual

/-- `FileHeader::Deallocate`; the header ends with its arrays reset. -/
def deallocate : FileHeader → Bitmap → Except Fault (FileHeader × Bitmap)
  | ⟨numBytes, numSectors, map, dataSectors, _, children, additionalSector⟩,
      freeMap =>
    match map with
    | none => .error (.undefined "map->Test")
    | some map => do
      let freeMap ← deallocateFrom dataSectors children 0 map freeMap
      pure ({ fresh with
        numBytes := numBytes, numSectors := numSectors,
        additionalSector := additionalSector }, freeMap)
termination_by structural hdr => hdr

/-- The loop of `Deallocate` from slot `i` on. -/
def deallocateFrom (dataSectors : List Int) :
    List (Option FileHeader) → Nat → Bitmap → Bitmap → Except Fault Bitmap
  | [], _, _, freeMap => pure freeMap
  | child :: children, i, map, freeMap => do
    let nonLeaf ← map.test i
    if nonLeaf then
      let freeMap ← deallocateChild child freeMap
      let map ← map.clear i
      deallocateFrom dataSectors children (i + 1) map freeMap
    else if dataSectors.getD i INVALID_SECTOR = INVALID_SECTOR then
      pure freeMap
    else
      let marked ← freeMap.test (dataSectors.getD i INVALID_SECTOR)
      assertMsg marked
        "Error occurs in deallocation part: the sector managed directly is corrupt!"
      let freeMap ← freeMap.clear (dataSectors.getD i INVALID_SECTOR)
      deallocateFrom dataSectors children (i + 1) map freeMap
termination_by structural children => children

/-- `children[i]->Deallocate(freeMap)`, after the assertion that it is set. -/
def deallocateChild : Option FileHeader → Bitmap → Except Fault Bitmap
  | none, _ => .error (.assertFailed
        ("Error occurs in deallocation part: the children pointer "
      ++ "hasn't be set correctly when allocating / fetching"))
  | some child, freeMap => do
    let (_, freeMap) ← deallocate child freeMap
    pure freeMap
termination_by structural child => child

end

/-! ## `FetchFrom` -/

/-- The `for` loop of `FetchFrom` from slot `i` on, with `k` slots left. -/
def fetchLoop (fetch : Int → Int → Except Fault FileHeader) (map : Bitmap)
    (currentSector : Int) :
    Nat → Nat → Int → FileHeader → Except Fault (Nat × Int × FileHeader)
  | 0, i, childSector, hdr => pure (i, childSector, hdr)
  | k + 1, i, childSector, hdr => do
    let hdr := { hdr with
      startSector := hdr.startSector.set i (currentSector + childSector) }
    let nonLeaf ← map.test i
    if nonLeaf then
      let child ← fetch (hdr.dataSectors.getD i INVALID_SECTOR)
        (currentSector + childSector)
      fetchLoop fetch map currentSector k (i + 1)
        (childSector + child.numSectors)
        { hdr with
          children := hdr.children.set i (some child)
          additionalSector := hdr.additionalSector + child.additionalSector }
    else if hdr.dataSectors.getD i INVALID_SECTOR = INVALID_SECTOR then
      pure (i, childSector, hdr)
    else
      fetchLoop fetch map currentSector k (i + 1) (childSector + 1) hdr

/-- `FileHeader::FetchFrom(sector, currentSector)`, at most `fuel` levels
deep. -/
def fetchNode (d : Disk) : Nat → FileHeader → Int → Int →
    Except Fault FileHeader
  | 0, _, _, _ => .error .diverges
  | fuel + 1, hdr, sector, currentSector => do
    let data ← readSector d sector
    let cache := data.words
    assertMsg hdr.map.isNone
      "Warning: the map member of the FileHeader is not in the initial status!"
    let map := (Bitmap.new N_SECTORS).import (cache.drop (MEMBER_SZ - 1))
    let hdr := { hdr with
      numBytes := (cache.getD 0 0).toInt
      numSectors := (cache.getD 1 0).toInt
      map := some map
      dataSectors := ((cache.drop MEMBER_SZ).take N_SECTORS).map BitVec.toInt
      additionalSector := 1 }
    let (i, childSector, hdr) ←
      fetchLoop (fetchNode d fuel fresh) map currentSector N_SECTORS 0 0 hdr
    assertMsg (childSector = hdr.numSectors)
      "The total sector count does not match when re-building header tree use FetchFrom"
    pure { hdr with
      startSector := hdr.startSector.set i (currentSector + childSector) }

/-- `FileHeader::FetchFrom(sector)`. -/
def fetchFrom (hdr : FileHeader) (d : Disk) (sector : Int) :
    Except Fault FileHeader :=
  fetchNode d NumSectors hdr sector 0

/-! ## `WriteBack` -/

mutual

/-- `FileHeader::WriteBack`. -/
def writeBack : FileHeader → Int → FsM Unit
  | ⟨numBytes, numSectors, map, dataSectors, _, children, _⟩, sector =>
    match map with
    | none => throw (.undefined "map->Export")
    | some map => do
      let cache := BitVec.ofInt 32 numBytes :: BitVec.ofInt 32 numSectors ::
        (map.export ++ dataSectors.map (BitVec.ofInt 32))
      writeSector sector (Sector.ofWords cache)
      writeBackFrom map dataSectors children 0
termination_by structural hdr => hdr

/-- The loop of `WriteBack` from slot `i` on. -/
def writeBackFrom (map : Bitmap) (dataSectors : List Int) :
    List (Option FileHeader) → Nat → FsM Unit
  | [], _ => pure ()
  | child :: children, i => do
    let nonLeaf ← Outcome.lift (map.test i)
    if nonLeaf then
      writeBackChild child (dataSectors.getD i INVALID_SECTOR)
      writeBackFrom map dataSectors children (i + 1)
    else
      writeBackFrom map dataSectors children (i + 1)
termination_by structural children => children

/-- `children[i]->WriteBack(dataSectors[i])`, after the assertion that it is
set. -/
def writeBackChild : Option FileHeader → Int → FsM Unit
  | none, _ => throw (.assertFailed
        "The children is invalid now but attempt to write back...")
  | some child, sector => writeBack child sector
termination_by structural child => child

end

/-! ## `ByteToSector` -/

mutual

/-- `FileHeader::ByteToSector`. -/
def byteToSector : FileHeader → Int → Except Fault Int
  | ⟨_, _, map, dataSectors, startSector, children, _⟩, offset =>
    match map with
    | none => .error (.undefined "map->Test")
    | some map => byteToSectorFrom map dataSectors startSector children 0 offset
termination_by structural hdr => hdr

/-- The loop of `ByteToSector` from slot `i` on. -/
def byteToSectorFrom (map : Bitmap) (dataSectors startSector : List Int) :
    List (Option FileHeader) → Nat → Int → Except Fault Int
  | [], _, _ =>
      .error (.assertFailed "Error: the file doesn't contain the offset")
  | child :: children, i, offset =>
    let offsetSector := offset.tdiv SectorSize
    if startSector.getD i INVALID_SECTOR ≤ offsetSector ∧
        offsetSector < startSector.getD (i + 1) INVALID_SECTOR then do
      let nonLeaf ← map.test i
      if nonLeaf then byteToSectorChild child offset
      else pure (dataSectors.getD i INVALID_SECTOR)
    else byteToSectorFrom map dataSectors startSector children (i + 1) offset
termination_by structural children => children

/-- `children[i]->ByteToSector(offset)`, after the assertion that it is set. -/
def byteToSectorChild : Option FileHeader → Int → Except Fault Int
  | none, _ => .error (.assertFailed
        "Invalid children sector found while fetching ByteToSector")
  | some child, offset => byteToSector child offset
termination_by structural child => child

end

end FileHeader

end EroikoBlue.MP4
