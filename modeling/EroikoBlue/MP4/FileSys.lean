/-
# `MP4.FileSys` — `filesys/filesys.cc`

The operations of the file system, one definition for each, over the free map,
the directories and the open files of the modules before.  `FsM` threads the
disk; what a failing assertion leaves on it is what was written before.

A `TraversePath` reads the parent directory of a path into memory; its
destructor writes that directory back.  Where the source constructs one on the
stack, `flush` stands at each `return` that runs the destructor, and an
assertion that fails skips it, because `abort` runs no destructor.
-/
import EroikoBlue.MP4.Directory
import EroikoBlue.MP4.PBitmap

namespace EroikoBlue.MP4

open Bytes

/-- Sector of the header of the free-map file. -/
abbrev FreeMapSector : Nat := 0

/-- Sector of the header of the root directory. -/
abbrev DirectorySector : Nat := 1

abbrev OpenFileId := Int

/-- `opTable` maps the identifiers in use to open files; `none` inside is the
pointer `OpenAsOpenFile` never set. -/
structure FileSystem where
  freeMapFile : OpenFile
  directoryFile : OpenFile
  opTable : OpenFileId → Option (Option OpenFile)

/-! ## Paths -/

/-- `'/'`. -/
abbrev delimeter : Byte := 47

/-- The pieces between the delimiters of a string. -/
def splitAtDelimeter : List Byte → List (List Byte)
  | [] => [[]]
  | c :: cs =>
      if c = delimeter then [] :: splitAtDelimeter cs
      else match splitAtDelimeter cs with
        | [] => [[c]]
        | w :: ws => (c :: w) :: ws

/-- `TraversePath::ParsePath`: the root, and the pieces of what follows the
first character.  On an empty path `substr(1)` throws. -/
def parsePath (path : List Byte) : Except Fault (List (List Byte)) :=
  let p := cstr path
  if p = [delimeter] then pure [[delimeter]]
  else if p = [] then .error (.exception "out_of_range")
  else pure ([delimeter] :: splitAtDelimeter (p.drop 1))

structure TraversePath where
  /-- The parent directory of the target. -/
  dir : Directory
  dirFile : OpenFile
  /-- `name` and `exist`, which stay unset when the walk does not succeed. -/
  target : Option (List Byte × Bool)

/-- The loop of the constructor, over the components between the root and the
last. -/
def traverseLoop (d : Disk) : List (List Byte) → Directory → OpenFile → Bool →
    Except Fault (Directory × OpenFile × Bool)
  | [], dir, dirFile, success => pure (dir, dirFile, success)
  | component :: rest, dir, dirFile, success => do
    let d_sec := dir.find component IS_DIR
    if d_sec = -1 then traverseLoop d rest dir dirFile false
    else do
      let dirFile ← OpenFile.open d d_sec
      let dir ← dir.fetchFrom dirFile d
      traverseLoop d rest dir dirFile success

/-- `TraversePath::TraversePath(path, isDir, root)`. -/
def traversePath (path : List Byte) (isDir : Bool) (root : OpenFile)
    (d : Disk) :
    Except Fault TraversePath := do
  let path_list ← parsePath path
  let dir ← (Directory.new NumDirEntries).fetchFrom root d
  let (dir, dirFile, success) ←
    traverseLoop d (path_list.drop 1).dropLast dir root true
  if success then
    let name := path_list.getLastD []
    if name.length > FileNameMaxLen then .error (.undefined "strcpy(name, …)")
    else pure { dir := dir, dirFile := dirFile, target := some (name, dir.find name isDir ≠ -1) }
  else pure { dir := dir, dirFile := dirFile, target := none }

/-- `TraversePath::~TraversePath`. -/
def TraversePath.flush (tr : TraversePath) : FsM Unit :=
  tr.dir.writeBack tr.dirFile

namespace FileSystem

/-! ## Construction -/

/-- `FileSystem::FileSystem(FALSE)`. -/
def boot (d : Disk) : Except Fault FileSystem := do
  let freeMapFile ← OpenFile.open d FreeMapSector
  let directoryFile ← OpenFile.open d DirectorySector
  pure { freeMapFile := freeMapFile, directoryFile := directoryFile, opTable := fun _ => none }

/-- `FileSystem::FileSystem(TRUE)`. -/
def format : FsM FileSystem := do
  let freeMap := Bitmap.new NumSectors
  let freeMap ← Outcome.lift (freeMap.mark FreeMapSector)
  let freeMap ← Outcome.lift (freeMap.mark DirectorySector)
  let (mapHdr, freeMap) ←
    Outcome.lift (FileHeader.fresh.allocate freeMap FreeMapFileSize)
  let (dirHdr, freeMap) ←
    Outcome.lift (FileHeader.fresh.allocate freeMap DirectoryFileSize)
  mapHdr.writeBack FreeMapSector
  dirHdr.writeBack DirectorySector
  let fs ← Outcome.reads boot
  PersistentBitmap.writeBack freeMap fs.freeMapFile
  (Directory.new NumDirEntries).writeBack fs.directoryFile
  pure fs

/-! ## Creating -/

/-- What `CreateFileDir` does once the path is known to be new. -/
def createNew (fs : FileSystem) (tr : TraversePath) (name : List Byte)
    (isDir : Bool) (initialSize : Int) : FsM Bool := do
  let freeMap ←
    Outcome.reads (PersistentBitmap.ofFile fs.freeMapFile NumSectors)
  let (sector, freeMap) := freeMap.findAndSet
  Outcome.lift (assertMsg (sector ≠ 0) "Not enough space to make a new object")
  let (_, dir) := tr.dir.add name sector isDir
  let size : Int := if isDir then DirectoryFileSize else initialSize
  Outcome.lift
    (assertMsg (size > 0) "Attempt to initialize an object with that size")
  let (hdr, freeMap) ← Outcome.lift (FileHeader.fresh.allocate freeMap size)
  hdr.writeBack sector
  PersistentBitmap.writeBack freeMap fs.freeMapFile
  if isDir then do
    let subDirFile ← Outcome.reads fun d => OpenFile.open d sector
    (Directory.new NumDirEntries).writeBack subDirFile
    TraversePath.flush { tr with dir := dir }
    pure true
  else do
    TraversePath.flush { tr with dir := dir }
    pure true

/-- `FileSystem::CreateFileDir`. -/
def createFileDir (fs : FileSystem) (path : List Byte) (isDir : Bool)
    (initialSize : Int) :
    FsM Bool := do
  let tr ← Outcome.reads (traversePath path isDir fs.directoryFile)
  match tr.target with
  | none => throw (.assertFailed "Invalid path in CreateFileDir")
  | some (_, true) => do
    tr.flush
    pure false
  | some (name, false) => fs.createNew tr name isDir initialSize

/-- `FileSystem::Mkdir`. -/
def mkdir (fs : FileSystem) (path : List Byte) : FsM Bool :=
  fs.createFileDir path IS_DIR 0

/-- `FileSystem::Create`. -/
def create (fs : FileSystem) (path : List Byte)
    (initialSize : Int) : FsM Bool :=
  fs.createFileDir path IS_FILE initialSize

/-! ## Removing -/

/-- `FileSystem::RemoveSingleObj`. -/
def removeSingleObj (d : Disk) (sector : Int) (freeMap : Bitmap) :
    Except Fault Bitmap := do
  let fileHdr ← FileHeader.fresh.fetchFrom d sector
  let (_, freeMap) ← fileHdr.deallocate freeMap
  freeMap.clear sector

/-- `FileSystem::Remove`. -/
def remove (fs : FileSystem) (path : List Byte) : FsM Bool := do
  let tr ← Outcome.reads (traversePath path IS_FILE fs.directoryFile)
  match tr.target with
  | some (name, true) => do
    let sector := tr.dir.find name IS_FILE
    if sector = -1 then do
      tr.flush
      pure false
    else do
      let freeMap ←
        Outcome.reads (PersistentBitmap.ofFile fs.freeMapFile NumSectors)
      let freeMap ← Outcome.reads fun d => removeSingleObj d sector freeMap
      let (_, dir) := tr.dir.remove name IS_FILE
      PersistentBitmap.writeBack freeMap fs.freeMapFile
      TraversePath.flush { tr with dir := dir }
      pure true
  | _ => throw (.assertFailed "Invalid path in Remove")

/-- The recursion of `RecursiveRemove`: `RemoveSingleObj` applied to everything
below the directory `name` of `dir`.  A chain of directories longer than the
disk has sectors meets one of them twice, so `NumSectors` levels are enough. -/
def removeBelow (d : Disk) (dir : Directory) (name : List Byte)
    (freeMap : Bitmap) :
    Except Fault Bitmap :=
  match dir.findIndex name IS_DIR with
  | none => .error (.undefined "table[-1]")
  | some i => do
    let sub ← dir.subDirectory i d
    sub.apply (removeSingleObj d) (removeSingleObj d) d NumSectors freeMap

/-- `if (attr == IS_DIR)`: everything below the target goes first. -/
def removeContent (dir : Directory) (name : List Byte) (attr : Bool)
    (freeMap : Bitmap) (d : Disk) :
    Except Fault Bitmap :=
  if attr = IS_DIR then removeBelow d dir name freeMap else pure freeMap

/-- What `RecursiveRemove` does once the target is found, as a file or as a
directory. -/
def removeTarget (fs : FileSystem) (tr : TraversePath) (name : List Byte)
    (attr : Bool) :
    FsM Bool := do
  let freeMap ←
    Outcome.reads (PersistentBitmap.ofFile fs.freeMapFile NumSectors)
  let freeMap ← Outcome.reads (removeContent tr.dir name attr freeMap)
  let sector := tr.dir.find name attr
  if sector = -1 then pure false
  else do
    let freeMap ← Outcome.reads fun d => removeSingleObj d sector freeMap
    let (_, dir) := tr.dir.remove name attr
    PersistentBitmap.writeBack freeMap fs.freeMapFile
    TraversePath.flush { tr with dir := dir }
    pure true

/-- `FileSystem::RecursiveRemove`. -/
def recursiveRemove (fs : FileSystem) (path : List Byte) : FsM Bool := do
  let tr ← Outcome.reads (traversePath path IS_FILE fs.directoryFile)
  match tr.target with
  | some (name, true) => fs.removeTarget tr name IS_FILE
  | _ => do
    tr.flush
    let tr ← Outcome.reads (traversePath path IS_DIR fs.directoryFile)
    match tr.target with
    | some (name, true) => fs.removeTarget tr name IS_DIR
    | _ => throw (.assertFailed "Invalid path in RecursiveRemove")

/-! ## Open files -/

/-- `FileSystem::OpenAsOpenFile`; the pointer is not set when the name is not
found. -/
def openAsOpenFile (fs : FileSystem) (path : List Byte) :
    FsM (Option OpenFile) := do
  let tr ← Outcome.reads (traversePath path IS_FILE fs.directoryFile)
  match tr.target with
  | none => throw (.assertFailed "Invalid path in Open")
  | some (name, _) => do
    let sector := tr.dir.find name IS_FILE
    if sector ≥ 0 then do
      let openFile ← Outcome.reads fun d => OpenFile.open d sector
      tr.flush
      pure (some openFile)
    else do
      tr.flush
      pure none

/-- The identifiers `rand()` gives, up to the first that is not in use. -/
def freeId (fs : FileSystem) : List OpenFileId → Except Fault OpenFileId
  | [] => .error .diverges
  | id :: rest => if (fs.opTable id).isNone then pure id else freeId fs rest

/-- `FileSystem::Open`; `rand` are the values of the calls of `rand()`. -/
def «open» (fs : FileSystem) (path : List Byte) (rand : List OpenFileId) :
    FsM (OpenFileId × FileSystem) := do
  let openFile ← fs.openAsOpenFile path
  let id ← Outcome.lift (fs.freeId rand)
  pure (id,
    { fs with opTable := Function.update fs.opTable id (some openFile) })

/-- `FileSystem::Read`: the bytes read into the buffer. -/
def read (fs : FileSystem) (size : Int) (id : OpenFileId) :
    FsM (List Byte × FileSystem) :=
  match fs.opTable id with
  | none => pure ([], fs)
  | some none => throw (.undefined "file->Read")
  | some (some file) => do
    let (got, file) ← Outcome.reads fun d => file.read d size
    pure (got,
      { fs with opTable := Function.update fs.opTable id (some (some file)) })

/-- `FileSystem::Write`. -/
def write (fs : FileSystem) (buf : List Byte) (size : Int) (id : OpenFileId) :
    FsM (Int × FileSystem) :=
  match fs.opTable id with
  | none => pure (0, fs)
  | some none => throw (.undefined "file->Write")
  | some (some file) => do
    let (result, file) ← file.write buf size
    pure (result,
      { fs with opTable := Function.update fs.opTable id (some (some file)) })

/-- `FileSystem::Close`. -/
def close (fs : FileSystem) (id : OpenFileId) : FsM (Int × FileSystem) :=
  match fs.opTable id with
  | none => pure (0, fs)
  | some none => throw (.undefined "delete file")
  | some (some _) =>
      pure (1, { fs with opTable := Function.update fs.opTable id none })

theorem write_of_ok {fs : FileSystem}
    {buf : List Byte} {size r : Int} {id : OpenFileId} {file file' : OpenFile}
    {d d' : Disk} (hid : fs.opTable id = some (some file))
    (h : file.write buf size d = .ok (r, file') d') :
    fs.write buf size id d =
      .ok (r, { fs with
        opTable := Function.update fs.opTable id (some (some file')) }) d' := by
  rw [write, hid]
  exact (Outcome.bind_of_ok h).trans rfl

theorem read_of_ok {fs : FileSystem} {size : Int} {id : OpenFileId}
    {file file' : OpenFile}
    {d : Disk} {got : List Byte} (hid : fs.opTable id = some (some file))
    (h : file.read d size = .ok (got, file')) :
    fs.read size id d =
      .ok (got, { fs with
        opTable := Function.update fs.opTable id (some (some file')) }) d := by
  have hreads : Outcome.reads (fun d => file.read d size) d =
    .ok (got, file') d := Outcome.reads_of_ok h
  rw [read, hid]
  exact (Outcome.bind_of_ok hreads).trans rfl

end FileSystem

end EroikoBlue.MP4
