/-
# `MP4.System` — runs of the file system

A system is a file system in memory, the disk under it, and for every identifier
of an open file the header sector of that file, as long as it has not been
removed (`live`).  A step is one operation, or an end of the program followed by
`FileSystem(FALSE)` on the disk it left: an assertion that fails calls `abort`,
and the program may also be stopped between two operations.  A run starts with a
formatted disk.

Writing through an identifier whose file was removed is not a step; the code
does not notice it and writes into sectors that may have a new owner.

`Inv` is the invariant of all runs: the disk holds a volume, and every live
identifier has the header of a file of it.

## Why the failed assertion is a step

`ASSERT` calls `abort`, and the disk is a file of the host: what was written is
there at the next start.  So `Step.halt` goes on from the disk that the failed
operation left, with a new `FileSystem(FALSE)`, and every result about reachable
systems is about disks that survived any number of such ends.

## The induction

    `run_keeps`       one operation leads from a volume to a volume
    `run_handles`     and every identifier still has its header
    `opened_holder`   a new identifier is one of a file that is there
    `Step.inv`        so a step keeps `Inv`
    `Reachable.inv`   so every reachable system has it
-/
import EroikoBlue.MP4.Create
import EroikoBlue.MP4.Format
import EroikoBlue.MP4.Remove

namespace EroikoBlue.MP4

open Bytes

structure System where
  fs : FileSystem
  disk : Disk
  /-- The header sector of the file behind an identifier, until it is
  removed. -/
  live : OpenFileId → Option Int

/-- The operations, with what `rand()` returns while a file is opened. -/
inductive Op where
  | create (path : List Byte) (initialSize : Int)
  | mkdir (path : List Byte)
  | remove (path : List Byte)
  | recursiveRemove (path : List Byte)
  | «open» (path : List Byte) (rand : List OpenFileId)
  | read (size : Int) (id : OpenFileId)
  | write (buf : List Byte) (size : Int) (id : OpenFileId)
  /-- `Seek` on the open file, through the pointer in `opTable`. -/
  | seek (position : Int) (id : OpenFileId)
  | close (id : OpenFileId)

/-- `opTable.at(id)->Seek(position)`. -/
def FileSystem.seek (fs : FileSystem) (position : Int) (id : OpenFileId) :
    FileSystem :=
  match fs.opTable id with
  | some (some file) => { fs with opTable := Function.update fs.opTable id (some (some (file.seek position))) }
  | _ => fs

/-- An operation; what it returns to its caller is left out. -/
def Op.run (fs : FileSystem) : Op → FsM FileSystem
  | .create path initialSize => do
    let _ ← fs.create path initialSize
    pure fs
  | .mkdir path => do
    let _ ← fs.mkdir path
    pure fs
  | .remove path => do
    let _ ← fs.remove path
    pure fs
  | .recursiveRemove path => do
    let _ ← fs.recursiveRemove path
    pure fs
  | .open path rand => do
    let (_, fs) ← fs.open path rand
    pure fs
  | .read size id => do
    let (_, fs) ← fs.read size id
    pure fs
  | .write buf size id => do
    let (_, fs) ← fs.write buf size id
    pure fs
  | .seek position id => pure (fs.seek position id)
  | .close id => do
    let (_, fs) ← fs.close id
    pure fs

/-- There is a file with its header in `sector`. -/
def isFileAt (d : Disk) (sector : Int) : Bool :=
  match Volume.read d with
  | .ok v => v.root.objs.any fun o =>
      o.table.isNone && (o.hdr.sector : Int) == sector
  | .error _ => false

namespace System

/-- The header sector of the file that an `Open` finds. -/
def opened (s : System) : Op → Option Int
  | .open path _ =>
      match traversePath path IS_FILE s.fs.directoryFile s.disk with
      | .ok { dir, target := some (name, _), .. } =>
          if dir.find name IS_FILE ≥ 0 then some (dir.find name IS_FILE)
          else none
      | _ => none
  | _ => none

/-- The file behind an identifier after `op` has left the file system `fs'`. -/
def holder (s : System) (op : Op) (fs' : FileSystem) (id : OpenFileId) :
    Option Int :=
  if (fs'.opTable id).isNone then none
  else if (s.fs.opTable id).isNone then s.opened op
  else s.live id

/-- Only files that were not removed are written. -/
def Allowed (s : System) : Op → Prop
  | .write _ _ id => (s.fs.opTable id).isSome → (s.live id).isSome
  | _ => True

end System

inductive Step : System → System → Prop
  | op {s : System} (op : Op) {fs' : FileSystem} {d' : Disk}
      (hallowed : s.Allowed op)
      (hrun : op.run s.fs s.disk = .ok fs' d') :
      Step s ⟨fs', d', fun id => (s.holder op fs' id).filter (isFileAt d')⟩
  | halt {s : System} (op : Op) {e : Fault} {d' : Disk} {fs' : FileSystem}
      (hallowed : s.Allowed op)
      (hrun : op.run s.fs s.disk = .error e d') (hends : e.ends = true)
      (hboot : FileSystem.boot d' = .ok fs') : Step s ⟨fs', d', fun _ => none⟩
  | reboot {s : System} {fs' : FileSystem}
      (hboot : FileSystem.boot s.disk = .ok fs') :
      Step s ⟨fs', s.disk, fun _ => none⟩

/-- The states of all runs from a formatted disk. -/
inductive Reachable : System → Prop
  | format {d₀ d : Disk} {fs : FileSystem}
      (hrun : FileSystem.format d₀ = .ok fs d) :
      Reachable ⟨fs, d, fun _ => none⟩
  | step {s s' : System} : Reachable s → Step s s' → Reachable s'

/-! ## The invariant -/

/-- The identifier stands for the file `o` of the volume. -/
structure Holder (fs : FileSystem) (v : Volume) (id : OpenFileId) (sector : Int)
    (o : Obj) : Prop where
  mem : o ∈ v.root.objs
  file : o.table = none
  sector : (o.hdr.sector : Int) = sector
  handle : ∃ file, fs.opTable id = some (some file) ∧ file.hdr = o.hdr.header

structure Inv (s : System) (v : Volume) : Prop where
  on : v.On s.disk
  mounts : s.fs.Mounts v
  live : ∀ id sector, s.live id = some sector → ∃ o, Holder s.fs v id sector o

/-! ## Open files -/

section Open
variable {d : Disk} {v : Volume} {fs : FileSystem} {path : List Byte}
  {p : List Key} {G : Folder}
  {name : List Byte}

theorem openAsOpenFile_ok (h : v.On d) (hfs : fs.Mounts v)
    (hr : Resolves v path p G name) {hdr : HdrTree} {sub : Option Entries}
    (hk : G.entries.lookup (DirectoryEntry.keyOf name IS_FILE) =
      some (hdr, sub)) :
    fs.openAsOpenFile path d =
      .ok (some { hdr := hdr.header, seekPosition := 0 }) d := by
  obtain ⟨tr, hrun, hat, htarget⟩ := hr.traversePath_eq h hfs.root IS_FILE
  obtain ⟨hfind, -⟩ := find_found h hat hk
  have hobj : Obj.Holds d ⟨hdr, sub.map Entries.table⟩ :=
    h.objs _ ((gone_subperm hr.get hk).subset (.head _))
  have hge : tr.dir.find name IS_FILE ≥ 0 := by
    rw [hfind]
    exact Int.natCast_nonneg _
  rw [FileSystem.openAsOpenFile, Outcome.bind_of_ok (Outcome.reads_of_ok hrun),
    htarget]
  simp only
  rw [if_pos hge, hfind, Outcome.bind_of_ok (Outcome.reads_of_ok
    (f := fun d => OpenFile.open d hdr.sector) hobj.open_eq), Outcome.bind_of_ok
      (hat.flush_eq h)]
  rfl

theorem openAsOpenFile_none (h : v.On d)
    (hfs : fs.Mounts v) (hr : Resolves v path p G name)
    (hk : G.entries.lookup (DirectoryEntry.keyOf name IS_FILE) = none) :
    fs.openAsOpenFile path d = .ok none d := by
  obtain ⟨tr, hrun, hat, htarget⟩ := hr.traversePath_eq h hfs.root IS_FILE
  have hfind : ¬ tr.dir.find name IS_FILE ≥ 0 := by
    rw [hat.dir, Entries.find_eq (Folder.tidy_get p h.tidy hat.get), hk]
    decide
  rw [FileSystem.openAsOpenFile, Outcome.bind_of_ok (Outcome.reads_of_ok hrun),
    htarget]
  simp only
  rw [if_neg hfind, Outcome.bind_of_ok (hat.flush_eq h)]
  rfl

/-- Opening changes nothing on the disk. -/
theorem openAsOpenFile_final (h : v.On d) (hfs : fs.Mounts v)
    (path : List Byte) :
    Outcome.final (fs.openAsOpenFile path d) = d := by
  cases hrun : traversePath path IS_FILE fs.directoryFile d with
  | error e =>
      rw [FileSystem.openAsOpenFile,
        Outcome.bind_of_error (Outcome.reads_of_error hrun)]
      rfl
  | ok tr =>
      rcases traversePath_cases h hfs.root hrun with
        ⟨p, G, name, hr, _, _⟩ | ⟨_, htarget⟩
      · cases hk : G.entries.lookup (DirectoryEntry.keyOf name IS_FILE) with
        | some found =>
            rw [openAsOpenFile_ok h hfs hr hk]
            rfl
        | none =>
            rw [openAsOpenFile_none h hfs hr hk]
            rfl
      · rw [FileSystem.openAsOpenFile,
          Outcome.bind_of_ok (Outcome.reads_of_ok hrun), htarget]
        rfl

/-- `rand()` is called until it returns an identifier that is not in use. -/
theorem freeId_free : ∀ {rand : List OpenFileId} {id : OpenFileId},
    fs.freeId rand = .ok id →
    fs.opTable id = none
  | [], id, h => by cases h
  | id' :: rest, id, h => by
      rw [FileSystem.freeId] at h
      split at h
      · next hfree =>
          cases h
          exact Option.isNone_iff_eq_none.mp hfree
      · exact freeId_free h

end Open

/-! ## One step -/

section Frame
variable {d : Disk} {v : Volume} {fs : FileSystem}

/-- `Write` on an identifier of a file rewrites data of that file, however it
ends. -/
theorem write_frame (h : v.On d) {id : OpenFileId} {sector : Int} {o : Obj}
    (ho : Holder fs v id sector o) (buf : List Byte) (size : Int) {x : Nat}
    (hx : x ∉ o.hdr.leaves) :
    Outcome.final (fs.write buf size id d) x = d x := by
  obtain ⟨file, hfile, hhdr⟩ := ho.handle
  have hwf := (h.objs o ho.mem).wf
  rw [FileSystem.write, hfile]
  simp only
  refine Outcome.final_bind (P := fun d' : Disk => d' x = d x) ?_
    fun _ _ _ hd => hd
  rw [OpenFile.write]
  refine Outcome.final_bind (P := fun d' : Disk => d' x = d x) ?_
    fun _ _ _ hd => hd
  exact HdrTree.writeAt_frame hwf.backed hhdr d buf size file.seekPosition hx

theorem open_final (h : v.On d) (hfs : fs.Mounts v) (path : List Byte)
    (rand : List OpenFileId) :
    Outcome.final (fs.open path rand d) = d := by
  refine Outcome.final_bind (P := (· = d)) (openAsOpenFile_final h hfs path) ?_
  rintro file _ _ rfl
  exact Outcome.final_bind (P := (· = _)) (Outcome.final_reads _ _)
    fun _ _ _ hd => hd

theorem read_final (fs : FileSystem) (size : Int) (id : OpenFileId) (d : Disk) :
    Outcome.final (fs.read size id d) = d := by
  rcases hid : fs.opTable id with _ | _ | file <;> rw [FileSystem.read, hid]
  · rfl
  · rfl
  · exact Outcome.final_bind (P := (· = d)) (Outcome.final_reads _ _) fun _ _ _ hd => hd

theorem close_final (fs : FileSystem) (id : OpenFileId) (d : Disk) :
    Outcome.final (fs.close id d) = d := by
  rcases hid : fs.opTable id with _ | _ | file <;> rw [FileSystem.close, hid] <;> rfl

end Frame

section Run
variable {s : System} {v : Volume}

/-- However an operation ends, the disk holds a volume. -/
theorem run_keeps (h : Inv s v) {op : Op} (hallowed : s.Allowed op) :
    v.Keeps s.disk (op.run s.fs s.disk) := by
  cases op with
  | create path initialSize =>
      exact .bind (createFileDir_keeps h.on h.mounts path IS_FILE initialSize)
        fun _ _ => rfl
  | mkdir path => exact .bind (createFileDir_keeps h.on h.mounts path IS_DIR 0) fun _ _ => rfl
  | remove path => exact .bind (remove_keeps h.on h.mounts path) fun _ _ => rfl
  | recursiveRemove path =>
      exact .bind (recursiveRemove_keeps h.on h.mounts path) fun _ _ => rfl
  | «open» path rand => exact .bind (Volume.keeps_same h.on
        (open_final h.on h.mounts path rand)) fun _ _ => rfl
  | read size id => exact .bind (Volume.keeps_same h.on (read_final s.fs size id s.disk)) fun _ _ => rfl
  | write buf size id =>
      refine .bind ?_ fun _ _ => rfl
      cases hlive : s.live id with
      | some sector =>
          obtain ⟨o, ho⟩ := h.live id sector hlive
          exact ⟨v, h.on.rewrite ho.mem ho.file fun x hx =>
            write_frame h.on ho buf size hx, rfl, rfl,
            fun _ ho _ => .inl ho⟩
      | none =>
          -- then the identifier is not in use
          have hid : s.fs.opTable id = none := by
            refine Option.not_isSome_iff_eq_none.mp fun hsome => ?_
            have hl := hallowed hsome
            rw [hlive] at hl
            cases hl
          refine Volume.keeps_same h.on ?_
          rw [FileSystem.write, hid]
          rfl
  | seek position id => exact Volume.keeps_same h.on rfl
  | close id => exact .bind (Volume.keeps_same h.on (close_final s.fs id s.disk)) fun _ _ => rfl

/-! ## Identifiers -/

section Calls
variable {fs fs' : FileSystem} {d d' : Disk} {id : OpenFileId}

/-- `Open` enters what `OpenAsOpenFile` returned under an identifier that was
not in use. -/
theorem open_inv {path : List Byte} {rand : List OpenFileId} {r : Int}
    (hrun : fs.open path rand d = .ok (r, fs') d') :
    ∃ file, (∃ d₁, fs.openAsOpenFile path d = .ok file d₁) ∧
      fs.opTable r = none ∧
      fs' =
        { fs with opTable := Function.update fs.opTable r (some file) } := by
  obtain ⟨file, d₁, hfile, hrun⟩ := Outcome.bind_run_eq_ok.mp hrun
  obtain ⟨id, d₂, hid, hrun⟩ := Outcome.bind_run_eq_ok.mp hrun
  cases hrun
  exact ⟨file, ⟨d₁, hfile⟩, freeId_free (Outcome.lift_eq_ok.mp hid).1, rfl⟩

/-- The file behind the identifier is read or written further, if there is
one. -/
def Moved (fs : FileSystem) (id : OpenFileId) (fs' : FileSystem) : Prop :=
  fs.opTable id = none ∧ fs' = fs ∨
    ∃ file file' : OpenFile, fs.opTable id = some (some file) ∧
    fs' = { fs with opTable := Function.update fs.opTable id (some (some file'))
      } ∧ file'.hdr = file.hdr

theorem read_moved {size : Int} {got : List Byte}
    (hrun : fs.read size id d = .ok (got, fs') d') :
    Moved fs id fs' := by
  rcases hid : fs.opTable id with _ | _ | file
    <;> rw [FileSystem.read, hid] at hrun
  · cases hrun
    exact .inl ⟨hid, rfl⟩
  · cases hrun
  · obtain ⟨⟨got', file'⟩, d₁, hfile, hrun⟩ := Outcome.bind_run_eq_ok.mp hrun
    cases hrun
    obtain ⟨_, _, hpure⟩ :=
      Outcome.bind_eq_ok.mp (Outcome.reads_eq_ok.mp hfile).1
    cases hpure
    exact .inr ⟨file, _, hid, rfl, rfl⟩

theorem write_moved {buf : List Byte} {size r : Int}
    (hrun : fs.write buf size id d = .ok (r, fs') d') :
    Moved fs id fs' := by
  rcases hid : fs.opTable id with _ | _ | file
    <;> rw [FileSystem.write, hid] at hrun
  · cases hrun
    exact .inl ⟨hid, rfl⟩
  · cases hrun
  · obtain ⟨⟨result, file'⟩, d₁, hfile, hrun⟩ := Outcome.bind_run_eq_ok.mp hrun
    cases hrun
    obtain ⟨_, _, _, hpure⟩ := Outcome.bind_run_eq_ok.mp hfile
    cases hpure
    exact .inr ⟨file, _, hid, rfl, rfl⟩

/-- After `Close` the identifier is not in use. -/
theorem close_inv {r : Int} (hrun : fs.close id d = .ok (r, fs') d') :
    fs' = { fs with opTable := Function.update fs.opTable id none } := by
  rcases hid : fs.opTable id with _ | _ | file
    <;> rw [FileSystem.close, hid] at hrun
  · cases hrun
    rw [← hid, Function.update_eq_self]
  · cases hrun
  · cases hrun
    rfl

end Calls

/-- What an operation keeps of the file system in memory: the two files, and the
header behind every identifier that stays in use. -/
structure KeepsHandles (fs fs' : FileSystem) : Prop where
  map : fs'.freeMapFile = fs.freeMapFile
  root : fs'.directoryFile = fs.directoryFile
  handle : ∀ id file, fs.opTable id = some (some file) →
    (fs'.opTable id).isNone = false →
    ∃ file', fs'.opTable id = some (some file') ∧ file'.hdr = file.hdr

namespace KeepsHandles

theorem refl (fs : FileSystem) : KeepsHandles fs fs :=
  ⟨rfl, rfl, fun _ file h _ => ⟨file, h, rfl⟩⟩

/-- One entry changes; if a file was there, it keeps its header or goes. -/
theorem update {fs : FileSystem}
    {id : OpenFileId} {entry : Option (Option OpenFile)}
    (h : ∀ file, fs.opTable id = some (some file) → entry.isNone = false →
      ∃ file', entry = some (some file') ∧ file'.hdr = file.hdr) :
    KeepsHandles fs { fs with
        opTable := Function.update fs.opTable id entry } := by
  refine ⟨rfl, rfl, fun id' file hid hin => ?_⟩
  by_cases heq : id' = id
  · subst heq
    simp only [Function.update_self] at hin ⊢
    exact h file hid hin
  · simp only [Function.update_of_ne heq] at hin ⊢
    exact ⟨file, hid, rfl⟩

theorem moved {fs fs' : FileSystem} {id : OpenFileId} (h : Moved fs id fs') :
    KeepsHandles fs fs' := by
  rcases h with ⟨_, rfl⟩ | ⟨file, file', hid, rfl, hhdr⟩
  · exact refl _
  · refine update fun file₀ h₀ _ => ⟨file', rfl, ?_⟩
    cases hid.symm.trans h₀
    exact hhdr

end KeepsHandles

theorem run_handles {fs fs' : FileSystem} {d d' : Disk} {op : Op}
    (hrun : op.run fs d = .ok fs' d') :
    KeepsHandles fs fs' := by
  cases op with
  | create path initialSize =>
      obtain ⟨_, _, _, hpure⟩ := Outcome.bind_run_eq_ok.mp hrun
      cases hpure
      exact .refl fs
  | mkdir path =>
      obtain ⟨_, _, _, hpure⟩ := Outcome.bind_run_eq_ok.mp hrun
      cases hpure
      exact .refl fs
  | remove path =>
      obtain ⟨_, _, _, hpure⟩ := Outcome.bind_run_eq_ok.mp hrun
      cases hpure
      exact .refl fs
  | recursiveRemove path =>
      obtain ⟨_, _, _, hpure⟩ := Outcome.bind_run_eq_ok.mp hrun
      cases hpure
      exact .refl fs
  | «open» path rand =>
      obtain ⟨⟨id, fs₁⟩, d₁, hopen, hpure⟩ := Outcome.bind_run_eq_ok.mp hrun
      cases hpure
      obtain ⟨file, _, hid, rfl⟩ := open_inv hopen
      exact .update fun file₀ h₀ _ => nomatch hid.symm.trans h₀
  | read size id =>
      obtain ⟨⟨got, fs₁⟩, d₁, hread, hpure⟩ := Outcome.bind_run_eq_ok.mp hrun
      cases hpure
      exact .moved (read_moved hread)
  | write buf size id =>
      obtain ⟨⟨result, fs₁⟩, d₁, hwrite, hpure⟩ :=
        Outcome.bind_run_eq_ok.mp hrun
      cases hpure
      exact .moved (write_moved hwrite)
  | seek position id =>
      cases hrun
      rw [FileSystem.seek]
      split
      · next file hid => exact .moved (.inr ⟨file, _, hid, rfl, rfl⟩)
      · exact .refl fs
  | close id =>
      obtain ⟨⟨result, fs₁⟩, d₁, hclose, hpure⟩ :=
        Outcome.bind_run_eq_ok.mp hrun
      cases hpure
      rw [close_inv hclose]
      exact .update nofun

theorem opened_file (h : Inv s v) {path : List Byte} {rand : List OpenFileId}
    {sector : Int} (hop : s.opened (.open path rand) = some sector) :
    ∃ p G name hdr, Resolves v path p G name ∧
      G.entries.lookup (DirectoryEntry.keyOf name IS_FILE) = some (hdr, none) ∧
      (hdr.sector : Int) = sector := by
  rw [System.opened] at hop
  cases htr : traversePath path IS_FILE s.fs.directoryFile s.disk with
  | error e =>
      rw [htr] at hop
      cases hop
  | ok tr =>
      have hcases := traversePath_cases h.on h.mounts.root htr
      obtain ⟨dir, dirFile, target⟩ := tr
      rcases hcases with ⟨p, G, name, hr, hat, htarget⟩ | ⟨_, htarget⟩
      · cases htarget
        have hdir : dir = .ofTable G.entries.table := hat.dir
        have htidy := Folder.tidy_get p h.on.tidy hat.get
        have hfind := Entries.find_eq htidy name IS_FILE
        rw [htr, hdir] at hop
        simp only at hop
        cases hk : G.entries.lookup (DirectoryEntry.keyOf name IS_FILE) with
        | none =>
            rw [hk] at hfind
            rw [hfind, if_neg (by decide)] at hop
            cases hop
        | some found =>
            obtain ⟨hdr, sub⟩ := found
            cases Entries.lookup_file htidy hk
            rw [hk] at hfind
            rw [hfind, if_pos (Int.natCast_nonneg _)] at hop
            cases hop
            exact ⟨p, G, name, hdr, hr, hk, rfl⟩
      · cases htarget
        rw [htr] at hop
        cases hop

/-- An identifier that an operation brings into use stands for the file it
found. -/
theorem opened_holder (h : Inv s v) {op : Op}
    {fs' : FileSystem} {d' : Disk} (hrun : op.run s.fs s.disk = .ok fs' d')
    {id : OpenFileId} {sector : Int} (hnew : (s.fs.opTable id).isNone = true)
    (hin : (fs'.opTable id).isNone = false) (hop : s.opened op = some sector) :
    ∃ o, Holder fs' v id sector o := by
  cases op with
  | «open» path rand =>
      obtain ⟨p, G, name, hdr, hr, hk, rfl⟩ := opened_file h hop
      refine ⟨⟨hdr, none⟩, (gone_subperm hr.get hk).subset (.head _),
        rfl, rfl, ?_⟩
      obtain ⟨⟨id₁, fs₁⟩, d₁, hopen, hpure⟩ := Outcome.bind_run_eq_ok.mp hrun
      cases hpure
      obtain ⟨file, ⟨d₂, hfile⟩, _, rfl⟩ := open_inv hopen
      rw [openAsOpenFile_ok h.on h.mounts hr hk] at hfile
      cases hfile
      by_cases heq : id = id₁
      · subst heq
        exact ⟨_, Function.update_self _ _ _, rfl⟩
      · -- another identifier was in use before
        simp only [Function.update_of_ne heq] at hin
        exact absurd (hin.symm.trans hnew) Bool.false_ne_true
  | _ => cases hop

theorem isFileAt_iff {d : Disk} {v : Volume} (h : v.On d) {sector : Int} :
    isFileAt d sector = true ↔ ∃ o ∈ v.root.objs, o.table = none ∧
      (o.hdr.sector : Int) = sector := by
  rw [isFileAt, h.read_eq]
  simp only [List.any_eq_true, Bool.and_eq_true,
    Option.isNone_iff_eq_none, beq_iff_eq]

/-- An object of the volume in a sector where a file is after the operation is
that file: a new file is never in a sector that was in use. -/
theorem mem_of_isFileAt (h : v.On s.disk) {v' : Volume} {d' : Disk}
    (hnext : Volume.Next s.disk d' v v') {o : Obj} (ho : o ∈ v.root.objs)
    (hfile : isFileAt d' o.hdr.sector = true) : o ∈ v'.root.objs := by
  obtain ⟨o', ho', hfile', hsector'⟩ := (isFileAt_iff hnext.on).mp hfile
  have hhead : o'.hdr.sector ∈ o.sectors := by
    rw [Int.ofNat_inj.mp hsector']
    exact .head _
  have hold : o' ∈ v.root.objs := by
    refine (hnext.files o' ho' hfile').resolve_right fun hclear => ?_
    have hmark := h.obj_marked ho hhead
    rw [hclear _ (.head _)] at hmark
    cases hmark
  have heq : o' = o := h.obj_eq hold ho (.head _) hhead
  rw [← heq]
  exact ho'

theorem kept_holder (h : Inv s v) {fs' : FileSystem}
    (hkeeps : KeepsHandles s.fs fs') {id : OpenFileId} {sector : Int}
    (hlive : s.live id = some sector) (hin : (fs'.opTable id).isNone = false) :
    ∃ o, Holder fs' v id sector o := by
  obtain ⟨o, ho⟩ := h.live id sector hlive
  obtain ⟨file, hid, hhdr⟩ := ho.handle
  obtain ⟨file', hid', hhdr'⟩ := hkeeps.handle id file hid hin
  exact ⟨o, ho.mem, ho.file, ho.sector, file', hid', hhdr'.trans hhdr⟩

/-- The invariant is kept by every step. -/
theorem Step.inv {s' : System} (h : Inv s v) (hstep : Step s s') :
    ∃ v', Inv s' v' := by
  cases hstep with
  | @op op fs' d' hallowed hrun =>
      obtain ⟨v', hnext⟩ := run_keeps h hallowed
      rw [hrun, Outcome.final_ok] at hnext
      have hkeeps := run_handles hrun
      refine ⟨v', hnext.on, ?_, ?_⟩
      · have hm := h.mounts.next hnext
        exact ⟨by rw [hkeeps.map]; exact hm.map, by rw [hkeeps.root]; exact hm.root⟩
      · intro id sector hlive
        obtain ⟨hholder, hfile⟩ := Option.filter_eq_some_iff.mp hlive
        have hold : ∃ o, Holder fs' v id sector o := by
          rw [System.holder] at hholder
          split at hholder
          · cases hholder
          · next hin =>
              have hin' := Bool.eq_false_iff.mpr hin
              split at hholder
              · next hnew => exact opened_holder h hrun hnew hin' hholder
              · exact kept_holder h hkeeps hholder hin'
        obtain ⟨o, ho⟩ := hold
        have hmem :=
          mem_of_isFileAt h.on hnext ho.mem (by rw [ho.sector]; exact hfile)
        exact ⟨o, hmem, ho.file, ho.sector, ho.handle⟩
  | halt op hallowed hrun hends hboot =>
      obtain ⟨v', hnext⟩ := run_keeps h hallowed
      rw [hrun, Outcome.final_error] at hnext
      rw [boot_eq hnext.on] at hboot
      cases hboot
      exact ⟨v', hnext.on, FileSystem.serving_mounts v', nofun⟩
  | reboot hboot =>
      rw [boot_eq h.on] at hboot
      cases hboot
      exact ⟨v, h.on, FileSystem.serving_mounts v, nofun⟩

/-- Every reachable system holds a volume. -/
theorem Reachable.inv {s : System} (h : Reachable s) : ∃ v, Inv s v := by
  induction h with
  | @format d₀ d fs hrun =>
      obtain ⟨v, d', hformat, hon, _⟩ := format_ok d₀
      rw [hformat] at hrun
      cases hrun
      exact ⟨v, hon, FileSystem.serving_mounts v, nofun⟩
  | step _ hstep ih =>
      obtain ⟨v, hinv⟩ := ih
      exact hstep.inv hinv

end Run

end EroikoBlue.MP4
