/-
# `MP4.Resolution` — what a path names

On the tree of a volume a path names what one finds by looking up its components
one after the other: `Folder.get` along all but the last, and then the last in
the directory that is left.  `TraversePath` computes that, and nothing is
written to the disk by making one and dropping it again (`traversePath_walk`).

## Why a result of its own

Everything else in the file system goes through `TraversePath`: it decides what
`Create`, `Open`, `Remove` and `List` are about.  The source has no tree to
compare it with, only tables on the disk and a loop that keeps the last one it
read.  So the reference walk is over the tree of the volume, and `Walks` says
field by field what the object holds when the loop is done.

Two things make the comparison exact.  Only the first nine characters of a
component count, on both sides (`keyOf`); and a parent that is missing is
visible in `success` and nowhere else.
-/
import EroikoBlue.MP4.Completeness

namespace EroikoBlue.MP4

open Bytes

/-! ## The walk -/

section Walk
variable {d : Disk} {v : Volume} {root : OpenFile} {cs : List (List Byte)}
  {cn : List Byte}

/-- A traversal of `/c₁/…/cₙ` ends where the walk along `c₁ … cₙ₋₁` does; it
succeeds when they all name directories, and then it has looked for `cₙ` in the
last one. -/
theorem traversePath_joinPath (hon : v.On d)
    (hroot : root.hdr = v.root.hdr.header) (h : ∀ c ∈ cs ++ [cn], IsComponent c)
    (hlen : cn.length ≤ FileNameMaxLen) (isDir : Bool) :
    ∃ q tr, traversePath (joinPath (cs ++ [cn])) isDir root d = .ok tr ∧
      tr.At v q (v.root.reach (dirKeys cs)) ∧
      tr.target = (v.root.get (dirKeys cs)).map fun G =>
        (cn, (G.entries.lookup (DirectoryEntry.keyOf cn isDir)).isSome) := by
  obtain ⟨q, file, hreach, hfile, hrun⟩ :=
    traversePath_eq hon hroot (parsePath_append h) isDir
  rw [pathKeys_concat] at hreach hfile hrun
  rw [last_component, if_neg (Nat.not_lt.mpr hlen)] at hrun
  cases hG : v.root.get (dirKeys cs) with
  | some G =>
      have heq := Folder.reach_of_get _ hG
      rw [hG, Option.isSome_some, if_pos rfl] at hrun
      refine ⟨q, _, hrun, ⟨hreach, rfl, hfile⟩, ?_⟩
      rw [heq]
      rfl
  | none =>
      rw [hG, Option.isSome_none, if_neg Bool.false_ne_true] at hrun
      exact ⟨q, _, hrun, ⟨hreach, rfl, hfile⟩, rfl⟩

/-- What `TraversePath` says about the path `/c₁/…/cₙ` on a volume. -/
structure TraversePath.Walks (v : Volume) (cs : List (List Byte))
    (cn : List Byte) (isDir : Bool) (tr : TraversePath) : Prop where
  /-- `success` -/
  success : tr.target.isSome = true ↔ (v.root.get (dirKeys cs)).isSome = true
  /-- `dir`, `dirFile`, `name` and `exist` -/
  parent : ∀ G, v.root.get (dirKeys cs) = some G →
    tr.dir = .ofTable G.entries.table ∧ tr.dirFile.hdr = G.hdr.header ∧
      tr.target =
        some (cn, (G.entries.lookup (DirectoryEntry.keyOf cn isDir)).isSome)

/-- `TraversePath` agrees with the walk, and leaves the disk as it is. -/
theorem traversePath_walk (hon : v.On d) (hroot : root.hdr = v.root.hdr.header)
    (cs : List (List Byte)) (cn : List Byte)
    (h : ∀ c ∈ cs ++ [cn], IsComponent c) (hlen : cn.length ≤ FileNameMaxLen)
    (isDir : Bool) :
    parsePath (joinPath (cs ++ [cn])) = .ok ([delimeter] :: (cs ++ [cn])) ∧
    ∃ tr, traversePath (joinPath (cs ++ [cn])) isDir root d = .ok tr ∧
      tr.Walks v cs cn isDir ∧
      tr.flush d = .ok () d := by
  obtain ⟨q, tr, hrun, hat, htarget⟩ :=
    traversePath_joinPath hon hroot h hlen isDir
  refine ⟨parsePath_append h, tr, hrun, ⟨?_, ?_⟩, hat.flush_eq hon⟩
  · rw [htarget, Option.isSome_map]
  · intro G hG
    have heq := Folder.reach_of_get _ hG
    rw [hG] at htarget
    rw [heq] at hat
    exact ⟨hat.dir, hat.file, htarget⟩

end Walk

/-- The file "/d/g" below a directory. -/
theorem traversePath_walk_nested : ∃ d v root tr, Volume.On d v ∧
    parsePath (joinPath ([[100]] ++ [[103]])) =
      .ok ([delimeter] :: ([[100]] ++ [[103]])) ∧
    traversePath (joinPath ([[100]] ++ [[103]])) IS_FILE root d = .ok tr ∧
    tr.Walks v [[100]] [103] IS_FILE ∧ tr.target = some ([103], true) ∧
      tr.flush d = .ok () d := by
  obtain ⟨s, v, t, sub, _, hinv, hv⟩ := formatted_populated
  have hcomps : ∀ c ∈ [[100]] ++ [[103]], IsComponent c := by
    intro c hc
    rcases List.mem_cons.mp hc with rfl | hc
    · exact isComponent_letter (by decide) (by decide)
    · cases List.mem_singleton.mp hc
      exact isComponent_letter (by decide) (by decide)
  obtain ⟨hparse, tr, hrun, hwalk, hflush⟩ := traversePath_walk hinv.on
    hinv.mounts.root [[100]] [103] hcomps
    (by decide) IS_FILE
  refine ⟨s.disk, v, s.fs.directoryFile, tr, hinv.on, hparse, hrun,
    hwalk, ?_, hflush⟩
  rw [(hwalk.parent ⟨t, sub⟩ (Folder.get_cons_of hv.dir)).2.2, hv.fileBelow]

end EroikoBlue.MP4
