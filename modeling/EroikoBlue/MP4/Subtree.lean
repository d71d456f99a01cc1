/-
# `MP4.Subtree` — `RecursiveRemove` removes a subtree and nothing else

The walk of `Directory::Apply` visits every object below a directory once, and a
directory right after what is in it, whatever the callbacks do (`Walked`).  What
`RecursiveRemove` leaves on the disk is the volume without the subtree: the top
header sector and the data sectors of its objects are clear, and every object
outside keeps its sectors and what is in them (`SubtreeRemoved`).

## The parts

    `apply_eq`               the walk is a fold over `postorder`
    `releaseAll_eq`          the fold clears `freed` of every object it meets
    `writeRemoved_eq`        then the free map and the parent are written
    `Removed.subtree`        and that is `SubtreeRemoved`

`freed` has the leaves of a tree and its top sector.  The inner header sectors
are not in it, so `cleared` says nothing of them: they stay marked and belong to
nobody.

`recursiveRemove_exact` starts from a reachable system and a path whose parent
exists; `recursiveRemove_exact_populated` is a directory with a file and a
directory in it.
-/
import EroikoBlue.MP4.Completeness

namespace EroikoBlue.MP4

open Bytes Search

/-- What `Apply` does below a directory with the entries `sub`. -/
structure Walked (sub : Entries) (d : Disk) : Prop where
  apply : ∀ {σ : Type} (callbackFile callbackDir : Int → σ → Except Fault σ)
    (object : σ),
    (Directory.ofTable sub.table).apply callbackFile callbackDir d
      NumSectors object =
      sub.postorder.foldlM (visit callbackFile callbackDir) object
  all : sub.postorder.Perm sub.objs
  once : sub.postorder.Nodup
  after : ∀ D ∈ sub.subdirs, ∃ a b,
    sub.postorder = a ++ (D.2.postorder ++ ⟨D.1, some D.2.table⟩ :: b)

/-- What a removal of the directory `k` of `G` leaves on the disk. -/
structure SubtreeRemoved (v : Volume) (p : List Key) (G : Folder) (k : Key)
    (hdr : HdrTree) (sub : Entries) (fm : Bitmap) (d d' : Disk) : Prop where
  /-- the volume without the subtree -/
  read : Volume.read d' = .ok (v.set p (G.entries.erase k))
  gone : (G.entries.erase k).lookup k = none
  /-- in the table of the parent one entry changes -/
  entries : (G.entries.erase k).table =
    updateFirst (Directory.hasKey k) DirectoryEntry.vacate G.entries.table
  cleared : ∀ o ∈ Entries.subtree hdr (some sub), ∀ x, x = o.hdr.sector ∨
    x ∈ o.hdr.leaves → fm.bit x = false
  kept : ∀ o ∈ v.root.objs, o ∉ Entries.subtree hdr (some sub) →
    ∀ x ∈ o.sectors, fm.bit x = true
  same : ∀ o ∈ v.root.objs, o.hdr ≠ G.hdr → ∀ x ∈ o.sectors, d' x = d x

section
variable {d d' : Disk} {v : Volume} {p : List Key} {G : Folder}
  {name : List Byte} {hdr : HdrTree}
  {sub : Entries}

theorem Volume.On.objs_nodup (h : v.On d) : v.root.objs.Nodup := by
  have hpair := (List.nodup_flatMap.mp (List.nodup_append.mp h.nodup).2.1).2
  refine hpair.imp ?_
  rintro o o' hdisj rfl
  exact hdisj (.head _) (.head _)

theorem walked (h : v.On d) (hG : v.root.get p = some G) {k : Key}
    (hk : G.entries.lookup k = some (hdr, some sub)) : Walked sub d := by
  have hgone := gone_subperm hG hk
  have hobjs : sub.objs.Subperm v.root.objs :=
    (List.sublist_cons_self _ _).subperm.trans hgone
  have hdepth : sub.depth < NumSectors :=
    Nat.lt_of_lt_of_le (Nat.lt_succ_of_le sub.depth_le)
      (hgone.length_le.trans h.length_objs_le)
  have htidy := Entries.tidy_lookup (Folder.tidy_get p h.tidy hG) hk
  refine ⟨fun callbackFile callbackDir object => ?_, sub.postorder_perm,
      ?_, fun D hD =>
    Entries.postorder_subdirs hD⟩
  · exact apply_eq callbackFile callbackDir object hdepth htidy fun o ho =>
      h.objs o (hobjs.subset ho)
  · obtain ⟨l, hperm, hl⟩ := hobjs
    exact (sub.postorder_perm.trans hperm.symm).nodup_iff.mpr
      (h.objs_nodup.sublist hl)

theorem lookup_erase (h : v.On d) (hG : v.root.get p = some G) (k : Key) :
    (G.entries.erase k).lookup k = none := by
  have ht := Folder.tidy_get p h.tidy hG
  rw [← Entries.find?_isNone (Entries.tidy_erase ht k), Entries.table_erase ht]
  exact ((h.holds_get hG).table _ rfl).2.find?_vacate k

theorem mem_freed {os : List Obj} {x : Nat} :
    x ∈ freed os ↔ ∃ o ∈ os, x = o.hdr.sector ∨ x ∈ o.hdr.leaves := by
  simp only [freed, Obj.freed, List.mem_flatMap, List.mem_append,
    List.mem_singleton, or_comm]

theorem Removed.subtree (h : v.On d) (hG : v.root.get p = some G) {k : Key}
    (hk : G.entries.lookup k = some (hdr, some sub)) (hrem : Removed d d' v G
      (G.entries.erase k) (Entries.subtree hdr (some sub))) :
    SubtreeRemoved v p G k hdr sub (v.map.freeMap d') d d' where
  read := (hrem.next h hG hk).on.read_eq
  gone := lookup_erase h hG k
  entries := Entries.table_erase (Folder.tidy_get p h.tidy hG) k
  cleared := by
    intro o ho x hx
    rw [hrem.map, decide_eq_true (mem_freed.mpr ⟨o, ho, hx⟩)]
    rfl
  kept := by
    intro o ho hout x hx
    have hnot : x ∉ freed (Entries.subtree hdr (some sub)) := by
      intro hf
      obtain ⟨o', ho', hx'⟩ := mem_freed.mp hf
      have hin : x ∈ o'.sectors := by
        rcases hx' with rfl | hx'
        · exact .head _
        · exact HdrTree.mem_sectors.mpr (.inr hx')
      exact hout (h.obj_eq ho ((gone_subperm hG hk).subset ho') hx hin ▸ ho')
    rw [hrem.map, decide_eq_false hnot, h.obj_marked ho hx]
    rfl
  same := by
    intro o ho hne x hx
    refine hrem.frame x (fun hg => hne ?_) fun hm => ?_
    · have heq :=
        h.obj_eq ho (Folder.get_mem hG) hx (HdrTree.mem_sectors.mpr (.inr hg))
      rw [heq]
    · exact h.map_disjoint ho (HdrTree.mem_sectors.mpr (.inr hm)) hx

end

/-- `RecursiveRemove` of a directory, when no file has its name. -/
theorem recursiveRemove_exact {s : System}
    (h : Reachable s) {path name : List Byte} {trd trf : TraversePath}
    (hdir : traversePath path IS_DIR s.fs.directoryFile s.disk = .ok trd)
    (hfound : trd.target = some (name, true))
    (hfile : traversePath path IS_FILE s.fs.directoryFile s.disk = .ok trf)
    (habsent : trf.target = some (name, false)) :
    ∃ v p G hdr sub fm d', Volume.read s.disk = .ok v ∧ v.root.get p = some G ∧
      trd.dir.table = G.entries.table ∧
      G.entries.lookup (DirectoryEntry.keyOf name IS_DIR) = some (hdr,
        some sub) ∧ Walked sub s.disk ∧
      s.fs.recursiveRemove path s.disk = .ok true d' ∧
      PersistentBitmap.ofFile s.fs.freeMapFile NumSectors d' = .ok fm ∧
      SubtreeRemoved v p G (DirectoryEntry.keyOf name IS_DIR) hdr sub
        fm s.disk d' ∧
      ¬ s.fs.Finds path IS_DIR d' := by
  obtain ⟨v, hinv⟩ := h.inv
  obtain ⟨p, G, hr, htable, hlook⟩ :=
    resolves_of_target hinv.on hinv.mounts hdir hfound
  have hnofile : G.entries.lookup (DirectoryEntry.keyOf name IS_FILE) =
      none := by
    obtain ⟨tr, hrun, _, htarget⟩ :=
      hr.traversePath_eq hinv.on hinv.mounts.root IS_FILE
    rw [hfile] at hrun
    cases hrun
    rw [habsent, Option.some.injEq, Prod.mk.injEq] at htarget
    exact Option.not_isSome_iff_eq_none.mp (Bool.eq_false_iff.mp htarget.2.symm)
  obtain ⟨⟨hdr, sub⟩, hk⟩ := Option.isSome_iff_exists.mp hlook.symm
  obtain ⟨sub, rfl⟩ := Option.isSome_iff_exists.mp
    (Entries.lookup_kind (Folder.tidy_get p hinv.on.tidy hr.get) hk)
  obtain ⟨d', hrun, hrem⟩ :=
    recursiveRemove_dir hinv.on hinv.mounts hr hnofile hk
  have hnext := hrem.next hinv.on hr.get hk
  have hfs := hinv.mounts.next hnext
  refine ⟨v, p, G, hdr, sub, _, d', hinv.on.read_eq, hr.get, htable, hk,
    walked hinv.on hr.get hk, hrun,
    hinv.on.mapFile.ofFile_eq hinv.mounts.map d',
      hrem.subtree hinv.on hr.get hk, ?_⟩
  rw [finds_iff hnext.on hfs (hr.set _)]
  simp only
  rw [lookup_erase hinv.on hr.get]
  exact Bool.false_ne_true

/-- "/d" with the file "g" and the directory "e" in it. -/
theorem recursiveRemove_exact_populated : ∃ s v p G hdr sub fm d', Reachable s ∧
    s.fs.Finds (rootPath 100 ++ rootPath 103) IS_FILE s.disk ∧
    s.fs.Finds (rootPath 100 ++ rootPath 101) IS_DIR s.disk ∧
    Walked sub s.disk ∧
    s.fs.recursiveRemove (rootPath 100) s.disk = .ok true d' ∧
    SubtreeRemoved v p G (DirectoryEntry.keyOf [100] IS_DIR) hdr sub
      fm s.disk d' ∧
    ¬ s.fs.Finds (rootPath 100) IS_DIR d' := by
  obtain ⟨s, w, t, below, h, hinv, hw⟩ := formatted_populated
  have hr := resolves_root w (c := 100) (by decide) (by decide)
  obtain ⟨trd, hdir, _, hfound⟩ :=
    hr.traversePath_eq hinv.on hinv.mounts.root IS_DIR
  obtain ⟨trf, hfile, _, habsent⟩ :=
    hr.traversePath_eq hinv.on hinv.mounts.root IS_FILE
  rw [hw.dir] at hfound
  rw [hw.notFile] at habsent
  obtain ⟨v, p, G, hdr, sub, fm, d', _, _, _, _, hwalked, hrun, _,
      hrem, hgone⟩ :=
    recursiveRemove_exact h hdir hfound hfile habsent
  obtain ⟨_, hfileBelow, hdirBelow⟩ := hw.finds hinv
  exact ⟨s, v, p, G, hdr, sub, fm, d', h, hfileBelow, hdirBelow, hwalked, hrun,
    hrem, hgone⟩

end EroikoBlue.MP4
