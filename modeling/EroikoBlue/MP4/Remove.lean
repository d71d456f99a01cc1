/-
# `MP4.Remove` — `Remove` and `RecursiveRemove` on a volume

Removing works on a copy of the free map: `RemoveSingleObj` reads the header of
an object, clears its data sectors and then its header sector.
`RecursiveRemove` applies it to everything below the directory, in the order of
`Directory::Apply`, before the directory itself.  Nothing is written meanwhile,
so every header and every table is read from the disk as it was (`apply_eq`,
`releaseAll_eq`); the free map and the parent are written at the end.

The inner header sectors of a tree are not cleared: they stay marked and belong
to no object any more.

## Which volume is left

`Removed` says what the two writes at the end leave, for any list of objects
that was released, and `Removed.update` that it is an `Update` with these
objects gone.  So `Remove` is the case of one object and `RecursiveRemove` the
case of a subtree, and there is one argument for both.

`remove_keeps` and `recursiveRemove_keeps` cover every path: one that leads
nowhere, a name that is not there, and a directory given to `Remove`.
-/
import EroikoBlue.MP4.DirWalk
import EroikoBlue.MP4.HdrWalk
import EroikoBlue.MP4.Paths

namespace EroikoBlue.MP4

open Bytes FileHeader HdrSlots Search

/-! ## Releasing objects -/

/-- What `RemoveSingleObj` clears, in its order. -/
def Obj.freed (o : Obj) : List Nat := o.hdr.leaves ++ [o.hdr.sector]

/-- What the removal of several objects clears. -/
def freed (os : List Obj) : List Nat := os.flatMap Obj.freed

theorem freed_append (a b : List Obj) : freed (a ++ b) = freed a ++ freed b :=
  List.flatMap_append

theorem Obj.freed_subperm (o : Obj) : o.freed.Subperm o.sectors := by
  have hperm : o.freed.Perm (o.hdr.sector :: o.hdr.leaves) :=
    List.perm_append_comm
  have hsub : (o.hdr.sector :: o.hdr.leaves).Sublist
      (o.hdr.headers ++ o.hdr.leaves) :=
    .cons_cons _ (List.sublist_append_right _ _)
  exact hperm.subperm.trans (hsub.subperm.trans o.hdr.sectors_perm.symm.subperm)

theorem freed_subperm (os : List Obj) :
    (freed os).Subperm (Volume.sectorsOf os) := by
  induction os with
  | nil => exact .refl _
  | cons o os ih => exact o.freed_subperm.append ih

variable {d : Disk}

theorem removeSingleObj_eq {o : Obj} (h : o.Holds d) {fm : Bitmap}
    (hown : Owned fm o.freed) :
    FileSystem.removeSingleObj d o.hdr.sector fm =
      .ok (fm.clearAll o.freed) := by
  obtain ⟨hleaves, hsector⟩ := Owned.rest hown
  have hlt := hsector.lt _ (.head _)
  rw [FileSystem.removeSingleObj, HdrTree.fetchFrom_eq h.wf h.stored,
    Outcome.ok_bind,
    HdrTree.deallocate_eq h.wf.length h.wf.slots hleaves, Outcome.ok_bind]
  simp only
  rw [Bitmap.clear_eq hlt, Obj.freed, Bitmap.clearAll_append]
  rfl

theorem releaseAll_eq : ∀ {os : List Obj} {fm : Bitmap}, (∀ o ∈ os, o.Holds d) →
    Owned fm (freed os) →
    os.foldlM (fun fm o => FileSystem.removeSingleObj d o.hdr.sector fm) fm =
      .ok (fm.clearAll (freed os))
  | [], _, _, _ => rfl
  | o :: os, fm, hheld, hown => by
      have hsplit : Owned fm (o.freed ++ freed os) := hown
      obtain ⟨hone, hrest⟩ := hsplit.rest
      have hall : freed (o :: os) = o.freed ++ freed os := rfl
      rw [List.foldlM_cons, removeSingleObj_eq (hheld o (.head _)) hone,
        Outcome.ok_bind,
        releaseAll_eq (fun o ho => hheld o (.tail _ ho)) hrest, hall,
          Bitmap.clearAll_append]

/-! ## `Directory::Apply` -/

section Apply
variable {σ : Type} (callbackFile callbackDir : Int → σ → Except Fault σ)

/-- What `Apply` does at one object. -/
def visit (object : σ) (o : Obj) : Except Fault σ :=
  if o.table.isSome then callbackDir o.hdr.sector object
    else callbackFile o.hdr.sector object

theorem drop_cons {α : Type} {l l' : List α} {a : α} {i : Nat}
    (h : l.drop i = a :: l') (x : α) :
    l.getD i x = a ∧ l.drop (i + 1) = l' := by
  have hget : l[i]? = some a := by
    have := congrArg (·[0]?) h
    simpa using this
  refine ⟨by rw [List.getD_eq_getElem?_getD, hget]; rfl, ?_⟩
  rw [← List.drop_drop, h]
  rfl

theorem subDirectory_eq {table : List DirectoryEntry}
    {i : Nat} {hdr : HdrTree} {sub : List DirectoryEntry}
    (hsec : (table.getD i .blank).sector = hdr.sector)
    (h : Obj.Holds d ⟨hdr, some sub⟩) :
    (Directory.ofTable table).subDirectory i d = .ok (.ofTable sub) := by
  have hlen : (Directory.new NumDirEntries).table.length = NumDirEntries :=
    List.length_replicate
  rw [Directory.subDirectory, show (Directory.ofTable table).table = table
    from rfl, hsec, h.open_eq,
    Outcome.ok_bind, h.fetchFrom_eq rfl hlen]

/-- The loop of `Apply` visits what is behind the entries from `i` on, if
`apply` does so for the directories there. -/
theorem visitAll_applyVisit {table : List DirectoryEntry}
    {apply : Directory → σ → Except Fault σ} {fuel : Nat}
    (hrec : ∀ (sub : Entries) (object : σ), sub.depth < fuel → sub.Tidy →
      (∀ o ∈ sub.objs, o.Holds d) →
      apply (.ofTable sub.table) object =
        sub.postorder.foldlM (visit callbackFile callbackDir) object) :
    ∀ {es : Entries} {i : Nat} (object : σ), table.drop i = es.table →
      es.depth ≤ fuel → es.Tidy →
      (∀ o ∈ es.objs, o.Holds d) →
      Directory.visitAll (Directory.applyVisit callbackFile callbackDir
          fun i object => do
          let sub ← (Directory.ofTable table).subDirectory i d
          apply sub object) (Directory.used i es.table) object =
        es.postorder.foldlM (visit callbackFile callbackDir) object := by
  intro es
  induction es with
  | nil => exact fun _ _ _ _ _ => rfl
  | free e rest ih =>
      intro i object hdrop hdepth ht hheld
      rw [Entries.table, Directory.used_of_free i ht.1]
      exact ih object (drop_cons hdrop e).2 hdepth ht.2 hheld
  | file e hdr rest ih =>
      intro i object hdrop hdepth ht hheld
      obtain ⟨⟨huse, hkind, hsec⟩, hrest⟩ := ht
      rw [Entries.table, Directory.used_of_inUse i huse, Directory.visitAll,
        Directory.applyVisit, hkind,
        if_neg Bool.false_ne_true, Entries.postorder, List.foldlM_cons, hsec]
      exact bind_congr fun object' =>
        ih object' (drop_cons hdrop e).2 hdepth hrest fun o ho =>
          hheld o (.tail _ ho)
  | dir e hdr sub rest _ ih =>
      intro i object hdrop hdepth ht hheld
      obtain ⟨⟨huse, hkind, hsec⟩, hsub, hrest⟩ := ht
      obtain ⟨hget, hdrop'⟩ := drop_cons hdrop .blank
      simp only [Entries.depth] at hdepth
      have hsubdir :=
        subDirectory_eq (d := d) (by rw [hget, hsec]) (hheld _ (.head _))
      have hbelow := hrec sub object (by omega) hsub fun o ho =>
        hheld o (.tail _ (List.mem_append_left _ ho))
      rw [Entries.table, Directory.used_of_inUse i huse, Directory.visitAll,
        Directory.applyVisit, hkind,
        if_pos rfl, hsubdir, Outcome.ok_bind, hbelow, Entries.postorder,
          List.foldlM_append, hsec, bind_assoc]
      refine bind_congr fun object' => ?_
      rw [List.foldlM_cons]
      exact bind_congr fun object'' =>
          ih object'' hdrop' (by omega) hrest fun o ho =>
        hheld o (.tail _ (List.mem_append_right _ ho))

/-- `Apply` visits everything below a directory, each directory after its
content. -/
theorem apply_eq : ∀ {fuel : Nat} {es : Entries} (object : σ), es.depth < fuel →
    es.Tidy →
    (∀ o ∈ es.objs, o.Holds d) →
    (Directory.ofTable es.table).apply callbackFile callbackDir d fuel object =
      es.postorder.foldlM (visit callbackFile callbackDir) object
  | 0, _, _, hdepth, _, _ => absurd hdepth (Nat.not_lt_zero _)
  | fuel + 1, es, object, hdepth, ht, hheld => by
      rw [(Directory.visits_of_count rfl d).apply]
      exact visitAll_applyVisit callbackFile callbackDir
        (fun sub object hd hts hhs => apply_eq object hd hts hhs) object
          List.drop_zero
        (Nat.le_of_lt_succ hdepth) ht hheld

end Apply

/-! ## The writes -/

/-- What a removal has written when it returns: the table of the parent `G`, and
the free map without what the objects `gone` gave back. -/
structure Removed (d d' : Disk) (v : Volume) (G : Folder) (es : Entries)
    (gone : List Obj) : Prop where
  frame : ∀ s, s ∉ G.hdr.leaves → s ∉ v.map.leaves → d' s = d s
  parent : G.hdr.HoldsTable d' es.table
  map : ∀ j, (v.map.freeMap d').bit j = (!decide (j ∈ freed gone) &&
    (v.map.freeMap d).bit j)

section Writes
variable {v : Volume} {fs : FileSystem} {tr : TraversePath} {p : List Key}
  {G : Folder}

theorem Volume.On.owned (h : v.On d) {os : List Obj}
    (hos : os.Subperm v.root.objs) :
    Owned (v.map.freeMap d) (freed os) := by
  have hsub := (freed_subperm os).trans (Volume.sectorsOf_subperm hos)
  have hmem : ∀ s ∈ freed os, s ∈ v.sectors :=
    fun s hs => List.mem_append_right _ (hsub.subset hs)
  refine ⟨?_, ?_, fun s hs => h.marked s (hmem s hs)⟩
  · obtain ⟨l, hperm, hl⟩ := hsub
    exact hperm.nodup_iff.mp ((List.nodup_append.mp h.nodup).2.1.sublist hl)
  · intro s hs
    rw [show (v.map.freeMap d).numBits = NumSectors from freeMapOf_numBits _]
    exact h.lt (hmem s hs)

theorem gone_subperm (hG : v.root.get p = some G) {k : Key} {hdr : HdrTree}
    {sub : Option Entries} (hk : G.entries.lookup k = some (hdr, sub)) :
    (Entries.subtree hdr sub).Subperm v.root.objs := by
  obtain ⟨R, hroot, _⟩ := Folder.objs_set p hG
  have hsub : (Entries.subtree hdr sub).Sublist
      (Entries.subtree hdr sub ++ (G.entries.erase k).objs) :=
        List.sublist_append_left _ _
  have hobjs : (Entries.subtree hdr sub).Subperm G.entries.objs :=
    hsub.subperm.trans (Entries.objs_erase hk).symm.subperm
  have hin : G.entries.objs.Sublist
      (⟨G.hdr, some G.entries.table⟩ :: (G.entries.objs ++ R)) :=
    .cons _ (List.sublist_append_left _ _)
  exact hobjs.trans (hin.subperm.trans hroot.symm.subperm)

theorem writeRemoved_eq (h : v.On d) (hmap : fs.freeMapFile.hdr = v.map.header)
    (hat : tr.At v p G) {name : List Byte} {attr : Bool}
    {found : HdrTree × Option Entries} (gone : List Obj) {l : List Nat}
    (hk : G.entries.lookup (DirectoryEntry.keyOf name attr) = some found)
    (hl : ∀ j, j ∈ l ↔ j ∈ freed gone) :
    ∃ d', (do
        PersistentBitmap.writeBack ((v.map.freeMap d).clearAll l) fs.freeMapFile
        TraversePath.flush { tr with dir := (tr.dir.remove name attr).2 }
        pure true : FsM Bool) d = .ok true d' ∧
      Removed d d' v G
          (G.entries.erase (DirectoryEntry.keyOf name attr)) gone := by
  have ht := Folder.tidy_get p h.tidy hat.get
  have hheld := h.holds_get hat.get
  have hG := Folder.get_mem hat.get
  have hfile : G.hdr.IsDirFile := ⟨hheld.wf, (hheld.table _ rfl).1.bytes⟩
  obtain ⟨e, he⟩ : ∃ e, G.entries.table.find?
      (Directory.hasKey (DirectoryEntry.keyOf name attr)) = some e := by
    refine Option.ne_none_iff_exists'.mp fun hnone => ?_
    rw [(Entries.find?_isNone ht).mp hnone] at hk
    cases hk
  have htable : (tr.dir.remove name attr).2.table =
      (G.entries.erase (DirectoryEntry.keyOf name attr)).table := by
    rw [Entries.table_erase ht, hat.dir]
    exact Directory.remove_ok he
  have hn : ((v.map.freeMap d).clearAll l).numBits = NumSectors := by
    rw [Bitmap.clearAll_numBits]
    exact freeMapOf_numBits _
  obtain ⟨d₁, hrun₁, hframe₁, _, hbits⟩ := h.mapFile.writeBack_eq hmap d hn
  obtain ⟨d', hrun, hframe, hparent⟩ := hfile.writeBack_eq hat.file d₁
    (show (tr.dir.remove name attr).2.table.length = NumDirEntries by
      rw [htable, Entries.table_erase ht, length_updateFirst]
      exact (hheld.table _ rfl).1.length)
  have hflush : TraversePath.flush { tr with
    dir := (tr.dir.remove name attr).2 } d₁ = .ok () d' := hrun
  refine ⟨d', ?_, ?_, ?_, ?_⟩
  · rw [Outcome.bind_of_ok hrun₁, Outcome.bind_of_ok hflush]
    rfl
  · intro s hg hm
    rw [hframe s hg, hframe₁ s hm]
  · rw [htable] at hparent
    exact hparent
  · intro j
    have hsame : v.map.freeMap d' = v.map.freeMap d₁ :=
        HdrTree.freeMap_congr fun s hs =>
      hframe s fun hg =>
        h.map_disjoint hG (HdrTree.mem_sectors.mpr (.inr hs))
          (HdrTree.mem_sectors.mpr (.inr hg))
    rw [hsame, hbits, Bitmap.bit_clearAll]
    simp only [hl]

theorem Removed.update {d' : Disk}
    (h : v.On d) (hG : v.root.get p = some G) {k : Key} {hdr : HdrTree}
    {sub : Option Entries} (hk : G.entries.lookup k = some (hdr, sub))
    (hrem : Removed d d' v G (G.entries.erase k) (Entries.subtree hdr sub)) :
    Volume.Update d d' v G (G.entries.erase k)
      (Entries.subtree hdr sub) [] where
  tidy := Entries.tidy_erase (Folder.tidy_get p h.tidy hG) k
  good := by
    rw [Entries.table_erase (Folder.tidy_get p h.tidy hG)]
    exact ((h.holds_get hG).table _ rfl).2.vacate k
  objs := ⟨_, Entries.objs_erase hk, .refl _⟩
  table := hrem.parent
  frame := fun s _ => hrem.frame s
  held := nofun
  nodup := List.nodup_nil
  clear := nofun
  kept := by
    intro s hs hgone
    have hnot : s ∉ freed (Entries.subtree hdr sub) := fun hf =>
      hgone ((freed_subperm _).subset hf)
    rw [hrem.map, hs, decide_eq_false hnot]
    rfl
  marked := nofun

/-! ## The operations -/

theorem find_found (h : v.On d) (hat : tr.At v p G)
    {name : List Byte} {attr : Bool} {hdr : HdrTree} {sub : Option Entries}
    (hk : G.entries.lookup (DirectoryEntry.keyOf name attr) = some (hdr, sub)) :
    tr.dir.find name attr = hdr.sector ∧ ¬ tr.dir.find name attr = -1 := by
  have hfind : tr.dir.find name attr = hdr.sector := by
    rw [hat.dir, Entries.find_eq (Folder.tidy_get p h.tidy hat.get), hk]
  refine ⟨hfind, ?_⟩
  rw [hfind]
  exact fun hneg => absurd hneg (by simp)

/-- `RemoveSingleObj` on the object that was looked up, after the objects in
it. -/
theorem removeFound_eq (h : v.On d) (hG : v.root.get p = some G)
    {k : Key} {hdr : HdrTree} {sub : Option Entries}
    (hk : G.entries.lookup k = some (hdr, sub)) {l : List Obj}
    (hl : l.Perm (Entries.inside sub)) :
    FileSystem.removeSingleObj d hdr.sector ((v.map.freeMap d).clearAll
        (freed l)) =
      .ok ((v.map.freeMap d).clearAll
        (freed (l ++ [⟨hdr, sub.map Entries.table⟩]))) := by
  have hperm : List.Perm (l ++ [⟨hdr, sub.map Entries.table⟩])
      (Entries.subtree hdr sub) :=
    List.perm_append_comm.trans (hl.cons _)
  have hown := h.owned (hperm.subperm.trans (gone_subperm hG hk))
  rw [freed_append] at hown
  have hone : freed [(⟨hdr, sub.map Entries.table⟩ : Obj)] = Obj.freed ⟨hdr,
      sub.map Entries.table⟩ :=
    List.append_nil _
  have hheld : Obj.Holds d ⟨hdr, sub.map Entries.table⟩ :=
    h.objs _ ((gone_subperm hG hk).subset (.head _))
  have hown' := hown.rest.2
  rw [hone] at hown'
  rw [removeSingleObj_eq hheld hown', freed_append, hone,
    Bitmap.clearAll_append]

theorem remove_ok (h : v.On d) (hfs : fs.Mounts v) {path name : List Byte}
    (hr : Resolves v path p G name) {hdr : HdrTree} {sub : Option Entries}
    (hk : G.entries.lookup (DirectoryEntry.keyOf name IS_FILE) =
      some (hdr, sub)) :
    ∃ d', fs.remove path d = .ok true d' ∧
      Removed d d' v G (G.entries.erase (DirectoryEntry.keyOf name IS_FILE))
        (Entries.subtree hdr sub) := by
  obtain ⟨tr, hrun, hat, htarget⟩ := hr.traversePath_eq h hfs.root IS_FILE
  obtain ⟨hfind, hne⟩ := find_found h hat hk
  cases Entries.lookup_file (Folder.tidy_get p h.tidy hr.get) hk
  have hobj := removeFound_eq h hr.get hk (l := []) (.refl _)
  obtain ⟨d', hwrite, hremoved⟩ := writeRemoved_eq h hfs.map hat
    (Entries.subtree hdr none) hk (l := freed ([] ++ [⟨hdr, none⟩]))
      fun j => Iff.rfl
  refine ⟨d', ?_, hremoved⟩
  rw [hk, Option.isSome_some] at htarget
  rw [FileSystem.remove, Outcome.bind_of_ok (Outcome.reads_of_ok hrun), htarget]
  simp only
  rw [if_neg hne, hfind,
    Outcome.bind_of_ok (Outcome.reads_of_ok (h.mapFile.ofFile_eq hfs.map d)),
    Outcome.bind_of_ok (Outcome.reads_of_ok
      (f := fun d₁ => FileSystem.removeSingleObj d₁ hdr.sector
        (v.map.freeMap d)) hobj)]
  exact hwrite

theorem removeBelow_eq (h : v.On d) (hG : v.root.get p = some G)
    {name : List Byte} {hdr : HdrTree} {sub : Entries} (hk : G.entries.lookup
      (DirectoryEntry.keyOf name IS_DIR) = some (hdr, some sub)) :
    FileSystem.removeBelow d (.ofTable G.entries.table) name (v.map.freeMap d) =
      .ok ((v.map.freeMap d).clearAll (freed sub.postorder)) := by
  have ht := Folder.tidy_get p h.tidy hG
  have hgone := gone_subperm hG hk
  have hobj : Obj.Holds d ⟨hdr, some sub.table⟩ :=
    h.objs _ (hgone.subset (.head _))
  have hsub : sub.postorder.Subperm v.root.objs :=
    sub.postorder_perm.subperm.trans
      ((List.sublist_cons_self _ _).subperm.trans hgone)
  have hheld : ∀ o ∈ sub.objs, o.Holds d :=
    fun o ho => h.objs o (hgone.subset (.tail _ ho))
  have hdepth : sub.depth < NumSectors :=
    Nat.lt_of_lt_of_le (Nat.lt_succ_of_le sub.depth_le)
      (hgone.length_le.trans h.length_objs_le)
  cases hidx : (Directory.ofTable G.entries.table).findIndex name IS_DIR with
  | none =>
      have hnone := (Entries.find?_isNone ht).mp
        ((Directory.findIndex_isNone _ name IS_DIR).mp hidx)
      rw [hk] at hnone
      cases hnone
  | some i =>
      have hsec : (G.entries.table.getD i .blank).sector = hdr.sector := by
        rw [Directory.findIndex, Directory.named_eq_hasKey,
          show (Directory.ofTable G.entries.table).table = G.entries.table
            from rfl] at hidx
        have hfind :=
          G.entries.find?_hasKey ht (DirectoryEntry.keyOf name IS_DIR)
        rw [getD_findIdx? hidx .blank, hk] at hfind
        exact Option.some.inj hfind
      have hvisit :
          visit (FileSystem.removeSingleObj d) (FileSystem.removeSingleObj d) =
          fun fm o => FileSystem.removeSingleObj d o.hdr.sector fm :=
        funext fun fm => funext fun o => ite_self _
      rw [FileSystem.removeBelow, hidx]
      simp only
      rw [subDirectory_eq hsec hobj, Outcome.ok_bind,
        apply_eq _ _ _ hdepth (Entries.tidy_lookup ht hk) hheld,
        hvisit]
      exact releaseAll_eq
        (fun o ho => hheld o (sub.postorder_perm.mem_iff.mp ho)) (h.owned hsub)

theorem removeTarget_ok (h : v.On d) (hfs : fs.Mounts v) (hat : tr.At v p G)
    {name : List Byte} {attr : Bool} {hdr : HdrTree} {sub : Option Entries}
    (hk : G.entries.lookup (DirectoryEntry.keyOf name attr) = some (hdr, sub)) :
    ∃ d', fs.removeTarget tr name attr d = .ok true d' ∧
      Removed d d' v G (G.entries.erase (DirectoryEntry.keyOf name attr))
        (Entries.subtree hdr sub) := by
  obtain ⟨hfind, hne⟩ := find_found h hat hk
  have hkind := Entries.lookup_kind (Folder.tidy_get p h.tidy hat.get) hk
  -- the objects released before the target
  obtain ⟨l, hl, hbelow⟩ : ∃ l : List Obj, l.Perm (Entries.inside sub) ∧
      FileSystem.removeContent tr.dir name attr (v.map.freeMap d) d =
        .ok ((v.map.freeMap d).clearAll (freed l)) := by
    cases attr with
    | false =>
        cases Option.isNone_iff_eq_none.mp
          (by rw [← Option.not_isSome, hkind]; rfl)
        exact ⟨[], .refl _, rfl⟩
    | true =>
        obtain ⟨sub, rfl⟩ := Option.isSome_iff_exists.mp hkind
        refine ⟨sub.postorder, sub.postorder_perm, ?_⟩
        rw [FileSystem.removeContent, if_pos rfl, hat.dir]
        exact removeBelow_eq h hat.get hk
  have hobj := removeFound_eq h hat.get hk hl
  have hperm : List.Perm (l ++ [⟨hdr, sub.map Entries.table⟩])
      (Entries.subtree hdr sub) :=
    List.perm_append_comm.trans (hl.cons _)
  obtain ⟨d', hwrite, hremoved⟩ := writeRemoved_eq h hfs.map hat
    (Entries.subtree hdr sub) hk
    (l := freed (l ++ [⟨hdr, sub.map Entries.table⟩])) fun j =>
      (hperm.flatMap_right _).mem_iff
  refine ⟨d', ?_, hremoved⟩
  rw [FileSystem.removeTarget,
    Outcome.bind_of_ok (Outcome.reads_of_ok (h.mapFile.ofFile_eq hfs.map d)),
    Outcome.bind_of_ok (Outcome.reads_of_ok hbelow)]
  simp only
  rw [if_neg hne, hfind, Outcome.bind_of_ok (Outcome.reads_of_ok
    (f := fun d₁ => FileSystem.removeSingleObj d₁ hdr.sector
      ((v.map.freeMap d).clearAll (freed l))) hobj)]
  exact hwrite

theorem recursiveRemove_file (h : v.On d)
    (hfs : fs.Mounts v) {path name : List Byte} (hr : Resolves v path p G name)
    {hdr : HdrTree} {sub : Option Entries} (hk : G.entries.lookup
      (DirectoryEntry.keyOf name IS_FILE) = some (hdr, sub)) :
    ∃ d', fs.recursiveRemove path d = .ok true d' ∧
      Removed d d' v G (G.entries.erase (DirectoryEntry.keyOf name IS_FILE))
        (Entries.subtree hdr sub) := by
  obtain ⟨tr, hrun, hat, htarget⟩ := hr.traversePath_eq h hfs.root IS_FILE
  obtain ⟨d', hremove, hremoved⟩ := removeTarget_ok h hfs hat hk
  refine ⟨d', ?_, hremoved⟩
  rw [hk, Option.isSome_some] at htarget
  rw [FileSystem.recursiveRemove, Outcome.bind_of_ok (Outcome.reads_of_ok hrun),
    htarget]
  exact hremove

/-- A directory is removed in the second attempt, if no file has its name. -/
theorem recursiveRemove_dir (h : v.On d)
    (hfs : fs.Mounts v) {path name : List Byte} (hr : Resolves v path p G name)
    (hfile : G.entries.lookup (DirectoryEntry.keyOf name IS_FILE) = none)
    {hdr : HdrTree} {sub : Option Entries} (hk : G.entries.lookup
      (DirectoryEntry.keyOf name IS_DIR) = some (hdr, sub)) :
    ∃ d', fs.recursiveRemove path d = .ok true d' ∧
      Removed d d' v G (G.entries.erase (DirectoryEntry.keyOf name IS_DIR))
        (Entries.subtree hdr sub) := by
  obtain ⟨tr₁, hrun₁, hat₁, htarget₁⟩ := hr.traversePath_eq h hfs.root IS_FILE
  obtain ⟨tr, hrun, hat, htarget⟩ := hr.traversePath_eq h hfs.root IS_DIR
  obtain ⟨d', hremove, hremoved⟩ := removeTarget_ok h hfs hat hk
  refine ⟨d', ?_, hremoved⟩
  rw [hfile, Option.isSome_none] at htarget₁
  rw [hk, Option.isSome_some] at htarget
  rw [FileSystem.recursiveRemove,
    Outcome.bind_of_ok (Outcome.reads_of_ok hrun₁), htarget₁]
  simp only
  rw [Outcome.bind_of_ok (hat₁.flush_eq h),
    Outcome.bind_of_ok (Outcome.reads_of_ok hrun), htarget]
  exact hremove

theorem Removed.next {d' : Disk} (h : v.On d) (hG : v.root.get p = some G)
    {k : Key} {hdr : HdrTree}
    {sub : Option Entries} (hk : G.entries.lookup k = some (hdr, sub))
    (hrem : Removed d d' v G (G.entries.erase k) (Entries.subtree hdr sub)) :
    Volume.Next d d' v (v.set p (G.entries.erase k)) :=
  (hrem.update h hG hk).next h hG

/-- However `Remove` ends, the disk holds a volume. -/
theorem remove_keeps (h : v.On d) (hfs : fs.Mounts v) (path : List Byte) :
    v.Keeps d (fs.remove path d) := by
  cases hrun : traversePath path IS_FILE fs.directoryFile d with
  | error e =>
      rw [FileSystem.remove,
        Outcome.bind_of_error (Outcome.reads_of_error hrun)]
      exact Volume.keeps_same h rfl
  | ok tr =>
      rcases traversePath_cases h hfs.root hrun with
        ⟨p, G, name, hr, _, htarget⟩ | ⟨_, htarget⟩
      · cases hk : G.entries.lookup (DirectoryEntry.keyOf name IS_FILE) with
        | none =>
            rw [hk, Option.isSome_none] at htarget
            rw [FileSystem.remove,
              Outcome.bind_of_ok (Outcome.reads_of_ok hrun), htarget]
            exact Volume.keeps_same h rfl
        | some found =>
            obtain ⟨d', hremove, hremoved⟩ := remove_ok h hfs hr hk
            rw [hremove]
            exact ⟨_, hremoved.next h hr.get hk⟩
      · rw [FileSystem.remove, Outcome.bind_of_ok (Outcome.reads_of_ok hrun),
          htarget]
        exact Volume.keeps_same h rfl

/-- However `RecursiveRemove` ends, the disk holds a volume. -/
theorem recursiveRemove_keeps (h : v.On d) (hfs : fs.Mounts v)
    (path : List Byte) :
    v.Keeps d (fs.recursiveRemove path d) := by
  by_cases hres : ∃ p G name, Resolves v path p G name
  · obtain ⟨p, G, name, hr⟩ := hres
    cases hfile : G.entries.lookup (DirectoryEntry.keyOf name IS_FILE) with
    | some found =>
        obtain ⟨d', hremove, hremoved⟩ := recursiveRemove_file h hfs hr hfile
        rw [hremove]
        exact ⟨_, hremoved.next h hr.get hfile⟩
    | none =>
        cases hdir : G.entries.lookup (DirectoryEntry.keyOf name IS_DIR) with
        | some found =>
            obtain ⟨d', hremove, hremoved⟩ :=
              recursiveRemove_dir h hfs hr hfile hdir
            rw [hremove]
            exact ⟨_, hremoved.next h hr.get hdir⟩
        | none =>
            obtain ⟨tr₁, hrun₁, hat₁, htarget₁⟩ :=
              hr.traversePath_eq h hfs.root IS_FILE
            obtain ⟨tr, hrun, _, htarget⟩ :=
              hr.traversePath_eq h hfs.root IS_DIR
            rw [hfile, Option.isSome_none] at htarget₁
            rw [hdir, Option.isSome_none] at htarget
            rw [FileSystem.recursiveRemove,
              Outcome.bind_of_ok (Outcome.reads_of_ok hrun₁), htarget₁]
            simp only
            rw [Outcome.bind_of_ok (hat₁.flush_eq h),
              Outcome.bind_of_ok (Outcome.reads_of_ok hrun), htarget]
            exact Volume.keeps_same h rfl
  · -- neither attempt finds the parent
    rw [FileSystem.recursiveRemove]
    cases hrun₁ : traversePath path IS_FILE fs.directoryFile d with
    | error e =>
        rw [Outcome.bind_of_error (Outcome.reads_of_error hrun₁)]
        exact Volume.keeps_same h rfl
    | ok tr₁ =>
        rcases traversePath_cases h hfs.root hrun₁ with
          ⟨p, G, name, hr, _⟩ | ⟨⟨p, G, hat₁⟩, htarget₁⟩
        · exact absurd ⟨p, G, name, hr⟩ hres
        rw [Outcome.bind_of_ok (Outcome.reads_of_ok hrun₁), htarget₁]
        simp only
        rw [Outcome.bind_of_ok (hat₁.flush_eq h)]
        cases hrun : traversePath path IS_DIR fs.directoryFile d with
        | error e =>
            rw [Outcome.bind_of_error (Outcome.reads_of_error hrun)]
            exact Volume.keeps_same h rfl
        | ok tr =>
            rcases traversePath_cases h hfs.root hrun with
              ⟨p, G, name, hr, _⟩ | ⟨_, htarget⟩
            · exact absurd ⟨p, G, name, hr⟩ hres
            rw [Outcome.bind_of_ok (Outcome.reads_of_ok hrun), htarget]
            exact Volume.keeps_same h rfl

end Writes

end EroikoBlue.MP4
