/-
# `MP4.Create` — `CreateFileDir` on a volume

`CreateFileDir` takes a sector for the header and the sectors of the tree from a
copy of the free map (`reserve`), and only then writes: the header, the free
map, the empty table of a new directory, and last the table of the parent.  An
assertion that fails does so before the first write, so a run that stops leaves
the disk as it was (`createNew_error`); one that does not has written all of it
(`createNew_ok`).

The result of `Directory::Add` is ignored.  With a free entry in the parent the
disk afterwards holds the volume with the new object in it; without one it holds
the old volume, and the sectors of the new object stay marked.

## How the writes are put together

Each of the four has a lemma that says what it leaves of the others: the header
(`writeHeader_eq`), the free map and the empty table (`writeTables_eq`,
`writeNewDir_eq`), and the table of the parent (`writeParent_eq`).  `Created` is
their sum, stated about the disk before and the disk after and no disk between,
and `Created.update` turns it into an `Update` of the volume.  From there on
`MP4.Volume` does the rest.

`createFileDir_keeps` is the form in which the runs use it: whatever the call
answers, and also when it stops, the disk holds a volume.
-/
import EroikoBlue.MP4.HdrLife
import EroikoBlue.MP4.Paths

namespace EroikoBlue.MP4

open Bytes FileHeader

/-! ## The sectors of a new object -/

/-- A sector for the header, and the header with its sectors. -/
def reserve (fm : Bitmap) (size : Int) :
    Except Fault (Int × FileHeader × Bitmap) := do
  let (hdr, fm') ← fresh.allocate fm.findAndSet.2 size
  pure (fm.findAndSet.1, hdr, fm')

/-- What a reservation takes from the free map. -/
structure Reserved (fm : Bitmap) (size : Nat) (t : HdrTree)
    (fm' : Bitmap) : Prop where
  wf : t.WF
  bytes : t.bytes = size
  numBits : fm'.numBits = NumSectors
  clear : ∀ s ∈ t.sectors, fm.bit s = false
  bit : ∀ j, fm'.bit j = (decide (j ∈ t.sectors) || fm.bit j)
  count : fm.clearCount = fm'.clearCount + t.sectors.length

theorem reserve_ok {fm fm' : Bitmap} {size sector : Int}
    {hdr : FileHeader} (hn : fm.numBits = NumSectors) (hpos : 0 < size)
    (h : reserve fm size = .ok (sector, hdr, fm')) :
    ∃ t : HdrTree, sector = t.sector ∧ hdr = t.header ∧
      Reserved fm size.toNat t fm' := by
  obtain ⟨⟨hdr', fm₂⟩, halloc, hpure⟩ := Outcome.bind_eq_ok.mp h
  cases hpure
  obtain ⟨size, rfl⟩ := Int.eq_ofNat_of_zero_le (Int.le_of_lt hpos)
  obtain ⟨sl, rfl, hal⟩ := HdrSlots.allocated halloc
  obtain ⟨s₀, hs₀⟩ : ∃ s, s ∈ sl.sectors := by
    refine List.exists_mem_of_length_pos ?_
    have hlen := sl.sectors_perm.length_eq
    have hleaves := hal.leaves
    rw [List.length_append] at hlen
    simp only [HdrSlots.sectorCount, SectorSize] at hleaves
    omega
  rcases fm.findAndSet_cases with ⟨hnone, hfull⟩ | ⟨i, hi, _, hbit, hfound⟩
  · -- no sector for the header: then none for the tree
    rw [hnone] at hal halloc
    exfalso
    rcases hfull with hzero | hfull
    · rw [HdrSlots.allocate_eq] at halloc
      obtain ⟨_, hassert, _⟩ := Outcome.bind_eq_ok.mp halloc
      have hclear : fm.size > _ := assertMsg_eq_ok.mp hassert
      omega
    · obtain ⟨hlt, hb⟩ := hal.takes.mem_clear hs₀
      rw [hfull s₀ hlt] at hb
      cases hb
  · rw [hfound] at hal
    have hbits : ∀ j, (fm.take i (Nat.le_of_lt hi)).bit j =
        (decide (j = i) || fm.bit j) :=
      Bitmap.bit_take hi _
    have hmark : (fm.take i (Nat.le_of_lt hi)).bit i = true := by
      rw [hbits, decide_eq_true rfl, Bool.true_or]
    refine ⟨⟨i, size, sl⟩, by rw [hfound], rfl, ?_, rfl, ?_, ?_, ?_, ?_⟩
    · exact hal.tree_wf hn (hn ▸ hi) hmark
    · rw [hal.takes.numBits]
      exact hn
    · intro s hs
      rcases List.mem_cons.mp hs with rfl | hs
      · exact hbit
      · have hb := (hal.takes.mem_clear hs).2
        rw [hbits, Bool.or_eq_false_iff] at hb
        exact hb.2
    · intro j
      rw [hal.takes.bit, hbits, ← Bool.or_assoc]
      congr 1
      rw [HdrTree.sectors, ← Bool.decide_or]
      exact decide_eq_decide.mpr ((or_comm).trans List.mem_cons.symm)
    · have hset := Bitmap.clearCount_setBit hi
      rw [hbit, if_neg Bool.false_ne_true] at hset
      rw [hset, HdrTree.sectors, List.length_cons, ← Nat.add_assoc,
        ← hal.takes.clearCount]
      rfl

/-! ## The writes -/

/-- The size `CreateFileDir` allocates. -/
def objectSize (isDir : Bool) (initialSize : Int) : Int :=
  if isDir then DirectoryFileSize else initialSize

/-- The content of a new object: an empty table, if it is a directory. -/
def newEntries (isDir : Bool) : Option Entries :=
  if isDir then some (.empty NumDirEntries) else none

/-- What `CreateFileDir` has written when it returns: the new object `t`, the
table `table` of the parent `G`, and the free map `fm`. -/
structure Created (d d' : Disk) (v : Volume) (G : Folder) (t : HdrTree)
    (isDir : Bool) (table : List DirectoryEntry) (fm : Bitmap) : Prop where
  frame : ∀ s, s ∉ t.sectors → s ∉ G.hdr.leaves → s ∉ v.map.leaves → d' s = d s
  held : Obj.Holds d' ⟨t, (newEntries isDir).map Entries.table⟩
  parent : G.hdr.HoldsTable d' table
  map : ∀ j, (v.map.freeMap d').bit j = fm.bit j

section Writes
variable {d : Disk} {v : Volume} {fs : FileSystem} {tr : TraversePath}
  {p : List Key} {G : Folder}
  {isDir : Bool} {initialSize sector : Int} {hdr : FileHeader} {fm' : Bitmap}

/-- The sectors of a new object were free, so none of them is the free map's. -/
theorem Reserved.not_map (h : v.On d) {t : HdrTree} {size s : Nat}
    (hr : Reserved (v.map.freeMap d) size t fm') (hs : s ∈ t.sectors) :
    s ∉ v.map.sectors := by
  intro hm
  have hclear := hr.clear s hs
  rw [h.map_marked hm] at hclear
  cases hclear

/-- The disk after the header and the free map of a new object are written. -/
theorem writeHeader_eq (h : v.On d) (hmap : fs.freeMapFile.hdr = v.map.header)
    {t : HdrTree} {size : Nat} (hres : Reserved (v.map.freeMap d) size t fm') :
    ∃ d', t.header.writeBack t.sector d = .ok () (t.store d) ∧
      PersistentBitmap.writeBack fm' fs.freeMapFile (t.store d) = .ok () d' ∧
      (∀ s, s ∉ t.headers → s ∉ v.map.leaves → d' s = d s) ∧ t.Stored d' ∧
      ∀ j, (v.map.freeMap d').bit j = fm'.bit j := by
  obtain ⟨d', hrun, hframe, _, hbits⟩ :=
    h.mapFile.writeBack_eq hmap (t.store d) hres.numBits
  refine ⟨d', HdrTree.writeBack_eq hres.wf d, hrun, ?_, ?_, hbits⟩
  · intro s ht hm
    rw [hframe s hm, t.store_frame ht]
  · refine (HdrTree.stored_store hres.wf d).congr fun s hs =>
      hframe s fun hm => ?_
    exact hres.not_map h (HdrTree.mem_sectors.mpr (.inl hs))
      (HdrTree.mem_sectors.mpr (.inr hm))

theorem length_add (dir : Directory) (name : List Byte) (s : Int)
    (isDir : Bool) :
    (dir.add name s isDir).2.table.length = dir.table.length := by
  rw [Directory.add]
  cases dir.findIndex name isDir with
  | some i => rfl
  | none =>
      cases dir.table.findIdx? (!·.inUse) with
      | none => rfl
      | some i => exact List.length_modify _ _ _

theorem writeNewDir_eq {d : Disk} {t : HdrTree} (hdir : t.IsDirFile)
    (hst : t.Stored d) :
    ∃ d', (Directory.new NumDirEntries).writeBack { hdr := t.header, seekPosition := 0 } d = .ok () d' ∧
      (∀ s, s ∉ t.leaves → d' s = d s) ∧
          Obj.Holds d' ⟨t, (newEntries true).map Entries.table⟩ := by
  have hlen : (Directory.new NumDirEntries).table.length = NumDirEntries :=
    List.length_replicate
  obtain ⟨d', hrun, hframe, hheld⟩ := hdir.writeBack_eq
    (show (OpenFile.mk t.header 0).hdr = t.header from rfl) d hlen
  refine ⟨d', hrun, hframe, hdir.wf, ?_, ?_⟩
  · exact hst.congr fun s hs => hframe s fun hl => hdir.wf.leaf_not_header hl hs
  · intro table ht
    cases ht
    rw [show (Directory.new NumDirEntries).table =
        (Entries.empty NumDirEntries).table from
      (Entries.table_empty _).symm] at hheld
    refine ⟨hheld, ?_⟩
    rw [Entries.table_empty]
    exact .blank _

/-- The table of the parent is written last; what was written before stays. -/
theorem writeParent_eq (h : v.On d) (hat : tr.At v p G) {d₃ : Disk}
    {t : HdrTree} {dir : Directory} (hdir : dir.table.length = NumDirEntries)
    (hclear : ∀ s ∈ t.sectors, (v.map.freeMap d).bit s = false)
    (hframe : ∀ s, s ∉ t.sectors → s ∉ v.map.leaves → d₃ s = d s)
    (hheld : Obj.Holds d₃ ⟨t, (newEntries isDir).map Entries.table⟩)
    (hbits : ∀ j, (v.map.freeMap d₃).bit j = fm'.bit j) :
    ∃ d', TraversePath.flush { tr with dir := dir } d₃ = .ok () d' ∧
      Created d d' v G t isDir dir.table fm' := by
  have hG := Folder.get_mem hat.get
  have hheldG := h.holds_get hat.get
  have hfile : G.hdr.IsDirFile := ⟨hheldG.wf, (hheldG.table _ rfl).1.bytes⟩
  obtain ⟨d', hrun, hframe', hparent⟩ := hfile.writeBack_eq hat.file d₃ hdir
  refine ⟨d', hrun, ?_, ?_, hparent, ?_⟩
  · intro s ht hg hm
    rw [hframe' s hg, hframe s ht hm]
  · refine hheld.congr fun s hs => hframe' s fun hg => ?_
    have hmark := h.obj_marked hG (s := s) (HdrTree.mem_sectors.mpr (.inr hg))
    rw [hclear s hs] at hmark
    cases hmark
  · intro j
    rw [HdrTree.freeMap_congr fun s hs => hframe' s fun hg => ?_, hbits]
    exact h.map_disjoint hG (HdrTree.mem_sectors.mpr (.inr hs))
      (HdrTree.mem_sectors.mpr (.inr hg))

/-- For a directory, its empty table is written between the free map and the
parent's table. -/
theorem writeTables_eq (h : v.On d) (hat : tr.At v p G) {d₂ : Disk}
    {t : HdrTree} {dir : Directory} (hdir : dir.table.length = NumDirEntries)
    (hr : Reserved (v.map.freeMap d) (objectSize true initialSize).toNat t fm')
    (hframe : ∀ s, s ∉ t.sectors → s ∉ v.map.leaves → d₂ s = d s)
    (hst : t.Stored d₂) (hbits : ∀ j, (v.map.freeMap d₂).bit j = fm'.bit j) :
    ∃ d₃ d', OpenFile.open d₂ t.sector = .ok { hdr := t.header, seekPosition := 0 } ∧
      (Directory.new NumDirEntries).writeBack { hdr := t.header, seekPosition := 0 } d₂ = .ok () d₃ ∧
      TraversePath.flush { tr with dir := dir } d₃ = .ok () d' ∧
          Created d d' v G t true dir.table fm' := by
  have hobj : Obj.Holds d₂ ⟨t, none⟩ := ⟨hr.wf, hst, nofun⟩
  obtain ⟨d₃, hnew, hframe', hheld⟩ := writeNewDir_eq ⟨hr.wf, hr.bytes⟩ hst
  have hframe₃ : ∀ s, s ∉ t.sectors → s ∉ v.map.leaves → d₃ s = d s :=
      fun s ht hm => by
    rw [hframe' s fun hl => ht (HdrTree.mem_sectors.mpr (.inr hl)),
      hframe s ht hm]
  have hbits₃ : ∀ j, (v.map.freeMap d₃).bit j = fm'.bit j := fun j => by
    rw [HdrTree.freeMap_congr fun s hs => hframe' s fun hl => ?_, hbits]
    exact hr.not_map h (HdrTree.mem_sectors.mpr (.inr hl))
      (HdrTree.mem_sectors.mpr (.inr hs))
  obtain ⟨d', hrun, hcreated⟩ :=
    writeParent_eq h hat hdir hr.clear hframe₃ hheld hbits₃
  exact ⟨d₃, d', hobj.open_eq, hnew, hrun, hcreated⟩

/-- Enough sectors: everything is written, and the answer is TRUE. -/
theorem createNew_ok (h : v.On d) (hmap : fs.freeMapFile.hdr = v.map.header)
    (hat : tr.At v p G) (name : List Byte)
    (hpos : 0 < objectSize isDir initialSize) (hres : reserve (v.map.freeMap d)
      (objectSize isDir initialSize) = .ok (sector, hdr, fm')) :
    ∃ t d', fs.createNew tr name isDir initialSize d = .ok true d' ∧
      Reserved (v.map.freeMap d) (objectSize isDir initialSize).toNat t fm' ∧
      Created d d' v G t isDir
        (tr.dir.add name t.sector isDir).2.table fm' := by
  have hn : (v.map.freeMap d).numBits = NumSectors := freeMapOf_numBits _
  obtain ⟨t, rfl, rfl, hr⟩ := reserve_ok hn hpos hres
  obtain ⟨⟨hdr', fm₂⟩, halloc, hpure⟩ := Outcome.bind_eq_ok.mp hres
  simp only [Outcome.pure_eq_ok, Except.ok.injEq, Prod.mk.injEq] at hpure
  obtain ⟨hsector, rfl, rfl⟩ := hpure
  -- sector 0 holds the header of the free map, so it is not the one found
  have hne : (t.sector : Int) ≠ 0 := by
    intro h0
    have hzero : v.map.sector =
      t.sector := by rw [h.map_sector]; exact (Int.ofNat_eq_zero.mp h0).symm
    exact hr.not_map h (.head _) (hzero ▸ .head _)
  have hlen : (tr.dir.add name t.sector isDir).2.table.length =
      NumDirEntries := by
    rw [length_add, hat.dir]
    exact ((h.holds_get hat.get).table _ rfl).1.length
  obtain ⟨d₂, hstore, hwrite, hframe, hst, hbits⟩ := writeHeader_eq h hmap hr
  have hframe₂ : ∀ s, s ∉ t.sectors → s ∉ v.map.leaves →
      d₂ s = d s := fun s ht =>
    hframe s fun hh => ht (HdrTree.mem_sectors.mpr (.inl hh))
  obtain ⟨fm₁, hfind⟩ : ∃ fm₁, (v.map.freeMap d).findAndSet =
      (↑t.sector, fm₁) :=
    ⟨_, Prod.ext hsector rfl⟩
  have halloc' : fresh.allocate fm₁ (if isDir = true then
      (DirectoryFileSize : Int) else initialSize) =
      .ok (t.header, fm₂) := by
    rw [hfind] at halloc
    exact halloc
  have hpos' : (if isDir = true then (DirectoryFileSize : Int)
    else initialSize) > 0 := hpos
  suffices htail : ∃ d', (if isDir then do
        let subDirFile ← Outcome.reads fun d => OpenFile.open d t.sector
        (Directory.new NumDirEntries).writeBack subDirFile
        TraversePath.flush { tr with dir := (tr.dir.add name t.sector isDir).2 }
        pure true
      else do
        TraversePath.flush { tr with dir := (tr.dir.add name t.sector isDir).2 }
        pure true : FsM Bool) d₂ = .ok true d' ∧
      Created d d' v G t isDir (tr.dir.add name t.sector isDir).2.table fm₂ by
    obtain ⟨d', hrun, hcreated⟩ := htail
    refine ⟨t, d', ?_, hr, hcreated⟩
    rw [FileSystem.createNew, Outcome.bind_of_ok
      (Outcome.reads_of_ok (h.mapFile.ofFile_eq hmap d)), hfind]
    simp only
    rw [Outcome.bind_of_ok (Outcome.lift_of_ok (assertMsg_pos hne)),
      Outcome.bind_of_ok (Outcome.lift_of_ok (assertMsg_pos hpos')),
      Outcome.bind_of_ok (Outcome.lift_of_ok halloc')]
    simp only
    rw [Outcome.bind_of_ok hstore, Outcome.bind_of_ok hwrite]
    exact hrun
  cases isDir with
  | false =>
      have hheld : Obj.Holds d₂ ⟨t, (newEntries false).map Entries.table⟩ :=
        ⟨hr.wf, hst, fun _ hs => by cases hs⟩
      obtain ⟨d', hrun, hcreated⟩ := writeParent_eq h hat hlen hr.clear hframe₂ hheld hbits
      refine ⟨d', ?_, hcreated⟩
      rw [if_neg Bool.false_ne_true, Outcome.bind_of_ok hrun]
      rfl
  | true =>
      obtain ⟨d₃, d', hopen, hnew, hrun, hcreated⟩ := writeTables_eq h hat hlen hr hframe₂ hst hbits
      refine ⟨d', ?_, hcreated⟩
      rw [if_pos rfl, Outcome.bind_of_ok
        (Outcome.reads_of_ok (f := fun d => OpenFile.open d t.sector) hopen),
        Outcome.bind_of_ok hnew, Outcome.bind_of_ok hrun]
      rfl

/-- No sectors, or no bytes: an assertion fails before the first write. -/
theorem createNew_error (h : v.On d) (hmap : fs.freeMapFile.hdr = v.map.header)
    (name : List Byte) (hno : 0 < objectSize isDir initialSize →
      ∀ x, reserve (v.map.freeMap d) (objectSize isDir initialSize) ≠ .ok x) :
    ∃ e, fs.createNew tr name isDir initialSize d = .error e d := by
  obtain ⟨sector, fm₁, hfind⟩ : ∃ sector fm₁, (v.map.freeMap d).findAndSet =
      (sector, fm₁) :=
    ⟨_, _, (Prod.eta _).symm⟩
  rw [FileSystem.createNew, Outcome.bind_of_ok
    (Outcome.reads_of_ok (h.mapFile.ofFile_eq hmap d)), hfind]
  simp only
  by_cases hs : sector ≠ 0
  · rw [Outcome.bind_of_ok (Outcome.lift_of_ok (assertMsg_pos hs))]
    by_cases hpos : (if isDir = true then (DirectoryFileSize : Int)
      else initialSize) > 0
    · rw [Outcome.bind_of_ok (Outcome.lift_of_ok (assertMsg_pos hpos))]
      obtain ⟨e, halloc⟩ : ∃ e, fresh.allocate fm₁
          (if isDir = true then (DirectoryFileSize : Int) else initialSize) =
              .error e := by
        refine Outcome.eq_error_of_ne_ok fun x hx =>
          hno hpos (sector, x.1, x.2) ?_
        rw [reserve, hfind, Outcome.bind_eq_ok]
        exact ⟨x, hx, rfl⟩
      exact ⟨e, Outcome.bind_of_error (Outcome.lift_of_error halloc)⟩
    · exact ⟨_,
        Outcome.bind_of_error (Outcome.lift_of_error (assertMsg_neg hpos))⟩
  · exact ⟨_, Outcome.bind_of_error (Outcome.lift_of_error (assertMsg_neg hs))⟩

end Writes

/-! ## The volume afterwards -/

/-- The object that `CreateFileDir` makes. -/
def newObj (t : HdrTree) (isDir : Bool) : Obj :=
  ⟨t, (newEntries isDir).map Entries.table⟩

section After
variable {d d' : Disk} {v : Volume} {p : List Key} {G : Folder}
  {name : List Byte} {t : HdrTree}
  {isDir : Bool} {fm' : Bitmap} {size : Nat}

theorem newEntries_isSome (isDir : Bool) :
    (newEntries isDir).isSome = isDir := by
  cases isDir <;> rfl

theorem inside_newEntries (isDir : Bool) :
    Entries.inside (newEntries isDir) = [] := by
  cases isDir with
  | false => rfl
  | true => exact Entries.objs_empty _

/-- The table of the parent is that of the tree with the object inserted. -/
theorem add_table (h : v.On d) (hG : v.root.get p = some G)
    (hnew : G.entries.lookup (DirectoryEntry.keyOf name isDir) = none) :
    ((Directory.ofTable G.entries.table).add name t.sector isDir).2.table =
      (G.entries.insert name t (newEntries isDir)).table := by
  have ht := Folder.tidy_get p h.tidy hG
  cases hfree : G.entries.table.find? (!·.inUse) with
  | none =>
      rw [Directory.add_full name isDir _ hfree,
        Entries.insert_full name t _ ht hfree]
      rfl
  | some e =>
      rw [Entries.table_insert name t _ ht, newEntries_isSome]
      exact Directory.add_ok _ ((Entries.find?_isNone ht).mpr hnew) hfree

theorem Created.update (h : v.On d) (hG : v.root.get p = some G)
    (hnew : G.entries.lookup (DirectoryEntry.keyOf name isDir) = none)
    (hr : Reserved (v.map.freeMap d) size t fm') (hc : Created d d' v G t isDir
      (G.entries.insert name t (newEntries isDir)).table fm') :
    Volume.Update d d' v G (G.entries.insert name t (newEntries isDir)) []
      (if (G.entries.table.find? (!·.inUse)).isSome then [newObj t isDir]
        else []) := by
  have ht := Folder.tidy_get p h.tidy hG
  have hgood := ((h.holds_get hG).table _ rfl).2
  have hnew' := (Entries.find?_isNone ht).mpr hnew
  have hsub : ∀ s, newEntries isDir = some s → s.Tidy := by
    intro s hs
    cases isDir with
    | false => cases hs
    | true =>
        cases hs
        exact Entries.tidy_empty _
  have hframe : ∀ s, (v.map.freeMap d).bit s = true → s ∉ G.hdr.leaves →
      s ∉ v.map.leaves →
      d' s = d s := by
    intro s hs
    refine hc.frame s fun hts => ?_
    rw [hr.clear s hts] at hs
    cases hs
  have hkept : ∀ s, (v.map.freeMap d).bit s = true →
      (v.map.freeMap d').bit s = true := by
    intro s hs
    rw [hc.map, hr.bit, hs, Bool.or_true]
  cases hfree : G.entries.table.find? (!·.inUse) with
  | none =>
      rw [Option.isSome_none, if_neg Bool.false_ne_true]
      refine ⟨Entries.tidy_insert name t _ ht hsub, ?_,
        ⟨G.entries.objs, .refl _, ?_⟩, hc.parent, hframe,
        nofun, List.nodup_nil, nofun, fun s hs _ => hkept s hs, nofun⟩
      · rw [Entries.insert_full name t _ ht hfree]
        exact hgood
      · rw [Entries.insert_full name t _ ht hfree]
        exact .refl _
  | some e =>
      rw [Option.isSome_some, if_pos rfl]
      have hsec : Volume.sectorsOf [newObj t isDir] = t.sectors :=
        List.append_nil _
      refine ⟨Entries.tidy_insert name t _ ht hsub, ?_,
        ⟨G.entries.objs, .refl _, ?_⟩, hc.parent, hframe,
        ?_, ?_, ?_, fun s hs _ => hkept s hs, ?_⟩
      · rw [Entries.table_insert name t _ ht, newEntries_isSome]
        refine hgood.occupy ?_ hnew' hfree
        have hlt := hr.wf.sector_lt
        rw [numSectors_eq] at hlt
        exact ⟨by omega, by omega⟩
      · have hobjs := Entries.objs_insert name t (newEntries isDir) ht hfree
        rw [Entries.subtree, inside_newEntries] at hobjs
        exact hobjs
      · intro o ho
        cases List.mem_singleton.mp ho
        exact hc.held
      · rw [hsec]
        exact hr.wf.nodup
      · rw [hsec]
        exact hr.clear
      · rw [hsec]
        intro s hs
        rw [hc.map, hr.bit, decide_eq_true hs, Bool.true_or]

end After

/-! ## `CreateFileDir` -/

section CreateFileDir
variable {d : Disk} {v : Volume} {fs : FileSystem} {path : List Byte}
  {p : List Key} {G : Folder}
  {name : List Byte} {isDir : Bool} {initialSize : Int}

theorem createFileDir_exists (h : v.On d)
    (hfs : fs.Mounts v) (hr : Resolves v path p G name)
    (hold : (G.entries.lookup (DirectoryEntry.keyOf name isDir)).isSome = true)
    (initialSize : Int) :
    fs.createFileDir path isDir initialSize d = .ok false d := by
  obtain ⟨tr, hrun, hat, htarget⟩ := hr.traversePath_eq h hfs.root isDir
  rw [hold] at htarget
  rw [FileSystem.createFileDir, Outcome.bind_of_ok (Outcome.reads_of_ok hrun),
    htarget]
  simp only
  rw [Outcome.bind_of_ok (hat.flush_eq h)]
  rfl

theorem createFileDir_new (h : v.On d)
    (hfs : fs.Mounts v) (hr : Resolves v path p G name)
    (hnew : G.entries.lookup (DirectoryEntry.keyOf name isDir) = none)
    (initialSize : Int) :
    ∃ tr : TraversePath, tr.At v p G ∧
      fs.createFileDir path isDir initialSize d =
        fs.createNew tr name isDir initialSize d := by
  obtain ⟨tr, hrun, hat, htarget⟩ := hr.traversePath_eq h hfs.root isDir
  rw [hnew, Option.isSome_none] at htarget
  refine ⟨tr, hat, ?_⟩
  rw [FileSystem.createFileDir, Outcome.bind_of_ok (Outcome.reads_of_ok hrun),
    htarget]

theorem createFileDir_unresolved (h : v.On d) (hfs : fs.Mounts v)
    (hno : ∀ p G name, ¬ Resolves v path p G name) (isDir : Bool)
    (initialSize : Int) :
    ∃ e, fs.createFileDir path isDir initialSize d = .error e d := by
  rw [FileSystem.createFileDir]
  cases hrun : traversePath path isDir fs.directoryFile d with
  | error e => exact ⟨e, Outcome.bind_of_error (Outcome.reads_of_error hrun)⟩
  | ok tr =>
      rcases traversePath_cases h hfs.root hrun with
        ⟨p, G, name, hr, _⟩ | ⟨_, htarget⟩
      · exact absurd hr (hno p G name)
      · rw [Outcome.bind_of_ok (Outcome.reads_of_ok hrun), htarget]
        exact ⟨_, rfl⟩

theorem createFileDir_ok (h : v.On d)
    (hfs : fs.Mounts v) (hr : Resolves v path p G name)
    (hnew : G.entries.lookup (DirectoryEntry.keyOf name isDir) = none)
    (hpos : 0 < objectSize isDir initialSize) {x : Int × FileHeader × Bitmap}
    (hres : reserve (v.map.freeMap d) (objectSize isDir initialSize) = .ok x) :
    ∃ t d', fs.createFileDir path isDir initialSize d = .ok true d' ∧
      Reserved (v.map.freeMap d) (objectSize isDir initialSize).toNat t x.2.2 ∧
      Created d d' v G t isDir
        (G.entries.insert name t (newEntries isDir)).table x.2.2 := by
  obtain ⟨tr, hat, hrun⟩ := createFileDir_new h hfs hr hnew initialSize
  obtain ⟨t, d', hrun', hreserved, hcreated⟩ := createNew_ok h hfs.map
    hat name hpos
    (show reserve _ _ = .ok (x.1, x.2.1, x.2.2) from hres)
  refine ⟨t, d', hrun.trans hrun', hreserved, ?_⟩
  rw [hat.dir, add_table h hr.get hnew] at hcreated
  exact hcreated

theorem createFileDir_error (h : v.On d)
    (hfs : fs.Mounts v) (hr : Resolves v path p G name)
    (hnew : G.entries.lookup (DirectoryEntry.keyOf name isDir) = none)
    (hno : 0 < objectSize isDir initialSize →
      ∀ x, reserve (v.map.freeMap d) (objectSize isDir initialSize) ≠ .ok x) :
    ∃ e, fs.createFileDir path isDir initialSize d = .error e d := by
  obtain ⟨tr, _, hrun⟩ := createFileDir_new h hfs hr hnew initialSize
  rw [hrun]
  exact createNew_error h hfs.map name hno

/-- However `CreateFileDir` ends, the disk holds a volume. -/
theorem createFileDir_keeps (h : v.On d)
    (hfs : fs.Mounts v) (path : List Byte) (isDir : Bool) (initialSize : Int) :
    v.Keeps d (fs.createFileDir path isDir initialSize d) := by
  by_cases hres : ∃ p G name, Resolves v path p G name
  · obtain ⟨p, G, name, hr⟩ := hres
    cases hlook : G.entries.lookup (DirectoryEntry.keyOf name isDir) with
    | some found =>
        rw [createFileDir_exists h hfs hr (by rw [hlook]; rfl)]
        exact Volume.keeps_same h rfl
    | none =>
        by_cases hroom : 0 < objectSize isDir initialSize ∧
            ∃ x, reserve (v.map.freeMap d) (objectSize isDir initialSize) =
              .ok x
        · obtain ⟨hpos, x, hx⟩ := hroom
          obtain ⟨t, d', hrun, hreserved, hcreated⟩ :=
            createFileDir_ok h hfs hr hlook hpos hx
          rw [hrun]
          exact ⟨_, (hcreated.update h hr.get hlook hreserved).next h hr.get⟩
        · obtain ⟨e, hrun⟩ := createFileDir_error h hfs hr hlook
            fun hpos x hx => hroom ⟨hpos, x, hx⟩
          rw [hrun]
          exact Volume.keeps_same h rfl
  · obtain ⟨e, hrun⟩ := createFileDir_unresolved h hfs
      (fun p G name hr => hres ⟨p, G, name, hr⟩) isDir initialSize
    rw [hrun]
    exact Volume.keeps_same h rfl

end CreateFileDir

end EroikoBlue.MP4
