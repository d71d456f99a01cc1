/-
# `MP4.Volume` — what a disk holds

A volume is the free-map file and the tree of directories.  `Volume.read` reads
it off a disk with the program's own functions: headers with `FetchFrom`, tables
with `Directory::FetchFrom`, from the two fixed sectors down.  It says what is
on the disk, whatever a run did before.

`Volume.On` is the invariant of the file system: headers and tables lie where
the tree says, no sector belongs to two objects or to one object twice, and
every sector of an object is marked in the free map.  `On.read_eq` connects the
two, and `On.update` is the one argument every operation needs: rewriting the
table of one directory and the free map, with new objects in sectors that were
clear, leads from one volume to the next.

## `Update` in words

One directory is rewritten.  Of the objects in it some leave (`gone`) and some
arrive (`new`), in sectors that were clear; every sector that was marked keeps
what is in it, but for the table of that directory and the free map; and what
was marked stays marked, but for the sectors of those that leave.  `Create` has
`gone` empty, `Remove` has `new` empty, and neither needs to look at the rest of
the tree again.

`Next` adds that the sectors of free map and root did not move, so the objects
in memory serve the next volume too (`Mounts.next`).
-/
import Mathlib.Data.List.Nodup
import Mathlib.Data.List.Pairwise
import EroikoBlue.MP4.FileSys
import EroikoBlue.MP4.Tree

namespace EroikoBlue.MP4

open Bytes FileHeader

/-! ## Reading -/

mutual

/-- The tree of a header in memory. -/
def FileHeader.slots : FileHeader → HdrSlots
  | ⟨_, _, _, dataSectors, _, children, _⟩ => slotsFrom dataSectors children 0
termination_by structural hdr => hdr

/-- The slots from slot `i` on. -/
def FileHeader.slotsFrom (dataSectors : List Int) : List (Option FileHeader) →
    Nat → HdrSlots
  | [], _ => .nil
  | child :: children, i => match slotsChild child with
    | some (bytes, sub) =>
        .node (dataSectors.getD i INVALID_SECTOR).toNat bytes sub
          (slotsFrom dataSectors children (i + 1))
    | none =>
        if dataSectors.getD i INVALID_SECTOR = INVALID_SECTOR then .nil
        else .leaf (dataSectors.getD i INVALID_SECTOR).toNat
          (slotsFrom dataSectors children (i + 1))
termination_by structural children => children

/-- The bytes and the slots of a child. -/
def FileHeader.slotsChild : Option FileHeader → Option (Nat × HdrSlots)
  | none => none
  | some child => some (child.numBytes.toNat, slots child)
termination_by structural child => child

end

namespace HdrSlots

theorem slotsFrom_nil {ds : List Int}
    {k i : Nat} {map : Bitmap} (hk : k + i = N_SECTORS) (h : At .nil i map ds) :
    slotsFrom ds (List.replicate k none) i = .nil := by
  cases k with
  | zero => rfl
  | succ k =>
      obtain ⟨_, hinv⟩ := h.nil (by omega)
      rw [List.replicate_succ, slotsFrom]
      exact if_pos hinv

theorem slotsFrom_eq : ∀ {sl : HdrSlots} {i : Nat} (cur : Nat) {map : Bitmap}
    {ds : List Int},
    At sl i map ds → sl.WF →
      slotsFrom ds (fill (N_SECTORS - i) none (sl.children cur)) i = sl
  | .nil, i, cur, map, ds, h, _ => by
      have hi := h.room
      simp only [HdrSlots.length] at hi
      exact slotsFrom_nil (by simp [children]; omega) h
  | .leaf s rest, i, cur, map, ds, h, hwf => by
      obtain ⟨_, hs, hrest⟩ := h.leaf
      rw [children, fill_cons, slotsFrom, slotsFrom_eq (cur + 1) hrest hwf, hs]
      exact if_neg (by simp [INVALID_SECTOR])
  | .node s b sub rest, i, cur, map, ds, h, ⟨⟨hlen, _, _, hsub⟩, hwf⟩ => by
      obtain ⟨_, hs, hrest⟩ := h.node
      have ih := slotsFrom_eq cur (at_zero hlen) hsub
      have hchild : slotsChild (some (mkHeader cur b sub (sub.children cur))) =
          some (b, sub) := by
        rw [slotsChild, mkHeader, slots]
        exact congrArg (fun sl => some (b, sl)) ih
      rw [children, fill_cons, slotsFrom, hchild,
        slotsFrom_eq (cur + sub.leaves.length) hrest hwf, hs]
      rfl

end HdrSlots

namespace HdrTree

/-- The tree of a header read from `sector`. -/
def ofHeader (sector : Int) (hdr : FileHeader) : HdrTree :=
  ⟨sector.toNat, hdr.numBytes.toNat, hdr.slots⟩

theorem ofHeader_header {t : HdrTree} (h : t.WF) :
    ofHeader t.sector t.header = t := by
  have hslots : t.header.slots = t.slots :=
    HdrSlots.slotsFrom_eq 0 (HdrSlots.at_zero h.length) h.slots
  rw [ofHeader, hslots]
  rfl

end HdrTree

/-- The objects of a table; `readDir` reads the directory in a sector. -/
def Entries.read (d : Disk) (readDir : Int → Except Fault Folder) :
    List DirectoryEntry → Except Fault Entries
  | [] => pure .nil
  | e :: table => do
    let rest ← Entries.read d readDir table
    if e.inUse then
      if e.isDir then do
        let sub ← readDir e.sector
        pure (.dir e sub.hdr sub.entries rest)
      else do
        let hdr ← fresh.fetchFrom d e.sector
        pure (.file e (.ofHeader e.sector hdr) rest)
    else pure (.free e rest)

/-- The directory whose header is in `sector`, at most `fuel` levels deep. -/
def Folder.read (d : Disk) : Nat → Int → Except Fault Folder
  | 0, _ => .error .diverges
  | fuel + 1, sector => do
    let file ← OpenFile.open d sector
    let dir ← (Directory.new NumDirEntries).fetchFrom file d
    let entries ← Entries.read d (Folder.read d fuel) dir.table
    pure ⟨.ofHeader sector file.hdr, entries⟩

/-- The free-map file and the directories. -/
structure Volume where
  map : HdrTree
  root : Folder

namespace Volume

/-- The volume on a disk. -/
def read (d : Disk) : Except Fault Volume := do
  let map ← fresh.fetchFrom d FreeMapSector
  let root ← Folder.read d NumSectors DirectorySector
  pure ⟨.ofHeader FreeMapSector map, root⟩

/-- Every sector that belongs to the free map, a directory or a file. -/
def sectors (v : Volume) : List Nat :=
  v.map.sectors ++ v.root.objs.flatMap Obj.sectors

/-- The volume with other content in one of its directories. -/
def set (v : Volume) (p : List Key) (new : Entries) : Volume :=
  ⟨v.map, v.root.set p new⟩

end Volume

/-! ## The invariant -/

/-- The disk holds an object: its header, and its table if it is a directory. -/
structure Obj.Holds (d : Disk) (o : Obj) : Prop where
  wf : o.hdr.WF
  stored : o.hdr.Stored d
  table : ∀ table, o.table = some table → o.hdr.HoldsTable d table ∧
    Directory.GoodTable table

theorem Obj.Holds.congr {d d' : Disk} {o : Obj} (h : o.Holds d)
    (hd : ∀ s ∈ o.sectors, d' s = d s) :
    o.Holds d' where
  wf := h.wf
  stored := h.stored.congr fun s hs => hd s (HdrTree.mem_sectors.mpr (.inl hs))
  table := fun table ht => by
    obtain ⟨hheld, hgood⟩ := h.table table ht
    refine ⟨⟨hheld.wf, hheld.bytes, hheld.length, ?_⟩, hgood⟩
    rw [HdrTree.content_congr fun s hs =>
      hd s (HdrTree.mem_sectors.mpr (.inr hs)), hheld.content]

namespace Volume

/-- The disk holds the volume, and the free map is right about it. -/
structure On (d : Disk) (v : Volume) : Prop where
  map_sector : v.map.sector = FreeMapSector
  root_sector : v.root.hdr.sector = DirectorySector
  mapFile : v.map.IsMapFile
  mapStored : v.map.Stored d
  tidy : v.root.entries.Tidy
  objs : ∀ o ∈ v.root.objs, o.Holds d
  nodup : v.sectors.Nodup
  marked : ∀ s ∈ v.sectors, (v.map.freeMap d).bit s = true

end Volume

/-! ## Reading gives the volume -/

/-- The number of levels of directories. -/
def Entries.depth : Entries → Nat
  | .nil => 0
  | .free _ rest => rest.depth
  | .file _ _ rest => rest.depth
  | .dir _ _ sub rest => max (sub.depth + 1) rest.depth

theorem Entries.depth_le (es : Entries) : es.depth ≤ es.objs.length := by
  induction es with
  | nil => exact Nat.le_refl _
  | free e rest ih => exact ih
  | file e hdr rest ih => exact Nat.le_succ_of_le ih
  | dir e hdr sub rest ihs ihr =>
      simp only [depth, objs, List.length_cons, List.length_append]
      omega

section Read
variable {d : Disk}

theorem Obj.Holds.open_eq {o : Obj} (h : o.Holds d) :
    OpenFile.open d o.hdr.sector = .ok { hdr := o.hdr.header, seekPosition := 0 } := by
  rw [OpenFile.open, HdrTree.fetchFrom_eq h.wf h.stored]
  rfl

theorem Obj.Holds.fetchFrom_eq {hdr : HdrTree}
    {table : List DirectoryEntry} (h : Obj.Holds d ⟨hdr, some table⟩)
    {file : OpenFile} (hfile : file.hdr = hdr.header) {dir : Directory}
    (hdir : dir.table.length = NumDirEntries) :
    dir.fetchFrom file d = .ok (.ofTable table) := by
  obtain ⟨hheld, hgood⟩ := h.table table rfl
  exact hheld.fetchFrom_eq hgood hfile hdir

theorem Entries.read_eq {readDir : Int → Except Fault Folder}
    {fuel : Nat} (hdir : ∀ F : Folder, F.entries.depth < fuel → F.entries.Tidy →
      (∀ o ∈ F.objs, o.Holds d) →
      readDir F.hdr.sector = .ok F) :
    ∀ {es : Entries}, es.depth ≤ fuel → es.Tidy → (∀ o ∈ es.objs, o.Holds d) →
      Entries.read d readDir es.table = .ok es
  | .nil, _, _, _ => rfl
  | .free e rest, hdepth, ht, hobjs => by
      rw [table, Entries.read, read_eq hdir (show rest.depth ≤ fuel from hdepth)
        ht.2 hobjs, Outcome.ok_bind, ht.1]
      rfl
  | .file e hdr rest, hdepth, ht, hobjs => by
      obtain ⟨⟨huse, hkind, hsec⟩, hrest⟩ := ht
      have hhdr := hobjs _ (.head _)
      rw [table, Entries.read,
        read_eq hdir (show rest.depth ≤ fuel from hdepth) hrest fun o ho =>
          hobjs o (.tail _ ho), Outcome.ok_bind, huse,
        hkind, if_pos rfl, if_neg Bool.false_ne_true, hsec,
          HdrTree.fetchFrom_eq hhdr.wf hhdr.stored,
        Outcome.ok_bind, HdrTree.ofHeader_header hhdr.wf]
      rfl
  | .dir e hdr sub rest, hdepth, ht, hobjs => by
      obtain ⟨⟨huse, hkind, hsec⟩, hsub, hrest⟩ := ht
      simp only [depth] at hdepth
      have hfolder : readDir hdr.sector = .ok ⟨hdr, sub⟩ := by
        refine hdir ⟨hdr, sub⟩ (by simp only; omega) hsub ?_
        intro o ho
        rcases List.mem_cons.mp ho with rfl | ho
        · exact hobjs _ (.head _)
        · exact hobjs o (.tail _ (List.mem_append_left _ ho))
      rw [table, Entries.read,
        read_eq hdir (show rest.depth ≤ fuel by omega) hrest fun o ho =>
          hobjs o (.tail _ (List.mem_append_right _ ho)),
        Outcome.ok_bind, huse, hkind, if_pos rfl, if_pos rfl, hsec, hfolder]
      rfl

theorem Folder.read_eq : ∀ (fuel : Nat) (F : Folder), F.entries.depth < fuel →
    F.entries.Tidy →
    (∀ o ∈ F.objs, o.Holds d) → Folder.read d fuel F.hdr.sector = .ok F
  | 0, F, hdepth, _, _ => absurd hdepth (Nat.not_lt_zero _)
  | fuel + 1, F, hdepth, ht, hobjs => by
      have hself := hobjs _ (.head _)
      have hlen : (Directory.new NumDirEntries).table.length = NumDirEntries :=
        List.length_replicate
      rw [Folder.read, hself.open_eq, Outcome.ok_bind,
        hself.fetchFrom_eq rfl hlen, Outcome.ok_bind]
      have hes := Entries.read_eq (read_eq fuel) (Nat.le_of_lt_succ hdepth)
          ht fun o ho =>
        hobjs o (.tail _ ho)
      rw [show (Directory.ofTable F.entries.table).table = F.entries.table
        from rfl, hes,
        Outcome.ok_bind, HdrTree.ofHeader_header hself.wf]
      rfl

end Read

namespace Volume

namespace On
variable {d : Disk} {v : Volume}

theorem lt (h : v.On d) {s : Nat} (hs : s ∈ v.sectors) : s < NumSectors := by
  rcases List.mem_append.mp hs with hs | hs
  · exact h.mapFile.wf.lt s hs
  · obtain ⟨o, ho, hso⟩ := List.mem_flatMap.mp hs
    exact (h.objs o ho).wf.lt s hso

/-- There are no more objects than sectors. -/
theorem length_objs_le (h : v.On d) : v.root.objs.length ≤ NumSectors := by
  have hsub : ∀ os : List Obj, (os.map (·.hdr.sector)).Sublist
      (os.flatMap Obj.sectors) := by
    intro os
    induction os with
    | nil => exact .slnil
    | cons o os ih =>
        exact .cons_cons _ (ih.trans (List.sublist_append_right _ _))
  have hnodup := (List.nodup_append.mp h.nodup).2.1.sublist (hsub v.root.objs)
  have hrange : v.root.objs.map (·.hdr.sector) ⊆ List.range NumSectors :=
      fun s hs =>
    List.mem_range.mpr (h.lt (List.mem_append_right _ ((hsub _).mem hs)))
  have hlen := (hnodup.subperm hrange).length_le
  rw [List.length_map, List.length_range] at hlen
  exact hlen

theorem depth_lt (h : v.On d) : v.root.entries.depth < NumSectors :=
  Nat.lt_of_lt_of_le (Nat.lt_succ_of_le v.root.entries.depth_le)
    h.length_objs_le

theorem read_eq (h : v.On d) : Volume.read d = .ok v := by
  have hmap : fresh.fetchFrom d FreeMapSector = .ok v.map.header := by
    rw [← h.map_sector]
    exact HdrTree.fetchFrom_eq h.mapFile.wf h.mapStored
  have hroot : Folder.read d NumSectors DirectorySector = .ok v.root := by
    rw [← h.root_sector]
    exact Folder.read_eq NumSectors v.root h.depth_lt h.tidy h.objs
  rw [read, hmap, Outcome.ok_bind, hroot, Outcome.ok_bind, ← h.map_sector,
    HdrTree.ofHeader_header h.mapFile.wf]
  rfl

theorem map_marked (h : v.On d) {s : Nat} (hs : s ∈ v.map.sectors) :
    (v.map.freeMap d).bit s = true := h.marked s (List.mem_append_left _ hs)

theorem obj_marked (h : v.On d) {o : Obj} (ho : o ∈ v.root.objs) {s : Nat}
    (hs : s ∈ o.sectors) :
    (v.map.freeMap d).bit s = true :=
  h.marked s (List.mem_append_right _ (List.mem_flatMap.mpr ⟨o, ho, hs⟩))

theorem map_disjoint (h : v.On d) {o : Obj} (ho : o ∈ v.root.objs) {s : Nat}
    (hs : s ∈ v.map.sectors) :
    s ∉ o.sectors := fun hso =>
  (List.nodup_append.mp h.nodup).2.2 s hs s
    (List.mem_flatMap.mpr ⟨o, ho, hso⟩) rfl

/-- A sector has one owner. -/
theorem obj_eq (h : v.On d) {o o' : Obj} (ho : o ∈ v.root.objs)
    (ho' : o' ∈ v.root.objs) {s : Nat} (hs : s ∈ o.sectors)
    (hs' : s ∈ o'.sectors) : o = o' := by
  by_contra hne
  have hpair := (List.nodup_flatMap.mp (List.nodup_append.mp h.nodup).2.1).2
  have hsymm : Std.Symm (Function.onFun List.Disjoint Obj.sectors) := 
    ⟨fun _ _ hab _ hs hs' => hab hs' hs⟩
  exact hpair.forall ho ho' hne hs hs'

theorem rewrite (h : v.On d) {o : Obj} (ho : o ∈ v.root.objs)
    (hfile : o.table = none) {d' : Disk}
    (hframe : ∀ s, s ∉ o.hdr.leaves → d' s = d s) : v.On d' := by
  have hmap : ∀ s ∈ v.map.sectors, d' s = d s := fun s hs => hframe s fun hl =>
    h.map_disjoint ho hs (HdrTree.mem_sectors.mpr (.inr hl))
  refine ⟨h.map_sector, h.root_sector, h.mapFile, ?_, h.tidy, ?_, h.nodup, ?_⟩
  · exact h.mapStored.congr fun s hs =>
      hmap s (HdrTree.mem_sectors.mpr (.inl hs))
  · intro o' ho'
    by_cases heq : o' = o
    · subst heq
      refine ⟨(h.objs o' ho').wf,
        (h.objs o' ho').stored.congr fun s hs => ?_, ?_⟩
      · exact hframe s fun hl => (h.objs o' ho').wf.leaf_not_header hl hs
      · intro table ht
        rw [hfile] at ht
        cases ht
    · exact (h.objs o' ho').congr fun s hs => hframe s fun hl =>
        heq (h.obj_eq ho' ho hs (HdrTree.mem_sectors.mpr (.inr hl)))
  · intro s hs
    rw [HdrTree.freeMap_congr fun s hs =>
      hmap s (HdrTree.mem_sectors.mpr (.inr hs))]
    exact h.marked s hs

theorem holds_get (h : v.On d) {p : List Key} {G : Folder}
    (hp : v.root.get p = some G) :
    Obj.Holds d ⟨G.hdr, some G.entries.table⟩ := h.objs _ (Folder.get_mem hp)

end On

/-! ## From one volume to the next -/

/-- The sectors of several objects. -/
def sectorsOf (os : List Obj) : List Nat := os.flatMap Obj.sectors

theorem mem_sectorsOf {os : List Obj} {s : Nat} : s ∈ sectorsOf os ↔
    ∃ o ∈ os, s ∈ o.sectors :=
  List.mem_flatMap

theorem sectorsOf_subperm {os os' : List Obj} (h : os.Subperm os') :
    (sectorsOf os).Subperm (sectorsOf os') := by
  obtain ⟨l, hperm, hsub⟩ := h
  exact ⟨sectorsOf l, hperm.flatMap_right _, hsub.flatMap _⟩

theorem sectors_perm {v : Volume}
    {hdr : HdrTree} {table : Option (List DirectoryEntry)} {a b : List Obj}
    (h : v.root.objs.Perm (⟨hdr, table⟩ :: (a ++ b))) :
    v.sectors.Perm
      (v.map.sectors ++ (hdr.sectors ++ (sectorsOf a ++ sectorsOf b))) := by
  have hflat := h.flatMap_right Obj.sectors
  rw [List.flatMap_cons, List.flatMap_append] at hflat
  exact hflat.append_left _

/-- One directory is rewritten, on the disk and in the tree: of the objects in
it, `gone` leave and `new` arrive, in sectors that were clear.  Other clear
sectors may change in any way. -/
structure Update (d d' : Disk) (v : Volume) (G : Folder) (es : Entries)
    (gone new : List Obj) : Prop where
  tidy : es.Tidy
  good : Directory.GoodTable es.table
  objs : ∃ keep, G.entries.objs.Perm (gone ++ keep) ∧ es.objs.Perm (new ++ keep)
  table : G.hdr.HoldsTable d' es.table
  frame : ∀ s, (v.map.freeMap d).bit s = true → s ∉ G.hdr.leaves →
    s ∉ v.map.leaves → d' s = d s
  held : ∀ o ∈ new, o.Holds d'
  nodup : (sectorsOf new).Nodup
  clear : ∀ s ∈ sectorsOf new, (v.map.freeMap d).bit s = false
  kept : ∀ s, (v.map.freeMap d).bit s = true → s ∉ sectorsOf gone →
    (v.map.freeMap d').bit s = true
  marked : ∀ s ∈ sectorsOf new, (v.map.freeMap d').bit s = true

/-- What an update does to the objects: `keep` are the rest of the directory and
everything outside it. -/
theorem Update.keeps {d d' : Disk} {v : Volume} {p : List Key} {G : Folder}
    {es : Entries} {gone new : List Obj} (hu : Update d d' v G es gone new)
    (hp : v.root.get p = some G) :
    ∃ keep, v.root.objs.Perm (⟨G.hdr, some G.entries.table⟩ :: (gone ++ keep)) ∧
      (v.set p es).root.objs.Perm
        (⟨G.hdr, some es.table⟩ :: (new ++ keep)) := by
  obtain ⟨R, hroot, hroot'⟩ := Folder.objs_set p hp
  obtain ⟨keep, hold, hnew⟩ := hu.objs
  refine ⟨keep ++ R, ?_, ?_⟩
  · rw [← List.append_assoc]
    exact hroot.trans ((hold.append_right R).cons _)
  · rw [← List.append_assoc]
    exact (hroot' es).trans ((hnew.append_right R).cons _)

theorem Update.objs_cases {d d' : Disk} {v : Volume} {p : List Key} {G : Folder}
    {es : Entries} {gone new : List Obj} (hu : Update d d' v G es gone new)
    (hp : v.root.get p = some G) {o : Obj} (ho : o ∈ (v.set p es).root.objs) :
    o = ⟨G.hdr, some es.table⟩ ∨ o ∈ new ∨ o ∈ v.root.objs := by
  obtain ⟨keep, hold, hnew⟩ := hu.keeps hp
  rcases List.mem_cons.mp (hnew.mem_iff.mp ho) with rfl | ho
  · exact .inl rfl
  rcases List.mem_append.mp ho with ho | ho
  · exact .inr (.inl ho)
  · exact .inr (.inr (hold.mem_iff.mpr (.tail _ (List.mem_append_right _ ho))))

/-- The sectors of a volume, in four parts: the free map, one directory, and two
lots of objects.  They are marked, and the parts share none. -/
structure Apart (d : Disk) (v : Volume) (G : Folder)
    (gone keep : List Obj) : Prop where
  nodup : (v.map.sectors ++
    (G.hdr.sectors ++ (sectorsOf gone ++ sectorsOf keep))).Nodup
  marked : ∀ s ∈ v.map.sectors ++
    (G.hdr.sectors ++ (sectorsOf gone ++ sectorsOf keep)),
    (v.map.freeMap d).bit s = true
  map : ∀ s ∈ v.map.sectors,
    s ∉ G.hdr.sectors ++ (sectorsOf gone ++ sectorsOf keep)
  dir : ∀ s ∈ G.hdr.sectors, s ∉ sectorsOf gone ++ sectorsOf keep
  gone : ∀ s ∈ sectorsOf gone, s ∉ sectorsOf keep

theorem On.apart {d : Disk} {v : Volume} (h : v.On d)
    {G : Folder} {gone keep : List Obj} (hperm : v.root.objs.Perm (⟨G.hdr,
      some G.entries.table⟩ :: (gone ++ keep))) : Apart d v G gone keep := by
  have hsec := sectors_perm hperm
  have hnodup := hsec.nodup h.nodup
  obtain ⟨_, hrest, hmap⟩ := List.nodup_append.mp hnodup
  obtain ⟨_, hgk, hdir⟩ := List.nodup_append.mp hrest
  obtain ⟨_, _, hgone⟩ := List.nodup_append.mp hgk
  exact ⟨hnodup, fun s hs => h.marked s (hsec.mem_iff.mpr hs),
    fun s hs hs' => hmap s hs s hs' rfl,
    fun s hs hs' => hdir s hs s hs' rfl, fun s hs hs' => hgone s hs s hs' rfl⟩

section Update
variable {d d' : Disk} {v : Volume} {p : List Key} {G : Folder} {es : Entries}
  {gone new keep : List Obj}

/-- The disk under the free map and the directory is the same, up to their data,
and so is the disk under what is kept. -/
theorem Update.same (hu : Update d d' v G es gone new)
    (hapart : Apart d v G gone keep) {s : Nat} (hs : s ∈
      v.map.sectors ++ (G.hdr.sectors ++ (sectorsOf gone ++ sectorsOf keep)))
    (hdir : s ∉ G.hdr.leaves) (hmap : s ∉ v.map.leaves) : d' s = d s :=
  hu.frame s (hapart.marked s hs) hdir hmap

theorem Update.mapStored (h : v.On d) (hu : Update d d' v G es gone new)
    (hapart : Apart d v G gone keep) :
    v.map.Stored d' := by
  refine h.mapStored.congr fun s hs => ?_
  have hs' : s ∈ v.map.sectors := HdrTree.mem_sectors.mpr (.inl hs)
  refine hu.same hapart (List.mem_append_left _ hs') ?_ fun hm =>
    h.mapFile.wf.leaf_not_header hm hs
  intro hg
  exact hapart.map s hs'
    (List.mem_append_left _ (HdrTree.mem_sectors.mpr (.inr hg)))

theorem Update.dir_holds (h : v.On d) (hp : v.root.get p = some G)
    (hu : Update d d' v G es gone new) (hapart : Apart d v G gone keep) :
    Obj.Holds d' ⟨G.hdr, some es.table⟩ := by
  have hwf := (h.holds_get hp).wf
  refine ⟨hwf, (h.holds_get hp).stored.congr fun s hs => ?_, ?_⟩
  · have hs' : s ∈ G.hdr.sectors := HdrTree.mem_sectors.mpr (.inl hs)
    refine hu.same hapart (List.mem_append_right _ (List.mem_append_left _ hs'))
      (fun hg => hwf.leaf_not_header hg hs) ?_
    intro hm
    exact hapart.map s (HdrTree.mem_sectors.mpr (.inr hm))
      (List.mem_append_left _ hs')
  · intro table ht
    cases ht
    exact ⟨hu.table, hu.good⟩

theorem Update.kept_holds (hu : Update d d' v G es gone new)
    (hapart : Apart d v G gone keep) {o : Obj} (hheld : o.Holds d)
    (ho : o ∈ keep) : o.Holds d' := by
  refine hheld.congr fun s hs => ?_
  have hs' : s ∈ sectorsOf gone ++ sectorsOf keep :=
    List.mem_append_right _ (mem_sectorsOf.mpr ⟨o, ho, hs⟩)
  refine hu.same hapart
    (List.mem_append_right _ (List.mem_append_right _ hs')) ?_ ?_
  · intro hg
    exact hapart.dir s (HdrTree.mem_sectors.mpr (.inr hg)) hs'
  · intro hm
    exact hapart.map s (HdrTree.mem_sectors.mpr (.inr hm))
      (List.mem_append_right _ hs')

/-- The new sectors in front: they were clear, the others were marked. -/
theorem Update.sectors_nodup (hu : Update d d' v G es gone new)
    (hapart : Apart d v G gone keep) :
    (v.map.sectors ++
        (G.hdr.sectors ++ (sectorsOf new ++ sectorsOf keep))).Nodup := by
  have hfront : (v.map.sectors ++
      (G.hdr.sectors ++ (sectorsOf new ++ sectorsOf keep))).Perm
      (sectorsOf new ++ (v.map.sectors ++ (G.hdr.sectors ++ sectorsOf keep))) :=
    ((List.perm_append_comm_assoc _ _ _).append_left _).trans
      (List.perm_append_comm_assoc _ _ _)
  have hsub : (v.map.sectors ++ (G.hdr.sectors ++ sectorsOf keep)).Sublist
      (v.map.sectors ++
          (G.hdr.sectors ++ (sectorsOf gone ++ sectorsOf keep))) :=
    ((List.sublist_append_right _ _).append_left _).append_left _
  refine hfront.nodup_iff.mpr
    (List.nodup_append.mpr ⟨hu.nodup, hapart.nodup.sublist hsub, ?_⟩)
  rintro s hs _ hs' rfl
  have hclear := hu.clear s hs
  rw [hapart.marked s (hsub.mem hs')] at hclear
  cases hclear

theorem Update.sectors_marked (hu : Update d d' v G es gone new)
    (hapart : Apart d v G gone keep) {s : Nat} (hs : s ∈
      v.map.sectors ++ (G.hdr.sectors ++ (sectorsOf new ++ sectorsOf keep))) :
    (v.map.freeMap d').bit s = true := by
  rcases List.mem_append.mp hs with hs | hs
  · refine hu.kept s (hapart.marked s (List.mem_append_left _ hs)) fun hg => ?_
    exact hapart.map s hs (List.mem_append_right _ (List.mem_append_left _ hg))
  rcases List.mem_append.mp hs with hs | hs
  · refine hu.kept s (hapart.marked s
      (List.mem_append_right _ (List.mem_append_left _ hs))) fun hg => ?_
    exact hapart.dir s hs (List.mem_append_left _ hg)
  rcases List.mem_append.mp hs with hs | hs
  · exact hu.marked s hs
  · have hs' := List.mem_append_right (sectorsOf gone) hs
    refine hu.kept s (hapart.marked s
      (List.mem_append_right _ (List.mem_append_right _ hs'))) fun hg => ?_
    exact hapart.gone s hg hs

theorem On.update (h : v.On d) (hp : v.root.get p = some G)
    (hu : Update d d' v G es gone new) :
    (v.set p es).On d' := by
  obtain ⟨keep, hold, hnew⟩ := hu.keeps hp
  have hapart := h.apart hold
  have hsec := sectors_perm hnew
  have hmap : v.map.Stored d' := hu.mapStored h hapart
  refine ⟨h.map_sector, h.root_sector, h.mapFile, hmap,
    Folder.tidy_set hu.tidy p h.tidy, fun o ho => ?_,
    hsec.nodup_iff.mpr (hu.sectors_nodup hapart), fun s hs =>
      hu.sectors_marked hapart (hsec.mem_iff.mp hs)⟩
  rcases List.mem_cons.mp (hnew.mem_iff.mp ho) with rfl | ho
  · exact hu.dir_holds h hp hapart
  rcases List.mem_append.mp ho with ho | ho
  · exact hu.held o ho
  · exact hu.kept_holds hapart
      (h.objs o (hold.mem_iff.mpr (.tail _ (List.mem_append_right _ ho)))) ho

end Update

/-! ## Operations on a mounted volume -/

/-- `v'` comes after `v`: the fixed files stay where they are, and every file
that was not there before lies in sectors that were clear. -/
structure Next (d d' : Disk) (v v' : Volume) : Prop where
  on : v'.On d'
  map : v'.map = v.map
  root : v'.root.hdr = v.root.hdr
  files : ∀ o ∈ v'.root.objs, o.table = none →
    o ∈ v.root.objs ∨ ∀ s ∈ o.sectors, (v.map.freeMap d).bit s = false

theorem Next.refl {d : Disk} {v : Volume} (h : v.On d) : Next d d v v :=
  ⟨h, rfl, rfl, fun _ ho _ => .inl ho⟩

theorem Update.next {d d' : Disk} {v : Volume}
    (h : v.On d) {p : List Key} {G : Folder} (hp : v.root.get p = some G)
    {es : Entries} {gone new : List Obj} (hu : Update d d' v G es gone new) :
    Next d d' v (v.set p es) where
  on := h.update hp hu
  map := rfl
  root := rfl
  files := by
    intro o ho hfile
    rcases hu.objs_cases hp ho with rfl | ho | ho
    · cases hfile
    · exact .inr fun s hs => hu.clear s (mem_sectorsOf.mpr ⟨o, ho, hs⟩)
    · exact .inl ho

/-- However an operation ends, returned or stopped, the disk holds a next
volume. -/
def Keeps {α : Type} (v : Volume) (d : Disk)
    (result : EStateM.Result Fault Disk α) : Prop :=
  ∃ v', Next d (Outcome.final result) v v'

theorem Keeps.bind {α β : Type} {v : Volume} {d : Disk} {x : FsM α}
    {f : α → FsM β} (hx : v.Keeps d (x d))
    (hf : ∀ a d', Outcome.final (f a d') = d') : v.Keeps d ((x >>= f) d) := by
  obtain ⟨v', hnext⟩ := hx
  refine ⟨v', Outcome.final_bind (P := fun d' => Next d d' v v') hnext ?_⟩
  intro a d' _ hd'
  rw [hf]
  exact hd'

theorem keeps_same {α : Type} {v : Volume} {d : Disk} (h : v.On d)
    {result : EStateM.Result Fault Disk α} (hsame : Outcome.final result = d) :
    v.Keeps d result :=
  ⟨v, hsame.symm ▸ .refl h⟩

end Volume

/-- The two files a file system keeps open are those of the volume. -/
structure FileSystem.Mounts (fs : FileSystem) (v : Volume) : Prop where
  map : fs.freeMapFile.hdr = v.map.header
  root : fs.directoryFile.hdr = v.root.hdr.header

theorem FileSystem.Mounts.next {fs : FileSystem} {v v' : Volume} {d d' : Disk}
    (h : fs.Mounts v) (hn : Volume.Next d d' v v') : fs.Mounts v' where
  map := by rw [hn.map, h.map]
  root := by rw [hn.root, h.root]

end EroikoBlue.MP4
