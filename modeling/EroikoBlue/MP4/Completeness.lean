/-
# `MP4.Completeness` — when `CreateFileDir` succeeds

Two things decide it besides the path.  A new object needs sectors, and the
count that `FindAndSet` and `Allocate` consult is not the number of clear bits:
a map read from its file starts with the number of all bits, and every search
lowers it twice.  So a reservation completes when there are enough clear bits
and it takes at most half of the disk (`reserve_completes_iff`).

And it needs an entry in the parent directory, whose absence nobody notices:
`CreateFileDir` then answers TRUE and the path is not found
(`created_finds_iff`).

## The results

- `create_completes_iff`: when there are enough clear sectors, `Create` succeeds
  if and only if it needs at most half of the disk.
- `createFileDir_allOrNothing_iff`: `CreateFileDir` is all or nothing if and
  only if the name is there already or the parent has a free entry.

Each has a state that shows the defect: `create_stops_66560000` asks an empty
disk for a file that with its headers is more than half of it, and
`createFileDir_full` makes a sixty-fifth entry in the root.  The states are
built by running the operations, with `Reachable.create`, `Reachable.make` and
`Reachable.open` for one step each; `formatted_populated` is the one with a
directory, a file in it and a file beside it that other modules use.
-/
import EroikoBlue.MP4.System

namespace EroikoBlue.MP4

open Bytes FileHeader HdrSlots

/-! ## Sectors -/

/-- The top header, the data, and the inner headers of the tree `Allocate`
builds. -/
def sectorsNeeded (size : Nat) : Nat :=
  1 + sectorCount size + (plan size).headers.length

theorem sectorsNeeded_eq (size : Nat) :
    sectorsNeeded size = 1 + treeSectors size := by
  have hlen := (plan size).sectors_perm.length_eq
  rw [List.length_append, (plan_planned size).leaves] at hlen
  rw [sectorsNeeded, treeSectors]
  omega

theorem treeSectors_pos {size : Nat} (hpos : 0 < size) :
    0 < treeSectors size := by
  have hlen := (plan size).sectors_perm.length_eq
  rw [List.length_append, (plan_planned size).leaves] at hlen
  simp only [treeSectors, sectorCount, SectorSize] at *
  omega

theorem sectorsNeeded_small {size : Nat} (h : size ≤ SectorSize) :
    sectorsNeeded size ≤ 3 := by
  have hle := treeSectors_le size
  rw [sectorsNeeded_eq]
  simp only [sectorCount, SectorSize] at h hle
  omega

/-- The sectors of a new object are found in a map read from its file. -/
theorem reserve_completes_iff {fm : Bitmap} (hsize : fm.size = NumSectors)
    {size : Nat} (hpos : 0 < size) :
    (∃ x, reserve fm size = .ok x) ↔
      sectorsNeeded size ≤ fm.clearCount ∧
      sectorsNeeded size ≤ NumSectors / 2 := by
  have hN := numSectors_eq
  have hT := treeSectors_pos hpos
  have hreserve : (∃ x, reserve fm size = .ok x) ↔
      ∃ hdr fm', fresh.allocate fm.findAndSet.2 size = .ok (hdr, fm') := by
    constructor
    · rintro ⟨x, hx⟩
      obtain ⟨⟨hdr, fm'⟩, halloc, _⟩ := Outcome.bind_eq_ok.mp hx
      exact ⟨hdr, fm', halloc⟩
    · rintro ⟨hdr, fm', halloc⟩
      exact ⟨_, Outcome.bind_eq_ok.mpr ⟨_, halloc, rfl⟩⟩
  rw [hreserve, sectorsNeeded_eq]
  by_cases hclear : 0 < fm.clearCount
  · obtain ⟨i, hi, hbit, hfound⟩ :=
      findAndSet_total (show fm.size ≠ 0 by omega) hclear
    have hsize' := Bitmap.take_size (Nat.le_of_lt hi) hbit
    have hcount : fm.clearCount =
        (fm.take i (Nat.le_of_lt hi)).clearCount + 1 := by
      have hset := Bitmap.clearCount_setBit hi
      rw [hbit, if_neg Bool.false_ne_true] at hset
      exact hset
    rw [hfound]
    simp only
    rw [allocate_completes_iff hpos (by omega) (by omega)]
    omega
  · -- nothing is found, and nothing is left for the tree
    have hfull : fm.findAndSet = (-1, fm) := by
      rcases fm.findAndSet_cases with ⟨h, _⟩ | ⟨i, hi, _, hbit, _⟩
      · exact h
      · have hset := Bitmap.clearCount_setBit hi
        rw [hbit, if_neg Bool.false_ne_true] at hset
        omega
    rw [hfull]
    simp only
    rw [allocate_completes_iff hpos (by omega) (by omega)]
    omega

/-! ## Lookups -/

/-- A lookup of the path succeeds. -/
def FileSystem.Finds (fs : FileSystem) (path : List Byte) (isDir : Bool)
    (d : Disk) : Prop :=
  ∃ tr name, traversePath path isDir fs.directoryFile d = .ok tr ∧
    tr.target = some (name, true)

section Create
variable {d d' : Disk} {v : Volume} {fs : FileSystem} {path : List Byte}
  {p : List Key} {G : Folder}
  {name : List Byte} {isDir : Bool} {initialSize : Int}

theorem resolves_of_target (h : v.On d) (hfs : fs.Mounts v) {tr : TraversePath}
    {found : Bool} (htr : traversePath path isDir fs.directoryFile d = .ok tr)
    (htarget : tr.target = some (name, found)) :
    ∃ p G, Resolves v path p G name ∧ tr.dir.table = G.entries.table ∧
      found = (G.entries.lookup (DirectoryEntry.keyOf name isDir)).isSome := by
  rcases traversePath_cases h hfs.root htr with
    ⟨p, G, name', hr, hat, htarget'⟩ | ⟨_, htarget'⟩
  · rw [htarget] at htarget'
    simp only [Option.some.injEq, Prod.mk.injEq] at htarget'
    obtain ⟨rfl, rfl⟩ := htarget'
    exact ⟨p, G, hr, by rw [hat.dir]; rfl, rfl⟩
  · rw [htarget] at htarget'
    cases htarget'

theorem finds_iff (h : v.On d) (hfs : fs.Mounts v)
    (hr : Resolves v path p G name) :
    fs.Finds path isDir d ↔
      (G.entries.lookup (DirectoryEntry.keyOf name isDir)).isSome = true := by
  obtain ⟨tr, hrun, _, htarget⟩ := hr.traversePath_eq h hfs.root isDir
  constructor
  · rintro ⟨tr', name', hrun', htarget'⟩
    rw [hrun] at hrun'
    cases hrun'
    rw [htarget] at htarget'
    simp only [Option.some.injEq, Prod.mk.injEq] at htarget'
    exact htarget'.2
  · intro hsome
    rw [hsome] at htarget
    exact ⟨tr, name, hrun, htarget⟩

/-- When the answer is TRUE, the object was new and has its sectors. -/
theorem createFileDir_true (h : v.On d)
    (hfs : fs.Mounts v) (hr : Resolves v path p G name)
    (hrun : fs.createFileDir path isDir initialSize d = .ok true d') :
    G.entries.lookup (DirectoryEntry.keyOf name isDir) = none ∧ ∃ t fm',
      Reserved (v.map.freeMap d) (objectSize isDir initialSize).toNat t fm' ∧
      Created d d' v G t isDir
        (G.entries.insert name t (newEntries isDir)).table fm' := by
  cases hlook : G.entries.lookup (DirectoryEntry.keyOf name isDir) with
  | some found =>
      rw [createFileDir_exists h hfs hr (by rw [hlook]; rfl)] at hrun
      cases hrun
  | none =>
      by_cases hroom : 0 < objectSize isDir initialSize ∧
          ∃ x, reserve (v.map.freeMap d) (objectSize isDir initialSize) = .ok x
      · obtain ⟨hpos, x, hx⟩ := hroom
        obtain ⟨t, d₁, hrun₁, hreserved, hcreated⟩ :=
          createFileDir_ok h hfs hr hlook hpos hx
        rw [hrun] at hrun₁
        cases hrun₁
        exact ⟨rfl, t, _, hreserved, hcreated⟩
      · obtain ⟨e, hrun₁⟩ := createFileDir_error h hfs hr hlook fun hpos x hx =>
          hroom ⟨hpos, x, hx⟩
        rw [hrun] at hrun₁
        cases hrun₁

/-- The new object is found if the parent had a free entry. -/
theorem created_finds_iff (h : v.On d)
    (hfs : fs.Mounts v) (hr : Resolves v path p G name)
    (hrun : fs.createFileDir path isDir initialSize d = .ok true d') :
    fs.Finds path isDir d' ↔
      (G.entries.table.find? (!·.inUse)).isSome = true := by
  obtain ⟨hnew, t, fm', hreserved, hcreated⟩ := createFileDir_true h hfs hr hrun
  have hnext := (hcreated.update h hr.get hnew hreserved).next h hr.get
  have ht := Folder.tidy_get p h.tidy hr.get
  rw [finds_iff hnext.on (hfs.next hnext) (hr.set _)]
  have hkind := newEntries_isSome isDir
  cases hfree : G.entries.table.find? (!·.inUse) with
  | none =>
      simp only
      rw [Entries.insert_full name t _ ht hfree, hnew]
      exact iff_of_false Bool.false_ne_true Bool.false_ne_true
  | some e =>
      have hfound := Entries.lookup_insert name t (newEntries isDir) ht hfree
        (by rw [hkind]; exact hnew)
      rw [hkind] at hfound
      simp only
      rw [hfound]
      exact iff_of_true rfl rfl

end Create

/-! ## Files in the root -/

/-- `"/c"`. -/
def rootPath (c : Byte) : List Byte := [delimeter, c]

theorem resolves_root (v : Volume) {c : Byte} (h0 : c ≠ 0)
    (hc : c ≠ delimeter) :
    Resolves v (rootPath c) [] v.root [c] := by
  refine resolves_joinPath [] [c] (fun c' hc' => ?_) rfl (Nat.le_add_left 1 _)
  cases List.mem_singleton.mp hc'
  exact isComponent_letter h0 hc

/-- `"/d/c"`, when `"/d"` is a directory. -/
theorem resolves_below {v : Volume} {t : HdrTree} {sub : Entries} {c' c : Byte}
    (hk : v.root.entries.lookup (DirectoryEntry.keyOf [c'] IS_DIR) =
      some (t, some sub)) (h0' : c' ≠ 0) (hc' : c' ≠ delimeter) (h0 : c ≠ 0)
    (hc : c ≠ delimeter) :
    Resolves v (rootPath c' ++ rootPath c) [DirectoryEntry.keyOf [c'] IS_DIR]
      ⟨t, sub⟩ [c] := by
  refine resolves_joinPath [[c']] [c] (fun comp hcomp => ?_)
    (Folder.get_cons_of hk)
    (Nat.le_add_left 1 _)
  rcases List.mem_cons.mp hcomp with rfl | hcomp
  · exact isComponent_letter h0' hc'
  · cases List.mem_singleton.mp hcomp
    exact isComponent_letter h0 hc

theorem keyOf_ne {c c' : Byte} (h0 : c ≠ 0) (h0' : c' ≠ 0) (hne : c ≠ c') :
    DirectoryEntry.keyOf [c] IS_FILE ≠ DirectoryEntry.keyOf [c'] IS_FILE := by
  have hstr : ∀ {c : Byte}, c ≠ 0 → cstr [c] = [c] := fun h => by
    rw [cstr, List.takeWhile_cons_of_pos (by simpa using h)]
    rfl
  rw [DirectoryEntry.keyOf, DirectoryEntry.keyOf, hstr h0, hstr h0']
  intro heq
  have htake : List.take FileNameMaxLen [c] = List.take FileNameMaxLen [c'] :=
    (Prod.mk.inj heq).2
  exact hne (List.cons.inj htake).1

/-- A formatted system: the root is empty, and nearly all sectors are clear. -/
theorem formatted (d : Disk) : ∃ s v, Reachable s ∧ Inv s v ∧
    v.root.entries = .empty NumDirEntries ∧
    1046506 ≤ (v.map.freeMap s.disk).clearCount ∧
      ∀ id, s.fs.opTable id = none := by
  obtain ⟨v, d', hformat, hon, hempty, hclear⟩ := format_ok d
  have hm := treeSectors_map
  have hd := treeSectors_dir
  rw [numSectors_eq] at hclear
  exact ⟨_, v, .format hformat, ⟨hon, FileSystem.serving_mounts v, nofun⟩,
    hempty, by simp only; omega,
    fun _ => rfl⟩

/-- An object that is made in a directory with a free entry: the run goes on
with it. `Mkdir` passes size 0. -/
theorem Reachable.create {s : System} {v : Volume} (h : Reachable s)
    (hinv : Inv s v) {path : List Byte} {p : List Key} {G : Folder}
    {name : List Byte} (hr : Resolves v path p G name) (isDir : Bool)
    (hnew : G.entries.lookup (DirectoryEntry.keyOf name isDir) = none)
    {size : Nat} (hsize : isDir = true → size = 0)
    (hpos : 0 < objectSize isDir size) (hroom : sectorsNeeded (objectSize isDir
      size).toNat ≤ (v.map.freeMap s.disk).clearCount ∧
      sectorsNeeded (objectSize isDir size).toNat ≤ NumSectors / 2) :
    ∃ s' t fm', Reachable s' ∧ s'.fs = s.fs ∧
      s.fs.createFileDir path isDir size s.disk = .ok true s'.disk ∧
      Inv s' (v.set p (G.entries.insert name t (newEntries isDir))) ∧
      Reserved (v.map.freeMap s.disk) (objectSize isDir size).toNat t fm' ∧
      Created s.disk s'.disk v G t isDir
        (G.entries.insert name t (newEntries isDir)).table fm' := by
  obtain ⟨x, hx⟩ :=
    (reserve_completes_iff (freeMapOf_size (v.map.mapWords s.disk))
      (show 0 < (objectSize isDir size).toNat by omega)).mpr hroom
  rw [Int.toNat_of_nonneg (Int.le_of_lt hpos)] at hx
  obtain ⟨t, d', hrun, hreserved, hcreated⟩ :=
    createFileDir_ok hinv.on hinv.mounts hr hnew hpos hx
  obtain ⟨op, hallowed, hop⟩ : ∃ op, s.Allowed op ∧
      op.run s.fs s.disk = .ok s.fs d' := by
    cases isDir with
    | false =>
        exact ⟨.create path size, trivial, (Outcome.bind_of_ok hrun).trans rfl⟩
    | true =>
        rw [hsize rfl] at hrun
        exact ⟨.mkdir path, trivial, (Outcome.bind_of_ok hrun).trans rfl⟩
  have hstep := Step.op op hallowed hop
  obtain ⟨v', hinv'⟩ := hstep.inv hinv
  -- both volumes are what is read from the disk
  have hon :=
    hinv.on.update hr.get (hcreated.update hinv.on hr.get hnew hreserved)
  have heq : v' = v.set p (G.entries.insert name t (newEntries isDir)) :=
    Except.ok.inj (hinv'.on.read_eq.symm.trans hon.read_eq)
  exact ⟨_, t, _, h.step hstep, rfl, hrun, heq ▸ hinv', hreserved, hcreated⟩

theorem Reachable.create_small {s : System} {v : Volume}
    (h : Reachable s) (hinv : Inv s v) {path : List Byte} {p : List Key}
    {G : Folder} {name : List Byte} (hr : Resolves v path p G name)
    (hnew : G.entries.lookup (DirectoryEntry.keyOf name IS_FILE) = none)
    {size : Nat} (hpos : 0 < size) (hle : size ≤ SectorSize)
    (hroom : 3 ≤ (v.map.freeMap s.disk).clearCount) :
    ∃ s' t fm', Reachable s' ∧ s'.fs = s.fs ∧
      s.fs.create path size s.disk = .ok true s'.disk ∧
      Inv s' (v.set p (G.entries.insert name t none)) ∧
      Reserved (v.map.freeMap s.disk) size t fm' ∧
      Created s.disk s'.disk v G t IS_FILE
        (G.entries.insert name t none).table fm' := by
  have hneed : sectorsNeeded (objectSize IS_FILE size).toNat ≤ 3 :=
    sectorsNeeded_small hle
  have hhalf : 3 ≤ NumSectors / 2 := by rw [numSectors_eq]; decide
  exact h.create hinv hr IS_FILE hnew nofun (show 0 < (size : Int)
    from Int.natCast_pos.mpr hpos)
    ⟨by omega, by omega⟩

/-- A file of one byte, or a directory, in a directory with a free entry. -/
theorem Reachable.make {s : System} {v : Volume} (h : Reachable s)
    (hinv : Inv s v) {path : List Byte} {p : List Key} {G : Folder}
    {name : List Byte} (hr : Resolves v path p G name) (isDir : Bool)
    (hnew : G.entries.lookup (DirectoryEntry.keyOf name isDir) = none)
    {k n : Nat} (hfree : G.entries.table.countP (!·.inUse) = k + 1)
    (hroom : 21 * (n + 1) ≤ (v.map.freeMap s.disk).clearCount) :
    ∃ s' t es, Reachable s' ∧ Inv s' (v.set p es) ∧
      (∀ j, j ≠ DirectoryEntry.keyOf name isDir →
        es.lookup j = G.entries.lookup j) ∧
      es.lookup (DirectoryEntry.keyOf name isDir) = some (t, newEntries isDir) ∧
      es.table.countP (!·.inUse) = k ∧
      21 * n ≤ (v.map.freeMap s'.disk).clearCount := by
  have ht := Folder.tidy_get p hinv.on.tidy hr.get
  obtain ⟨e, he⟩ : ∃ e, G.entries.table.find? (!·.inUse) = some e := by
    refine Option.ne_none_iff_exists'.mp fun hnone => ?_
    have hzero : G.entries.table.countP (!·.inUse) = 0 :=
      List.countP_eq_zero.mpr (List.find?_eq_none.mp hnone)
    omega
  obtain ⟨size, hsize, hpos, hneed, hcount⟩ : ∃ size : Nat,
      (isDir = true → size = 0) ∧
      0 < objectSize isDir size ∧
        sectorsNeeded (objectSize isDir size).toNat ≤ 21 ∧
      sectorCount (objectSize isDir size).toNat ≤ 10 := by
    cases isDir with
    | false => exact ⟨1, nofun, by decide,
          Nat.le_trans (sectorsNeeded_small (by decide)) (by decide), by decide⟩
    | true =>
        refine ⟨0, fun _ => rfl, by decide, ?_, by decide⟩
        rw [sectorsNeeded_eq]
        exact Nat.add_le_add_left treeSectors_dir 1
  have hhalf : 21 ≤ NumSectors / 2 := by rw [numSectors_eq]; decide
  obtain ⟨s', t, fm', h', _, _, hinv', hres, hcreated⟩ :=
    h.create hinv hr isDir hnew hsize hpos ⟨by omega, by omega⟩
  have hone := hres.wf.length_sectors_le
  have hclear : (v.map.freeMap s'.disk).clearCount = fm'.clearCount :=
    Bitmap.clearCount_congr ((freeMapOf_numBits _).trans hres.numBits.symm)
      hcreated.map
  have hless := hres.count
  rw [hres.bytes] at hone
  refine ⟨s', t, _, h', hinv', fun j hj => ?_, ?_, ?_, by omega⟩
  · exact Entries.lookup_insert_of_ne name t (newEntries isDir)
      (by rwa [newEntries_isSome]) _
  · have hfound := Entries.lookup_insert name t (newEntries isDir) ht he
      (by rw [newEntries_isSome]; exact hnew)
    rwa [newEntries_isSome] at hfound
  · rw [Entries.table_insert name t _ ht]
    have hdec := Search.countP_updateFirst
      (f := fun e => DirectoryEntry.occupy e name t.sector
        (newEntries isDir).isSome) (fun _ => rfl) he
    exact Nat.succ.inj (hdec.trans hfree)

theorem Reachable.open {s : System} {v : Volume} (h : Reachable s)
    (hinv : Inv s v) {path : List Byte} {p : List Key} {G : Folder}
    {name : List Byte} (hr : Resolves v path p G name)
    {hdr : HdrTree} (hk : G.entries.lookup (DirectoryEntry.keyOf name IS_FILE) =
      some (hdr, none)) {id : OpenFileId} (hid : s.fs.opTable id = none) :
    ∃ s', Reachable s' ∧ s'.disk = s.disk ∧
      s'.live id = some (hdr.sector : Int) ∧
      s'.fs.opTable id = some (some { hdr := hdr.header, seekPosition := 0 }) := by
  have hfree : s.fs.freeId [id] = .ok id := by
    rw [FileSystem.freeId, hid]
    rfl
  have hopen := openAsOpenFile_ok hinv.on hinv.mounts hr hk
  obtain ⟨fs', hfs'⟩ : ∃ fs', fs' =
      { s.fs with opTable := Function.update s.fs.opTable id (some (some ⟨hdr.header, 0⟩)) } := ⟨_, rfl⟩
  have hrun : s.fs.open path [id] s.disk = .ok (id, fs') s.disk := by
    rw [FileSystem.open, Outcome.bind_of_ok hopen,
      Outcome.bind_of_ok (Outcome.lift_of_ok hfree), hfs']
    rfl
  have hop : (Op.open path [id]).run s.fs s.disk = .ok fs' s.disk := by
    rw [Op.run, Outcome.bind_of_ok hrun]
    rfl
  subst hfs'
  refine ⟨_, h.step (.op (Op.open path [id]) trivial hop), rfl, ?_,
    Function.update_self _ _ _⟩
  -- the file the identifier stands for
  obtain ⟨tr, hrun, hat, htarget⟩ :=
    hr.traversePath_eq hinv.on hinv.mounts.root IS_FILE
  obtain ⟨hfind, -⟩ := find_found hinv.on hat hk
  have hopened : s.opened (Op.open path [id]) = some (hdr.sector : Int) := by
    obtain ⟨dir, dirFile, target⟩ := tr
    cases htarget
    simp only at hfind
    rw [System.opened, hrun]
    simp only [hfind]
    exact if_pos (Int.natCast_nonneg _)
  have hat : isFileAt s.disk hdr.sector = true :=
    (isFileAt_iff hinv.on).mpr ⟨_,
      (gone_subperm hr.get hk).subset (.head _), rfl, rfl⟩
  simp only [System.holder, Function.update_self, hid, Option.isNone_some,
    Option.isNone_none, if_true,
    Bool.false_eq_true, if_false, hopened]
  exact Option.filter_some_pos hat

/-- A formatted disk with one small file, "/f", and nothing else. -/
theorem formatted_one {size : Nat} (hpos : 0 < size) (hle : size ≤ SectorSize) :
    ∃ s v t, Reachable s ∧
    Inv s v ∧
      v.root.entries = (Entries.empty NumDirEntries).insert [102] t none ∧
      ∀ id, s.fs.opTable id = none := by
  obtain ⟨s, v, h, hinv, hempty, hclear, hid⟩ :=
    formatted fun _ => Sector.ofBytes []
  have hr := resolves_root v (c := 102) (by decide) (by decide)
  have hnew : v.root.entries.lookup (DirectoryEntry.keyOf [102] IS_FILE) =
      none := by
    rw [hempty, Entries.lookup_empty]
  obtain ⟨s', t, fm', h', hfs, hrun, hinv', hres, _⟩ :=
    h.create_small hinv hr hnew hpos hle (by omega)
  refine ⟨s', _, t, h', hinv', congrArg (Entries.insert [102] t none) hempty,
    fun id => ?_⟩
  rw [hfs]
  exact hid id

theorem formatted_file {size : Nat} (hpos : 0 < size)
    (hle : size ≤ SectorSize) : ∃ s v t, Reachable s ∧
    Inv s v ∧ Resolves v (rootPath 102) [] v.root [102] ∧
      v.root.entries.lookup (DirectoryEntry.keyOf [102] IS_FILE) =
        some (t, none) ∧
      ∀ id, s.fs.opTable id = none := by
  obtain ⟨s, v, t, h, hinv, hes, hid⟩ := formatted_one hpos hle
  obtain ⟨e, he⟩ :=
    Option.isSome_iff_exists.mp (Entries.find?_empty NumDirEntries (by decide))
  refine ⟨s, v, t, h, hinv, resolves_root v (by decide) (by decide), ?_, hid⟩
  rw [hes]
  exact Entries.lookup_insert [102] t none (Entries.tidy_empty _) he
    (Entries.lookup_empty _ _)

/-- "/f" is a file, and "/d" a directory with a file "g" and a directory "e" in
it. -/
structure Volume.Populated (v : Volume) (t : HdrTree)
    (sub : Entries) : Prop where
  file : (v.root.entries.lookup (DirectoryEntry.keyOf [102] IS_FILE)).isSome =
    true
  dir : v.root.entries.lookup (DirectoryEntry.keyOf [100] IS_DIR) =
    some (t, some sub)
  notFile : v.root.entries.lookup (DirectoryEntry.keyOf [100] IS_FILE) = none
  fileBelow : (sub.lookup (DirectoryEntry.keyOf [103] IS_FILE)).isSome = true
  dirBelow : (sub.lookup (DirectoryEntry.keyOf [101] IS_DIR)).isSome = true

theorem Volume.Populated.resolves {v : Volume} {t : HdrTree} {sub : Entries}
    {c : Byte} (h : v.Populated t sub) (h0 : c ≠ 0) (hc : c ≠ delimeter) :
    Resolves v (rootPath 100 ++ rootPath c) [DirectoryEntry.keyOf [100] IS_DIR]
      ⟨t, sub⟩ [c] :=
  resolves_below h.dir (by decide) (by decide) h0 hc

/-- Such a system is reached: Mkdir("/d"), Create("/f"), Create("/d/g"),
Mkdir("/d/e"). -/
theorem formatted_populated : ∃ s v t sub, Reachable s ∧ Inv s v ∧
    v.Populated t sub := by
  obtain ⟨s₀, v₀, h₀, hinv₀, hempty, hclear, _⟩ :=
    formatted fun _ => Sector.ofBytes []
  have hfree₀ : (Entries.empty NumDirEntries).table.countP (!·.inUse) =
      63 + 1 := by
    rw [Entries.table_empty, List.countP_replicate]
    rfl
  have hnew : ∀ k, v₀.root.entries.lookup k = none := fun k => by
    rw [hempty, Entries.lookup_empty]
  -- "/d"
  obtain ⟨s₁, t, es₁, h₁, hinv₁, hne₁, hd₁, hfree₁, hclear₁⟩ := h₀.make hinv₀
    (resolves_root v₀ (c := 100) (by decide) (by decide)) IS_DIR (hnew _)
      (hempty ▸ hfree₀)
    (show 21 * (3 + 1) ≤ _ by omega)
  -- "/f"
  obtain ⟨s₂, t₂, es₂, h₂, hinv₂, hne₂, hf₂, _, hclear₂⟩ := h₁.make hinv₁
    (resolves_root _ (c := 102) (by decide) (by decide)) IS_FILE
      ((hne₁ _ (by decide)).trans (hnew _)) hfree₁ hclear₁
  have hd₂ := (hne₂ _ (by decide)).trans hd₁
  -- "/d/g"
  obtain ⟨s₃, t₃, sub₃, h₃, hinv₃, hne₃, hg₃, hfree₃, hclear₃⟩ := h₂.make hinv₂
    (resolves_below (c := 103) hd₂ (by decide) (by decide) (by decide)
      (by decide)) IS_FILE
    (Entries.lookup_empty _ _) hfree₀ hclear₂
  have hd₃ := Entries.lookup_updateSub hd₂ fun _ => sub₃
  have hnew₃ : sub₃.lookup (DirectoryEntry.keyOf [101] IS_DIR) = none :=
    (hne₃ _ (by decide)).trans (Entries.lookup_empty _ _)
  -- "/d/e"
  obtain ⟨s₄, t₄, sub₄, h₄, hinv₄, hne₄, he₄, _, _⟩ := h₃.make hinv₃
    (resolves_below (c := 101) hd₃ (by decide) (by decide) (by decide)
      (by decide)) IS_DIR hnew₃ hfree₃ hclear₃
  -- the two changes below "/d" leave the other names of the root
  have hsame : ∀ k, k ≠ DirectoryEntry.keyOf [100] IS_DIR →
      ((es₂.updateSub (DirectoryEntry.keyOf [100] IS_DIR) fun _ =>
        sub₃).updateSub
        (DirectoryEntry.keyOf [100] IS_DIR) fun _ =>
            sub₄).lookup k = es₂.lookup k := fun k hk =>
    (Entries.lookup_updateSub_of_ne hk _ _).trans
      (Entries.lookup_updateSub_of_ne hk _ _)
  refine ⟨s₄, _, t, sub₄, h₄, hinv₄, ?_,
    Entries.lookup_updateSub hd₃ fun _ => sub₄, ?_, ?_, ?_⟩
  · exact Option.isSome_iff_exists.mpr ⟨_, (hsame _ (by decide)).trans hf₂⟩
  · exact (hsame _ (by decide)).trans
      ((hne₂ _ (by decide)).trans ((hne₁ _ (by decide)).trans (hnew _)))
  · exact Option.isSome_iff_exists.mpr ⟨_, (hne₄ _ (by decide)).trans hg₃⟩
  · exact Option.isSome_iff_exists.mpr ⟨_, he₄⟩

theorem Volume.Populated.finds {s : System} {v : Volume}
    {t : HdrTree} {sub : Entries} (h : v.Populated t sub) (hinv : Inv s v) :
    s.fs.Finds (rootPath 102) IS_FILE s.disk ∧
      s.fs.Finds (rootPath 100 ++ rootPath 103) IS_FILE s.disk ∧
      s.fs.Finds (rootPath 100 ++ rootPath 101) IS_DIR s.disk :=
  ⟨(finds_iff hinv.on hinv.mounts (resolves_root v (by decide) (by decide))).mpr
    h.file,
    (finds_iff hinv.on hinv.mounts (h.resolves (by decide) (by decide))).mpr
      h.fileBelow,
    (finds_iff hinv.on hinv.mounts (h.resolves (by decide) (by decide))).mpr
      h.dirBelow⟩

/-! ## Allocation is complete up to half of the disk -/

/-- `Create` returns TRUE, and the entry is there. -/
def System.Creates (s : System) (path : List Byte) (size : Int) : Prop :=
  ∃ d', s.fs.create path size s.disk = .ok true d' ∧ s.fs.Finds path IS_FILE d'

theorem creates_iff {s : System}
    {v : Volume} (hinv : Inv s v) {path : List Byte} {p : List Key}
    {G : Folder} {name : List Byte} (hr : Resolves v path p G name)
    (hlook : G.entries.lookup (DirectoryEntry.keyOf name IS_FILE) = none)
    (hfree : (G.entries.table.find? (!·.inUse)).isSome = true)
    {size : Nat} (hpos : 0 < size)
    (hroom : sectorsNeeded size ≤ (v.map.freeMap s.disk).clearCount) :
    s.Creates path size ↔ sectorsNeeded size ≤ NumSectors / 2 := by
  have hiff :=
    reserve_completes_iff (freeMapOf_size (v.map.mapWords s.disk)) hpos
  constructor
  · rintro ⟨d', hrun, _⟩
    -- TRUE needs a reservation
    by_contra hlarge
    have hno : 0 < objectSize IS_FILE (size : Int) →
        ∀ x, reserve (v.map.freeMap s.disk) (objectSize IS_FILE (size : Int)) ≠
            .ok x :=
      fun _ x hx => hlarge (hiff.mp ⟨x, hx⟩).2
    obtain ⟨e, herr⟩ := createFileDir_error hinv.on hinv.mounts hr hlook hno
    rw [FileSystem.create, herr] at hrun
    cases hrun
  · intro hsmall
    obtain ⟨x, hx⟩ := hiff.mpr ⟨hroom, hsmall⟩
    obtain ⟨t, d', hrun, _, _⟩ := createFileDir_ok hinv.on hinv.mounts hr hlook
      (show 0 < objectSize IS_FILE (size : Int)
        from Int.natCast_pos.mpr hpos) hx
    exact ⟨d', hrun, (created_finds_iff hinv.on hinv.mounts hr hrun).mpr hfree⟩

/-- With enough clear sectors, `Create` succeeds exactly when it needs no more
than half of the disk. -/
theorem create_completes_iff {s : System}
    (h : Reachable s) {path name : List Byte} {tr : TraversePath}
    (htr : traversePath path IS_FILE s.fs.directoryFile s.disk = .ok tr)
    (hnew : tr.target = some (name, false))
    (hfree : (tr.dir.table.find? (!·.inUse)).isSome = true) {size : Nat}
    (hpos : 0 < size) {fm : Bitmap}
    (hmap : PersistentBitmap.ofFile s.fs.freeMapFile NumSectors s.disk = .ok fm)
    (hroom : sectorsNeeded size ≤ fm.clearCount) :
    s.Creates path size ↔ sectorsNeeded size ≤ NumSectors / 2 := by
  obtain ⟨v, hinv⟩ := h.inv
  obtain ⟨p, G, hr, htable, hlook⟩ :=
    resolves_of_target hinv.on hinv.mounts htr hnew
  rw [hinv.on.mapFile.ofFile_eq hinv.mounts.map] at hmap
  cases hmap
  rw [htable] at hfree
  exact creates_iff hinv hr (Option.not_isSome_iff_eq_none.mp
    (Bool.eq_false_iff.mp hlook.symm)) hfree hpos hroom

theorem formatted_parent {s : System} {v : Volume} (hinv : Inv s v)
    (hempty : v.root.entries = .empty NumDirEntries) (isDir : Bool) : ∃ tr,
    traversePath (rootPath 102) isDir s.fs.directoryFile s.disk = .ok tr ∧
      tr.target = some ([102], false) ∧
      (tr.dir.table.find? (!·.inUse)).isSome = true := by
  obtain ⟨tr, hrun, hat, htarget⟩ :=
    (resolves_root v (c := 102) (by decide) (by decide)).traversePath_eq
    hinv.on hinv.mounts.root isDir
  rw [hempty, Entries.lookup_empty] at htarget
  refine ⟨tr, hrun, htarget, ?_⟩
  rw [hat.dir, hempty]
  exact Entries.find?_empty _ (by decide)

theorem create_completes_iff_three : ∃ s, Reachable s ∧
    s.Creates (rootPath 102) (3 : Nat) := by
  obtain ⟨s, v, h, hinv, hempty, hclear, _⟩ :=
    formatted fun _ => Sector.ofBytes []
  obtain ⟨tr, htr, hnew, hfree⟩ := formatted_parent hinv hempty IS_FILE
  have hneed : sectorsNeeded 3 ≤ 3 := sectorsNeeded_small (by decide)
  have hhalf : 3 ≤ NumSectors / 2 := by rw [numSectors_eq]; decide
  exact ⟨s, h, (create_completes_iff h htr hnew hfree (by decide)
    (hinv.on.mapFile.ofFile_eq hinv.mounts.map s.disk) (by omega)).mpr
      (Nat.le_trans hneed hhalf)⟩

/-- A file of 520000 sectors on a formatted disk: there are clear sectors for it
and its headers, and `Create` does not succeed. -/
theorem create_stops_66560000 : ∃ s tr fm, Reachable s ∧
    traversePath (rootPath 102) IS_FILE s.fs.directoryFile s.disk = .ok tr ∧
      tr.target = some ([102], false) ∧
      (tr.dir.table.find? (!·.inUse)).isSome = true ∧
      PersistentBitmap.ofFile s.fs.freeMapFile NumSectors s.disk = .ok fm ∧
      sectorsNeeded 66560000 ≤ fm.clearCount ∧
      ¬ s.Creates (rootPath 102) (66560000 : Nat) := by
  obtain ⟨s, v, h, hinv, hempty, hclear, _⟩ :=
    formatted fun _ => Sector.ofBytes []
  obtain ⟨tr, htr, hnew, hfree⟩ := formatted_parent hinv hempty IS_FILE
  obtain ⟨size, hsize⟩ : ∃ size, size = 66560000 := ⟨_, rfl⟩
  rw [← hsize]
  have hcount : sectorCount size = 520000 := by
    simp only [sectorCount, SectorSize]
    omega
  have hle := treeSectors_le size
  have hge := le_treeSectors size
  rw [hcount] at hle hge
  simp only [N_SECTORS, FILEHDR_SZ, MEMBER_SZ] at hge
  have hneed := sectorsNeeded_eq size
  have hN := numSectors_eq
  have hroom : sectorsNeeded size ≤ (v.map.freeMap s.disk).clearCount := by
    omega
  refine ⟨s, tr, _, h, htr, hnew, hfree,
    hinv.on.mapFile.ofFile_eq hinv.mounts.map s.disk, hroom, ?_⟩
  have hlook : v.root.entries.lookup (DirectoryEntry.keyOf [102] IS_FILE) =
      none := by
    rw [hempty, Entries.lookup_empty]
  have hfree' : (v.root.entries.table.find? (!·.inUse)).isSome = true := by
    rw [hempty]
    exact Entries.find?_empty _ (by decide)
  rw [creates_iff hinv (resolves_root v (by decide) (by decide)) hlook hfree'
    (by omega) hroom]
  omega

/-! ## All or nothing, when there is a free entry -/

/-- What is asked of `CreateFileDir` on a path whose parent is the directory of
`tr`: TRUE only for a name that was absent and is found afterwards, and for a
name that is there, or a full parent, FALSE and no change on the disk. -/
structure System.AllOrNothing (s : System) (path : List Byte) (isDir : Bool)
    (initialSize : Int) (tr : TraversePath) (found : Bool) : Prop where
  created : ∀ d', s.fs.createFileDir path isDir initialSize s.disk =
    .ok true d' →
    found = false ∧ s.fs.Finds path isDir d'
  refused : found = true ∨ tr.dir.table.find? (!·.inUse) = none →
    s.fs.createFileDir path isDir initialSize s.disk = .ok false s.disk

/-- A full parent is never refused. -/
theorem createFileDir_ne_false {d d' : Disk}
    {v : Volume} {fs : FileSystem} {path : List Byte}
    {p : List Key} {G : Folder} {name : List Byte} {isDir : Bool}
    (h : v.On d) (hfs : fs.Mounts v) (hr : Resolves v path p G name)
    (hnew : G.entries.lookup (DirectoryEntry.keyOf name isDir) = none)
    (initialSize : Int) : fs.createFileDir path isDir initialSize d ≠
    .ok false d' := by
  intro hrun
  by_cases hroom : 0 < objectSize isDir initialSize ∧
      ∃ x, reserve (v.map.freeMap d) (objectSize isDir initialSize) = .ok x
  · obtain ⟨hpos, x, hx⟩ := hroom
    obtain ⟨_, _, hrun', _⟩ := createFileDir_ok h hfs hr hnew hpos hx
    rw [hrun'] at hrun
    cases hrun
  · obtain ⟨e, hrun'⟩ := createFileDir_error h hfs hr hnew fun hpos x hx =>
      hroom ⟨hpos, x, hx⟩
    rw [hrun'] at hrun
    cases hrun

/-- `CreateFileDir` is all or nothing when the name is there, and when the
parent has a free entry. -/
theorem createFileDir_allOrNothing_iff {s : System} (h : Reachable s)
    {path name : List Byte} {isDir : Bool} {tr : TraversePath} {found : Bool}
    (htr : traversePath path isDir s.fs.directoryFile s.disk = .ok tr)
    (htarget : tr.target = some (name, found)) (initialSize : Int) :
    s.AllOrNothing path isDir initialSize tr found ↔
      found = true ∨ (tr.dir.table.find? (!·.inUse)).isSome = true := by
  obtain ⟨v, hinv⟩ := h.inv
  obtain ⟨p, G, hr, htable, hlook⟩ :=
    resolves_of_target hinv.on hinv.mounts htr htarget
  rw [htable]
  constructor
  · intro hall
    by_contra hno
    obtain ⟨hfound, hfull⟩ := not_or.mp hno
    have hnew : G.entries.lookup (DirectoryEntry.keyOf name isDir) = none :=
      Option.not_isSome_iff_eq_none.mp fun hsome => hfound (hlook.trans hsome)
    refine createFileDir_ne_false hinv.on hinv.mounts hr hnew initialSize
      (hall.refused (.inr ?_))
    rw [htable]
    exact Option.not_isSome_iff_eq_none.mp hfull
  · intro hwhen
    refine ⟨fun d' hrun => ?_, fun hrefuse => ?_⟩
    · obtain ⟨hnew, _⟩ := createFileDir_true hinv.on hinv.mounts hr hrun
      rw [hnew] at hlook
      cases hlook
      exact ⟨rfl, (created_finds_iff hinv.on hinv.mounts hr hrun).mpr
        (hwhen.resolve_left Bool.false_ne_true)⟩
    · rcases hwhen with rfl | hfree
      · exact createFileDir_exists hinv.on hinv.mounts hr hlook.symm initialSize
      · rcases hrefuse with rfl | hfull
        · exact createFileDir_exists hinv.on hinv.mounts hr
            hlook.symm initialSize
        · rw [htable] at hfull
          rw [hfull] at hfree
          cases hfree

theorem createFileDir_allOrNothing_iff_root : ∃ s tr, Reachable s ∧
    s.AllOrNothing (rootPath 102) IS_DIR 0 tr false := by
  obtain ⟨s, v, h, hinv, hempty, _⟩ := formatted fun _ => Sector.ofBytes []
  obtain ⟨tr, htr, hnew, hfree⟩ := formatted_parent hinv hempty IS_DIR
  exact ⟨s, tr, h,
    (createFileDir_allOrNothing_iff h htr hnew 0).mpr (.inr hfree)⟩

/-- The name of file `n`. -/
def letter (n : Nat) : Byte := BitVec.ofNat 8 n

theorem letter_ne (n n' : Nat) (hn : n < 128) (hn' : n' < 128) (hne : n ≠ n') :
    letter n ≠ letter n' := by
  intro heq
  have hval := congrArg BitVec.toNat heq
  rw [letter, letter, BitVec.toNat_ofNat, BitVec.toNat_ofNat] at hval
  omega

/-- A root with `k` free entries is filled with files of one byte. -/
theorem fill_root : ∀ (k n : Nat) {s : System} {v : Volume}, Reachable s →
    Inv s v →
    v.root.entries.table.countP (!·.inUse) = k →
    (∀ i, n ≤ i → i < 128 →
      v.root.entries.lookup (DirectoryEntry.keyOf [letter i] IS_FILE) = none) →
    48 ≤ n → n + k < 128 → 21 * (k + 1) ≤ (v.map.freeMap s.disk).clearCount →
    ∃ s' v', Reachable s' ∧ Inv s' v' ∧
      v'.root.entries.table.find? (!·.inUse) = none ∧
      v'.root.entries.lookup (DirectoryEntry.keyOf [letter 127]
        IS_FILE) = none ∧
      3 ≤ (v'.map.freeMap s'.disk).clearCount
  | 0, n, s, v, h, hinv, hfree, hnew, _, hn, hclear => by
      refine ⟨s, v, h, hinv, ?_, hnew 127 (by omega) (by omega), by omega⟩
      rw [List.countP_eq_zero] at hfree
      exact List.find?_eq_none.mpr hfree
  | k + 1, n, s, v, h, hinv, hfree, hnew, hlow, hn, hclear => by
      have h0 : letter n ≠ 0 := letter_ne n 0 (by omega) (by omega) (by omega)
      have hdelim : letter n ≠ delimeter :=
        letter_ne n 47 (by omega) (by omega) (by omega)
      obtain ⟨s', t, es, h', hinv', hkept, _, hless, hclear'⟩ := h.make hinv
        (resolves_root v h0 hdelim) IS_FILE
        (hnew n (Nat.le_refl n) (by omega)) hfree hclear
      refine fill_root k (n + 1) h' hinv' hless (fun i hi hlt => ?_) (by omega)
        (by omega) hclear'
      have hne : DirectoryEntry.keyOf [letter i] IS_FILE ≠
          DirectoryEntry.keyOf [letter n] IS_FILE :=
        keyOf_ne (letter_ne i 0 hlt (by omega) (by omega)) h0
          (letter_ne i n hlt (by omega) (by omega))
      exact (hkept _ hne).trans (hnew i (by omega) hlt)

/-- A root with 64 files in it: `Create` of another is not refused. -/
theorem createFileDir_full : ∃ s tr, Reachable s ∧
    traversePath (rootPath 127) IS_FILE s.fs.directoryFile s.disk = .ok tr ∧
      tr.target = some ([127], false) ∧ tr.dir.table.find? (!·.inUse) = none ∧
      (∃ d', s.fs.createFileDir (rootPath 127) IS_FILE 1 s.disk = .ok true d') ∧
      ¬ s.AllOrNothing (rootPath 127) IS_FILE 1 tr false := by
  obtain ⟨s₀, v₀, h₀, hinv₀, hempty, hclear, _⟩ :=
    formatted fun _ => Sector.ofBytes []
  have hfree : v₀.root.entries.table.countP (!·.inUse) = 64 := by
    rw [hempty, Entries.table_empty, List.countP_replicate]
    rfl
  obtain ⟨s, v, h, hinv, hfull, hlook, hclear⟩ := fill_root 64 48 h₀ hinv₀ hfree
    (fun i _ _ => by rw [hempty, Entries.lookup_empty]) (by omega)
      (by omega) (by omega)
  have hr := resolves_root v (c := 127) (by decide) (by decide)
  obtain ⟨tr, htr, hat, htarget⟩ :=
    hr.traversePath_eq hinv.on hinv.mounts.root IS_FILE
  have hnew : v.root.entries.lookup (DirectoryEntry.keyOf [127] IS_FILE) =
    none := hlook
  rw [hnew] at htarget
  obtain ⟨_, _, _, _, _, hrun, _⟩ :=
    h.create_small hinv hr hnew (show 0 < 1 by decide) (by decide) hclear
  have htable : tr.dir.table.find? (!·.inUse) = none := by
    rw [hat.dir]
    exact hfull
  refine ⟨s, tr, h, htr, htarget, htable, ⟨_, hrun⟩, fun hall => ?_⟩
  exact createFileDir_ne_false hinv.on hinv.mounts hr hnew 1
    (hall.refused (.inr htable))

end EroikoBlue.MP4
