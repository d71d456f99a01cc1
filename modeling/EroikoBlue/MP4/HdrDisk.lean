/-
# `MP4.HdrDisk` — `WriteBack` and `FetchFrom` are inverse to each other

`Stored d t` says that the disk `d` holds the header tree `t`: the sector of
each of its nodes contains that node's words.  The data sectors are not
mentioned, and sectors outside the tree may hold anything.

    writeBack_eq     WriteBack ends in `store`, the same writes in order
    stored_store     after them the tree is stored, if no two nodes share
                     a sector
    fetchFrom_eq     FetchFrom of a stored tree rebuilds its header

The encoder writes the map, the sectors and two counts of each node; the decoder
recomputes the rest slot by slot.  `fetchLoop_eq` is the invariant of that loop:
after the slots `done`, the arrays hold what `HdrSlots.header` says about
`done`, and `childSector` is the number of leaves passed.
-/
import Mathlib.Data.List.Perm.Subperm
import EroikoBlue.MP4.HdrAlloc

namespace EroikoBlue.MP4

open Bytes FileHeader

/-- The header of one file: its sector, its length, and its tree. -/
structure HdrTree where
  sector : Nat
  bytes : Nat
  slots : HdrSlots

namespace HdrSlots

/-! ## A tree on the disk -/

/-- Every node below the top one is in its sector. -/
def Stored (d : Disk) : HdrSlots → Prop
  | .nil => True
  | .leaf _ rest => rest.Stored d
  | .node s bytes sub rest =>
      d s = Sector.ofWords (sub.nodeWords bytes) ∧ sub.Stored d ∧ rest.Stored d

/-- The writes of `WriteBack` below the top node, in its order. -/
def store : HdrSlots → Disk → Disk
  | .nil, d => d
  | .leaf _ rest, d => rest.store d
  | .node s bytes sub rest, d =>
      rest.store
        (sub.store (Function.update d s (Sector.ofWords (sub.nodeWords bytes))))

theorem Stored.congr {d d' : Disk} {sl : HdrSlots} (h : sl.Stored d)
    (hd : ∀ s ∈ sl.headers, d' s = d s) : sl.Stored d' := by
  induction sl with
  | nil => trivial
  | leaf s rest ih => exact ih h hd
  | node s bytes sub rest ihs ihr =>
      obtain ⟨htop, hsub, hrest⟩ := h
      simp only [headers, List.mem_cons, List.mem_append] at hd
      exact ⟨by rw [hd s (.inl rfl), htop],
        ihs hsub fun x hx => hd x (.inr (.inl hx)),
        ihr hrest fun x hx => hd x (.inr (.inr hx))⟩

/-- Only header sectors are written. -/
theorem store_frame (sl : HdrSlots) {d : Disk} {s : Nat} (hs : s ∉ sl.headers) :
    sl.store d s = d s := by
  induction sl generalizing d with
  | nil => rfl
  | leaf _ rest ih => exact ih hs
  | node s' bytes sub rest ihs ihr =>
      simp only [headers, List.mem_cons, List.mem_append, not_or] at hs
      rw [store, ihr hs.2.2, ihs hs.2.1, Function.update_of_ne hs.1]

theorem stored_store {sl : HdrSlots} (h : sl.headers.Nodup) (d : Disk) :
    sl.Stored (sl.store d) := by
  induction sl generalizing d with
  | nil => trivial
  | leaf s rest ih => exact ih h d
  | node s bytes sub rest ihs ihr =>
      simp only [headers, List.nodup_cons, List.mem_append, not_or,
        List.nodup_append] at h
      obtain ⟨⟨hns, hnr⟩, hsub, hrest, hdisj⟩ := h
      set d' := Function.update d s (Sector.ofWords (sub.nodeWords bytes))
      refine ⟨?_, (ihs hsub d').congr fun x hx => ?_, ihr hrest _⟩
      · rw [store, rest.store_frame hnr, sub.store_frame hns,
          Function.update_self]
      · exact rest.store_frame fun hr => hdisj x hx x hr rfl

/-! ## Words of a node -/

/-- Every sector of the tree is on the disk, and a node is no larger than it. -/
structure OnDisk (sl : HdrSlots) : Prop where
  lt : ∀ s ∈ sl.sectors, s < NumSectors
  count : sl.leaves.length ≤ NumSectors

theorem onDisk_of_nodup {sl : HdrSlots} (hn : sl.sectors.Nodup)
    (hlt : ∀ s ∈ sl.sectors, s < NumSectors) :
    sl.OnDisk where
  lt := hlt
  count := by
    have hsub : sl.sectors.Subperm (List.range NumSectors) :=
      hn.subperm fun s hs => List.mem_range.mpr (hlt s hs)
    have hlen := hsub.length_le
    rw [List.length_range, sl.sectors_perm.length_eq,
      List.length_append] at hlen
    omega

theorem OnDisk.leaf {s : Nat} {rest : HdrSlots} (h : (leaf s rest).OnDisk) :
    s < NumSectors ∧ rest.OnDisk :=
  ⟨h.lt s (.head _), fun x hx => h.lt x (.tail _ hx), Nat.le_of_succ_le h.count⟩

theorem OnDisk.node {s bytes : Nat} {sub rest : HdrSlots}
    (h : (node s bytes sub rest).OnDisk) :
    s < NumSectors ∧ sub.OnDisk ∧ rest.OnDisk := by
  have hcount := h.count
  simp only [HdrSlots.leaves, List.length_append] at hcount
  refine ⟨h.lt s (.head _), ⟨fun x hx => h.lt x ?_, by omega⟩,
    ⟨fun x hx => h.lt x ?_, by omega⟩⟩
  · exact .tail _ (List.mem_append_left _ hx)
  · exact .tail _ (List.mem_append_right _ hx)

theorem length_fill {α : Type} {n : Nat} {x : α} {l : List α}
    (h : l.length ≤ n) :
    (fill n x l).length = n := by
  rw [fill, List.length_append, List.length_replicate]
  omega

theorem length_dataSectors {sl : HdrSlots} (h : sl.length ≤ N_SECTORS) :
    sl.dataSectors.length = N_SECTORS := length_fill (by simpa using h)

theorem length_export (sl : HdrSlots) : sl.slotMap.export.length = 1 := by
  have := sl.slotMap.length_map
  rw [slotMap_numBits] at this
  exact this

theorem length_nodeWords {sl : HdrSlots} (h : sl.length ≤ N_SECTORS)
    (bytes : Nat) :
    (sl.nodeWords bytes).length = FILEHDR_SZ := by
  simp only [nodeWords, List.length_cons, List.length_append, length_export,
    List.length_map,
    length_dataSectors h]
  rfl

theorem isInt32_dataSectors {sl : HdrSlots} (h : sl.OnDisk) :
    ∀ x ∈ sl.dataSectors, IsInt32 x := by
  intro x hx
  rcases List.mem_append.mp hx with hx | hx
  · obtain ⟨s, hs, rfl⟩ := List.mem_map.mp hx
    have := h.lt s (mem_sectors_of_heads hs)
    rw [numSectors_eq] at this
    exact ⟨by simp only [Int.ofNat_eq_natCast]; omega, by simp only [Int.ofNat_eq_natCast]; omega⟩
  · rw [(List.mem_replicate.mp hx).2]
    exact ⟨by decide, by decide⟩

theorem isInt32_counts {sl : HdrSlots} {bytes : Nat} (h : sl.OnDisk)
    (hfit : Fits bytes sl.leaves.length) :
    IsInt32 bytes ∧ IsInt32 sl.leaves.length := by
  have hcount := h.count
  simp only [Fits, SectorSize] at hfit
  rw [numSectors_eq] at hcount
  exact ⟨⟨by omega, by omega⟩, ⟨by omega, by omega⟩⟩

/-! ## `WriteBack` -/

theorem writeBackFrom_nil {map : Bitmap} {ds : List Int} :
    ∀ {k i : Nat} (d : Disk), k + i = N_SECTORS → At .nil i map ds →
      writeBackFrom map ds (List.replicate k none) i d = .ok () d
  | 0, _, _, _, _ => rfl
  | k + 1, i, d, hk, h => by
      rw [List.replicate_succ, writeBackFrom,
        Outcome.bind_of_ok (Outcome.lift_of_ok (h.nil (by omega)).1)]
      exact writeBackFrom_nil d (by omega) (h.nil_succ (by omega))

theorem writeBackFrom_eq {map : Bitmap} {ds : List Int} :
    ∀ (sl : HdrSlots) {i : Nat} (cur : Nat) (d : Disk), At sl i map ds →
      sl.WF → sl.OnDisk →
      writeBackFrom map ds (fill (N_SECTORS - i) none (sl.children cur)) i d =
        .ok () (sl.store d)
  | .nil, i, cur, d, h, _, _ => by
      have hi := h.room
      simp only [HdrSlots.length] at hi
      exact writeBackFrom_nil d (by simp [children]; omega) h
  | .leaf s rest, i, cur, d, h, hwf, hod => by
      obtain ⟨htest, _, hrest⟩ := h.leaf
      rw [children, fill_cons, writeBackFrom,
        Outcome.bind_of_ok (Outcome.lift_of_ok htest)]
      exact writeBackFrom_eq rest (cur + 1) d hrest hwf hod.leaf.2
  | .node s bytes sub rest, i, cur, d, h, ⟨⟨hlen, _, _, hsub⟩, hwf⟩, hod => by
      obtain ⟨htest, hs, hrest⟩ := h.node
      obtain ⟨hlt, hods, hodr⟩ := hod.node
      set d' := Function.update d s (Sector.ofWords (sub.nodeWords bytes)) with
        hd'
      have hchild : writeBack (sub.header cur bytes) s d =
          .ok () (sub.store d') := by
        have hloop := writeBackFrom_eq sub cur d' (at_zero hlen) hsub hods
        simp only [header, mkHeader, writeBack]
        rw [Outcome.bind_of_ok (writeSector_eq hlt _)]
        exact hloop
      rw [children, fill_cons, writeBackFrom,
        Outcome.bind_of_ok (Outcome.lift_of_ok htest), hs]
      simp only [if_true, writeBackChild]
      rw [← header, Outcome.bind_of_ok hchild]
      exact writeBackFrom_eq rest (cur + sub.leaves.length) (sub.store d')
        hrest hwf hodr

/-! ## `FetchFrom` -/

/-- The header inside the loop of `FetchFrom`, past the slots `done` of
`full`. -/
def fetching (cur bytes : Nat) (full done : HdrSlots) : FileHeader where
  numBytes := bytes
  numSectors := full.leaves.length
  map := some full.slotMap
  dataSectors := full.dataSectors
  startSector :=
    fill (N_SECTORS + 1) INVALID_SECTOR ((done.starts cur).map Int.ofNat)
  children := fill N_SECTORS none (done.children cur)
  additionalSector := 1 + done.headers.length

section Fetching
variable {cur bytes : Nat} {full done : HdrSlots}

@[simp] theorem fetching_dataSectors :
    (fetching cur bytes full done).dataSectors = full.dataSectors := rfl

theorem starts_set (h : done.length < N_SECTORS + 1) (x : Int) :
    (fill (N_SECTORS + 1) INVALID_SECTOR ((done.starts cur).map Int.ofNat)).set
      done.length x =
      fill (N_SECTORS + 1) INVALID_SECTOR
        ((done.starts cur).map Int.ofNat ++ [x]) := by
  have hs := fill_set (n := N_SECTORS + 1) (x := INVALID_SECTOR)
    (l := (done.starts cur).map Int.ofNat) (by simpa using h) x
  simpa only [List.length_map, length_starts] using hs

theorem fetching_leaf (h : done.length < N_SECTORS) (s : Nat) :
    { fetching cur bytes full done with
      startSector := (fetching cur bytes full done).startSector.set done.length
        ((cur : Int) + done.leaves.length) } =
    fetching cur bytes full (done ++ .leaf s .nil) := by
  have hc : fill N_SECTORS none (done.children cur ++ [none]) =
      fill N_SECTORS none (done.children cur) := by
    rw [← fill_set (by simpa using h), fill_set_same (by simpa using h)]
  simp only [fetching, starts_set (Nat.lt_succ_of_lt h), starts_append, starts,
    children_append,
    children, hc, headers_append, headers, List.map_append, List.map_cons,
      List.map_nil,
    List.append_nil]
  rfl

theorem fetching_node (h : done.length < N_SECTORS) (s b : Nat)
    (sub : HdrSlots) :
    { fetching cur bytes full done with
      startSector := (fetching cur bytes full done).startSector.set done.length
        ((cur : Int) + done.leaves.length)
      children := (fetching cur bytes full done).children.set done.length
        (some (sub.header (cur + done.leaves.length) b))
      additionalSector := (fetching cur bytes full done).additionalSector +
        (sub.header (cur + done.leaves.length) b).additionalSector } =
    fetching cur bytes full (done ++ .node s b sub .nil) := by
  have hc := fill_set (n := N_SECTORS) (x := none) (l := done.children cur)
    (by simpa using h)
    (some (sub.header (cur + done.leaves.length) b))
  have hadd : (sub.header (cur + done.leaves.length) b).additionalSector =
    1 + sub.headers.length := rfl
  rw [length_children] at hc
  simp only [fetching, starts_set (Nat.lt_succ_of_lt h), hc, hadd,
    starts_append, starts,
    children_append, children, headers_append, headers, List.map_append,
      List.map_cons,
    List.map_nil, List.append_nil, List.length_append, List.length_cons]
  congr 1
  push_cast
  omega

theorem fetching_done (h : full.length ≤ N_SECTORS) :
    { fetching cur bytes full full with
      startSector := (fetching cur bytes full full).startSector.set full.length
        ((cur : Int) + full.leaves.length) } = full.header cur bytes := by
  simp only [fetching, starts_set (Nat.lt_succ_of_le h), header, mkHeader,
    startSector,
    List.map_append, List.map_cons, List.map_nil]
  rfl

end Fetching

/-- What a recursive call of `FetchFrom` does, as the loop sees it. -/
def FetchesAs (d : Disk) (fetch : Int → Int → Except Fault FileHeader)
    (levels : Nat) : Prop :=
  ∀ (sl : HdrSlots) (s cur bytes : Nat), sl.depth < levels →
    sl.length ≤ N_SECTORS →
    Fits bytes sl.leaves.length → sl.WF → sl.OnDisk → sl.Stored d →
      s < NumSectors →
    d s = Sector.ofWords (sl.nodeWords bytes) →
      fetch s cur = .ok (sl.header cur bytes)

theorem fetchLoop_eq {d : Disk} {fetch : Int → Int → Except Fault FileHeader}
    {levels : Nat} (hfetch : FetchesAs d fetch levels) (cur bytes : Nat)
    {full : HdrSlots} :
    ∀ (rest done : HdrSlots) {k i : Nat} {c : Int}, full = done ++ rest →
      k + i = N_SECTORS →
      done.length = i → done.leaves.length = c →
      At rest i full.slotMap full.dataSectors →
      rest.depth ≤ levels → rest.WF → rest.OnDisk → rest.Stored d →
      ∃ hdr, fetchLoop fetch full.slotMap cur k i c
        (fetching cur bytes full done) =
            .ok (full.length, full.leaves.length, hdr) ∧
        { hdr with
          startSector :=
  hdr.startSector.set full.length ((cur : Int) + full.leaves.length) } =
          full.header cur bytes
  | .nil, done, k, i, c, hfull, hk, hi, hc, h, _, _, _, _ => by
      rw [append_nil] at hfull
      subst hfull hi hc
      have hroom : full.length ≤ N_SECTORS := by omega
      cases k with
      | zero => exact ⟨_, rfl, fetching_done hroom⟩
      | succ k =>
          -- the first unused slot ends the loop, with the end marker set
          -- already
          obtain ⟨htest, hinv⟩ := h.nil (by omega)
          refine ⟨{ fetching cur bytes full full with
            startSector :=
              (fetching cur bytes full full).startSector.set full.length
              ((cur : Int) + full.leaves.length) }, ?_, ?_⟩
          · rw [fetchLoop, htest]
            simp only [Outcome.ok_bind, Bool.false_eq_true, if_false,
              fetching_dataSectors, hinv,
              if_true]
            rfl
          · simp only [List.set_set]
            exact fetching_done hroom
  | .leaf s rest, done, k, i, c, hfull, hk, hi, hc, h, hdepth, hwf,
      hod, hst => by
      subst hi hc
      have hroom := h.room
      simp only [HdrSlots.length] at hroom
      cases k with
      | zero => omega
      | succ k =>
          obtain ⟨htest, hs, hrest⟩ := h.leaf
          obtain ⟨hdr, ih, hdone⟩ := fetchLoop_eq hfetch cur bytes rest
            (done ++ .leaf s .nil)
            (k := k) (c := done.leaves.length + 1)
              (by simpa [append_assoc] using hfull) (by omega)
            (by simp [HdrSlots.length]) (by simp [leaves]) hrest hdepth hwf
              hod.leaf.2 hst
          refine ⟨hdr, ?_, hdone⟩
          rw [← fetching_leaf (by omega) s] at ih
          rw [fetchLoop, htest]
          simp only [Outcome.ok_bind, Bool.false_eq_true, if_false,
            fetching_dataSectors, hs,
            show ¬ (s : Int) = INVALID_SECTOR by simp [INVALID_SECTOR]]
          exact ih
  | .node s b sub rest, done, k, i, c, hfull, hk, hi, hc, h, hdepth, hwf,
      hod, hst => by
      subst hi hc
      have hroom := h.room
      simp only [HdrSlots.length] at hroom
      cases k with
      | zero => omega
      | succ k =>
          obtain ⟨htest, hs, hrest⟩ := h.node
          obtain ⟨⟨hlen, _, hfit, hsub⟩, hwf⟩ := hwf
          obtain ⟨hlt, hods, hodr⟩ := hod.node
          obtain ⟨htop, hsts, hstr⟩ := hst
          simp only [HdrSlots.depth] at hdepth
          obtain ⟨hdr, ih, hdone⟩ := fetchLoop_eq hfetch cur bytes rest
            (done ++ .node s b sub .nil)
            (k := k) (c := done.leaves.length + sub.leaves.length)
            (by simpa [append_assoc] using hfull) (by omega)
              (by simp [HdrSlots.length])
            (by simp [leaves]) hrest (by omega) hwf hodr hstr
          refine ⟨hdr, ?_, hdone⟩
          have hchild := hfetch sub s (cur + done.leaves.length) b
            (by omega) hlen hfit hsub hods
            hsts hlt htop
          rw [Int.natCast_add] at hchild
          rw [← fetching_node (by omega) s b sub] at ih
          rw [fetchLoop, htest]
          simp only [Outcome.ok_bind, if_true, fetching_dataSectors, hs, hchild]
          exact ih

theorem fetchNode_eq {d : Disk} :
    ∀ fuel : Nat, FetchesAs d (fetchNode d fuel fresh) fuel
  | 0, _, _, _, _, hdepth, _, _, _, _, _, _, _ =>
      absurd hdepth (Nat.not_lt_zero _)
  | fuel + 1, sl, s, cur, bytes, hdepth, hlen, hfit, hwf, hod, hst,
      hlt, htop => by
      obtain ⟨hbytes, hcount⟩ := isInt32_counts hod hfit
      obtain ⟨hcur, hsize⟩ := slotMap_ok hlen
      have himport : (Bitmap.new N_SECTORS).import ((sl.nodeWords bytes).drop
          (MEMBER_SZ - 1)) =
          sl.slotMap := Bitmap.import_export (by simp) hcur hsize _
      have hds : (((sl.nodeWords bytes).drop MEMBER_SZ).take N_SECTORS).map
          BitVec.toInt =
          sl.dataSectors := by
        have hdrop : (sl.nodeWords bytes).drop MEMBER_SZ =
            sl.dataSectors.map (BitVec.ofInt 32) := by
          show (sl.slotMap.export ++ _).drop 1 = _
          rw [← length_export sl, List.drop_left]
        rw [hdrop, List.take_of_length_le
          (by rw [List.length_map, length_dataSectors hlen]),
          map_toInt_ofInt (isInt32_dataSectors hod)]
      have hnum : ((sl.nodeWords bytes).getD 0 0).toInt = bytes ∧
          ((sl.nodeWords bytes).getD 1 0).toInt = sl.leaves.length :=
        ⟨toInt_ofInt hbytes, toInt_ofInt hcount⟩
      obtain ⟨hdr, hloop, hdone⟩ := fetchLoop_eq (fetchNode_eq fuel) cur
        bytes sl .nil
        (k := N_SECTORS) (c := 0) rfl rfl rfl rfl (at_zero hlen)
          (Nat.le_of_lt_succ hdepth) hwf hod hst
      rw [fetchNode, readSector_eq hlt, htop]
      simp only [Outcome.ok_bind,
        Sector.words_ofWords (length_nodeWords hlen bytes), himport, hds,
        hnum.1, hnum.2, assertMsg_pos (show fresh.map.isNone from rfl)]
      refine Outcome.bind_eq_ok.mpr ⟨_, hloop, ?_⟩
      have hsum : (sl.leaves.length : Int) = hdr.numSectors :=
        (congrArg FileHeader.numSectors hdone).symm
      refine Outcome.bind_eq_ok.mpr ⟨(), assertMsg_pos hsum, ?_⟩
      exact congrArg Except.ok hdone

end HdrSlots

/-! ## A whole header -/

namespace HdrTree

open HdrSlots

/-- The header in memory. -/
def header (t : HdrTree) : FileHeader := t.slots.header 0 t.bytes

/-- The data sectors, in file order. -/
def leaves (t : HdrTree) : List Nat := t.slots.leaves

/-- The header sectors, the top one first. -/
def headers (t : HdrTree) : List Nat := t.sector :: t.slots.headers

/-- Every sector of the file. -/
def sectors (t : HdrTree) : List Nat := t.sector :: t.slots.sectors

/-- A header as `Allocate` makes it: no sector twice, all on the disk. -/
structure WF (t : HdrTree) : Prop where
  length : t.slots.length ≤ N_SECTORS
  fits : Fits t.bytes t.slots.leaves.length
  slots : t.slots.WF
  nodup : t.sectors.Nodup
  lt : ∀ s ∈ t.sectors, s < NumSectors

/-- The tree is on the disk: every node is in its sector. -/
structure Stored (d : Disk) (t : HdrTree) : Prop where
  top : d t.sector = Sector.ofWords (t.slots.nodeWords t.bytes)
  below : t.slots.Stored d

/-- The writes of `WriteBack`, in its order. -/
def store (t : HdrTree) (d : Disk) : Disk :=
  t.slots.store
    (Function.update d t.sector (Sector.ofWords (t.slots.nodeWords t.bytes)))

theorem sectors_perm (t : HdrTree) : t.sectors.Perm (t.headers ++ t.leaves) :=
  t.slots.sectors_perm.cons t.sector

theorem mem_sectors {t : HdrTree} {s : Nat} : s ∈ t.sectors ↔ s ∈ t.headers ∨
    s ∈ t.leaves := by
  rw [t.sectors_perm.mem_iff, List.mem_append]

theorem WF.onDisk {t : HdrTree} (h : t.WF) : t.slots.OnDisk :=
  onDisk_of_nodup (List.nodup_cons.mp h.nodup).2 fun s hs => h.lt s (.tail _ hs)

theorem WF.sector_lt {t : HdrTree} (h : t.WF) : t.sector < NumSectors :=
  h.lt _ (.head _)

/-- The headers take no more sectors than the data, the top header left out. -/
theorem WF.length_sectors_le {t : HdrTree} (h : t.WF) :
    t.sectors.length ≤ 1 + 2 * sectorCount t.bytes := by
  have hfit := h.fits
  have hle := headers_le h.slots
  have hlen := t.sectors_perm.length_eq
  simp only [Fits, sectorCount, SectorSize, leaves, headers, List.length_append,
    List.length_cons] at *
  omega

theorem WF.leaves_nodup {t : HdrTree} (h : t.WF) : t.leaves.Nodup :=
  (List.nodup_append.mp (t.sectors_perm.nodup h.nodup)).2.1

theorem WF.headers_nodup {t : HdrTree} (h : t.WF) : t.headers.Nodup :=
  (List.nodup_append.mp (t.sectors_perm.nodup h.nodup)).1

/-- A data sector is not a header sector. -/
theorem WF.leaf_not_header {t : HdrTree} (h : t.WF) {s : Nat}
    (hs : s ∈ t.leaves) : s ∉ t.headers :=
  fun hh => (List.nodup_append.mp (t.sectors_perm.nodup h.nodup)).2.2
    s hh s hs rfl

theorem WF.leaf_lt {t : HdrTree} (h : t.WF) {s : Nat} (hs : s ∈ t.leaves) :
    s < NumSectors :=
  h.lt s (mem_sectors.mpr (.inr hs))

theorem WF.header_lt {t : HdrTree} (h : t.WF) {s : Nat} (hs : s ∈ t.headers) :
    s < NumSectors :=
  h.lt s (mem_sectors.mpr (.inl hs))

theorem Stored.congr {d d' : Disk} {t : HdrTree} (h : t.Stored d)
    (hd : ∀ s ∈ t.headers, d' s = d s) : t.Stored d' where
  top := by rw [hd _ (.head _), h.top]
  below := HdrSlots.Stored.congr h.below fun s hs => hd s (.tail _ hs)

/-- Only header sectors are written. -/
theorem store_frame (t : HdrTree) {d : Disk} {s : Nat} (hs : s ∉ t.headers) :
    t.store d s = d s := by
  simp only [headers, List.mem_cons, not_or] at hs
  rw [store, t.slots.store_frame hs.2, Function.update_of_ne hs.1]

theorem stored_store {t : HdrTree} (h : t.WF) (d : Disk) :
    t.Stored (t.store d) := by
  obtain ⟨hns, hnd⟩ := List.nodup_cons.mp h.headers_nodup
  refine ⟨?_, HdrSlots.stored_store hnd _⟩
  rw [store, t.slots.store_frame hns, Function.update_self]

theorem writeBack_eq {t : HdrTree} (h : t.WF) (d : Disk) :
    t.header.writeBack t.sector d = .ok () (t.store d) := by
  simp only [header, HdrSlots.header, mkHeader, FileHeader.writeBack]
  rw [Outcome.bind_of_ok (writeSector_eq h.sector_lt _)]
  exact writeBackFrom_eq t.slots 0 _ (at_zero h.length) h.slots h.onDisk

/-- `FetchFrom` rebuilds the header of a stored tree. -/
theorem fetchFrom_eq {d : Disk} {t : HdrTree} (h : t.WF) (hst : t.Stored d) :
    fresh.fetchFrom d t.sector = .ok t.header := by
  have hdepth : t.slots.depth < NumSectors := by
    have h1 := t.slots.depth_le
    have hsub : t.headers.Subperm (List.range NumSectors) :=
      h.headers_nodup.subperm fun s hs => List.mem_range.mpr (h.header_lt hs)
    have hlen := hsub.length_le
    rw [List.length_range, headers, List.length_cons] at hlen
    omega
  exact fetchNode_eq NumSectors t.slots t.sector 0 t.bytes hdepth h.length
    h.fits h.slots h.onDisk
    hst.below h.sector_lt hst.top

end HdrTree

end EroikoBlue.MP4
