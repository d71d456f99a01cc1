/-
# `MP4.HdrLife` — a header from `Allocate` to `Deallocate`

What the callers in `filesys.cc` rely on: a header that `Allocate` built on a
free map where its own sector was marked already can be written to that sector
and read back unchanged, and releasing it again restores the free map.  The
first holds of every tree.  The second holds of one-level trees only: a file of
more than 29 sectors has inner header nodes, and `Deallocate` never clears their
sectors.

## The exact condition

`Deallocate` undoes `Allocate` if and only if the tree has no inner node
(`restores_iff`), that is for files of at most 29 sectors.
`deallocate_leaks_3713` is the smallest file that has one: it needs 30 sectors,
and the header sector of the inner node stays marked.

`Owned` is what makes the release go through: the leaves are distinct and
marked, so that no `Clear` meets a bit that was clear already.
-/
import EroikoBlue.MP4.HdrWalk

namespace EroikoBlue.MP4

open FileHeader HdrSlots

/-! ## The tree of an allocation -/

theorem Bitmap.test_eq_true {b : Bitmap} {s : Int} (h : b.test s = .ok true) :
    0 ≤ s ∧ s.toNat < b.numBits ∧ b.bit s.toNat = true := by
  obtain ⟨_, hrange, hbit⟩ := Outcome.bind_eq_ok.mp h
  have := assertMsg_eq_ok.mp hrange
  simp only [Outcome.pure_eq_ok, Except.ok.injEq] at hbit
  exact ⟨this.1, by omega, hbit⟩

/-- A tree built on a map of the whole disk in which `sector` is marked is a
well-formed header for that sector. -/
theorem HdrSlots.Allocated.tree_wf {size sector : Nat}
    {fm fm' : Bitmap} {sl : HdrSlots} (h : Allocated size fm sl fm')
    (hn : fm.numBits = NumSectors) (hs : sector < NumSectors)
    (hmark : fm.bit sector = true) : (HdrTree.mk sector size sl).WF where
  length := h.length
  fits := h.fits
  slots := h.wf
  nodup := by
    refine List.nodup_cons.mpr ⟨fun hmem => ?_, h.takes.nodup⟩
    rw [(h.takes.mem_clear hmem).2] at hmark
    exact Bool.noConfusion hmark
  lt := fun s hmem => by
    rcases List.mem_cons.mp hmem with rfl | hmem
    · exact hs
    · rw [← hn]
      exact (h.takes.mem_clear hmem).1

/-- Right after `Allocate`, `Deallocate` finds every leaf marked. -/
theorem HdrSlots.Allocated.owned {size : Nat} {fm fm' : Bitmap} {sl : HdrSlots}
    (h : Allocated size fm sl fm') : Owned fm' sl.leaves where
  nodup := (List.nodup_append.mp (sl.sectors_perm.nodup h.takes.nodup)).2.1
  lt := fun s hs => by
    rw [h.takes.numBits]
    exact (h.takes.mem_clear (mem_sectors.mpr (.inr hs))).1
  marked := fun s hs => by
    rw [h.takes.bit]
    simp [mem_sectors.mpr (.inr hs)]

theorem Bitmap.test_setBit_self {b : Bitmap} {i : Nat} (hi : i < b.numBits) :
    (b.setBit i).test i = .ok true := by
  rw [Bitmap.test_eq (b := b.setBit i) hi, Bitmap.bit_setBit hi]
  simp

/-! ## Persistence -/

/-- `WriteBack` followed by `FetchFrom` gives the header back, with every field
of every node, and no assertion fires in either. -/
theorem fetchFrom_writeBack {fm fm' : Bitmap}
    {size sector : Int} {hdr : FileHeader}
    (hbits : fm.numBits = NumSectors) (hmark : fm.test sector = .ok true)
    (halloc : fresh.allocate fm size = .ok (hdr, fm')) (d : Disk) :
    ∃ d', hdr.writeBack sector d = .ok () d' ∧
      fresh.fetchFrom d' sector = .ok hdr := by
  obtain ⟨size, rfl⟩ := Int.eq_ofNat_of_zero_le (allocate_nonneg halloc)
  obtain ⟨sl, rfl, hal⟩ := allocated halloc
  obtain ⟨h0, hlt, hbit⟩ := Bitmap.test_eq_true hmark
  obtain ⟨sector, rfl⟩ := Int.eq_ofNat_of_zero_le h0
  have hwf := hal.tree_wf hbits (hbits ▸ hlt) hbit
  exact ⟨_, HdrTree.writeBack_eq hwf d,
    HdrTree.fetchFrom_eq hwf (HdrTree.stored_store hwf d)⟩

/-- A disk with one sector marked has room for any tree of up to a quarter of
it. -/
theorem allocate_own {size sector : Nat} (hs : sector < NumSectors)
    (hpos : 0 < size) (hle : 4 * sectorCount size < NumSectors) :
    ∃ hdr fm', fresh.allocate ((Bitmap.new NumSectors).setBit sector) size =
      .ok (hdr, fm') := by
  have hi : sector <
    (Bitmap.new NumSectors).numBits := by rw [Bitmap.new_numBits]; exact hs
  have hbit : (Bitmap.new NumSectors).bit sector = false := Bitmap.new_bit _ _
  have hcount := Bitmap.clearCount_setBit hi
  have hsize : ((Bitmap.new NumSectors).setBit sector).size =
      (NumSectors : Int) - 1 := by
    simp only [Bitmap.setBit, hbit, Bool.false_eq_true, if_false,
      Bitmap.new_size]
  rw [hbit, Bitmap.clearCount_new] at hcount
  simp only [Bool.false_eq_true, if_false] at hcount
  have ht := treeSectors_le size
  exact allocate_completes hpos (by omega) (by omega)

theorem numSectors_pos : 0 < NumSectors := by
  rw [numSectors_eq]
  omega

theorem numBits_setBit_new (sector : Nat) :
    ((Bitmap.new NumSectors).setBit sector).numBits = NumSectors := by
  rw [Bitmap.setBit_numBits, Bitmap.new_numBits]

/-- With only sector 0 in use there is room for a file of up to a megabyte. -/
theorem allocate_first {size : Nat} (hpos : 0 < size) (hle : size ≤ 1048576) :
    ∃ hdr fm', fresh.allocate ((Bitmap.new NumSectors).setBit 0) size =
      .ok (hdr, fm') := by
  refine allocate_own numSectors_pos hpos ?_
  simp only [numSectors_eq, sectorCount, SectorSize]
  omega

/-- A file of five sectors whose header is in sector 0. -/
theorem fetchFrom_writeBack_600 : ∃ hdr fm' d',
    fresh.allocate ((Bitmap.new NumSectors).setBit 0) (600 : Nat) =
      .ok (hdr, fm') ∧
      hdr.writeBack (0 : Nat) (fun _ => Sector.ofBytes []) = .ok () d' ∧
      fresh.fetchFrom d' (0 : Nat) = .ok hdr := by
  have hmark : ((Bitmap.new NumSectors).setBit 0).test (0 : Nat) = .ok true :=
    Bitmap.test_setBit_self (by rw [Bitmap.new_numBits]; exact numSectors_pos)
  obtain ⟨hdr, fm', halloc⟩ := allocate_first (show 0 < 600 by omega) (by omega)
  obtain ⟨d', hwrite, hfetch⟩ := fetchFrom_writeBack (numBits_setBit_new 0)
    hmark halloc fun _ => Sector.ofBytes []
  exact ⟨hdr, fm', d', halloc, hwrite, hfetch⟩

/-! ## Release -/

/-- `Deallocate` completes and the marks are those of `fm`. -/
def FileHeader.Restores (hdr : FileHeader) (fm' fm : Bitmap) : Prop :=
  ∃ hdr' fm'', hdr.deallocate fm' = .ok (hdr', fm'') ∧
    ∀ j, fm''.bit j = fm.bit j

/-- What stays marked after `Deallocate` are the inner header sectors. -/
theorem HdrSlots.Allocated.deallocate {size : Nat} {fm fm' : Bitmap}
    {sl : HdrSlots} (h : Allocated size fm sl fm') :
    ∃ hdr' fm'', (sl.header 0 size).deallocate fm' = .ok (hdr', fm'') ∧
      ∀ j, fm''.bit j = (decide (j ∈ sl.headers) || fm.bit j) := by
  have hdisj := (List.nodup_append.mp (sl.sectors_perm.nodup h.takes.nodup)).2.2
  refine ⟨_, _, HdrTree.deallocate_eq (t := ⟨0, size, sl⟩) h.length h.wf
    h.owned, fun j => ?_⟩
  rw [Bitmap.bit_clearAll, h.takes.bit]
  by_cases hl : j ∈ sl.leaves
  · have hh : j ∉ sl.headers := fun hh => hdisj j hh j hl rfl
    have hb := (h.takes.mem_clear (mem_sectors.mpr (.inr hl))).2
    simp [HdrTree.leaves, hl, hh, hb]
  · simp [HdrTree.leaves, hl, mem_sectors]

/-- The free map is restored exactly when there is no inner header. -/
theorem HdrSlots.Allocated.restores_iff {size : Nat} {fm fm' : Bitmap}
    {sl : HdrSlots} (h : Allocated size fm sl fm') :
    (sl.header 0 size).Restores fm' fm ↔ size ≤ N_SECTORS * SectorSize := by
  obtain ⟨hdr', fm'', hrun, hbits⟩ := h.deallocate
  have hnone : sl.headers = [] ↔ size ≤ N_SECTORS * SectorSize := by
    rw [← List.length_eq_zero_iff, headers_of_blank h.shape,
      List.length_eq_zero_iff]
    constructor
    · intro hnil
      have hle := leaves_le (plan_planned size).wf
      have hlen := (plan_planned size).length
      rw [(plan_planned size).leaves, hnil] at hle
      simp only [sectorCount, N_SECTORS, FILEHDR_SZ, MEMBER_SZ, SectorSize,
        List.length_nil] at *
      omega
    · intro hsize
      refine plan_headers_small ?_
      simp only [sectorCount, N_SECTORS, FILEHDR_SZ, MEMBER_SZ, SectorSize] at *
      omega
  rw [← hnone]
  constructor
  · rintro ⟨_, _, hrun', hbits'⟩
    rw [hrun] at hrun'
    simp only [Except.ok.injEq, Prod.mk.injEq] at hrun'
    obtain ⟨rfl, rfl⟩ := hrun'
    refine List.eq_nil_iff_forall_not_mem.mpr fun j hj => ?_
    have hmark := hbits j
    rw [hbits' j, (h.takes.mem_clear (mem_sectors.mpr (.inl hj))).2] at hmark
    simp [hj] at hmark
  · intro hnil
    refine ⟨hdr', fm'', hrun, fun j => ?_⟩
    rw [hbits j, hnil]
    simp

/-- Releasing what `Allocate` just took restores the free map if and only if the
file has at most 29 sectors, whether the header is still in memory or was
written to a sector marked before and read back. -/
theorem deallocate_restores_iff {fm fm' : Bitmap} {size : Int}
    {hdr : FileHeader} (halloc : fresh.allocate fm size = .ok (hdr, fm')) :
    (hdr.Restores fm' fm ↔ size ≤ N_SECTORS * SectorSize) ∧
    ∀ (sector : Int) (d : Disk), fm.numBits = NumSectors →
      fm.test sector = .ok true →
      ∃ d' hdr', hdr.writeBack sector d = .ok () d' ∧
        fresh.fetchFrom d' sector = .ok hdr' ∧
        (hdr'.Restores fm' fm ↔ size ≤ N_SECTORS * SectorSize) := by
  obtain ⟨size, rfl⟩ := Int.eq_ofNat_of_zero_le (allocate_nonneg halloc)
  obtain ⟨sl, rfl, hal⟩ := allocated halloc
  have hiff : (sl.header 0 size).Restores fm' fm ↔
      (size : Int) ≤ N_SECTORS * SectorSize := by
    rw [hal.restores_iff]
    omega
  refine ⟨hiff, fun sector d hbits hmark => ?_⟩
  obtain ⟨h0, hlt, hbit⟩ := Bitmap.test_eq_true hmark
  obtain ⟨sector, rfl⟩ := Int.eq_ofNat_of_zero_le h0
  have hwf := hal.tree_wf hbits (hbits ▸ hlt) hbit
  exact ⟨_, _, HdrTree.writeBack_eq hwf d,
    HdrTree.fetchFrom_eq hwf (HdrTree.stored_store hwf d), hiff⟩

/-- A file of five sectors is released completely. -/
theorem deallocate_restores_iff_600 : ∃ hdr fm',
    fresh.allocate ((Bitmap.new NumSectors).setBit 0) (600 : Nat) =
      .ok (hdr, fm') ∧
      hdr.Restores fm' ((Bitmap.new NumSectors).setBit 0) := by
  obtain ⟨hdr, fm', halloc⟩ := allocate_first (show 0 < 600 by omega) (by omega)
  refine ⟨hdr, fm', halloc, (deallocate_restores_iff halloc).1.mpr ?_⟩
  simp only [N_SECTORS, FILEHDR_SZ, MEMBER_SZ, SectorSize]
  omega

/-- A file of 30 sectors is not: its inner header sector stays marked. -/
theorem deallocate_leaks_3713 : ∃ hdr fm',
    fresh.allocate ((Bitmap.new NumSectors).setBit 0) (3713 : Nat) =
      .ok (hdr, fm') ∧
      ¬ hdr.Restores fm' ((Bitmap.new NumSectors).setBit 0) := by
  obtain ⟨hdr, fm', halloc⟩ :=
    allocate_first (show 0 < 3713 by omega) (by omega)
  obtain ⟨sl, rfl, hal⟩ := allocated halloc
  refine ⟨_, fm', halloc, fun h => ?_⟩
  have hle := hal.restores_iff.mp h
  simp only [N_SECTORS, FILEHDR_SZ, MEMBER_SZ, SectorSize] at hle
  omega

end EroikoBlue.MP4
