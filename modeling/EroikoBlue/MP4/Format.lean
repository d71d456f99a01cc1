/-
# `MP4.Format` — the two constructors of the file system

`FileSystem(TRUE)` formats the disk: it takes sectors 0 and 1 for the headers of
the free map and of the root, allocates both files, and writes an empty root and
the free map.  The disk is more than large enough for that, so formatting never
stops, and what is on the disk then is the empty volume (`format_ok`).
`FileSystem(FALSE)` opens the two files of a disk that holds a volume
(`boot_eq`).

## Why it cannot fail

`FindAndSet` and `Allocate` go by a count that is wrong after the first search,
so room has to be shown in terms of it: both trees together take few of the
sectors there are (`treeSectors_map`, `treeSectors_dir`), and a count that falls
twice as fast is still far from zero.  The bits that are set are the first ones
(`FirstMarked`), so the two headers get sectors 0 and 1, where
`FileSystem(FALSE)` looks for them.
-/
import EroikoBlue.MP4.HdrLife
import EroikoBlue.MP4.Paths

namespace EroikoBlue.MP4

open Bytes FileHeader HdrSlots

/-! ## Booting -/

/-- The file system that serves a volume, with no file open. -/
def FileSystem.serving (v : Volume) : FileSystem where
  freeMapFile := { hdr := v.map.header, seekPosition := 0 }
  directoryFile := { hdr := v.root.hdr.header, seekPosition := 0 }
  opTable := fun _ => none

theorem FileSystem.serving_mounts (v : Volume) :
    (FileSystem.serving v).Mounts v := ⟨rfl, rfl⟩

theorem boot_of_stored {d : Disk}
    {v : Volume} (hm0 : v.map.sector = FreeMapSector)
    (hr0 : v.root.hdr.sector = DirectorySector) (hm : v.map.WF)
    (hms : v.map.Stored d) (hr : v.root.hdr.WF) (hrs : v.root.hdr.Stored d) :
    FileSystem.boot d = .ok (.serving v) := by
  have hmap : OpenFile.open d FreeMapSector = .ok { hdr := v.map.header, seekPosition := 0 } := by
    rw [← hm0, OpenFile.open, HdrTree.fetchFrom_eq hm hms]
    rfl
  have hroot : OpenFile.open d DirectorySector = .ok { hdr := v.root.hdr.header, seekPosition := 0 } := by
    rw [← hr0, OpenFile.open, HdrTree.fetchFrom_eq hr hrs]
    rfl
  rw [FileSystem.boot, hmap, Outcome.ok_bind, hroot]
  rfl

theorem boot_eq {d : Disk} {v : Volume} (h : v.On d) :
    FileSystem.boot d = .ok (.serving v) := by
  have hroot := h.objs _ (.head _)
  exact boot_of_stored h.map_sector h.root_sector h.mapFile.wf h.mapStored
    hroot.wf hroot.stored

/-! ## Formatting -/

/-- The volume of a formatted disk, up to the two headers. -/
def Volume.blank (map root : HdrTree) : Volume :=
  ⟨map, ⟨root, .empty NumDirEntries⟩⟩

/-- The first sectors marked in a map of the whole disk. -/
structure FirstMarked (fm : Bitmap) (k : Nat) : Prop where
  numBits : fm.numBits = NumSectors
  size : fm.size = (NumSectors : Int) - k
  clear : fm.clearCount + k = NumSectors
  bit : ∀ j, fm.bit j = decide (j < k)

theorem firstMarked_new : FirstMarked (Bitmap.new NumSectors) 0 where
  numBits := Bitmap.new_numBits _
  size := by rw [Bitmap.new_size]; simp
  clear := by rw [Bitmap.clearCount_new, Nat.add_zero]
  bit := fun j => by rw [Bitmap.new_bit]; simp

theorem FirstMarked.mark {fm : Bitmap} {k : Nat} (h : FirstMarked fm k)
    (hk : k < NumSectors) :
    fm.mark k = .ok (fm.setBit k) ∧ FirstMarked (fm.setBit k) (k + 1) := by
  have hi : k < fm.numBits := by rw [h.numBits]; exact hk
  have hbit : fm.bit k = false := by rw [h.bit]; simp
  have hcount := Bitmap.clearCount_setBit hi
  rw [hbit] at hcount
  refine ⟨Bitmap.mark_eq hi, h.numBits, ?_, ?_, fun j => ?_⟩
  · have hs : (fm.setBit k).size = fm.size - 1 := by
      simp only [Bitmap.setBit, hbit, Bool.false_eq_true, if_false]
    rw [hs, h.size]
    omega
  · have hc := h.clear
    simp only [Bool.false_eq_true, if_false] at hcount
    omega
  · rw [Bitmap.bit_setBit hi, h.bit, ← Bool.decide_or]
    exact decide_eq_decide.mpr (by omega)

/-- The free map after the sectors of the two files are taken. -/
structure Formatted (fm : Bitmap) (m r : HdrTree) : Prop where
  map : m.WF
  root : r.WF
  map_sector : m.sector = FreeMapSector
  root_sector : r.sector = DirectorySector
  map_bytes : m.bytes = FreeMapFileSize
  root_bytes : r.bytes = DirectoryFileSize
  nodup : (m.sectors ++ r.sectors).Nodup
  numBits : fm.numBits = NumSectors
  bit : ∀ j, fm.bit j = decide (j ∈ m.sectors ++ r.sectors)
  clear : fm.clearCount + (2 + treeSectors FreeMapFileSize + treeSectors
    DirectoryFileSize) = NumSectors

theorem treeSectors_map : treeSectors FreeMapFileSize ≤ 2048 := by
  have h := treeSectors_le FreeMapFileSize
  rw [sectorCount, freeMapFileSize_eq] at h
  simp only [freeMapFileSize_eq, SectorSize] at h ⊢
  exact h

theorem treeSectors_dir : treeSectors DirectoryFileSize ≤ 20 := by
  have h := treeSectors_le DirectoryFileSize
  simp only [sectorCount, DirectoryFileSize, NumDirEntries, DirectoryEntry.size,
    SectorSize] at h ⊢
  exact h

/-- Both files find room. -/
theorem allocate_formatted {fm₀ : Bitmap} (h : FirstMarked fm₀ 2) :
    ∃ m r fm₁ fm,
    fresh.allocate fm₀ FreeMapFileSize = .ok (m.header, fm₁) ∧
      fresh.allocate fm₁ DirectoryFileSize = .ok (r.header, fm) ∧
      Formatted fm m r := by
  have hN := numSectors_eq
  have hclear := h.clear
  have hm := treeSectors_map
  have hd := treeSectors_dir
  have hsize := h.size
  have hmpos : 0 < FreeMapFileSize := by rw [freeMapFileSize_eq]; decide
  obtain ⟨hdr, fm₁, hrun₁⟩ := allocate_completes hmpos
    (show treeSectors FreeMapFileSize ≤ fm₀.clearCount by omega) (by omega)
  obtain ⟨slm, rfl, hal₁⟩ := allocated hrun₁
  have hlen₁ : slm.sectors.length = treeSectors FreeMapFileSize :=
    sectors_of_blank hal₁.shape
  have hclear₁ := hal₁.takes.clearCount
  have hsize₁ := hal₁.takes.size
  obtain ⟨hdr, fm, hrun₂⟩ := allocate_completes
    (show 0 < DirectoryFileSize by decide)
    (show treeSectors DirectoryFileSize ≤ fm₁.clearCount by omega) (by omega)
  obtain ⟨slr, rfl, hal₂⟩ := allocated hrun₂
  have hlen₂ : slr.sectors.length = treeSectors DirectoryFileSize :=
    sectors_of_blank hal₂.shape
  have hclear₂ := hal₂.takes.clearCount
  have hn₁ : fm₁.numBits = NumSectors := hal₁.takes.numBits.trans h.numBits
  have hbit₁ : ∀ j, fm₁.bit j = (decide (j ∈ slm.sectors) || decide (j < 2)) :=
      fun j => by
    rw [hal₁.takes.bit, h.bit]
  have hm0 : ∀ s ∈ slm.sectors, 2 ≤ s := fun s hs => by
    have hb := (hal₁.takes.mem_clear hs).2
    rw [h.bit] at hb
    exact Nat.not_lt.mp (of_decide_eq_false hb)
  have hr0 : ∀ s ∈ slr.sectors, 2 ≤ s ∧ s ∉ slm.sectors := fun s hs => by
    have hb := (hal₂.takes.mem_clear hs).2
    rw [hbit₁, Bool.or_eq_false_iff] at hb
    exact ⟨Nat.not_lt.mp (of_decide_eq_false hb.2), of_decide_eq_false hb.1⟩
  have hlow : ∀ {l : List Nat} {k : Nat}, (∀ s ∈ l, 2 ≤ s) → k < 2 → k ∉ l :=
      fun hl hk hmem =>
    absurd (hl _ hmem) (Nat.not_le.mpr hk)
  have hr2 : ∀ s ∈ slr.sectors, 2 ≤ s := fun s hs => (hr0 s hs).1
  have h01 : FreeMapSector < 2 ∧ DirectorySector < 2 := by decide
  have hlt : FreeMapSector < NumSectors ∧ DirectorySector < NumSectors := by
    rw [hN]
    decide
  refine ⟨⟨FreeMapSector, FreeMapFileSize, slm⟩,
    ⟨DirectorySector, DirectoryFileSize, slr⟩, fm₁, fm, hrun₁,
    hrun₂, ?_, ?_, rfl, rfl, rfl, rfl, ?_, hal₂.takes.numBits.trans hn₁, ?_, by
      omega⟩
  · exact hal₁.tree_wf h.numBits hlt.1 (by rw [h.bit]; rfl)
  · exact hal₂.tree_wf hn₁ hlt.2 (by rw [hbit₁]; simp)
  · refine List.nodup_append.mpr ⟨?_, ?_, ?_⟩
    · exact List.nodup_cons.mpr ⟨hlow hm0 h01.1, hal₁.takes.nodup⟩
    · exact List.nodup_cons.mpr ⟨hlow hr2 h01.2, hal₂.takes.nodup⟩
    · rintro s hs _ hs' rfl
      rcases List.mem_cons.mp hs with rfl | hs
      · rcases List.mem_cons.mp hs' with h01 | hs'
        · cases h01
        · exact hlow hr2 h01.1 hs'
      · rcases List.mem_cons.mp hs' with rfl | hs'
        · exact hlow hm0 h01.2 hs
        · exact (hr0 s hs').2 hs
  · intro j
    rw [hal₂.takes.bit, hbit₁, ← Bool.decide_or, ← Bool.decide_or]
    refine decide_eq_decide.mpr ?_
    simp only [HdrTree.sectors, List.mem_append, List.mem_cons, FreeMapSector,
      DirectorySector]
    constructor
    · rintro (h | h | h)
      · exact .inr (.inr h)
      · exact .inl (.inr h)
      · rcases Nat.lt_or_ge j 1 with h0 | h1
        · exact .inl (.inl (by omega))
        · exact .inr (.inl (by omega))
    · rintro ((h | h) | h | h)
      · exact .inr (.inr (by omega))
      · exact .inr (.inl h)
      · exact .inr (.inr (by omega))
      · exact .inl h

section Blank
variable {fm : Bitmap} {m r : HdrTree}

theorem Volume.objs_blank (m r : HdrTree) :
    (Volume.blank m r).root.objs =
      [⟨r, some (Entries.empty NumDirEntries).table⟩] := by
  rw [Volume.blank, Folder.objs]
  simp only [Entries.objs_empty]

theorem Volume.sectors_blank (m r : HdrTree) :
    (Volume.blank m r).sectors = m.sectors ++ r.sectors := by
  rw [Volume.sectors, Volume.objs_blank, List.flatMap_cons, List.flatMap_nil,
    List.append_nil]
  rfl

theorem Formatted.map_not_root (hf : Formatted fm m r) {s : Nat}
    (hs : s ∈ m.sectors) : s ∉ r.sectors :=
  fun hs' => (List.nodup_append.mp hf.nodup).2.2 s hs s hs' rfl

/-- A disk with the two headers, an empty root table and this free map holds the
empty volume. -/
theorem Formatted.on (hf : Formatted fm m r)
    {d : Disk} (hms : m.Stored d) (hrs : r.Stored d)
    (htable : r.HoldsTable d (Directory.new NumDirEntries).table)
    (hbits : ∀ j, (m.freeMap d).bit j = fm.bit j) :
    (Volume.blank m r).On d := by
  refine ⟨hf.map_sector, hf.root_sector, ⟨hf.map, hf.map_bytes⟩, hms,
    Entries.tidy_empty _, ?_, ?_, ?_⟩
  · intro o ho
    rw [Volume.objs_blank, List.mem_singleton] at ho
    subst ho
    refine ⟨hf.root, hrs, fun table ht => ?_⟩
    cases ht
    rw [Entries.table_empty]
    exact ⟨htable, .blank _⟩
  · rw [Volume.sectors_blank]
    exact hf.nodup
  · intro s hs
    rw [Volume.sectors_blank] at hs
    show (m.freeMap d).bit s = true
    rw [hbits, hf.bit, decide_eq_true hs]

theorem Formatted.clear_freeMap (hf : Formatted fm m r) {d : Disk}
    (hbits : ∀ j, (m.freeMap d).bit j = fm.bit j) :
    (m.freeMap d).clearCount + (2 + treeSectors FreeMapFileSize + treeSectors
        DirectoryFileSize) =
      NumSectors := by
  have hclear : (m.freeMap d).clearCount = fm.clearCount := by
    simp only [Bitmap.clearCount, hbits, hf.numBits]
    rw [show (m.freeMap d).numBits = NumSectors from freeMapOf_numBits _]
  rw [hclear]
  exact hf.clear

end Blank

/-- Formatting never stops; it leaves an empty root, and marks the sectors of
the two files and no others. -/
theorem format_ok (d : Disk) :
    ∃ v d', FileSystem.format d = .ok (.serving v) d' ∧ v.On d' ∧
    v.root.entries = .empty NumDirEntries ∧
    (v.map.freeMap d').clearCount + (2 + treeSectors FreeMapFileSize +
        treeSectors DirectoryFileSize) =
      NumSectors := by
  have hN := numSectors_eq
  obtain ⟨hmark₀, hfirst₁⟩ :=
    firstMarked_new.mark (show 0 < NumSectors by omega)
  obtain ⟨hmark₁, hfirst₂⟩ := hfirst₁.mark (show 1 < NumSectors by omega)
  obtain ⟨m, r, fm₁, fm, halloc₁, halloc₂, hf⟩ := allocate_formatted hfirst₂
  -- the headers
  have hwrite₁ := HdrTree.writeBack_eq hf.map d
  have hwrite₂ := HdrTree.writeBack_eq hf.root (m.store d)
  rw [hf.map_sector] at hwrite₁
  rw [hf.root_sector] at hwrite₂
  have hms : m.Stored (r.store (m.store d)) :=
      (HdrTree.stored_store hf.map d).congr fun s hs =>
    r.store_frame fun hr =>
      hf.map_not_root (HdrTree.mem_sectors.mpr (.inl hs))
        (HdrTree.mem_sectors.mpr (.inl hr))
  have hrs : r.Stored (r.store (m.store d)) := HdrTree.stored_store hf.root _
  have hboot : FileSystem.boot (r.store (m.store d)) =
      .ok (.serving (.blank m r)) :=
    boot_of_stored hf.map_sector hf.root_sector hf.map hms hf.root hrs
  -- the free map and the table
  have hmapFile : m.IsMapFile := ⟨hf.map, hf.map_bytes⟩
  have hrootFile : r.IsDirFile := ⟨hf.root, hf.root_bytes⟩
  obtain ⟨d₃, hwrite₃, hframe₃, _, hbits⟩ := hmapFile.writeBack_eq
    (show (FileSystem.serving (.blank m r)).freeMapFile.hdr = m.header from rfl)
      (r.store (m.store d))
    hf.numBits
  obtain ⟨d₄, hwrite₄, hframe₄, htable⟩ := hrootFile.writeBack_eq
    (show (FileSystem.serving (.blank m r)).directoryFile.hdr = r.header
      from rfl) d₃
    (show (Directory.new NumDirEntries).table.length = NumDirEntries
      from List.length_replicate)
  -- what was written first stays
  have hms₄ : m.Stored d₄ := hms.congr fun s hs => by
    rw [hframe₄ s fun hr => hf.map_not_root (HdrTree.mem_sectors.mpr (.inl hs))
      (HdrTree.mem_sectors.mpr (.inr hr)), hframe₃ s fun hm =>
        hf.map.leaf_not_header hm hs]
  have hrs₄ : r.Stored d₄ := hrs.congr fun s hs => by
    rw [hframe₄ s fun hr => hf.root.leaf_not_header hr hs, hframe₃ s fun hm =>
      hf.map_not_root (HdrTree.mem_sectors.mpr (.inr hm))
        (HdrTree.mem_sectors.mpr (.inl hs))]
  have hbits₄ : ∀ j, (m.freeMap d₄).bit j = fm.bit j := fun j => by
    rw [HdrTree.freeMap_congr fun s hs => hframe₄ s fun hr =>
      hf.map_not_root (HdrTree.mem_sectors.mpr (.inr hs))
        (HdrTree.mem_sectors.mpr (.inr hr))]
    exact hbits j
  refine ⟨.blank m r, d₄, ?_, hf.on hms₄ hrs₄ htable hbits₄, rfl,
    hf.clear_freeMap hbits₄⟩
  rw [FileSystem.format, Outcome.bind_of_ok (Outcome.lift_of_ok hmark₀),
    Outcome.bind_of_ok (Outcome.lift_of_ok hmark₁), Outcome.bind_of_ok
      (Outcome.lift_of_ok halloc₁)]
  simp only
  rw [Outcome.bind_of_ok (Outcome.lift_of_ok halloc₂)]
  simp only
  rw [Outcome.bind_of_ok hwrite₁, Outcome.bind_of_ok hwrite₂,
    Outcome.bind_of_ok (Outcome.reads_of_ok hboot),
    Outcome.bind_of_ok hwrite₃, Outcome.bind_of_ok hwrite₄]
  rfl

end EroikoBlue.MP4
