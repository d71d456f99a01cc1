/-
# `MP4.Isolation` — no sector has two owners

Two results about every reachable system.  The sectors of the free-map file, of
the directories and of the files are pairwise distinct, exist, and are marked
(`no_cross_linking`).  And a `Write` through an identifier whose file is still
there changes bytes of that file only, and of those only the ones it counts
(`write_isolated`); nothing about the request is assumed but that its end does
not overflow an `int`.

## Where the two come from

Both are read off the invariant of a run.  `Inv` holds of every reachable system
(`Reachable.inv`), and its part about the disk, `Volume.On`, says which sectors
the objects have and that no sector occurs twice among them.  The statements do
not mention it: the volume is what `Volume.read` finds on the disk with the
program's own functions.

For the write, `write_frame` says that only leaves of one file change, whatever
the request is and however it ends.  That the rest of the file keeps its bytes
is a fact about one transfer (`writeAt_outside`).

`no_cross_linking_populated` and `write_isolated_three` apply the two after a
`Mkdir` and two `Create`, and to a byte in the middle of a file.
-/
import EroikoBlue.MP4.Completeness

namespace EroikoBlue.MP4

open Bytes

/-- What belongs to the free-map file, the root, and everything reachable from
it. -/
theorem no_cross_linking {s : System} (h : Reachable s) :
    ∃ v fm, Volume.read s.disk = .ok v ∧
    PersistentBitmap.ofFile s.fs.freeMapFile NumSectors s.disk = .ok fm ∧
      v.sectors.Nodup ∧ ∀ sector ∈ v.sectors, sector < NumSectors ∧
      fm.bit sector = true := by
  obtain ⟨v, hinv⟩ := h.inv
  refine ⟨v, _, hinv.on.read_eq,
    hinv.on.mapFile.ofFile_eq hinv.mounts.map s.disk, hinv.on.nodup, ?_⟩
  intro sector hs
  exact ⟨hinv.on.lt hs, hinv.on.marked sector hs⟩

theorem no_cross_linking_populated : ∃ s v fm, Reachable s ∧
    (s.fs.Finds (rootPath 102) IS_FILE s.disk ∧
      s.fs.Finds (rootPath 100 ++ rootPath 103) IS_FILE s.disk ∧
      s.fs.Finds (rootPath 100 ++ rootPath 101) IS_DIR s.disk) ∧
      Volume.read s.disk = .ok v ∧
    PersistentBitmap.ofFile s.fs.freeMapFile NumSectors s.disk = .ok fm ∧
      v.sectors.Nodup ∧
      ∀ sector ∈ v.sectors, sector < NumSectors ∧ fm.bit sector = true := by
  obtain ⟨s, w, t, sub, h, hinv, hw⟩ := formatted_populated
  obtain ⟨v, fm, hv⟩ := no_cross_linking h
  exact ⟨s, v, fm, h, hw.finds hinv, hv⟩

/-! ## Writing -/

theorem getElem?_blit_of_not_mem {c src : List Byte}
    {p j : Nat} (hin : src.length = 0 ∨ p + src.length ≤ c.length)
    (hj : ¬ (p ≤ j ∧ j < p + src.length)) :
    (blit c src p)[j]? = (c)[j]? := by
  rcases hin with h0 | hin
  · rw [List.eq_nil_of_length_eq_zero h0, blit_nil]
  · rw [getElem?_blit hin, if_neg hj]

/-- `WriteAt` that returns keeps the bytes it does not count. -/
theorem writeAt_outside {t : HdrTree}
    (h : t.WF) {file : OpenFile} (hfile : file.hdr = t.header) {d d' : Disk}
    {src : List Byte} {n p r : Int} (hp : IsInt32 p) (hsum : p + n < 2147483648)
    (hrun : file.writeAt src n p d = .ok r d') {j : Nat}
    (hj : ¬ (p ≤ j ∧ (j : Int) < p + r)) :
    (t.content d')[j]? = (t.content d)[j]? := by
  rcases Int.lt_or_le p 0 with hneg | hnonneg
  · have hsame := HdrTree.writeAt_neg hfile d src n hneg hp
    rw [hrun, Outcome.final_ok] at hsame
    rw [hsame]
  · obtain ⟨p, rfl⟩ := Int.eq_ofNat_of_zero_le hnonneg
    obtain ⟨m, rfl, hsrc, hm, hcontent⟩ :=
      HdrTree.writeAt_ok h.backed hfile hsum hrun
    have hlen : (src.take m).length = m := by
      rw [List.length_take, Nat.min_eq_left hsrc]
    rw [hcontent]
    refine getElem?_blit_of_not_mem ?_ ?_
    · rw [hlen, HdrTree.length_content h.backed]
      omega
    · rw [hlen]
      omega

/-- What a `Write` on the file `o` may change. -/
structure Volume.Isolated (v : Volume) (o : Obj) (d d' : Disk) : Prop where
  /-- only data sectors of the file -/
  frame : ∀ x, x ∉ o.hdr.leaves → d' x = d x
  /-- no header and no directory -/
  read : Volume.read d' = .ok v
  /-- no data of another object -/
  others : ∀ o' ∈ v.root.objs, o' ≠ o → o'.hdr.content d' = o'.hdr.content d
  /-- nor the free map -/
  map : v.map.content d' = v.map.content d

theorem write_isolated {s : System} (h : Reachable s)
    {id : OpenFileId} {sector : Int} (hlive : s.live id = some sector)
    {file : OpenFile} (hid : s.fs.opTable id = some (some file))
    (buf : List Byte) (size : Int) (hpos : IsInt32 file.seekPosition)
    (hsum : file.seekPosition + size < 2147483648) :
    ∃ v o, Volume.read s.disk = .ok v ∧ o ∈ v.root.objs ∧ o.table = none ∧
      (o.hdr.sector : Int) = sector ∧
      v.Isolated o s.disk (Outcome.final (s.fs.write buf size id s.disk)) ∧
      (∀ r fs' d', s.fs.write buf size id s.disk = .ok (r, fs') d' → ∀ j : Nat,
        ¬ (file.seekPosition ≤ j ∧ (j : Int) < file.seekPosition + r) →
          (o.hdr.content d')[j]? = (o.hdr.content s.disk)[j]?) ∧
      (0 ≤ file.seekPosition → 0 ≤ size → size ≤ buf.length →
        ∃ r fs' d', s.fs.write buf size id s.disk = .ok (r, fs') d') := by
  obtain ⟨v, hinv⟩ := h.inv
  obtain ⟨o, ho⟩ := hinv.live id sector hlive
  obtain ⟨file', hid', hhdr⟩ := ho.handle
  rw [hid] at hid'
  cases hid'
  have hwf := (hinv.on.objs o ho.mem).wf
  have hframe : ∀ x, x ∉ o.hdr.leaves →
      Outcome.final (s.fs.write buf size id s.disk) x = s.disk x :=
    fun x hx => write_frame hinv.on ho buf size hx
  refine ⟨v, o, hinv.on.read_eq, ho.mem, ho.file, ho.sector,
    ⟨hframe, ?_, ?_, ?_⟩, ?_, ?_⟩
  · exact (hinv.on.rewrite ho.mem ho.file hframe).read_eq
  · intro o' ho' hne
    refine HdrTree.content_congr fun x hx => hframe x fun hx' => hne ?_
    exact hinv.on.obj_eq ho' ho.mem (HdrTree.mem_sectors.mpr (.inr hx))
      (HdrTree.mem_sectors.mpr (.inr hx'))
  · refine HdrTree.content_congr fun x hx => hframe x fun hx' => ?_
    exact hinv.on.map_disjoint ho.mem (HdrTree.mem_sectors.mpr (.inr hx))
      (HdrTree.mem_sectors.mpr (.inr hx'))
  · intro r fs' d' hrun j hj
    rw [FileSystem.write, hid] at hrun
    obtain ⟨⟨r₁, file₁⟩, d₁, hwrite, hpure⟩ := Outcome.bind_run_eq_ok.mp hrun
    cases hpure
    obtain ⟨r₂, d₂, hwriteAt, hpure⟩ := Outcome.bind_run_eq_ok.mp hwrite
    cases hpure
    exact writeAt_outside hwf hhdr hpos hsum hwriteAt hj
  · intro hnonneg hsize hbuf
    obtain ⟨p, hp⟩ := Int.eq_ofNat_of_zero_le hnonneg
    obtain ⟨n, rfl⟩ := Int.eq_ofNat_of_zero_le hsize
    rw [hp] at hsum
    obtain ⟨d', hrun, _⟩ := HdrTree.writeAt_eq hwf.backed hhdr s.disk
      (Int.ofNat_le.mp hbuf)
      (show p + n < 2147483648 by omega)
    rw [← hp] at hrun
    exact ⟨_, _, d', FileSystem.write_of_ok hid (OpenFile.write_of_ok hrun)⟩

/-- One byte into a new file of three. -/
theorem write_isolated_three : ∃ s v o d', Reachable s ∧
    Volume.read s.disk = .ok v ∧ o ∈ v.root.objs ∧
    v.Isolated o s.disk d' ∧
      ∃ r fs', s.fs.write [7] 1 5 s.disk = .ok (r, fs') d' := by
  obtain ⟨s, v, t, h, hinv, hr, hk, hid⟩ :=
    formatted_file (show 0 < 3 by decide) (by decide)
  obtain ⟨s', h', _, hlive, hfile⟩ := h.open hinv hr hk (hid 5)
  obtain ⟨v, o, hv, ho, _, _, hiso, _, hret⟩ := write_isolated h'
    hlive hfile [7] 1
    (show IsInt32 0 from ⟨by decide, by decide⟩)
      (show (0 : Int) + 1 < 2147483648 by decide)
  obtain ⟨r, fs', d', hrun⟩ := hret (Int.le_refl 0) (by decide) (by decide)
  rw [hrun] at hiso
  exact ⟨s', v, o, d', h', hv, ho, hiso, r, fs', hrun⟩

end EroikoBlue.MP4
