/-
# `MP4.RoundTrip` — what is written is read back

`Copy` and `Print` of `threads/main.cc` move a file in pieces: the one writes
until the source ends, the other reads until a `Read` returns 0.  Here the
pieces are any at all.  Each call goes on at the seek position the last one
left, so the pieces written make one slice of the content (`writePieces_eq`) and
the pieces read make the rest of it (`readPieces_eq`).  `create_write_read` puts
the two around a `Create`, with the header read from the disk again in between.

## What is assumed

That `Create` answered TRUE and that the path is found afterwards.  The second
does not follow from the first: a full parent takes no entry and `Create` says
TRUE all the same (`MP4.Completeness`).  Of the sizes that are read
(`ReadsFit`), that they are positive, for a `Read` of nothing is how the loop
ends, and that no position leaves an `int`.

## What is not

The length of the file, its place in the tree, what is on the disk besides it,
and where the pieces are cut.  The file is opened anew between the two loops, so
the bytes come back from the disk, through the header that `Create` wrote.
-/
import Mathlib.Algebra.Order.Ring.Int
import EroikoBlue.MP4.Isolation

namespace EroikoBlue.MP4

open Bytes

namespace OpenFile

/-- `Write` of one piece after the other: the counts, and the file
afterwards. -/
def writePieces (file : OpenFile) : List (List Byte) → FsM (List Int × OpenFile)
  | [] => pure ([], file)
  | piece :: pieces => do
    let (result, file) ← file.write piece piece.length
    let (results, file) ← writePieces file pieces
    pure (result :: results, file)

/-- `Read` of one size after the other until one returns 0: the pieces that were
read, and whether it did. -/
def readPieces (file : OpenFile) (d : Disk) : List Nat →
    Except Fault (List (List Byte) × Bool)
  | [] => pure ([], false)
  | size :: sizes => do
    let (got, file) ← file.read d size
    if got.length = 0 then pure ([], true)
    else do
      let (pieces, done) ← readPieces file d sizes
      pure (got :: pieces, done)

end OpenFile

/-- The sizes are positive, and no position plus the size read there overflows
an `int`, in a file of `length` bytes from `position` on. -/
def ReadsFit (length : Nat) : Nat → List Nat → Prop
  | _, [] => True
  | position, size :: sizes =>
      0 < size ∧ position + size < 2147483648 ∧
        ReadsFit length (min (position + size) length) sizes

namespace HdrTree
variable {t : HdrTree}

theorem writePieces_eq (h : t.WF) :
    ∀ {pieces : List (List Byte)} {p : Nat} {file : OpenFile} (d : Disk),
    file.hdr = t.header → file.seekPosition = p →
    p + pieces.flatten.length ≤ t.bytes →
    ∃ file' d', file.writePieces pieces d = .ok (pieces.map fun piece =>
        (piece.length : Int), file') d' ∧
      (∀ s, s ∉ t.leaves → d' s = d s) ∧
        t.content d' = blit (t.content d) pieces.flatten p
  | [], p, file, d, _, _, _ =>
      ⟨file, d, rfl, fun _ _ => rfl, (blit_nil _ _).symm⟩
  | piece :: pieces, p, file, d, hhdr, hpos, hle => by
      have hint := h.backed.bytes_int32
      rw [List.flatten_cons, List.length_append] at hle
      obtain ⟨d₁, hrun, hframe, hcontent⟩ := writeAt_eq h.backed hhdr d
        (Nat.le_refl piece.length)
        (show p + piece.length < 2147483648 by omega)
      rw [Nat.min_eq_left (by omega), List.take_length] at hcontent
      rw [Nat.min_eq_left (by omega), ← hpos] at hrun
      have hnext : int32 (file.seekPosition + piece.length) =
          (p + piece.length : Nat) := by
        rw [hpos]
        exact int32_of_nat (by omega)
      have hwrite := OpenFile.write_of_ok hrun
      rw [hnext] at hwrite
      obtain ⟨file', d', hrest, hframe', hcontent'⟩ := writePieces_eq h d₁
        (show (OpenFile.mk file.hdr (p + piece.length : Nat)).hdr = t.header
          from hhdr) rfl
        (show p + piece.length + pieces.flatten.length ≤ t.bytes by omega)
      refine ⟨file', d', ?_, fun s hs => (hframe' s hs).trans (hframe s hs), ?_⟩
      · rw [OpenFile.writePieces, Outcome.bind_of_ok hwrite]
        exact (Outcome.bind_of_ok hrest).trans rfl
      · rw [hcontent', hcontent, List.flatten_cons, blit_blit]
        rw [length_content h.backed]
        omega

theorem readPieces_eq (h : t.WF) (d : Disk) :
    ∀ {sizes : List Nat} {p : Nat} {file : OpenFile},
    file.hdr = t.header → file.seekPosition = p → p ≤ t.bytes →
    ReadsFit t.bytes p sizes →
    ∃ pieces done, file.readPieces d sizes = .ok (pieces, done) ∧
      (done = true → pieces.flatten = (t.content d).drop p) ∧
      (t.bytes - p < sizes.length → done = true)
  | [], p, file, _, _, _, _ => ⟨[], false, rfl, nofun, nofun⟩
  | size :: sizes, p, file, hhdr, hpos, hle, ⟨hsize, hsum, hfit⟩ => by
      have hint := h.backed.bytes_int32
      have hlen := length_content h.backed d
      have hreadAt := readAt_eq h.backed hhdr d hsum
      rw [← hpos] at hreadAt
      have hread := OpenFile.read_of_ok hreadAt
      have hgot : (((t.content d).drop p).take size).length =
          min size (t.bytes - p) := by
        rw [List.length_take, List.length_drop, hlen]
      by_cases hend : p = t.bytes
      · -- the end of the file
        have hzero : (((t.content d).drop p).take size).length = 0 := by omega
        refine ⟨[], true, ?_, fun _ => ?_, fun _ => rfl⟩
        · rw [OpenFile.readPieces, hread]
          exact if_pos hzero
        · rw [List.drop_eq_nil_of_le (by omega)]
          rfl
      · have hnext : int32
            (file.seekPosition + (((t.content d).drop p).take size).length) =
            (min (p + size) t.bytes : Nat) := by
          rw [hpos, hgot, show (p : Int) + (min size (t.bytes - p) : Nat) =
            (min (p + size) t.bytes : Nat) by omega]
          exact int32_of_nat (by omega)
        rw [hnext] at hread
        obtain ⟨pieces, done, hrest, hall, hdone⟩ := readPieces_eq h d
          (show (OpenFile.mk file.hdr (min (p + size) t.bytes : Nat)).hdr =
            t.header from hhdr) rfl
          (Nat.min_le_right _ _) hfit
        refine ⟨((t.content d).drop p).take size :: pieces, done, ?_,
          fun hd => ?_, fun hl => hdone ?_⟩
        · rw [OpenFile.readPieces, hread, Outcome.ok_bind]
          simp only
          rw [if_neg (by omega), hrest]
          rfl
        · rw [List.flatten_cons, hall hd]
          rcases Nat.le_total (p + size) t.bytes with hin | hout
          · rw [Nat.min_eq_left hin, ← List.drop_drop]
            exact List.take_append_drop size _
          · rw [Nat.min_eq_right hout,
              List.drop_eq_nil_of_le (Nat.le_of_eq hlen), List.append_nil]
            exact List.take_of_length_le (by rw [List.length_drop]; omega)
        · rw [List.length_cons] at hl
          omega

end HdrTree

theorem sum_lengths (pieces : List (List Byte)) :
    (pieces.map fun piece => (piece.length : Int)).sum =
      pieces.flatten.length := by
  induction pieces with
  | nil => rfl
  | cons piece pieces ih => rw [List.map_cons, List.sum_cons, ih,
        List.flatten_cons, List.length_append,
      Int.natCast_add]

/-- A file made by `Create` takes the bytes it was made for, however they are
cut, and gives them back, however they are asked for. -/
theorem create_write_read {s : System}
    (h : Reachable s) {path bytes : List Byte}
    {d₁ : Disk} (hcreate : s.fs.create path bytes.length s.disk = .ok true d₁)
    (hentry : s.fs.Finds path IS_FILE d₁) {pieces : List (List Byte)}
    (hpieces : pieces.flatten = bytes) :
    ∃ file results file' d₂, s.fs.openAsOpenFile path d₁ = .ok (some file) d₁ ∧
      file.writePieces pieces d₁ = .ok (results, file') d₂ ∧
      results.sum = bytes.length ∧
      ∃ file₂, s.fs.openAsOpenFile path d₂ = .ok (some file₂) d₂ ∧
        ∀ sizes, ReadsFit bytes.length 0 sizes → ∃ pieces' done,
          file₂.readPieces d₂ sizes = .ok (pieces', done) ∧
          (done = true → pieces'.flatten = bytes ∧
            (pieces'.map List.length).sum = bytes.length) ∧
          (bytes.length < sizes.length → done = true) := by
  obtain ⟨v, hinv⟩ := h.inv
  obtain ⟨p, G, name, hr⟩ : ∃ p G name, Resolves v path p G name := by
    by_contra hno
    obtain ⟨e, herr⟩ := createFileDir_unresolved hinv.on hinv.mounts
      (fun p G name hr => hno ⟨p, G, name, hr⟩) IS_FILE bytes.length
    rw [FileSystem.create, herr] at hcreate
    cases hcreate
  obtain ⟨hnew, t, fm', hres, hcreated⟩ :=
    createFileDir_true hinv.on hinv.mounts hr hcreate
  obtain ⟨e, hfree⟩ := Option.isSome_iff_exists.mp
    ((created_finds_iff hinv.on hinv.mounts hr hcreate).mp hentry)
  have hnext := (hcreated.update hinv.on hr.get hnew hres).next hinv.on hr.get
  have hr' := hr.set (G.entries.insert name t none)
  have hk := Entries.lookup_insert name t none
    (Folder.tidy_get p hinv.on.tidy hr.get) hfree hnew
  have hfs := hinv.mounts.next hnext
  have hbytes : t.bytes = bytes.length := hres.bytes
  -- writing
  have hopen := openAsOpenFile_ok hnext.on hfs hr' hk
  obtain ⟨file', d₂, hwrite, hframe, hcontent⟩ :=
    HdrTree.writePieces_eq hres.wf d₁
    (show (OpenFile.mk t.header 0).hdr = t.header from rfl)
      (show (0 : Int) = (0 : Nat) from rfl)
    (show 0 + pieces.flatten.length ≤ t.bytes by rw [hpieces, hbytes]; omega)
  rw [hpieces, blit_zero
    (by rw [HdrTree.length_content hres.wf.backed, hbytes])] at hcontent
  have hmem : (⟨t, none⟩ : Obj) ∈
      (v.set p (G.entries.insert name t none)).root.objs :=
    (gone_subperm hr'.get hk).subset (.head _)
  have hon := hnext.on.rewrite hmem rfl hframe
  -- and reading
  refine ⟨_, _, file', d₂, hopen, hwrite, ?_, _,
    openAsOpenFile_ok hon hfs hr' hk, ?_⟩
  · rw [sum_lengths, hpieces]
  · intro sizes hfit
    rw [← hbytes] at hfit
    obtain ⟨pieces', done, hread, hall, hdone⟩ :=
      HdrTree.readPieces_eq hres.wf d₂
      (show (OpenFile.mk t.header 0).hdr = t.header from rfl)
        (show (0 : Int) = (0 : Nat) from rfl)
      (Nat.zero_le _) hfit
    refine ⟨pieces', done, hread, fun hd => ?_, fun hl => hdone (by omega)⟩
    have hflat := hall hd
    rw [List.drop_zero, hcontent] at hflat
    exact ⟨hflat, by rw [← List.length_flatten, hflat]⟩

/-- Three bytes, in two pieces. -/
theorem create_write_read_three : ∃ s d₁ file results file' d₂, Reachable s ∧
    s.fs.create (rootPath 102) (3 : Nat) s.disk = .ok true d₁ ∧
      s.fs.openAsOpenFile (rootPath 102) d₁ = .ok (some file) d₁ ∧
      file.writePieces [[1, 2], [3]] d₁ = .ok (results, file') d₂ ∧
      results.sum = 3 ∧
      ∃ file₂, s.fs.openAsOpenFile (rootPath 102) d₂ = .ok (some file₂) d₂ ∧
        ∃ pieces', file₂.readPieces d₂ [1, 1, 1, 1] = .ok (pieces', true) ∧
        pieces'.flatten = [1, 2, 3] := by
  obtain ⟨s, v, h, hinv, hempty, hclear, _⟩ :=
    formatted fun _ => Sector.ofBytes []
  have hfree : (v.root.entries.table.find? (!·.inUse)).isSome = true := by
    rw [hempty]
    exact Entries.find?_empty _ (by decide)
  have hr := resolves_root v (c := 102) (by decide) (by decide)
  have hneed : sectorsNeeded 3 ≤ 3 := sectorsNeeded_small (by decide)
  have hhalf : 3 ≤ NumSectors / 2 := by rw [numSectors_eq]; decide
  obtain ⟨d₁, hcreate,
    hentry⟩ := (creates_iff hinv hr (by rw [hempty, Entries.lookup_empty]) hfree
    (show 0 < 3 by decide) (by omega)).mpr (by omega)
  obtain ⟨file, results, file', d₂, hopen, hwrite, hsum, file₂,
      hopen₂, hread⟩ :=
    create_write_read h (show s.fs.create (rootPath 102)
      ([1, 2, 3] : List Byte).length s.disk = _ from hcreate)
      hentry (show [[1, 2], [3]].flatten = _ from rfl)
  obtain ⟨pieces', done, hpieces, hall, hdone⟩ := hread [1, 1, 1, 1] (by
    simp only [ReadsFit, List.length_cons, List.length_nil]
    decide)
  rw [hdone (by decide)] at hpieces hall
  exact ⟨s, d₁, file, results, file', d₂, h, hcreate, hopen, hwrite, hsum,
    file₂, hopen₂, pieces', hpieces,
    (hall rfl).1⟩

end EroikoBlue.MP4
