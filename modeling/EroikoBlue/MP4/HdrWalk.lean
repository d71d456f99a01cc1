/-
# `MP4.HdrWalk` — `ByteToSector` and `Deallocate`

The two loops that read a header in memory.  `ByteToSector` finds the slot whose
range of leaves holds the offset and goes down there: `byteToSector_eq` says it
ends at the right leaf.  `Deallocate` clears the leaves one by one, and resets
the array in which the sector of each child was written before anyone clears it:
`deallocate_eq` says that the free map loses the leaves and nothing else.  So
the inner header sectors of a file of more than 29 sectors stay marked for ever,
and `deallocate_restores_iff` says that this is the only thing that goes wrong
between `Allocate` and `Deallocate`.

`Backed` is what the transfers of `MP4.FileData` need of a header in memory: the
data sectors reach as far as the length, they are distinct, and they exist.  It
follows from well-formedness (`WF.backed`) and does not speak of a disk.
-/
import Mathlib.Data.List.GetD
import EroikoBlue.MP4.HdrDisk

namespace EroikoBlue.MP4

open Bytes FileHeader

namespace Bitmap

/-- `Clear` on every member of a list. -/
def clearAll (b : Bitmap) (l : List Nat) : Bitmap := l.foldl clearBit b

@[simp] theorem clearAll_nil (b : Bitmap) : b.clearAll [] = b := rfl

theorem clearAll_append (b : Bitmap) (l l' : List Nat) :
    b.clearAll (l ++ l') = (b.clearAll l).clearAll l' := List.foldl_append

@[simp] theorem clearAll_numBits (b : Bitmap) (l : List Nat) :
    (b.clearAll l).numBits = b.numBits := by
  induction l generalizing b with
  | nil => rfl
  | cons i l ih => exact ih (b.clearBit i)

theorem bit_clearAll (b : Bitmap) (l : List Nat) (j : Nat) :
    (b.clearAll l).bit j = (!decide (j ∈ l) && b.bit j) := by
  induction l generalizing b with
  | nil => simp
  | cons i l ih =>
      show ((b.clearBit i).clearAll l).bit j = _
      rw [ih, bit_clearBit]
      by_cases hj : j = i <;> simp [hj]

end Bitmap

namespace HdrSlots

/-! ## `ByteToSector` -/

/-- The `startSector` array, from slot `i` on: the first leaf of slot `i` is
`cur`. -/
def Starts (sl : HdrSlots) (i cur : Nat) (ss : List Int) : Prop :=
  ss.drop i = fill (N_SECTORS + 1 - i) INVALID_SECTOR
    ((sl.starts cur ++ [cur + sl.leaves.length]).map Int.ofNat)

theorem starts_zero (sl : HdrSlots) (cur : Nat) :
    Starts sl 0 cur (sl.startSector cur) := rfl

theorem Starts.head {sl : HdrSlots} {i cur : Nat} {ss : List Int}
    (h : Starts sl i cur ss) :
    ss.getD i INVALID_SECTOR = cur := by
  have h0 : ss[i]? = some (cur : Int) := by
    have := congrArg (·[0]?) h
    cases sl <;> simpa [fill, starts, leaves] using this
  rw [List.getD_eq_getElem?_getD, h0]
  rfl

theorem Starts.leaf {s i cur : Nat}
    {rest : HdrSlots} {ss : List Int} (h : Starts (.leaf s rest) i cur ss) :
    Starts rest (i + 1) (cur + 1) ss := by
  rw [Starts, starts, List.cons_append, List.map_cons, fill_cons] at h
  rw [Starts, (At.head_of_drop h).2]
  simp [leaves, Nat.add_assoc, Nat.add_comm 1]

theorem Starts.node {s b i cur : Nat} {sub rest : HdrSlots}
    {ss : List Int} (h : Starts (.node s b sub rest) i cur ss) :
    Starts rest (i + 1) (cur + sub.leaves.length) ss := by
  rw [Starts, starts, List.cons_append, List.map_cons, fill_cons] at h
  rw [Starts, (At.head_of_drop h).2]
  simp [leaves, Nat.add_assoc]

/-- Leaf `k` of the file is where the search for an offset in sector `k`
ends. -/
theorem byteToSectorFrom_eq {offset : Int} {k : Nat}
    (hk : offset.tdiv SectorSize = k) :
    ∀ {sl : HdrSlots} {i cur : Nat} {map : Bitmap} {ds ss : List Int},
      At sl i map ds →
      Starts sl i cur ss → sl.Narrow → cur ≤ k →
      (hlt : k < cur + sl.leaves.length) →
      byteToSectorFrom map ds ss (fill (N_SECTORS - i) none
          (sl.children cur)) i offset =
        .ok (sl.leaves.getD (k - cur) 0 : Nat)
  | .nil, _, cur, _, _, _, _, _, _, hle, hlt =>
      absurd hlt (by simp [leaves]; omega)
  | .leaf s rest, i, cur, map, ds, ss, h, hst, hnarrow, hle, hlt => by
      obtain ⟨htest, hs, hrest⟩ := h.leaf
      have hhead := hst.head
      have hnext := hst.leaf.head
      rw [children, fill_cons, byteToSectorFrom, hhead, hnext, hk]
      simp only [leaves, List.length_cons] at hlt
      by_cases hcur : k = cur
      · subst hcur
        rw [if_pos (by omega), htest]
        simp only [Outcome.ok_bind, Bool.false_eq_true, if_false, hs]
        simp [leaves]
      · rw [if_neg (by omega),
          byteToSectorFrom_eq hk hrest hst.leaf hnarrow (by omega) (by omega)]
        obtain ⟨m, rfl⟩ : ∃ m, k = cur + 1 + m := ⟨k - cur - 1, by omega⟩
        rw [show cur + 1 + m - cur = m + 1 by omega, Nat.add_sub_cancel_left]
        simp [leaves]
  | .node s b sub rest, i, cur, map, ds, ss, h, hst, ⟨⟨hlen, hsub⟩, hnarrow⟩,
      hle, hlt => by
      obtain ⟨htest, hs, hrest⟩ := h.node
      have hhead := hst.head
      have hnext := hst.node.head
      rw [children, fill_cons, byteToSectorFrom, hhead, hnext, hk]
      simp only [leaves, List.length_append] at hlt
      by_cases hcur : k < cur + sub.leaves.length
      · rw [if_pos (by omega), htest]
        have ih := byteToSectorFrom_eq hk (at_zero hlen) (starts_zero sub cur)
          hsub hle hcur
        simp only [Outcome.ok_bind, if_true, byteToSectorChild, mkHeader,
          byteToSector]
        rw [show fill N_SECTORS none (sub.children cur) =
          fill (N_SECTORS - 0) none (sub.children cur) from rfl, ih, leaves,
          List.getD_append _ _ _ _ (by omega)]
      · rw [if_neg (by omega), byteToSectorFrom_eq hk hrest hst.node hnarrow
          (by omega) (by omega), leaves,
          List.getD_append_right _ _ _ _ (by omega), Nat.sub_sub]

/-- Behind the used slots the search finds no sector. -/
theorem byteToSectorFrom_nil {offset : Int} {map : Bitmap}
    {ds ss : List Int} {s : Int} :
    ∀ {k i : Nat}, k + i = N_SECTORS → At .nil i map ds →
      byteToSectorFrom map ds ss (List.replicate k none) i offset = .ok s →
      s = INVALID_SECTOR
  | 0, _, _, _, hrun => by cases hrun
  | k + 1, i, hk, h, hrun => by
      obtain ⟨htest, hinv⟩ := h.nil (by omega)
      rw [List.replicate_succ, byteToSectorFrom, htest] at hrun
      simp only [Outcome.ok_bind, Bool.false_eq_true, if_false, hinv] at hrun
      split at hrun
      · cases hrun
        rfl
      · exact byteToSectorFrom_nil (by omega) (h.nil_succ (by omega)) hrun

theorem byteToSectorFrom_mem {offset : Int} {s : Int} :
    ∀ {sl : HdrSlots} {i : Nat} (cur : Nat) {map : Bitmap} {ds ss : List Int},
      At sl i map ds → sl.Narrow →
      byteToSectorFrom map ds ss (fill (N_SECTORS - i) none (sl.children cur)) i
        offset = .ok s →
      s = INVALID_SECTOR ∨ ∃ l ∈ sl.leaves, s = (l : Nat)
  | .nil, i, cur, map, ds, ss, h, _, hrun => by
      have hi := h.room
      simp only [HdrSlots.length] at hi
      exact .inl (byteToSectorFrom_nil (by simp [children]; omega) h hrun)
  | .leaf s' rest, i, cur, map, ds, ss, h, hnarrow, hrun => by
      obtain ⟨htest, hs, hrest⟩ := h.leaf
      rw [children, fill_cons, byteToSectorFrom, htest] at hrun
      simp only [Outcome.ok_bind, Bool.false_eq_true, if_false, hs] at hrun
      split at hrun
      · cases hrun
        exact .inr ⟨s', .head _, rfl⟩
      · rcases byteToSectorFrom_mem (cur + 1) hrest hnarrow hrun with
          hinv | ⟨l, hl, rfl⟩
        · exact .inl hinv
        · exact .inr ⟨l, .tail _ hl, rfl⟩
  | .node s' b sub rest, i, cur, map, ds, ss, h,
      ⟨⟨hlen, hsub⟩, hnarrow⟩, hrun => by
      obtain ⟨htest, hs, hrest⟩ := h.node
      rw [children, fill_cons, byteToSectorFrom, htest] at hrun
      simp only [Outcome.ok_bind, if_true, byteToSectorChild, mkHeader,
        byteToSector] at hrun
      split at hrun
      · rcases byteToSectorFrom_mem cur (at_zero hlen) hsub hrun with
          hinv | ⟨l, hl, rfl⟩
        · exact .inl hinv
        · exact .inr ⟨l, List.mem_append_left _ hl, rfl⟩
      · rcases byteToSectorFrom_mem (cur +
          sub.leaves.length) hrest hnarrow hrun with hinv | ⟨l, hl, rfl⟩
        · exact .inl hinv
        · exact .inr ⟨l, List.mem_append_right _ hl, rfl⟩

/-- `startSector` never rises from a negative entry. -/
theorem startSector_step (sl : HdrSlots) (cur i : Nat) :
    0 ≤ (sl.startSector cur).getD i INVALID_SECTOR ∨
      (sl.startSector cur).getD (i + 1) INVALID_SECTOR ≤
        (sl.startSector cur).getD i INVALID_SECTOR := by
  rw [startSector, fill]
  generalize (sl.starts cur ++ [cur + sl.leaves.length]) = l
  have hbehind : ∀ j, l.length ≤ j → (l.map Int.ofNat ++
      List.replicate (N_SECTORS + 1 - (l.map Int.ofNat).length)
        INVALID_SECTOR).getD j INVALID_SECTOR =
        INVALID_SECTOR := by
    intro j hj
    rw [List.getD_append_right _ _ _ _ (by rw [List.length_map]; exact hj),
      List.getD_eq_getElem?_getD,
      List.getElem?_replicate]
    split <;> rfl
  rcases Nat.lt_or_ge i l.length with hi | hi
  · left
    rw [List.getD_append _ _ _ _ (by rw [List.length_map]; exact hi),
      List.getD_eq_getElem?_getD,
      List.getElem?_map, List.getElem?_eq_getElem hi]
    exact Int.natCast_nonneg _
  · right
    rw [hbehind i hi, hbehind (i + 1) (Nat.le_succ_of_le hi)]

theorem byteToSectorFrom_neg {offset : Int} (hneg : offset.tdiv SectorSize < 0)
    {map : Bitmap} {ds ss : List Int} (hss : ∀ i, 0 ≤ ss.getD i INVALID_SECTOR ∨
      ss.getD (i + 1) INVALID_SECTOR ≤ ss.getD i INVALID_SECTOR) :
    ∀ (children : List (Option FileHeader)) (i : Nat),
      ∃ e, byteToSectorFrom map ds ss children i offset = .error e
  | [], _ => ⟨_, rfl⟩
  | child :: children, i => by
      have hout : ¬ (ss.getD i INVALID_SECTOR ≤ offset.tdiv SectorSize ∧
          offset.tdiv SectorSize < ss.getD (i + 1) INVALID_SECTOR) := by
        rintro ⟨hlo, hhi⟩
        rcases hss i with h | h <;> omega
      obtain ⟨e, he⟩ := byteToSectorFrom_neg hneg hss children (i + 1)
      rw [byteToSectorFrom]
      exact ⟨e, (if_neg hout).trans he⟩

/-! ## `Deallocate` -/

/-- What a free map must say about the leaves of a tree that is to be
released. -/
structure Owned (fm : Bitmap) (l : List Nat) : Prop where
  nodup : l.Nodup
  lt : ∀ s ∈ l, s < fm.numBits
  marked : ∀ s ∈ l, fm.bit s = true

theorem Owned.rest {fm : Bitmap} {l l' : List Nat} (h : Owned fm (l ++ l')) :
    Owned fm l ∧ Owned (fm.clearAll l) l' := by
  obtain ⟨hl, hl', hdisj⟩ := List.nodup_append.mp h.nodup
  refine ⟨⟨hl, fun s hs => h.lt s (List.mem_append_left _ hs),
    fun s hs => h.marked s (List.mem_append_left _ hs)⟩, hl', fun s hs =>
      ?_, fun s hs => ?_⟩
  · rw [Bitmap.clearAll_numBits]
    exact h.lt s (List.mem_append_right _ hs)
  · have hn : s ∉ l := fun hmem => hdisj s hmem s hs rfl
    rw [Bitmap.bit_clearAll, h.marked s (List.mem_append_right _ hs)]
    simp [hn]

theorem deallocateFrom_nil {map : Bitmap} {ds : List Int} {k i : Nat}
    (fm : Bitmap) (hk : k + i = N_SECTORS) (h : At .nil i map ds) :
    deallocateFrom ds (List.replicate k none) i map fm = .ok fm := by
  cases k with
  | zero => rfl
  | succ k =>
      obtain ⟨htest, hinv⟩ := h.nil (by omega)
      rw [List.replicate_succ, deallocateFrom, htest]
      simp only [Outcome.ok_bind, Bool.false_eq_true, if_false, hinv, if_true]
      rfl

/-- The loop of `Deallocate` clears the leaves, and only these. -/
theorem deallocateFrom_eq :
    ∀ {sl : HdrSlots} {i : Nat} (cur : Nat) {map : Bitmap} {ds : List Int}
      {fm : Bitmap},
      At sl i map ds → sl.WF → Owned fm sl.leaves →
      deallocateFrom ds (fill (N_SECTORS - i) none (sl.children cur)) i map fm =
        .ok (fm.clearAll sl.leaves)
  | .nil, i, cur, map, ds, fm, h, _, _ => by
      have hi := h.room
      simp only [HdrSlots.length] at hi
      exact deallocateFrom_nil fm (by simp [children]; omega) h
  | .leaf s rest, i, cur, map, ds, fm, h, hwf, hown => by
      obtain ⟨htest, hs, hrest⟩ := h.leaf
      have hsplit : Owned fm ([s] ++ rest.leaves) := hown
      obtain ⟨hone, hown'⟩ := hsplit.rest
      have hlt := hone.lt s (.head _)
      have hmarked : fm.test s = .ok true := by
        rw [Bitmap.test_eq hlt, hone.marked s (.head _)]
      rw [children, fill_cons, deallocateFrom, htest]
      simp only [Outcome.ok_bind, Bool.false_eq_true, if_false, hs, hmarked,
        Bitmap.clear_eq hlt,
        show ¬ (s : Int) = INVALID_SECTOR by
          simp [INVALID_SECTOR], assertMsg_pos]
      exact deallocateFrom_eq (cur + 1) hrest hwf hown'
  | .node s b sub rest, i, cur, map, ds, fm, h,
      ⟨⟨hlen, _, _, hsub⟩, hwf⟩, hown => by
      obtain ⟨htest, hs, hrest⟩ := h.node
      obtain ⟨hown, hown'⟩ := Owned.rest hown
      have hi : i < map.numBits := by
        have := h.room
        simp only [HdrSlots.length] at this
        rw [h.numBits]
        omega
      have ih := deallocateFrom_eq cur (at_zero hlen) hsub hown
      rw [children, fill_cons, deallocateFrom, htest]
      simp only [Outcome.ok_bind, if_true, deallocateChild,
        mkHeader, deallocate]
      rw [show fill N_SECTORS none (sub.children cur) =
        fill (N_SECTORS - 0) none (sub.children cur) from rfl, ih]
      simp only [Outcome.ok_bind, Outcome.pure_eq_ok, Bitmap.clear_eq hi]
      rw [deallocateFrom_eq (cur + sub.leaves.length)
        (hrest.clearBit (Nat.lt_succ_self i)) hwf hown',
        leaves,
        Bitmap.clearAll_append]

end HdrSlots

namespace HdrTree

open HdrSlots

/-- What the transfers need of a header: the arrays of every node hold its
slots, the data sectors reach as far as the length, and each is a sector of its
own. -/
structure Backed (t : HdrTree) : Prop where
  length : t.slots.length ≤ N_SECTORS
  narrow : t.slots.Narrow
  bytes_le : t.bytes ≤ t.leaves.length * SectorSize
  leaves_nodup : t.leaves.Nodup
  leaf_lt : ∀ s ∈ t.leaves, s < NumSectors

theorem WF.backed {t : HdrTree} (h : t.WF) : t.Backed where
  length := h.length
  narrow := h.slots.narrow
  bytes_le := by
    rw [Nat.mul_comm]
    exact h.fits.1
  leaves_nodup := h.leaves_nodup
  leaf_lt := fun _ => h.leaf_lt

theorem byteToSector_of_div {t : HdrTree} (h : t.Backed) {offset : Int}
    {k : Nat} (hdiv : offset.tdiv SectorSize = k) (hk : k < t.leaves.length) :
    t.header.byteToSector offset = .ok (t.leaves.getD k 0 : Nat) :=
  byteToSectorFrom_eq hdiv (at_zero h.length) (starts_zero t.slots 0) h.narrow
    (Nat.zero_le k) (by rw [Nat.zero_add]; exact hk)

theorem byteToSector_eq {t : HdrTree} (h : t.Backed) {k : Nat}
    (hk : k < t.leaves.length) :
    t.header.byteToSector (k * SectorSize : Nat) =
      .ok (t.leaves.getD k 0 : Nat) := by
  refine byteToSector_of_div h ?_ hk
  show ((k * SectorSize / SectorSize : Nat) : Int) = k
  rw [Nat.mul_div_cancel _ (by decide)]

theorem byteToSector_mem {t : HdrTree} (h : t.Backed) {offset s : Int}
    (hrun : t.header.byteToSector offset = .ok s) : s = INVALID_SECTOR ∨
    ∃ l ∈ t.leaves, s = (l : Nat) :=
  byteToSectorFrom_mem 0 (at_zero h.length) h.narrow hrun

theorem byteToSector_neg (t : HdrTree) {offset : Int}
    (hneg : offset.tdiv SectorSize < 0) :
    ∃ e, t.header.byteToSector offset = .error e :=
  byteToSectorFrom_neg hneg (startSector_step t.slots 0) _ _

/-- The header `Deallocate` leaves in memory. -/
def released (t : HdrTree) : FileHeader :=
  { fresh with
    numBytes := t.bytes
    numSectors := t.slots.leaves.length
    additionalSector := 1 + t.slots.headers.length }

/-- `Deallocate` clears the data sectors and keeps the inner headers marked. -/
theorem deallocate_eq {t : HdrTree} (hlen : t.slots.length ≤ N_SECTORS)
    (hwf : t.slots.WF) {fm : Bitmap} (hown : Owned fm t.leaves) :
    t.header.deallocate fm = .ok (t.released, fm.clearAll t.leaves) := by
  have hloop := deallocateFrom_eq 0 (at_zero hlen) hwf hown
  simp only [header, HdrSlots.header, mkHeader, deallocate]
  rw [show fill N_SECTORS none (t.slots.children 0) =
    fill (N_SECTORS - 0) none (t.slots.children 0) from rfl, hloop]
  rfl

end HdrTree

end EroikoBlue.MP4
