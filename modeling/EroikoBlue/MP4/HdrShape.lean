/-
# `MP4.HdrShape` — the header `Allocate` leaves in memory

The modules before speak about `HdrSlots`, the tree that `Allocate` decides on.
Here the same facts are read off the header itself, by walks over its arrays:

    gather      the sectors of the used slots, depth first (with or without
                those that hold header nodes)
    levels      the number of levels of nodes
    Numbered    at every node the used slots come first, `numSectors` counts
                the leaves below, and `startSector` numbers them

A node of `n` sectors gives no slot more than a 29th of the next power of 29, so
each level divides the size by 29 (`planNode_depth`); at the last slot, which
takes all that is left, that is the reason why 28 slots of the size before it
fit.
-/
import Mathlib.Data.List.Nodup
import EroikoBlue.MP4.HdrLife

namespace EroikoBlue.MP4

open Bytes FileHeader HdrSlots

namespace FileHeader

/-! ## Walks over a header -/

mutual
/-- The sectors in the used slots of all nodes, depth first; those of header
nodes only when `inner` is set. -/
def gather (inner : Bool) : FileHeader → List Int
  | ⟨_, _, _, dataSectors, _, children, _⟩ =>
      gatherFrom inner dataSectors children 0
termination_by structural hdr => hdr

/-- From slot `i` of a node on. -/
def gatherFrom (inner : Bool) (dataSectors : List Int) :
    List (Option FileHeader) → Nat → List Int
  | [], _ => []
  | child :: children, i =>
      gatherAt inner (dataSectors.getD i INVALID_SECTOR) child ++
        gatherFrom inner dataSectors children (i + 1)
termination_by structural children => children

/-- At one slot, with `sector` in it. -/
def gatherAt (inner : Bool) (sector : Int) : Option FileHeader → List Int
  | none => if sector = INVALID_SECTOR then [] else [sector]
  | some child => (if inner then [sector] else []) ++ gather inner child
termination_by structural child => child
end

/-- The data sectors, in file order. -/
def leaves (hdr : FileHeader) : List Int := hdr.gather false

/-- The data sectors and the sectors of the nodes below the top one. -/
def sectors (hdr : FileHeader) : List Int := hdr.gather true

mutual
/-- The number of levels of nodes. -/
def levels : FileHeader → Nat
  | ⟨_, _, _, _, _, children, _⟩ => levelsFrom children + 1
termination_by structural hdr => hdr

def levelsFrom : List (Option FileHeader) → Nat
  | [] => 0
  | child :: children => max (levelsAt child) (levelsFrom children)
termination_by structural children => children

def levelsAt : Option FileHeader → Nat
  | none => 0
  | some child => levels child
termination_by structural child => child
end

mutual
/-- The first leaf below the node has index `cur`.  Its used slots come first,
`numSectors` is the number of leaves, and an end marker follows the used entries
of `startSector`. -/
def Numbered : FileHeader → Nat → Prop
  | ⟨_, numSectors, map, dataSectors, startSector, children, _⟩, cur =>
    match map with
    | none => False
    | some map => ∃ used : Nat, 1 ≤ used ∧ used ≤ N_SECTORS ∧
        (∀ i, dataSectors.getD i INVALID_SECTOR ≠ INVALID_SECTOR ↔ i < used) ∧
        numSectors = (gatherFrom false dataSectors children 0).length ∧
        startSector.getD used INVALID_SECTOR = cur + numSectors ∧
        NumberedFrom map dataSectors startSector children 0 cur
termination_by structural hdr => hdr

/-- A used slot starts at the index of its first leaf, and `map` says whether it
holds a node. -/
def NumberedFrom (map : Bitmap) (dataSectors startSector : List Int) :
    List (Option FileHeader) → Nat → Nat → Prop
  | [], _, _ => True
  | child :: children, i, cur =>
      (dataSectors.getD i INVALID_SECTOR ≠ INVALID_SECTOR →
        startSector.getD i INVALID_SECTOR = cur ∧
          map.test i = .ok child.isSome) ∧
      NumberedAt child cur ∧
      NumberedFrom map dataSectors startSector children (i + 1)
        (cur + (gatherAt false (dataSectors.getD i INVALID_SECTOR)
          child).length)
termination_by structural children => children

def NumberedAt : Option FileHeader → Nat → Prop
  | none, _ => True
  | some child, cur => Numbered child cur
termination_by structural child => child
end

end FileHeader

namespace HdrSlots

/-! ## The walks, on the header of a tree -/

theorem gatherFrom_nil (inner : Bool) {map : Bitmap} {ds : List Int} :
    ∀ {k i : Nat}, k + i = N_SECTORS → At .nil i map ds →
      gatherFrom inner ds (List.replicate k none) i = []
  | 0, _, _, _ => rfl
  | k + 1, i, hk, h => by
      obtain ⟨-, hinv⟩ := h.nil (by omega)
      rw [List.replicate_succ, gatherFrom, hinv,
        gatherFrom_nil inner (by omega) (h.nil_succ (by omega))]
      rfl

theorem children_nil {i : Nat} (cur : Nat) {map : Bitmap} {ds : List Int}
    (h : At .nil i map ds) :
    ∃ k, k + i = N_SECTORS ∧
      fill (N_SECTORS - i) none (HdrSlots.nil.children cur) =
        List.replicate k none := by
  have hi := h.room
  simp only [HdrSlots.length] at hi
  exact ⟨N_SECTORS - i, by omega, rfl⟩

theorem gatherFrom_eq (inner : Bool) :
    ∀ {sl : HdrSlots} {i : Nat} (cur : Nat) {map : Bitmap} {ds : List Int},
      At sl i map ds → sl.Narrow →
      gatherFrom inner ds (fill (N_SECTORS - i) none (sl.children cur)) i =
        (if inner then sl.sectors else sl.leaves).map Int.ofNat
  | .nil, i, cur, map, ds, h, _ => by
      obtain ⟨k, hk, hnone⟩ := children_nil cur h
      rw [hnone, gatherFrom_nil inner hk h]
      cases inner <;> rfl
  | .leaf s rest, i, cur, map, ds, h, hnarrow => by
      obtain ⟨-, hs, hrest⟩ := h.leaf
      rw [children, fill_cons, gatherFrom, hs,
        gatherFrom_eq inner (cur + 1) hrest hnarrow, gatherAt,
        if_neg (show ¬ ((s : Nat) : Int) =
          INVALID_SECTOR by simp only [INVALID_SECTOR]; omega)]
      cases inner <;> rfl
  | .node s b sub rest, i, cur, map, ds, h, ⟨⟨hlen, hsub⟩, hnarrow⟩ => by
      obtain ⟨-, hs, hrest⟩ := h.node
      have ih := gatherFrom_eq inner cur (at_zero hlen) hsub
      rw [children, fill_cons, gatherFrom, hs,
        gatherFrom_eq inner _ hrest hnarrow, gatherAt, mkHeader, gather]
      rw [show fill N_SECTORS none (sub.children cur) =
        fill (N_SECTORS - 0) none (sub.children cur) from rfl, ih]
      cases inner <;> simp [leaves, sectors]

theorem levelsFrom_eq : ∀ {sl : HdrSlots} (n cur : Nat),
    levelsFrom (sl.children cur ++ List.replicate n none) = sl.depth
  | .nil, n, cur => by
      induction n with
      | zero => rfl
      | succ n ih =>
          rw [children, List.nil_append] at ih ⊢
          rw [List.replicate_succ, levelsFrom, ih, levelsAt, depth]
          rfl
  | .leaf s rest, n, cur => by
      rw [children, List.cons_append, levelsFrom, levelsFrom_eq n (cur + 1),
        levelsAt, depth, Nat.zero_max]
  | .node s b sub rest, n, cur => by
      have ih : levelsFrom (sub.children cur ++ List.replicate
          (N_SECTORS - (sub.children cur).length) none) =
          sub.depth := levelsFrom_eq _ cur
      rw [children, List.cons_append, levelsFrom, levelsFrom_eq n, levelsAt,
        mkHeader, levels, fill, ih, depth]

theorem numberedFrom_nil {map : Bitmap} {ds ss : List Int} :
    ∀ {k i : Nat} (cur : Nat), k + i = N_SECTORS → At .nil i map ds →
      NumberedFrom map ds ss (List.replicate k none) i cur
  | 0, _, _, _, _ => trivial
  | k + 1, i, cur, hk, h => by
      obtain ⟨-, hinv⟩ := h.nil (by omega)
      rw [List.replicate_succ, NumberedFrom]
      exact ⟨fun hused => absurd hinv hused, trivial,
        numberedFrom_nil _ (by omega) (h.nil_succ (by omega))⟩

theorem dataSectors_used (sl : HdrSlots) (i : Nat) :
    sl.dataSectors.getD i INVALID_SECTOR ≠ INVALID_SECTOR ↔ i < sl.length := by
  rw [dataSectors, fill, List.getD_eq_getElem?_getD]
  by_cases hi : i < sl.length
  · have hi' : i < sl.heads.length := by rw [length_heads]; exact hi
    rw [List.getElem?_append_left (by rw [List.length_map]; exact hi'),
      List.getElem?_map,
      List.getElem?_eq_getElem hi']
    refine iff_of_true ?_ hi
    show (sl.heads[i] : Int) ≠ INVALID_SECTOR
    simp only [INVALID_SECTOR]
    omega
  · rw [List.getElem?_append_right
      (by rw [List.length_map, length_heads]; omega), List.getElem?_replicate]
    refine iff_of_false (fun hne => hne ?_) hi
    split <;> rfl

theorem startSector_end (sl : HdrSlots) (cur : Nat) :
    (sl.startSector cur).getD sl.length INVALID_SECTOR =
      cur + sl.leaves.length := by
  have hlen : (sl.starts cur).length = sl.length := length_starts sl cur
  rw [startSector, fill, List.getD_eq_getElem?_getD,
    List.getElem?_append_left (by simp [hlen]),
    List.getElem?_map, List.getElem?_append_right (by omega), hlen,
      Nat.sub_self]
  simp

theorem numberedFrom_eq :
    ∀ {sl : HdrSlots} {i cur : Nat} {map : Bitmap} {ds ss : List Int},
      At sl i map ds → Starts sl i cur ss →
      sl.WF →
      NumberedFrom map ds ss (fill (N_SECTORS - i) none (sl.children cur)) i cur
  | .nil, i, cur, map, ds, ss, h, _, _ => by
      obtain ⟨k, hk, hnone⟩ := children_nil cur h
      rw [hnone]
      exact numberedFrom_nil cur hk h
  | .leaf s rest, i, cur, map, ds, ss, h, hst, hwf => by
      obtain ⟨htest, hs, hrest⟩ := h.leaf
      have hone : (gatherAt false (s : Int) none).length = 1 := by
        rw [gatherAt, if_neg (by simp only [INVALID_SECTOR]; omega)]
        rfl
      rw [children, fill_cons, NumberedFrom, hs, hone]
      exact ⟨fun _ => ⟨hst.head, htest⟩, trivial,
        numberedFrom_eq hrest hst.leaf hwf⟩
  | .node s b sub rest, i, cur, map, ds, ss, h, hst,
      ⟨⟨hlen, htwo, _, hsub⟩, hwf⟩ => by
      obtain ⟨htest, hs, hrest⟩ := h.node
      have hgather := gatherFrom_eq false cur (at_zero hlen) hsub.narrow
      rw [Nat.sub_zero] at hgather
      have hcount : (gatherAt false (s : Int)
          (some (mkHeader cur b sub (sub.children cur)))).length =
          sub.leaves.length := by
        rw [gatherAt, mkHeader, gather, hgather]
        simp
      have ih := numberedFrom_eq (at_zero hlen) (starts_zero sub cur) hsub
      rw [Nat.sub_zero] at ih
      rw [children, fill_cons, NumberedFrom, hs, hcount]
      refine ⟨fun _ => ⟨hst.head, htest⟩, ?_,
        numberedFrom_eq hrest hst.node hwf⟩
      rw [NumberedAt, mkHeader, Numbered]
      refine ⟨sub.length, by omega, hlen, dataSectors_used sub, ?_,
        startSector_end sub cur, ih⟩
      rw [hgather]
      simp

theorem numbered_header {sl : HdrSlots} (hlen : sl.length ≤ N_SECTORS)
    (hpos : 1 ≤ sl.length) (hwf : sl.WF) (cur bytes : Nat) :
    (sl.header cur bytes).Numbered cur := by
  have hgather := gatherFrom_eq false cur (at_zero hlen) hwf.narrow
  have hslots := numberedFrom_eq (at_zero hlen) (starts_zero sl cur) hwf
  rw [Nat.sub_zero] at hgather hslots
  rw [header, mkHeader, Numbered]
  refine ⟨sl.length, hpos, hlen, dataSectors_used sl, ?_,
    startSector_end sl cur, hslots⟩
  rw [hgather]
  simp

theorem gather_header (inner : Bool) {sl : HdrSlots}
    (hlen : sl.length ≤ N_SECTORS) (h : sl.Narrow) (cur bytes : Nat) :
    (sl.header cur bytes).gather inner =
      (if inner then sl.sectors else sl.leaves).map Int.ofNat := by
  have hgather := gatherFrom_eq inner cur (at_zero hlen) h
  rw [Nat.sub_zero] at hgather
  rw [header, mkHeader, gather, hgather]

theorem levels_header (sl : HdrSlots) (cur bytes : Nat) :
    (sl.header cur bytes).levels = sl.depth + 1 := by
  rw [header, mkHeader, levels, fill, levelsFrom_eq]

/-! ## The number of levels -/

theorem slotPower {h r n : Nat} (hr : 1 ≤ r) (hrn : r ≤ n)
    (hn : n ≤ N_SECTORS ^ (h + 1)) :
    (N_SECTORS ^ Nat.log N_SECTORS r = n ∧ n = N_SECTORS * N_SECTORS ^ h) ∨
    (N_SECTORS ^ Nat.log N_SECTORS r = N_SECTORS ^ h) ∨
    (N_SECTORS ^ Nat.log N_SECTORS r ≤ N_SECTORS ^ h ∧ r ≤ N_SECTORS ^ h) := by
  have hbase : 1 < N_SECTORS := by decide
  have hle : N_SECTORS ^ Nat.log N_SECTORS r ≤ r :=
    Nat.pow_log_le_self N_SECTORS (by omega)
  have hlog : Nat.log N_SECTORS r ≤ h + 1 :=
    (Nat.pow_le_pow_iff_right hbase).mp (by omega)
  rcases Nat.lt_trichotomy (Nat.log N_SECTORS r) h with hlt | heq | hgt
  · have hr' : r < N_SECTORS ^ (Nat.log N_SECTORS r + 1) :=
      Nat.lt_pow_succ_log_self hbase r
    have hpow : N_SECTORS ^ (Nat.log N_SECTORS r + 1) ≤ N_SECTORS ^ h :=
      Nat.pow_le_pow_right (by omega) hlt
    exact .inr
      (.inr ⟨Nat.pow_le_pow_right (by omega) (Nat.le_of_lt hlt), by omega⟩)
  · exact .inr (.inl (by rw [heq]))
  · obtain heq : Nat.log N_SECTORS r = h + 1 := by omega
    have hpow : N_SECTORS ^ (h + 1) = N_SECTORS * N_SECTORS ^ h := Nat.pow_succ'
    rw [heq] at hle ⊢
    exact .inl ⟨by omega, by omega⟩

/-- A slot of a node of at most `29 ^ (h + 1)` sectors gets `29 ^ h` at most, if
the slots from `i` on would be enough for all that is left; and then the ones
after it are enough for the rest. -/
theorem slotSize_pow {h i r n : Nat}
    (hi : i < N_SECTORS) (hr : 1 ≤ r) (hrn : r ≤ n)
    (hlast : i + 1 < N_SECTORS ∨ r < n) (hn : n ≤ N_SECTORS ^ (h + 1))
    (hroom : r ≤ (N_SECTORS - i) * N_SECTORS ^ h) :
    slotSize i r n ≤ N_SECTORS ^ h ∧
      r - slotSize i r n ≤ (N_SECTORS - (i + 1)) * N_SECTORS ^ h := by
  have hpos : 0 < N_SECTORS ^ h := Nat.pow_pos (by decide)
  have hcases := slotPower hr hrn hn
  have hsub : (N_SECTORS - i) * N_SECTORS ^ h =
      (N_SECTORS - (i + 1)) * N_SECTORS ^ h + N_SECTORS ^ h := by
    rw [← Nat.succ_mul]
    congr 1
    omega
  rw [hsub] at hroom
  by_cases h1 : r = 1
  · have hone : slotSize i r n = 1 := by rw [slotSize]; exact if_pos h1
    omega
  by_cases hmid : i + 1 < N_SECTORS
  · have hmul : N_SECTORS ^ h ≤ (N_SECTORS - (i + 1)) * N_SECTORS ^ h :=
      Nat.le_mul_of_pos_left _ (by omega)
    rw [slotSize, if_neg h1, if_pos hmid]
    rcases hcases with ⟨htop, hfull⟩ | hsame | ⟨hsmall, hrest⟩
    · -- the whole node is a power of 29, and is cut into 29 slots
      rw [htop, if_pos rfl, hfull, Nat.mul_div_cancel_left _ (by decide)]
      omega
    · rw [hsame]
      by_cases hn' : N_SECTORS ^ h = n
      · have hdiv := Nat.div_le_self (N_SECTORS ^ h) N_SECTORS
        rw [if_pos hn']
        generalize N_SECTORS ^ h / N_SECTORS = q at hdiv ⊢
        omega
      · rw [if_neg hn']
        omega
    · have hdiv := Nat.div_le_self (N_SECTORS ^ Nat.log N_SECTORS r) N_SECTORS
      generalize N_SECTORS ^ Nat.log N_SECTORS r / N_SECTORS = q at hdiv ⊢
      split <;> omega
  · have hzero : N_SECTORS - (i + 1) = 0 := by omega
    rw [slotSize_last hmid (by omega : r < n)]
    rw [hzero, Nat.zero_mul] at hroom ⊢
    omega

section PlanFrom
variable {plan : Nat → Nat → HdrSlots} {n h : Nat}

theorem planFrom_depth (hplan : ∀ c b, 2 ≤ c → c ≤ N_SECTORS ^ h → Fits b c →
      (plan c b).depth + 1 ≤ h) (hn : n ≤ N_SECTORS ^ (h + 1)) :
    ∀ {k i r b : Nat}, Left n k i r b → r ≤ (N_SECTORS - i) * N_SECTORS ^ h →
      (planFrom plan n k i r b).depth ≤ h
  | 0, _, _, _, _, _ => Nat.zero_le h
  | k + 1, i, r, b, hleft, hroom => by
      by_cases hr : r = 0
      · rw [planFrom, if_pos hr]
        exact Nat.zero_le h
      · have hslots := hleft.slots
        have hlast : i + 1 < N_SECTORS ∨ r < n := by
          by_cases hi : 0 < i
          · exact .inr ((hleft.lt hi).resolve_right hr)
          · exact .inl (by simp only [N_SECTORS, FILEHDR_SZ, MEMBER_SZ]; omega)
        obtain ⟨hsize, hrest⟩ :=
          slotSize_pow (by omega) (by omega) hleft.le hlast hn hroom
        have ih := planFrom_depth hplan hn (hleft.next hr) hrest
        obtain ⟨h1, hle, -⟩ := hleft.bounds hr
        rw [planFrom, if_neg hr]
        by_cases hc : slotSize i r n = 1
        · rw [if_pos hc]
          exact ih
        · rw [if_neg hc]
          exact Nat.max_le.mpr
            ⟨hplan _ _ (by omega) hsize (fits_slot hleft.fits hle).1, ih⟩

end PlanFrom

/-- A node of at most `29 ^ (h + 1)` sectors has at most `h` levels below it. -/
theorem planNode_depth : ∀ {h fuel n b : Nat}, n ≤ N_SECTORS ^ (h + 1) →
    Fits b n →
    (planNode fuel n b).depth ≤ h
  | h, 0, _, _, _, _ => Nat.zero_le h
  | h, fuel + 1, n, b, hn, hb => by
      refine planFrom_depth (fun c b hc hle hb => ?_) hn (Left.start hb) ?_
      · cases h with
        | zero =>
            rw [Nat.pow_zero] at hle
            omega
        | succ h => exact Nat.succ_le_succ (planNode_depth hle hb)
      · rw [Nat.sub_zero, ← Nat.pow_succ']
        exact hn

@[simp] theorem depth_blank (a : HdrSlots) : a.blank.depth = a.depth := by
  induction a with
  | nil => rfl
  | leaf s rest ih => simp [blank, depth, ih]
  | node s bytes sub rest ihs ihr => simp [blank, depth, ihs, ihr]

theorem Allocated.depth {size h : Nat} {fm fm' : Bitmap}
    {sl : HdrSlots} (hal : Allocated size fm sl fm')
    (hn : sectorCount size ≤ N_SECTORS ^ (h + 1)) : sl.depth ≤ h := by
  rw [← depth_blank, hal.shape, depth_blank]
  exact planNode_depth hn (fits_sectorCount size)

theorem Allocated.pos {size : Nat} {fm fm' : Bitmap} {sl : HdrSlots}
    (hal : Allocated size fm sl fm') (hsize : 0 < size) : 1 ≤ sl.length := by
  have hleaves := hal.leaves
  have hcount : 0 < sectorCount size := Nat.div_pos (by simp only [SectorSize]; omega) (by decide)
  cases sl with
  | nil => exact absurd hleaves (by simp only [HdrSlots.leaves, List.length_nil]; omega)
  | leaf s rest => exact Nat.le_add_left 1 _
  | node s bytes sub rest => exact Nat.le_add_left 1 _

/-! ## The two ways to fail -/

/-- The assertions that say the disk is full. -/
def OutOfSpace (e : Fault) : Prop :=
  e = .assertFailed "Not enough space for allocation" ∨
    e = .assertFailed "Not enough space for single sector allocation!"

theorem outOfSpace_of_assert {condition : Prop} [Decidable condition]
    {msg : String} {e : Fault} (hmsg : OutOfSpace (.assertFailed msg))
    (h : assertMsg condition msg = .error e) : OutOfSpace e := by
  rw [assertMsg] at h
  split at h
  · cases h
  · cases h
    exact hmsg

theorem place_error {p : HdrSlots} {e : Fault} :
    ∀ {fm : Bitmap}, place p fm = .error e → OutOfSpace e := by
  induction p with
  | nil => exact fun h => nomatch h
  | leaf s rest ih =>
      intro fm h
      rcases Outcome.bind_eq_error h with h | ⟨_, -, h⟩
      · exact outOfSpace_of_assert (.inr rfl) h
      rcases Outcome.bind_eq_error h with h | ⟨_, -, h⟩
      · exact ih h
      · cases h
  | node s bytes sub rest ihs ihr =>
      intro fm h
      rcases Outcome.bind_eq_error h with h | ⟨_, -, h⟩
      · exact outOfSpace_of_assert (.inr rfl) h
      rcases Outcome.bind_eq_error h with h | ⟨_, -, h⟩
      · exact outOfSpace_of_assert (.inl rfl) h
      rcases Outcome.bind_eq_error h with h | ⟨_, -, h⟩
      · exact ihs h
      rcases Outcome.bind_eq_error h with h | ⟨_, -, h⟩
      · exact ihr h
      · cases h

theorem allocate_error {fm : Bitmap} {size : Nat} {e : Fault}
    (h : fresh.allocate fm size = .error e) :
    OutOfSpace e := by
  rw [allocate_eq] at h
  rcases Outcome.bind_eq_error h with h | ⟨_, -, h⟩
  · exact outOfSpace_of_assert (.inl rfl) h
  rcases Outcome.bind_eq_error h with h | ⟨_, -, h⟩
  · exact place_error h
  · cases h

end HdrSlots

/-! ## `Allocate` -/

/-- A header for `n` data sectors. -/
structure FileHeader.Shape (hdr : FileHeader) (n : Nat) : Prop where
  leaves : hdr.leaves.length = n
  numbered : hdr.Numbered 0
  levels : ∀ h, 1 ≤ h → n ≤ N_SECTORS ^ h → hdr.levels ≤ h

/-- The sectors in which two free maps differ are those of the header, all of
them clear in the first. -/
structure FileHeader.Marks (hdr : FileHeader) (n : Nat)
    (fm fm' : Bitmap) : Prop where
  count : (hdr.sectors.length : Int) = n + hdr.additionalSector - 1
  nodup : hdr.sectors.Nodup
  clear : ∀ s ∈ hdr.sectors, fm.test s = .ok false
  marked : ∀ which : Int, fm'.test which = if which ∈ hdr.sectors then .ok true
    else fm.test which

namespace HdrSlots.Allocated
variable {size : Nat} {fm fm' : Bitmap} {sl : HdrSlots}

theorem sectors_header (h : Allocated size fm sl fm') :
    (sl.header 0 size).sectors = sl.sectors.map Int.ofNat :=
  gather_header true h.length h.wf.narrow 0 size

theorem leaves_header (h : Allocated size fm sl fm') :
    (sl.header 0 size).leaves = sl.leaves.map Int.ofNat :=
  gather_header false h.length h.wf.narrow 0 size

theorem shape_header (h : Allocated size fm sl fm') (hsize : 0 < size) :
    (sl.header 0 size).Shape (sectorCount size) where
  leaves := by rw [h.leaves_header, List.length_map, h.leaves]
  numbered := numbered_header h.length (h.pos hsize) h.wf 0 size
  levels := by
    intro levels hpos hn
    obtain ⟨below, rfl⟩ : ∃ below, levels = below + 1 := ⟨levels - 1, by omega⟩
    rw [levels_header]
    exact Nat.succ_le_succ (h.depth hn)

theorem marks_header (h : Allocated size fm sl fm') :
    (sl.header 0 size).Marks (sectorCount size) fm fm' where
  count := by
    have hadd : (sl.header 0 size).additionalSector =
      (1 + sl.headers.length : Nat) := rfl
    have hperm := sl.sectors_perm.length_eq
    rw [List.length_append, h.leaves] at hperm
    rw [h.sectors_header, List.length_map, hadd]
    omega
  nodup := by
    rw [h.sectors_header]
    exact List.Nodup.map (fun _ _ heq => Int.ofNat_inj.mp heq) h.takes.nodup
  clear := by
    intro s hs
    rw [h.sectors_header] at hs
    obtain ⟨i, hi, rfl⟩ := List.mem_map.mp hs
    obtain ⟨hlt, hclear⟩ := h.takes.mem_clear hi
    exact (Bitmap.test_eq hlt).trans (congrArg Except.ok hclear)
  marked := by
    intro which
    rw [h.sectors_header]
    by_cases hin : which ∈ sl.sectors.map Int.ofNat
    · obtain ⟨i, hi, rfl⟩ := List.mem_map.mp hin
      have hlt : i < fm'.numBits :=
        h.takes.numBits.symm ▸ (h.takes.mem_clear hi).1
      rw [if_pos hin]
      refine (Bitmap.test_eq hlt).trans (congrArg Except.ok ?_)
      rw [h.takes.bit, decide_eq_true hi, Bool.true_or]
    · rw [if_neg hin, Bitmap.test, Bitmap.test, h.takes.numBits]
      by_cases hrange : 0 ≤ which ∧ which < fm.numBits
      · obtain ⟨i, rfl⟩ := Int.eq_ofNat_of_zero_le hrange.1
        have hi : i ∉ sl.sectors := fun hi => hin (List.mem_map_of_mem hi)
        rw [Int.toNat_natCast, h.takes.bit, decide_eq_false hi, Bool.false_or]
      · rw [assertMsg_neg hrange]
        rfl

end HdrSlots.Allocated

/-- `Allocate` on any free map and for any size: if it stops, the disk is full;
if it returns, the header is a numbered tree of the right number of leaves and
levels, and the free map has lost the sectors of the tree. -/
theorem allocate_shape (fm : Bitmap) {size : Int} (hsize : 0 < size) :
    (∀ e, fresh.allocate fm size = .error e → OutOfSpace e) ∧
    ∀ hdr fm', fresh.allocate fm size = .ok (hdr, fm') →
      hdr.Shape (sectorCount size.toNat) ∧
      hdr.Marks (sectorCount size.toNat) fm fm' := by
  obtain ⟨size, rfl⟩ := Int.eq_ofNat_of_zero_le (Int.le_of_lt hsize)
  refine ⟨fun e => allocate_error, fun hdr fm' halloc => ?_⟩
  obtain ⟨sl, rfl, hal⟩ := allocated halloc
  exact ⟨hal.shape_header (Int.natCast_pos.mp hsize), hal.marks_header⟩

/-- A file of 30 sectors on an almost empty disk. -/
theorem allocate_shape_3713 : ∃ hdr fm',
    fresh.allocate ((Bitmap.new NumSectors).setBit 0) 3713 = .ok (hdr, fm') ∧
      hdr.Shape 30 := by
  obtain ⟨hdr, fm', halloc⟩ :=
    allocate_first (show 0 < 3713 by omega) (by omega)
  exact ⟨hdr, fm', halloc,
    ((allocate_shape _ (show (0 : Int) < 3713 by omega)).2 hdr fm' halloc).1⟩

/-! ## `ByteToSector` -/

/-- Every offset of the file is found, in the leaf of its block, and two offsets
in one sector are in one block. -/
def FileHeader.LooksUp (hdr : FileHeader) : Prop :=
  ∀ offset : Int, 0 ≤ offset → offset < hdr.numBytes →
    (∃ s, hdr.leaves[(offset / SectorSize).toNat]? = some s ∧
      hdr.byteToSector offset = .ok s) ∧
    ∀ offset' : Int, 0 ≤ offset' → offset' < hdr.numBytes →
      (hdr.byteToSector offset' = hdr.byteToSector offset ↔
        offset' / SectorSize = offset / SectorSize)

namespace HdrSlots.Allocated
variable {size : Nat} {fm fm' : Bitmap} {sl : HdrSlots}

theorem byteToSector_header (h : Allocated size fm sl fm') {offset : Nat}
    (hlt : offset < size) :
    ∃ hk : offset / SectorSize < sl.leaves.length,
      (sl.header 0 size).byteToSector offset =
        .ok (sl.leaves[offset / SectorSize] : Nat) := by
  have hfit := h.fits.1
  have hk : offset / SectorSize < sl.leaves.length :=
    Nat.div_lt_of_lt_mul (Nat.lt_of_lt_of_le hlt hfit)
  have hfind := byteToSectorFrom_eq
    (show (offset : Int).tdiv SectorSize = (offset / SectorSize : Nat) from rfl)
      (at_zero h.length)
    (starts_zero sl 0) h.wf.narrow (Nat.zero_le _) (by omega)
  rw [Nat.sub_zero, Nat.sub_zero, List.getD_eq_getElem?_getD,
    List.getElem?_eq_getElem hk] at hfind
  exact ⟨hk, hfind⟩

theorem looksUp_header (h : Allocated size fm sl fm') :
    (sl.header 0 size).LooksUp := by
  have hnodup : sl.leaves.Nodup :=
    (List.nodup_append.mp (sl.sectors_perm.nodup h.takes.nodup)).2.1
  intro offset h0 hlt
  obtain ⟨offset, rfl⟩ := Int.eq_ofNat_of_zero_le h0
  obtain ⟨hk, hfind⟩ := h.byteToSector_header (Int.ofNat_lt.mp hlt)
  refine ⟨⟨_, ?_, hfind⟩, fun offset' h0' hlt' => ?_⟩
  · show (sl.header 0 size).leaves[offset / SectorSize]? = _
    rw [h.leaves_header, List.getElem?_map, List.getElem?_eq_getElem hk]
    rfl
  · obtain ⟨offset', rfl⟩ := Int.eq_ofNat_of_zero_le h0'
    obtain ⟨hk', hfind'⟩ := h.byteToSector_header (Int.ofNat_lt.mp hlt')
    rw [hfind, hfind', Except.ok.injEq, Int.ofNat_inj,
      List.Nodup.getElem_inj_iff hnodup]
    exact Int.ofNat_inj.symm

end HdrSlots.Allocated

/-- `ByteToSector` on a header that `Allocate` built, and on the one that
`FetchFrom` rebuilds after `WriteBack` has put it into a sector that was in use
before. -/
theorem byteToSector_finds {fm fm' : Bitmap} {size : Int} {hdr : FileHeader}
    (halloc : fresh.allocate fm size = .ok (hdr, fm')) :
    hdr.LooksUp ∧
    ∀ (sector : Int) (d : Disk), fm.numBits = NumSectors →
      fm.test sector = .ok true →
      ∃ d' hdr', hdr.writeBack sector d = .ok () d' ∧
        fresh.fetchFrom d' sector = .ok hdr' ∧
        hdr'.leaves = hdr.leaves ∧ hdr'.numBytes = hdr.numBytes ∧
        hdr'.LooksUp := by
  obtain ⟨size, rfl⟩ := Int.eq_ofNat_of_zero_le (allocate_nonneg halloc)
  obtain ⟨sl, rfl, hal⟩ := allocated halloc
  refine ⟨hal.looksUp_header, fun sector d hbits hmark => ?_⟩
  obtain ⟨h0, hlt, hbit⟩ := Bitmap.test_eq_true hmark
  obtain ⟨sector, rfl⟩ := Int.eq_ofNat_of_zero_le h0
  have hwf := hal.tree_wf hbits (hbits ▸ hlt) hbit
  exact ⟨_, _, HdrTree.writeBack_eq hwf d,
    HdrTree.fetchFrom_eq hwf (HdrTree.stored_store hwf d), rfl, rfl,
    hal.looksUp_header⟩

/-- A file of 30 sectors. -/
theorem byteToSector_finds_3713 : ∃ hdr fm',
    fresh.allocate ((Bitmap.new NumSectors).setBit 0) (3713 : Nat) = .ok (hdr,
        fm') ∧ hdr.LooksUp := by
  obtain ⟨hdr, fm', halloc⟩ :=
    allocate_first (show 0 < 3713 by omega) (by omega)
  exact ⟨hdr, fm', halloc, (byteToSector_finds halloc).1⟩

end EroikoBlue.MP4
