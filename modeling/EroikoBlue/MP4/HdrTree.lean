/-
# `MP4.HdrTree` — what a file header is

A file header is a tree of sectors.  `HdrSlots` is that tree with everything
computable left out: the used slots of a node in order, each a data sector or
the header sector of another node with its own slots.  The rest of a header in
memory (`map`, `startSector`, `children`, `additionalSector`, the `-1` fillers)
is a function of it, `HdrSlots.header`, and so is what a node stores on disk,
`HdrSlots.nodeWords`.

    leaves     the data sectors, in file order
    headers    the header sectors below the top one
    sectors    all of these, in the order `Allocate` takes them

The other modules show that `Allocate` builds such a header, that `WriteBack`
and `FetchFrom` carry it to disk and back, and that `ByteToSector` and
`Deallocate` read it correctly.  All of their loops look at slot `i` of the
three arrays; `HdrSlots.At` says what they find there, and `At.leaf`, `At.node`
move it one slot on.
-/
import EroikoBlue.MP4.FileHdr

namespace EroikoBlue.MP4

open Bytes

/-- The used slots of a header node, in order. -/
inductive HdrSlots where
  | nil
  /-- A slot holding a data sector. -/
  | leaf (sector : Nat) (rest : HdrSlots)
  /-- A slot holding the sector of another header node. -/
  | node (sector : Nat) (bytes : Nat) (sub rest : HdrSlots)

namespace HdrSlots

def length : HdrSlots → Nat
  | .nil => 0
  | .leaf _ rest => rest.length + 1
  | .node _ _ _ rest => rest.length + 1

def append : HdrSlots → HdrSlots → HdrSlots
  | .nil, b => b
  | .leaf s rest, b => .leaf s (rest.append b)
  | .node s bytes sub rest, b => .node s bytes sub (rest.append b)

instance : Append HdrSlots := ⟨append⟩

@[simp] theorem nil_append (b : HdrSlots) : HdrSlots.nil ++ b = b := rfl
@[simp] theorem leaf_append (s : Nat) (a b : HdrSlots) :
    .leaf s a ++ b = .leaf s (a ++ b) := rfl
@[simp] theorem node_append (s n : Nat) (sub a b : HdrSlots) :
    .node s n sub a ++ b = .node s n sub (a ++ b) := rfl

theorem append_assoc (a b c : HdrSlots) : a ++ b ++ c = a ++ (b ++ c) := by
  induction a with
  | nil => rfl
  | leaf s rest ih => simp [ih]
  | node s bytes sub rest _ ih => simp [ih]

@[simp] theorem append_nil (a : HdrSlots) : a ++ HdrSlots.nil = a := by
  induction a with
  | nil => rfl
  | leaf s rest ih => simp [ih]
  | node s bytes sub rest _ ih => simp [ih]

/-! ## The sectors of a tree -/

/-- `dataSectors`: the sector in each used slot. -/
def heads : HdrSlots → List Nat
  | .nil => []
  | .leaf s rest => s :: rest.heads
  | .node s _ _ rest => s :: rest.heads

/-- `map`: which slots hold a node. -/
def flags : HdrSlots → List Bool
  | .nil => []
  | .leaf _ rest => false :: rest.flags
  | .node _ _ _ rest => true :: rest.flags

/-- The data sectors, in file order. -/
def leaves : HdrSlots → List Nat
  | .nil => []
  | .leaf s rest => s :: rest.leaves
  | .node _ _ sub rest => sub.leaves ++ rest.leaves

/-- The sectors holding header nodes. -/
def headers : HdrSlots → List Nat
  | .nil => []
  | .leaf _ rest => rest.headers
  | .node s _ sub rest => s :: (sub.headers ++ rest.headers)

/-- Every sector, in depth-first order. -/
def sectors : HdrSlots → List Nat
  | .nil => []
  | .leaf s rest => s :: rest.sectors
  | .node s _ sub rest => s :: (sub.sectors ++ rest.sectors)

/-- `startSector`: the index of the first leaf of each slot. -/
def starts (cur : Nat) : HdrSlots → List Nat
  | .nil => []
  | .leaf _ rest => cur :: rest.starts (cur + 1)
  | .node _ _ sub rest => cur :: rest.starts (cur + sub.leaves.length)

/-- The number of levels below the slots. -/
def depth : HdrSlots → Nat
  | .nil => 0
  | .leaf _ rest => rest.depth
  | .node _ _ sub rest => max (sub.depth + 1) rest.depth

section Append
variable (a b : HdrSlots)

@[simp] theorem length_append : (a ++ b).length = a.length + b.length := by
  induction a with
  | nil => simp [length]
  | leaf s rest ih => simp [length, ih]; omega
  | node s bytes sub rest _ ih => simp [length, ih]; omega

@[simp] theorem heads_append : (a ++ b).heads = a.heads ++ b.heads := by
  induction a with
  | nil => rfl
  | leaf s rest ih => simp [heads, ih]
  | node s bytes sub rest _ ih => simp [heads, ih]

@[simp] theorem leaves_append : (a ++ b).leaves = a.leaves ++ b.leaves := by
  induction a with
  | nil => rfl
  | leaf s rest ih => simp [leaves, ih]
  | node s bytes sub rest _ ih => simp [leaves, ih]

@[simp] theorem headers_append : (a ++ b).headers = a.headers ++ b.headers := by
  induction a with
  | nil => rfl
  | leaf s rest ih => simp [headers, ih]
  | node s bytes sub rest _ ih => simp [headers, ih]

theorem starts_append (cur : Nat) :
    (a ++ b).starts cur = a.starts cur ++ b.starts (cur + a.leaves.length) := by
  induction a generalizing cur with
  | nil => simp [starts, leaves]
  | leaf s rest ih => simp [starts, leaves, ih, Nat.add_assoc, Nat.add_comm 1]
  | node s bytes sub rest _ ih => simp [starts, leaves, ih, Nat.add_assoc]

end Append

@[simp] theorem length_heads (sl : HdrSlots) : sl.heads.length = sl.length := by
  induction sl with
  | nil => rfl
  | leaf s rest ih => simp [heads, length, ih]
  | node s bytes sub rest _ ih => simp [heads, length, ih]

@[simp] theorem length_flags (sl : HdrSlots) : sl.flags.length = sl.length := by
  induction sl with
  | nil => rfl
  | leaf s rest ih => simp [flags, length, ih]
  | node s bytes sub rest _ ih => simp [flags, length, ih]

@[simp] theorem length_starts (sl : HdrSlots) (cur : Nat) :
    (sl.starts cur).length = sl.length := by
  induction sl generalizing cur with
  | nil => rfl
  | leaf s rest ih => simp [starts, length, ih]
  | node s bytes sub rest _ ih => simp [starts, length, ih]

theorem sectors_perm (sl : HdrSlots) :
    sl.sectors.Perm (sl.headers ++ sl.leaves) := by
  induction sl with
  | nil => exact .refl _
  | leaf s rest ih =>
      exact (ih.cons s).trans (List.perm_middle.symm)
  | node s bytes sub rest ihs ihr =>
      simp only [sectors, headers, leaves, List.cons_append]
      refine .cons s ((ihs.append ihr).trans ?_)
      rw [List.append_assoc, List.append_assoc]
      refine .append_left _ ?_
      rw [← List.append_assoc, ← List.append_assoc]
      exact List.perm_append_comm.append_right _

theorem mem_sectors {sl : HdrSlots} {s : Nat} :
    s ∈ sl.sectors ↔ s ∈ sl.headers ∨ s ∈ sl.leaves := by
  rw [sl.sectors_perm.mem_iff, List.mem_append]

theorem mem_sectors_of_heads {sl : HdrSlots} {s : Nat} (h : s ∈ sl.heads) :
    s ∈ sl.sectors := by
  induction sl with
  | nil => exact h
  | leaf s' rest ih =>
      rcases List.mem_cons.mp h with rfl | h
      · exact .head _
      · exact .tail _ (ih h)
  | node s' bytes sub rest _ ih =>
      rcases List.mem_cons.mp h with rfl | h
      · exact .head _
      · exact .tail _ (List.mem_append_right _ (ih h))

theorem depth_le (sl : HdrSlots) : sl.depth ≤ sl.headers.length := by
  induction sl with
  | nil => exact Nat.le_refl _
  | leaf s rest ih => exact ih
  | node s bytes sub rest ihs ihr =>
      simp only [depth, headers, List.length_cons, List.length_append]
      omega

/-! ## The header in memory -/

/-- The marks of `map`, slot by slot from `i`. -/
def marks (i : Nat) : HdrSlots → Bitmap → Bitmap
  | .nil, b => b
  | .leaf _ rest, b => rest.marks (i + 1) b
  | .node _ _ _ rest, b => rest.marks (i + 1) (b.setBit i)

/-- `map`. -/
def slotMap (sl : HdrSlots) : Bitmap := sl.marks 0 (Bitmap.new N_SECTORS)

/-- An array of `n` cells, the first ones filled. -/
def fill {α : Type} (n : Nat) (x : α) (l : List α) : List α :=
  l ++ List.replicate (n - l.length) x

/-- `dataSectors`. -/
def dataSectors (sl : HdrSlots) : List Int :=
  fill N_SECTORS INVALID_SECTOR (sl.heads.map Int.ofNat)

/-- `startSector` of a node whose first leaf has index `cur`. -/
def startSector (cur : Nat) (sl : HdrSlots) : List Int :=
  fill (N_SECTORS + 1) INVALID_SECTOR
    ((sl.starts cur ++ [cur + sl.leaves.length]).map Int.ofNat)

/-- A header node, given its children. -/
def mkHeader (cur bytes : Nat) (sl : HdrSlots)
    (children : List (Option FileHeader)) :
    FileHeader where
  numBytes := bytes
  numSectors := sl.leaves.length
  map := some sl.slotMap
  dataSectors := sl.dataSectors
  startSector := sl.startSector cur
  children := fill N_SECTORS none children
  additionalSector := 1 + sl.headers.length

/-- `children`, the used ones. -/
def children (cur : Nat) : HdrSlots → List (Option FileHeader)
  | .nil => []
  | .leaf _ rest => none :: rest.children (cur + 1)
  | .node _ bytes sub rest =>
      some (mkHeader cur bytes sub (sub.children cur)) ::
        rest.children (cur + sub.leaves.length)

/-- The header in memory of a node whose first leaf has index `cur`. -/
def header (cur bytes : Nat) (sl : HdrSlots) : FileHeader :=
  mkHeader cur bytes sl (sl.children cur)

/-- What a node stores in its sector. -/
def nodeWords (bytes : Nat) (sl : HdrSlots) : List Word :=
  BitVec.ofInt 32 bytes :: BitVec.ofInt 32 sl.leaves.length ::
    (sl.slotMap.export ++ sl.dataSectors.map (BitVec.ofInt 32))

@[simp] theorem length_children (sl : HdrSlots) (cur : Nat) :
    (sl.children cur).length = sl.length := by
  induction sl generalizing cur with
  | nil => rfl
  | leaf s rest ih => simp [children, length, ih]
  | node s bytes sub rest _ ih => simp [children, length, ih]

theorem children_append (a b : HdrSlots) (cur : Nat) :
    (a ++ b).children cur =
      a.children cur ++ b.children (cur + a.leaves.length) := by
  induction a generalizing cur with
  | nil => simp [children, leaves]
  | leaf s rest ih => simp [children, leaves, ih, Nat.add_assoc, Nat.add_comm 1]
  | node s bytes sub rest _ ih => simp [children, leaves, ih, Nat.add_assoc]

theorem marks_append (a b : HdrSlots) (i : Nat) (m : Bitmap) :
    (a ++ b).marks i m = b.marks (i + a.length) (a.marks i m) := by
  induction a generalizing i m with
  | nil => rfl
  | leaf s rest ih => simp [marks, length, ih, Nat.add_assoc, Nat.add_comm 1]
  | node s bytes sub rest _ ih =>
      simp [marks, length, ih, Nat.add_assoc, Nat.add_comm 1]

@[simp] theorem marks_numBits (sl : HdrSlots) (i : Nat) (m : Bitmap) :
    (sl.marks i m).numBits = m.numBits := by
  induction sl generalizing i m with
  | nil => rfl
  | leaf s rest ih => simp [marks, ih]
  | node s bytes sub rest _ ih => simp [marks, ih]

@[simp] theorem slotMap_numBits (sl : HdrSlots) :
    sl.slotMap.numBits = N_SECTORS := by
  simp [slotMap]

theorem bit_marks (sl : HdrSlots) {i : Nat} {m : Bitmap}
    (h : i + sl.length ≤ m.numBits) (j : Nat) :
    (sl.marks i m).bit j =
      (m.bit j || (decide (i ≤ j) && sl.flags.getD (j - i) false)) := by
  induction sl generalizing i m with
  | nil => simp [marks, flags]
  | leaf s rest ih =>
      simp only [length] at h
      rw [marks, ih (by omega), flags]
      by_cases hj : j < i + 1
      · by_cases hi : i = j
        · subst hi; simp
        · have : ¬ i ≤ j := by omega
          simp [this, show ¬ i + 1 ≤ j by omega]
      · obtain ⟨k, rfl⟩ : ∃ k, j = i + 1 + k := ⟨j - (i + 1), by omega⟩
        simp [show i + 1 + k - i = k + 1 by omega, show i ≤ i + 1 + k by omega]
  | node s bytes sub rest _ ih =>
      simp only [length] at h
      rw [marks, ih (by rw [Bitmap.setBit_numBits]; omega), flags,
        Bitmap.bit_setBit (by omega)]
      by_cases hj : j < i + 1
      · by_cases hi : j = i
        · subst hi; simp
        · have : ¬ i ≤ j := by omega
          simp [hi, this, show ¬ i + 1 ≤ j by omega]
      · obtain ⟨k, rfl⟩ : ∃ k, j = i + 1 + k := ⟨j - (i + 1), by omega⟩
        simp [show i + 1 + k - i = k + 1 by omega, show i ≤ i + 1 + k by omega,
          show i + 1 + k ≠ i by omega]

theorem bit_slotMap {sl : HdrSlots} (h : sl.length ≤ N_SECTORS) (j : Nat) :
    sl.slotMap.bit j = sl.flags.getD j false := by
  rw [slotMap, bit_marks sl (by simpa using h)]
  simp

/-- A map that is only marked keeps its count right, so it survives the disk. -/
theorem slotMap_ok {sl : HdrSlots} (h : sl.length ≤ N_SECTORS) :
    sl.slotMap.cur = 0 ∧ sl.slotMap.size = sl.slotMap.clearCount := by
  suffices hm : ∀ (i : Nat) (m : Bitmap), i + sl.length ≤ m.numBits →
      m.cur = 0 → m.size = m.clearCount →
      (sl.marks i m).cur = 0 ∧
          (sl.marks i m).size = (sl.marks i m).clearCount by
    exact hm 0 (Bitmap.new N_SECTORS) (by simpa using h) (by rw [Bitmap.new_eq])
      (by rw [Bitmap.clearCount_new]; simp)
  clear h
  induction sl with
  | nil => exact fun _ _ _ hc hs => ⟨hc, hs⟩
  | leaf s rest ih =>
      intro i m hi hc hs
      simp only [length] at hi
      exact ih (i + 1) m (by omega) hc hs
  | node s bytes sub rest _ ih =>
      intro i m hi hc hs
      simp only [length] at hi
      exact ih (i + 1) (m.setBit i) (by rw [Bitmap.setBit_numBits]; omega) hc
        (Bitmap.setBit_size (by omega) hs)

/-! ## Well-formed trees -/

/-- `bytes` bytes take `n` sectors. -/
def Fits (bytes n : Nat) : Prop := bytes ≤ SectorSize * n ∧
    SectorSize * n < bytes + SectorSize

/-- Every inner node has at most 29 slots and at least two, and its byte count
is that of its leaves. -/
def WF : HdrSlots → Prop
  | .nil => True
  | .leaf _ rest => rest.WF
  | .node _ bytes sub rest =>
      (sub.length ≤ N_SECTORS ∧ 2 ≤ sub.length ∧ Fits bytes sub.leaves.length ∧
        sub.WF) ∧ rest.WF

/-- What a search down the tree relies on: no node has more slots than its
arrays. -/
def Narrow : HdrSlots → Prop
  | .nil => True
  | .leaf _ rest => rest.Narrow
  | .node _ _ sub rest => (sub.length ≤ N_SECTORS ∧ sub.Narrow) ∧ rest.Narrow

theorem WF.narrow : ∀ {sl : HdrSlots}, sl.WF → sl.Narrow
  | .nil, _ => trivial
  | .leaf _ rest, h => @narrow rest h
  | .node _ _ _ _, h => ⟨⟨h.1.1, narrow h.1.2.2.2⟩, narrow h.2⟩

/-- A tree that branches everywhere has fewer headers than data sectors. -/
theorem headers_le {sl : HdrSlots} (h : sl.WF) :
    sl.headers.length + sl.length ≤ sl.leaves.length := by
  induction sl with
  | nil => exact Nat.le_refl _
  | leaf s rest ih => exact Nat.succ_le_succ (ih h)
  | node s bytes sub rest ihs ihr =>
      obtain ⟨⟨_, htwo, _, hsub⟩, hrest⟩ := h
      have hs := ihs hsub
      have hr := ihr hrest
      simp only [headers, length, leaves, List.length_cons, List.length_append]
      omega

/-- A node has at most 29 slots, so many data sectors take many headers. -/
theorem leaves_le {sl : HdrSlots} (h : sl.WF) :
    sl.leaves.length ≤ (N_SECTORS - 1) * sl.headers.length + sl.length := by
  induction sl with
  | nil => exact Nat.le_refl _
  | leaf s rest ih => exact Nat.succ_le_succ (ih h)
  | node s bytes sub rest ihs ihr =>
      obtain ⟨⟨hlen, _, _, hsub⟩, hrest⟩ := h
      have hs := ihs hsub
      have hr := ihr hrest
      simp only [headers, length, leaves, List.length_cons, List.length_append,
        N_SECTORS, FILEHDR_SZ,
        MEMBER_SZ] at *
      omega

/-! ## Slot `i` of the arrays -/

theorem fill_cons {α : Type} (n i : Nat) (x a : α) (l : List α) :
    fill (n - i) x (a :: l) = a :: fill (n - (i + 1)) x l := by
  rw [fill, fill, List.length_cons, List.cons_append, Nat.sub_sub, Nat.sub_sub,
    show i + (l.length + 1) = i + 1 + l.length by omega]

/-- The arrays of a node, from slot `i` on, hold the slots `sl` and then
fillers. -/
structure At (sl : HdrSlots) (i : Nat) (map : Bitmap)
    (ds : List Int) : Prop where
  room : i + sl.length ≤ N_SECTORS
  numBits : map.numBits = N_SECTORS
  bits : ∀ j, map.bit (i + j) = sl.flags.getD j false
  sectors : ds.drop i =
    fill (N_SECTORS - i) INVALID_SECTOR (sl.heads.map Int.ofNat)

theorem at_zero {sl : HdrSlots} (h : sl.length ≤ N_SECTORS) :
    At sl 0 sl.slotMap sl.dataSectors where
  room := by simpa using h
  numBits := sl.slotMap_numBits
  bits := fun j => by rw [Nat.zero_add, bit_slotMap h]
  sectors := rfl

namespace At
variable {i : Nat} {map : Bitmap} {ds : List Int} {rest sub : HdrSlots}
  {s bytes : Nat}

/-- After the last used slot there are clear bits and invalid sectors. -/
theorem nil (h : At .nil i map ds) (hi : i < N_SECTORS) :
    map.test i = .ok false ∧ ds.getD i INVALID_SECTOR = INVALID_SECTOR := by
  have hbit : map.bit i = false := by simpa [flags] using h.bits 0
  refine ⟨by rw [Bitmap.test_eq (h.numBits ▸ hi), hbit], ?_⟩
  have hs : ds[i]? = some INVALID_SECTOR := by
    have := congrArg (·[0]?) h.sectors
    simpa [fill, heads, List.getElem?_replicate, Nat.sub_pos_of_lt hi]
      using this
  rw [List.getD_eq_getElem?_getD, hs]
  rfl

theorem nil_succ (h : At .nil i map ds) (hi : i < N_SECTORS) :
    At .nil (i + 1) map ds where
  room := hi
  numBits := h.numBits
  bits := fun j => by
    have := h.bits (j + 1)
    simpa [flags, Nat.add_assoc, Nat.add_comm 1 j] using this
  sectors := by
    rw [← List.drop_drop, h.sectors]
    simp only [fill, heads, List.map_nil, List.nil_append, List.length_nil,
      Nat.sub_zero,
      List.drop_replicate]
    rw [Nat.sub_sub]

theorem head_of_drop {x : Int} {l : List Int} (h : ds.drop i = x :: l) :
    ds.getD i INVALID_SECTOR = x ∧ ds.drop (i + 1) = l := by
  have h0 : ds[i]? = some x := by
    have := congrArg (·[0]?) h
    simpa using this
  refine ⟨by rw [List.getD_eq_getElem?_getD, h0]; rfl, ?_⟩
  have := congrArg (List.drop 1) h
  simpa [List.drop_drop] using this

theorem leaf (h : At (.leaf s rest) i map ds) :
    map.test i = .ok false ∧ ds.getD i INVALID_SECTOR = s ∧
      At rest (i + 1) map ds := by
  have hroom := h.room
  simp only [length] at hroom
  have hsec := h.sectors
  rw [heads, List.map_cons, fill_cons] at hsec
  obtain ⟨hs, hdrop⟩ := head_of_drop hsec
  have hbit : map.bit i = false := by simpa [flags] using h.bits 0
  refine ⟨by rw [Bitmap.test_eq (by rw [h.numBits]; omega), hbit], hs,
    ⟨by omega, h.numBits, ?_, ?_⟩⟩
  · intro j
    have := h.bits (j + 1)
    simpa [flags, Nat.add_assoc, Nat.add_comm 1 j] using this
  · exact hdrop

theorem node (h : At (.node s bytes sub rest) i map ds) :
    map.test i = .ok true ∧ ds.getD i INVALID_SECTOR = s ∧
      At rest (i + 1) map ds := by
  have hroom := h.room
  simp only [length] at hroom
  have hsec := h.sectors
  rw [heads, List.map_cons, fill_cons] at hsec
  obtain ⟨hs, hdrop⟩ := head_of_drop hsec
  have hbit : map.bit i = true := by simpa [flags] using h.bits 0
  refine ⟨by rw [Bitmap.test_eq (by rw [h.numBits]; omega), hbit], hs,
    ⟨by omega, h.numBits, ?_, ?_⟩⟩
  · intro j
    have := h.bits (j + 1)
    simpa [flags, Nat.add_assoc, Nat.add_comm 1 j] using this
  · exact hdrop

theorem clearBit {j : Nat} (h : At rest i map ds) (hj : j < i) :
    At rest i (map.clearBit j) ds where
  room := h.room
  numBits := h.numBits
  bits := fun k => by
    rw [Bitmap.bit_clearBit, ← h.bits k]
    simp [show i + k ≠ j by omega]
  sectors := h.sectors

end At

end HdrSlots

end EroikoBlue.MP4
