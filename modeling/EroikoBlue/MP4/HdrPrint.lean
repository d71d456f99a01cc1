/-
# `MP4.HdrPrint` — `FileHeader::Print`

`PrintStructure` shows a file with the tree of its header: a line for each slot,
and behind a data sector the bytes of the file in it.  The end of the file lies
inside the last sector, and to stop there each node counts the bytes it has
printed and compares the count `k` with its `numBytes`.  But `numBytes` counts
the bytes below all slots of the node, and `k` only those its own data sectors
held: what its children printed is not added.

    node with data sectors only        k and numBytes agree
    node whose last slot is a child    the child cuts, the sectors before are full
    child first, data sector last      k is behind by at least a sector: no cut

So the last sector is printed whole when its node also has a child (`mixedEnd`),
and it is right otherwise, or when the file ends with a sector
(`print_exact_iff`).  The header of an empty file has no slot, and `Print` reads
slot 0 all the same.
-/
import Mathlib.Algebra.Group.Int.Defs
import EroikoBlue.Lib.Output
import EroikoBlue.MP4.HdrShape

namespace EroikoBlue.MP4

open Bytes FileHeader Outcome

/-! ## The operation -/

/-- What `Print` writes: text through `cout`, bytes of the file through
`printf`. -/
inductive Printed where
  | cout (s : String)
  | printf (b : Byte)

/-- The characters written; a `char` is signed, and `%x` prints it unsigned. -/
def Printed.toString : Printed → String
  | .cout s => s
  | .printf b =>
    if 0o40 ≤ b.toInt ∧ b.toInt ≤ 0o176 then
      String.singleton (Char.ofNat b.toNat)
    else "\\" ++ String.ofList (Nat.toDigits 16 b.toNat)

abbrev PrintM := EStateM Fault (List Printed)

def cout (s : String) : PrintM Unit := Outcome.put (.cout s)

namespace FileHeader

abbrev LEAF : Bool := false
abbrev NON_LEAF : Bool := true

/-- `last_one`: slot `i` is the last one in use. -/
def lastOne (dataSectors : List Int) (i : Nat) : Bool :=
  i = N_SECTORS - 1 || dataSectors.getD (i + 1) INVALID_SECTOR = -1

/-- `front_proto`. -/
def frontProto (indentList : List Bool) : String :=
  indentList.foldl (fun s last => s ++ if last then "      " else "│     ") ""

/-- `front`. -/
def front (indentList : List Bool) (lastOne : Bool) : String :=
  frontProto indentList ++ (if lastOne then "└" else "├") ++ "───"

/-- A slot, as both kinds of line show it. -/
def slotText (dataSectors startSector : List Int) (i : Nat) : String :=
  " start: " ++ toString (startSector.getD i INVALID_SECTOR) ++
    ", sector: " ++ toString (dataSectors.getD i INVALID_SECTOR) ++ ", ind: " ++ toString i

/-- The loop over the bytes of a sector; the count after it. -/
def printBytes (numBytes : Int) : List Byte → Nat → PrintM Nat
  | [], k => pure k
  | b :: bs, k =>
    if (k : Int) < numBytes then do
      Outcome.put (.printf b)
      printBytes numBytes bs (k + 1)
    else pure k

/-- The content part of the line of a data sector. -/
def printContent (d : Disk) (withContent : Bool) (numBytes sector : Int)
    (k : Nat) : PrintM Nat :=
  if withContent then do
    cout ", content: \x7b "
    let buf ← Outcome.lift (readSector d sector)
    let k ← printBytes numBytes buf.bytes k
    cout " \x7d"
    pure k
  else pure k

mutual

/-- `FileHeader::Print(with_content, indent_list)`. -/
def printNode (d : Disk) (withContent : Bool) : FileHeader →
    List Bool → PrintM Unit
  | ⟨numBytes, _, map, dataSectors, startSector, children, _⟩, indentList =>
    match map with
    | none => throw (.undefined "map->Test")
    | some map =>
      printFrom d withContent numBytes map dataSectors startSector indentList
        children 0 0 NON_LEAF
termination_by structural hdr => hdr

/-- The loop of `Print` from slot `i` on, with `k` bytes of the node's own data
sectors printed and the kind of the slot before in `last`. -/
def printFrom (d : Disk) (withContent : Bool) (numBytes : Int) (map : Bitmap)
    (dataSectors startSector : List Int) (indentList : List Bool) :
    List (Option FileHeader) → Nat → Nat → Bool → PrintM Unit
  | [], _, _, _ => throw (.undefined "children[i]")
  | child :: children, i, k, last => do
    let lastOne := lastOne dataSectors i
    let front := front indentList lastOne
    let nonLeaf ← Outcome.lift (map.test i)
    if nonLeaf then
      printChild d withContent i
        (do
          if last = LEAF then cout (frontProto indentList ++ "│\n") else pure ()
          cout (front ++ " [T]" ++ slotText dataSectors startSector i ++ "\n"))
        (indentList ++ [lastOne]) child
      if lastOne then pure ()
      else do
        cout (frontProto indentList ++ "│\n")
        printFrom d withContent numBytes map dataSectors startSector indentList
          children (i + 1) k NON_LEAF
    else do
      Outcome.lift (assertMsg child.isNone
        ("Attempt to print a node sector at index: " ++ toString i))
      cout (front ++ " [E]" ++ slotText dataSectors startSector i)
      let k ← printContent d withContent numBytes
        (dataSectors.getD i INVALID_SECTOR) k
      cout "\n"
      if lastOne then pure ()
      else printFrom d withContent numBytes map dataSectors startSector indentList children (i + 1) k LEAF
termination_by structural children => children

/-- The assertion that `children[i]` is set, the line of the slot, and
`children[i]->Print(with_content, indent_list)`. -/
def printChild (d : Disk) (withContent : Bool) (i : Nat) (line : PrintM Unit)
    (indentList : List Bool) :
    Option FileHeader → PrintM Unit
  | none => throw (.assertFailed ("The children [" ++ toString i ++
      "] is invalid now but attempt to read and print..."))
  | some child => do
    line
    printNode d withContent child indentList
termination_by structural child => child

end

/-- `sizeof(FileHeader)`, all of its members being words of a 32-bit machine. -/
def sizeofFileHeader : Nat :=
  4 * (3 + N_SECTORS + (N_SECTORS + 1) + N_SECTORS + 1)

/-- `FileHeader::Print(with_content)`. -/
def print (hdr : FileHeader) (d : Disk) (withContent : Bool) : PrintM Unit := do
  cout ("FileHeader contents:\n1. File size: " ++ toString hdr.numBytes ++
    " bytes (" ++
    toString hdr.numSectors ++ " sectors)\n2. FileHeader Size in disk: " ++
    toString (hdr.additionalSector * SectorSize) ++ " bytes (" ++ toString
      hdr.additionalSector ++
    " sectors)\n3. Memory Usage: " ++ toString (sizeofFileHeader * hdr.additionalSector % 2 ^ 32) ++
    " bytes\n")
  cout "4. File header structure:\n"
  printNode d withContent hdr []

/-! ## What it should print, and when it does -/

/-- The bytes of the file. -/
def content (hdr : FileHeader) (d : Disk) : List Byte :=
  (hdr.leaves.flatMap fun s => (d s.toNat).bytes).take hdr.numBytes.toNat

/-- The bytes of the file in an output. -/
def fileByte : Printed → Option Byte
  | .cout _ => none
  | .printf b => some b

/-- The bytes `Print` has written when it returns or stops. -/
def printed (hdr : FileHeader) (d : Disk) : List Byte :=
  (final (hdr.print d true [])).filterMap fileByte

mutual

/-- The node that holds the last data sector also has a child. -/
def mixedEnd : FileHeader → Bool
  | ⟨_, _, _, dataSectors, _, children, _⟩ =>
      mixedEndFrom dataSectors children 0 false
termination_by structural hdr => hdr

/-- From slot `i` of a node on; `seen` is set when a slot before held a
child. -/
def mixedEndFrom (dataSectors : List Int) : List (Option FileHeader) →
    Nat → Bool → Bool
  | [], _, seen => seen
  | child :: children, i, seen =>
    if lastOne dataSectors i then mixedEndAt child seen
    else mixedEndFrom dataSectors children (i + 1) (seen || child.isSome)
termination_by structural children => children

def mixedEndAt : Option FileHeader → Bool → Bool
  | none, seen => seen
  | some child, _ => mixedEnd child
termination_by structural child => child

end

end FileHeader

namespace HdrSlots

/-! ## The same on the slots -/

/-- `mixedEnd`. -/
def mixedEnd : HdrSlots → Bool → Bool
  | .nil, seen => seen
  | .leaf _ .nil, seen => seen
  | .leaf _ rest, seen => rest.mixedEnd seen
  | .node _ _ sub .nil, _ => sub.mixedEnd false
  | .node _ _ _ rest, _ => rest.mixedEnd true

/-- The bytes of the data sectors. -/
def data (d : Disk) (sl : HdrSlots) : List Byte :=
  sl.leaves.flatMap fun s => (d s).bytes

/-- The bytes `Print` shows below slots of a node of `numBytes` bytes, `k` of
them already counted. -/
def printed (d : Disk) : HdrSlots → Nat → Nat → List Byte
  | .nil, _, _ => []
  | .leaf s rest, numBytes, k =>
      (d s).bytes.take (numBytes - k) ++ rest.printed d numBytes
        (k + min SectorSize (numBytes - k))
  | .node _ bytes sub rest, numBytes, k =>
      sub.printed d bytes 0 ++ rest.printed d numBytes k

/-- Each slot has the bytes of its sectors, and the last one what is left of
`b`. -/
def Shares : HdrSlots → Nat → Prop
  | .nil, _ => True
  | .leaf _ rest, b => rest.Shares (b - SectorSize)
  | .node _ bytes sub rest, b =>
      bytes = min (sub.leaves.length * SectorSize) b ∧ sub.Shares bytes ∧
        rest.Shares (b - bytes)

section Shape
variable {sl : HdrSlots}

theorem shares_blank : ∀ {sl : HdrSlots} {b : Nat}, sl.blank.Shares b ↔
    sl.Shares b
  | .nil, _ => Iff.rfl
  | .leaf _ rest, b => @shares_blank rest (b - SectorSize)
  | .node _ bytes sub rest, b => by
      rw [blank, Shares, Shares, length_leaves_blank, @shares_blank sub bytes,
        @shares_blank rest (b - bytes)]

theorem planFrom_shares {plan : Nat → Nat → HdrSlots} {n : Nat} (hplan : ∀ c b,
      c < n → Fits b c → (plan c b).leaves.length = c ∧ (plan c b).Shares b) :
    ∀ {k i r b : Nat}, Left n k i r b → (planFrom plan n k i r b).Shares b
  | 0, _, _, _, _ => trivial
  | k + 1, i, r, b, h => by
      rw [planFrom]
      by_cases hr : r = 0
      · rw [if_pos hr]
        trivial
      · obtain ⟨-, h2, h3⟩ := h.bounds hr
        have ih := planFrom_shares hplan (h.next hr)
        have hfit := (fits_slot h.fits h2).1
        rw [if_neg hr]
        by_cases hc : slotSize i r n = 1
        · have hone : b - min SectorSize b = b - SectorSize := by omega
          simp only [hc, Nat.one_mul, hone] at ih
          simp only [hc, if_true, Shares, Nat.one_mul, hone]
          exact ih
        · obtain ⟨hlen, hsub⟩ := hplan _ _ (h3.resolve_left hc) hfit
          rw [if_neg hc]
          exact ⟨by rw [hlen], hsub, ih⟩

theorem planNode_shares : ∀ {fuel n b : Nat}, n < fuel → Fits b n →
    (planNode fuel n b).Shares b
  | fuel + 1, n, b, hn, hb => by
      have hplan : ∀ c b', c < n → Fits b' c →
          (planNode fuel c b').leaves.length = c ∧
              (planNode fuel c b').Shares b' :=
        fun c b' hc hf =>
          ⟨(planNode_planned (by omega) hf).leaves,
            planNode_shares (by omega) hf⟩
      exact planFrom_shares hplan (Left.start hb)

theorem Allocated.shares {size : Nat} {fm fm' : Bitmap}
    (h : Allocated size fm sl fm') :
    sl.Shares size := by
  have hplan : (plan size).Shares size :=
    planNode_shares (Nat.lt_succ_self _) (fits_sectorCount size)
  rwa [← shares_blank, h.shape, shares_blank]

theorem length_data (sl : HdrSlots) (d : Disk) :
    (sl.data d).length = sl.leaves.length * SectorSize :=
  length_blocks (fun s => (d s).length_bytes) sl.leaves

theorem ne_nil_of_two_le (h : 2 ≤ sl.length) : sl ≠ .nil := by
  rintro rfl
  exact absurd h (by decide)

theorem leaves_pos (hne : sl ≠ .nil) (hwf : sl.WF) : 1 ≤ sl.leaves.length := by
  have h := headers_le hwf
  cases sl with
  | nil => exact absurd rfl hne
  | leaf s rest => simp [leaves]
  | node s bytes sub rest =>
      rw [headers, List.length_cons] at h
      omega

end Shape

/-! ## Which bytes are printed -/

theorem mixedEnd_leaf {s : Nat} {rest : HdrSlots} (h : rest ≠ .nil)
    (seen : Bool) :
    (leaf s rest).mixedEnd seen = rest.mixedEnd seen := by
  cases rest with
  | nil => exact absurd rfl h
  | leaf s' rest => rfl
  | node s' bytes sub rest => rfl

theorem mixedEnd_node {s bytes : Nat} {sub rest : HdrSlots} (h : rest ≠ .nil)
    (seen : Bool) :
    (node s bytes sub rest).mixedEnd seen = rest.mixedEnd true := by
  cases rest with
  | nil => exact absurd rfl h
  | leaf s' rest => rfl
  | node s' bytes sub rest => rfl

theorem mixedEnd_blank :
    ∀ {sl : HdrSlots} {seen : Bool}, sl.blank.mixedEnd seen = sl.mixedEnd seen
  | .nil, _ => rfl
  | .leaf _ .nil, _ => rfl
  | .leaf _ (.leaf s rest), seen => @mixedEnd_blank (.leaf s rest) seen
  | .leaf _ (.node s bytes sub rest), seen =>
      @mixedEnd_blank (.node s bytes sub rest) seen
  | .node _ _ sub .nil, _ => @mixedEnd_blank sub false
  | .node _ _ _ (.leaf s rest), _ => @mixedEnd_blank (.leaf s rest) true
  | .node _ _ _ (.node s bytes sub rest), _ =>
      @mixedEnd_blank (.node s bytes sub rest) true

theorem data_leaf (d : Disk) (s : Nat) (rest : HdrSlots) :
    (leaf s rest).data d = (d s).bytes ++ rest.data d := List.flatMap_cons

theorem data_node (d : Disk) (s bytes : Nat) (sub rest : HdrSlots) :
    (node s bytes sub rest).data d = sub.data d ++ rest.data d :=
  List.flatMap_append

/-- The number of bytes that slots with `b` bytes show. -/
def shown (sl : HdrSlots) (seen : Bool) (b : Nat) : Nat :=
  bif sl.mixedEnd seen then sl.leaves.length * SectorSize else b

theorem shown_leaf {s : Nat} {rest : HdrSlots} (h : rest ≠ .nil)
    (seen : Bool) (b : Nat) :
    (leaf s rest).shown seen (SectorSize + b) =
      SectorSize + rest.shown seen b := by
  rw [shown, shown, mixedEnd_leaf h, leaves, List.length_cons, Nat.succ_mul,
    Nat.add_comm _ SectorSize]
  cases rest.mixedEnd seen <;> rfl

theorem shown_node {s bytes : Nat} {sub rest : HdrSlots} (h : rest ≠ .nil)
    (seen : Bool) (b : Nat) :
    (node s bytes sub rest).shown seen (sub.leaves.length * SectorSize + b) =
      sub.leaves.length * SectorSize + rest.shown true b := by
  rw [shown, shown, mixedEnd_node h, leaves, List.length_append, Nat.add_mul]
  cases rest.mixedEnd true <;> rfl

/-- When the bytes fill the sectors, the two numbers are one. -/
theorem shown_full (sl : HdrSlots) (seen : Bool) :
    sl.shown seen (sl.leaves.length * SectorSize) =
      sl.leaves.length * SectorSize := by
  rw [shown]
  cases sl.mixedEnd seen <;> rfl

/-- Slots with `b` bytes, in a node that has counted `k` bytes and printed the
bytes of `m` sectors more below its children: the bytes are printed, or all of
the sectors. -/
theorem printed_eq (d : Disk) :
    ∀ {sl : HdrSlots} {b : Nat} (k m : Nat) (seen : Bool), sl ≠ .nil → sl.WF →
    sl.Shares b → Fits b sl.leaves.length → (seen = true ↔ 0 < m) →
    sl.printed d (k + (m * SectorSize + b)) k =
      (sl.data d).take (sl.shown seen b)
  | .nil, _, _, _, _, hne, _, _, _, _ => absurd rfl hne
  | .leaf s rest, b, k, m, seen, _, hwf, hshare, hfit, hseen => by
      have hwhole : ∀ {n : Nat}, SectorSize ≤ n →
          (d s).bytes.take n = (d s).bytes :=
        fun hn => List.take_of_length_le ((d s).length_bytes ▸ hn)
      rw [printed, data_leaf, Nat.add_sub_cancel_left]
      by_cases hrest : rest = .nil
      · -- the last slot: behind a child, `k` lags by a sector or more
        subst hrest
        have hb : b ≤ SectorSize := hfit.1
        rw [printed, List.append_nil, data, leaves, List.flatMap_nil,
          List.append_nil]
        cases seen with
        | false =>
            obtain rfl : m = 0 := by
              have := mt hseen.mpr Bool.false_ne_true
              omega
            rw [Nat.zero_mul, Nat.zero_add]
            rfl
        | true =>
            have hm : SectorSize ≤ m * SectorSize :=
              Nat.le_mul_of_pos_left _ (hseen.mp rfl)
            show _ = (d s).bytes.take (1 * SectorSize)
            rw [hwhole (by omega), hwhole (by omega)]
      · -- every sector before the last is full
        have hpos := leaves_pos hrest hwf
        simp only [Fits, leaves, List.length_cons] at hfit
        have hfull : SectorSize ≤ b := by simp only [SectorSize] at *; omega
        obtain ⟨b, rfl⟩ := Nat.exists_eq_add_of_le hfull
        have hshare' : rest.Shares b := by
          simpa only [Shares, Nat.add_sub_cancel_left] using hshare
        have hfit' : Fits b
          rest.leaves.length := by simp only [Fits, SectorSize] at *; omega
        have ih :=
          printed_eq d (k + SectorSize) m seen hrest hwf hshare' hfit' hseen
        have hcount : min SectorSize (m * SectorSize + (SectorSize + b)) =
          SectorSize := by omega
        have htotal : k + (m * SectorSize + (SectorSize + b)) =
            k + SectorSize + (m * SectorSize + b) := by
          omega
        rw [hcount, htotal, ih, shown_leaf hrest, List.take_append,
          (d s).length_bytes,
          Nat.add_sub_cancel_left, hwhole (by omega), hwhole (by omega)]
  | .node s bytes sub rest, b, k, m, seen, _, ⟨⟨_, htwo, hsubfit, hsubwf⟩, hwf⟩,
      ⟨hbytes, hsubshare, hshare⟩, hfit,
      hseen => by
      have hsub := ne_nil_of_two_le htwo
      have ihs := printed_eq d 0 0 false hsub hsubwf hsubshare hsubfit (by simp)
      rw [Nat.zero_mul, Nat.zero_add, Nat.zero_add] at ihs
      rw [printed, data_node, ihs]
      by_cases hrest : rest = .nil
      · -- the last slot: the child has what is left
        subst hrest
        simp only [Fits, leaves, List.append_nil] at hfit
        obtain rfl : bytes =
          b := by rw [hbytes, Nat.mul_comm]; exact Nat.min_eq_right hfit.1
        have hshown : (node s bytes sub .nil).shown seen bytes =
            sub.shown false bytes := by
          simp only [shown, mixedEnd, leaves, List.append_nil]
        rw [hshown, printed, List.append_nil]
        show _ = (sub.data d ++ []).take _
        rw [List.append_nil]
      · -- a child before the last slot is full
        have hpos := leaves_pos hrest hwf
        have hsubpos := leaves_pos hsub hsubwf
        simp only [Fits, leaves, List.length_append] at hfit
        have hfull : sub.leaves.length * SectorSize ≤
          b := by simp only [SectorSize] at *; omega
        obtain ⟨b, rfl⟩ := Nat.exists_eq_add_of_le hfull
        obtain rfl : bytes = sub.leaves.length * SectorSize := by
          rw [hbytes]
          exact Nat.min_eq_left hfull
        rw [Nat.add_sub_cancel_left] at hshare
        have hfit' : Fits b
          rest.leaves.length := by simp only [Fits, SectorSize] at *; omega
        have ih := printed_eq d k (m + sub.leaves.length) true hrest hwf
          hshare hfit'
          (by simp; omega)
        have htotal :
            k + (m * SectorSize + (sub.leaves.length * SectorSize + b)) =
            k + ((m + sub.leaves.length) * SectorSize + b) := by
          rw [Nat.add_mul]
          omega
        have hwhole : ∀ {n : Nat}, sub.leaves.length * SectorSize ≤ n →
            (sub.data d).take n = sub.data d :=
          fun hn => List.take_of_length_le (length_data sub d ▸ hn)
        rw [htotal, ih, shown_full, shown_node hrest, List.take_append,
          length_data,
          Nat.add_sub_cancel_left, hwhole (by omega), hwhole (by omega)]

/-! ## `Print` on the header of a tree -/

namespace At
variable {i : Nat} {map : Bitmap} {ds : List Int} {rest : HdrSlots}

theorem lastOne_nil (h : At .nil (i + 1) map ds) : lastOne ds i = true := by
  have hroom : i + 1 ≤ N_SECTORS := h.room
  by_cases hi : i = N_SECTORS - 1
  · simp [lastOne, hi]
  · have hinv := (h.nil (by omega)).2
    simp only [lastOne, hinv, decide_true, Bool.or_true]

theorem lastOne_of_ne (h : At rest (i + 1) map ds) (hne : rest ≠ .nil) :
    lastOne ds i = false := by
  have hroom := h.room
  obtain ⟨s, hs, hpos⟩ : ∃ s : Nat, ds.getD (i + 1) INVALID_SECTOR = s ∧
      0 < rest.length := by
    cases rest with
    | nil => exact absurd rfl hne
    | leaf s rest => exact ⟨s, h.leaf.2.1, Nat.succ_pos _⟩
    | node s bytes sub rest => exact ⟨s, h.node.2.1, Nat.succ_pos _⟩
  have hi : ¬ i = N_SECTORS - 1 := by omega
  have hvalid : ¬ (s : Int) = -1 := by omega
  simp only [lastOne, hs, hi, hvalid, decide_false, Bool.or_false]

end At

theorem mixedEndFrom_eq : ∀ {sl : HdrSlots} {i : Nat} (cur : Nat) {map : Bitmap}
    {ds : List Int}
    (seen : Bool), sl ≠ .nil → At sl i map ds → sl.WF →
    mixedEndFrom ds (fill (N_SECTORS - i) none (sl.children cur)) i seen =
      sl.mixedEnd seen
  | .nil, _, _, _, _, _, hne, _, _ => absurd rfl hne
  | .leaf s rest, i, cur, map, ds, seen, _, h, hwf => by
      obtain ⟨-, -, hat⟩ := h.leaf
      rw [children, fill_cons, mixedEndFrom]
      by_cases hrest : rest = .nil
      · subst hrest
        rw [hat.lastOne_nil]
        rfl
      · rw [hat.lastOne_of_ne hrest, if_neg Bool.false_ne_true,
          mixedEndFrom_eq (cur + 1) _ hrest hat hwf,
          mixedEnd_leaf hrest]
        simp
  | .node s bytes sub rest, i, cur, map, ds, seen, _, h,
      ⟨⟨hlen, htwo, _, hsubwf⟩, hwf⟩ => by
      obtain ⟨-, -, hat⟩ := h.node
      have hsub := ne_nil_of_two_le htwo
      rw [children, fill_cons, mixedEndFrom]
      by_cases hrest : rest = .nil
      · subst hrest
        rw [hat.lastOne_nil]
        exact mixedEndFrom_eq cur false hsub (at_zero hlen) hsubwf
      · rw [hat.lastOne_of_ne hrest, if_neg Bool.false_ne_true,
          mixedEndFrom_eq (cur + sub.leaves.length) _ hrest hat hwf,
            mixedEnd_node hrest]
        simp

theorem printBytes_shows (numBytes : Nat) : ∀ (bs : List Byte) (k : Nat),
    Shows fileByte (printBytes numBytes bs k) (bs.take (numBytes - k))
      (k + min bs.length (numBytes - k))
  | [], k => by
      have hnone : Shows fileByte (pure k : PrintM Nat) [] k := Shows.pure k
      simpa [printBytes] using hnone
  | b :: bs, k => by
      rw [printBytes]
      by_cases hk : k < numBytes
      · obtain ⟨n, rfl⟩ := Nat.exists_eq_add_of_lt hk
        have ih := printBytes_shows (k + n + 1) bs (k + 1)
        rw [if_pos (by omega)]
        rw [show k + n + 1 - (k + 1) = n by omega,
          show k + 1 + min bs.length n =
          k + min (bs.length + 1) (n + 1) by omega] at ih
        rw [show k + n + 1 - k = n + 1 by omega]
        exact Shows.put.bind ih
      · rw [if_neg (by omega), Nat.sub_eq_zero_of_le (Nat.le_of_not_lt hk),
          Nat.min_zero]
        exact Shows.pure k

theorem cout_shows (text : String) : Shows fileByte (cout text) [] () :=
  Shows.put

theorem printContent_shows (d : Disk) {s : Nat} (hs : s < NumSectors)
    (numBytes k : Nat) :
    Shows fileByte (printContent d true numBytes s k)
      ((d s).bytes.take (numBytes - k))
      (k + min SectorSize (numBytes - k)) := by
  have hbytes := printBytes_shows numBytes (d s).bytes k
  rw [(d s).length_bytes] at hbytes
  rw [← List.append_nil ((d s).bytes.take (numBytes - k))]
  refine (cout_shows _).silent
    ((Shows.lift (readSector_eq hs)).silent (hbytes.bind ?_))
  exact (cout_shows _).silent (Shows.pure _)

theorem printFrom_shows (d : Disk) (numBytes : Nat) :
    ∀ {sl : HdrSlots} {i : Nat} (cur : Nat) {map : Bitmap}
    {ds : List Int} (ss : List Int) (indentList : List Bool) (k : Nat)
      (last : Bool), sl ≠ .nil →
    At sl i map ds → sl.WF → (∀ s ∈ sl.leaves, s < NumSectors) →
    Shows fileByte (printFrom d true numBytes map ds ss indentList
      (fill (N_SECTORS - i) none (sl.children cur)) i k last)
        (sl.printed d numBytes k) ()
  | .nil, _, _, _, _, _, _, _, _, hne, _, _, _ => absurd rfl hne
  | .leaf s rest, i, cur, map, ds, ss, indentList, k, last, _, h, hwf, hlt => by
      obtain ⟨htest, hs, hat⟩ := h.leaf
      have hcontent := printContent_shows d (hlt s (.head _)) numBytes k
      rw [children, fill_cons, printFrom, hs]
      refine (Shows.lift htest).silent ?_
      refine (Shows.lift (assertMsg_pos rfl)).silent ((cout_shows _).silent ?_)
      refine hcontent.bind ((cout_shows _).silent ?_)
      by_cases hrest : rest = .nil
      · subst hrest
        rw [hat.lastOne_nil]
        exact Shows.pure ()
      · rw [hat.lastOne_of_ne hrest]
        exact printFrom_shows d numBytes (cur + 1) ss indentList
          _ _ hrest hat hwf
          fun s' hs' => hlt s' (.tail _ hs')
  | .node s bytes sub rest, i, cur, map, ds, ss, indentList, k, last, _, h,
      ⟨⟨hlen, htwo, _, hsubwf⟩, hwf⟩,
      hlt => by
      obtain ⟨htest, hs, hat⟩ := h.node
      have hsub := ne_nil_of_two_le htwo
      have ihs := printFrom_shows d bytes cur (sub.startSector cur)
        (indentList ++ [lastOne ds i]) 0 NON_LEAF
        hsub (at_zero hlen) hsubwf fun s' hs' =>
          hlt s' (List.mem_append_left _ hs')
      rw [children, fill_cons, printFrom]
      refine (Shows.lift htest).silent ?_
      rw [if_pos rfl, printChild]
      refine Shows.bind (a := ()) ?_ ?_
      · refine Shows.silent (a := ()) ?_ ihs
        cases last with
        | false => exact (cout_shows _).silent (cout_shows _)
        | true => exact cout_shows _
      · by_cases hrest : rest = .nil
        · subst hrest
          rw [hat.lastOne_nil]
          exact Shows.pure ()
        · rw [hat.lastOne_of_ne hrest]
          exact (cout_shows _).silent (printFrom_shows d numBytes
            (cur + sub.leaves.length) ss indentList _ _
            hrest hat hwf fun s' hs' => hlt s' (List.mem_append_right _ hs'))

theorem printFrom_empty (d : Disk) {numBytes : Int}
    {map : Bitmap} {ds : List Int} (ss : List Int) (indentList : List Bool)
    (h : At .nil 0 map ds) :
    Stops fileByte (printFrom d true numBytes map ds ss indentList
        (List.replicate N_SECTORS none) 0 0 NON_LEAF)
      [] := by
  obtain ⟨htest, hinv⟩ := h.nil (Nat.zero_lt_succ _)
  have hread : readSector d INVALID_SECTOR = .error (.assertFailed "") := by
    have hout : ¬ ((0 : Int) ≤ INVALID_SECTOR ∧ INVALID_SECTOR < NumSectors) :=
      fun hin => absurd hin.1 (by decide)
    rw [readSector, assertMsg_neg hout]
    rfl
  rw [show List.replicate N_SECTORS (none : Option FileHeader) =
    none :: List.replicate (N_SECTORS - 1) none from rfl, printFrom, hinv]
  refine .after (.lift htest) ?_
  refine .after (.lift (assertMsg_pos rfl)) (.after (cout_shows _) ?_)
  exact .bind (.after (cout_shows _) (.bind (.lift hread)))

namespace Allocated
variable {size : Nat} {fm fm' : Bitmap} {sl : HdrSlots}

theorem content_header (h : Allocated size fm sl fm') (d : Disk) :
    (sl.header 0 size).content d = (sl.data d).take size := by
  show List.take size _ = _
  rw [h.leaves_header, List.flatMap_map]
  rfl

theorem mixedEnd_header (h : Allocated size fm sl fm') :
    (sl.header 0 size).mixedEnd = sl.mixedEnd false := by
  have hat := at_zero h.length
  by_cases hne : sl = .nil
  · subst hne
    have hlast : lastOne HdrSlots.nil.dataSectors 0 = true :=
      (hat.nil_succ (Nat.zero_lt_succ _)).lastOne_nil
    show mixedEndFrom HdrSlots.nil.dataSectors (none :: List.replicate
      (N_SECTORS - 1) none) 0 false = false
    rw [mixedEndFrom, hlast]
    rfl
  · exact mixedEndFrom_eq 0 false hne hat h.wf

theorem print_header (h : Allocated size fm sl fm')
    (hbits : fm.numBits = NumSectors) (hne : sl ≠ .nil) (d : Disk) :
    (∃ out, (sl.header 0 size).print d true [] = .ok () out) ∧
      (sl.header 0 size).printed d =
        (sl.data d).take (sl.shown false size) := by
  have hlt : ∀ s ∈ sl.leaves, s < NumSectors := fun s hs =>
    hbits ▸ (h.takes.mem_clear (mem_sectors.mpr (.inr hs))).1
  have hloop := printFrom_shows d size 0 (sl.startSector 0) [] 0 NON_LEAF hne
    (at_zero h.length) h.wf hlt
  have hprinted := printed_eq d 0 0 false hne h.wf h.shares h.fits (by simp)
  rw [Nat.zero_mul, Nat.zero_add, Nat.zero_add] at hprinted
  rw [hprinted] at hloop
  have hrun : Shows fileByte ((sl.header 0 size).print d true)
      ((sl.data d).take (sl.shown false size)) () :=
    (cout_shows _).silent ((cout_shows _).silent hloop)
  exact hrun.run

theorem print_empty (h : Allocated size fm .nil fm') (d : Disk) :
    (¬ ∃ out, (HdrSlots.nil.header 0 size).print d true [] = .ok () out) ∧
      (HdrSlots.nil.header 0 size).printed d = [] := by
  have hrun : Stops fileByte ((HdrSlots.nil.header 0 size).print d true) [] :=
    .after (cout_shows _)
      (.after (cout_shows _) (printFrom_empty d _ [] (at_zero h.length)))
  exact hrun.run ()

theorem shown_iff (h : Allocated size fm sl fm') (d : Disk) :
    (sl.data d).take (sl.shown false size) = (sl.data d).take size ↔
      size % SectorSize = 0 ∨ sl.mixedEnd false = false := by
  have hfit := h.fits
  have hlen := length_data sl d
  rw [shown]
  cases hmixed : sl.mixedEnd false with
  | false => simp
  | true =>
      rw [cond_true, ← hlen, List.take_length]
      constructor
      · intro heq
        have hsize := congrArg List.length heq
        rw [List.length_take, hlen] at hsize
        simp only [Fits, SectorSize] at *
        omega
      · rintro (hmod | hmod)
        · rw [List.take_of_length_le]
          simp only [Fits, SectorSize] at *
          omega
        · cases hmod

theorem printed_iff (h : Allocated size fm sl fm')
    (hbits : fm.numBits = NumSectors) (d : Disk) :
    (sl.header 0 size).printed d = (sl.header 0 size).content d ↔
      size % SectorSize = 0 ∨ sl.mixedEnd false = false := by
  rw [h.content_header, ← h.shown_iff d]
  by_cases hne : sl = .nil
  · subst hne
    have hdata : HdrSlots.nil.data d = [] := rfl
    rw [(h.print_empty d).2, hdata, List.take_nil, List.take_nil]
  · rw [(h.print_header hbits hne d).2]

theorem print_returns_iff (h : Allocated size fm sl fm')
    (hbits : fm.numBits = NumSectors) (d : Disk) :
    (∃ out, (sl.header 0 size).print d true [] = .ok () out) ↔ 0 < size := by
  have hfit := h.fits
  by_cases hne : sl = .nil
  · subst hne
    have hzero : ¬ 0 < size := Nat.not_lt.mpr hfit.1
    exact iff_of_false (h.print_empty d).1 hzero
  · have hpos := leaves_pos hne h.wf
    refine iff_of_true (h.print_header hbits hne d).1 ?_
    simp only [Fits, SectorSize] at hfit
    omega

end Allocated

end HdrSlots

/-- On the header `Allocate` builds for a file of `size` bytes, `Print` shows
exactly the bytes of the file, in order, if and only if the file ends with a
sector or the node of its last data sector has no child; and it returns unless
the file is empty. -/
theorem print_exact_iff {fm fm' : Bitmap}
    {size : Int} {hdr : FileHeader} (hbits : fm.numBits = NumSectors)
    (halloc : fresh.allocate fm size = .ok (hdr, fm')) (d : Disk) :
    (hdr.printed d = hdr.content d ↔ size % SectorSize = 0 ∨
        hdr.mixedEnd = false) ∧
      ((∃ out, hdr.print d true [] = .ok () out) ↔ 0 < size) := by
  obtain ⟨size, rfl⟩ :=
    Int.eq_ofNat_of_zero_le (HdrSlots.allocate_nonneg halloc)
  obtain ⟨sl, rfl, hal⟩ := HdrSlots.allocated halloc
  have hmod : (size : Int) % SectorSize = 0 ↔ size % SectorSize = 0 := by omega
  rw [hal.mixedEnd_header, hmod, Int.natCast_pos]
  exact ⟨hal.printed_iff hbits d, hal.print_returns_iff hbits d⟩

/-- A file that ends with a sector. -/
theorem print_exact_iff_640 : ∃ hdr fm',
    fresh.allocate ((Bitmap.new NumSectors).setBit 0) (640 : Nat) =
      .ok (hdr, fm') ∧
      hdr.printed (fun _ => Sector.ofBytes [65]) = hdr.content fun _ =>
        Sector.ofBytes [65] := by
  obtain ⟨hdr, fm', halloc⟩ := allocate_first (show 0 < 640 by omega) (by omega)
  exact ⟨hdr, fm', halloc,
    (print_exact_iff (numBits_setBit_new 0) halloc _).1.mpr (.inl rfl)⟩

/-- A file of 30 sectors, 29 of them below a child: all 128 bytes of the last
sector are printed, of which one is in the file. -/
theorem print_overruns_3713 : ∃ hdr fm',
    fresh.allocate ((Bitmap.new NumSectors).setBit 0) (3713 : Nat) =
      .ok (hdr, fm') ∧
      hdr.printed (fun _ => Sector.ofBytes [65]) ≠ hdr.content fun _ =>
        Sector.ofBytes [65] := by
  have hplan : (HdrSlots.plan 3713).mixedEnd false = true := by decide +kernel
  obtain ⟨hdr, fm', halloc⟩ :=
    allocate_first (show 0 < 3713 by omega) (by omega)
  obtain ⟨sl, rfl, hal⟩ := HdrSlots.allocated halloc
  refine ⟨_, fm', halloc, fun h => ?_⟩
  rw [← HdrSlots.mixedEnd_blank, ← hal.shape, HdrSlots.mixedEnd_blank] at hplan
  rcases (hal.printed_iff (numBits_setBit_new 0) _).mp h with hmod | hmixed
  · exact absurd hmod (by decide)
  · rw [hplan] at hmixed
    cases hmixed

end EroikoBlue.MP4
