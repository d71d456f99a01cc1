/-
# `MP2.View` — what a program can see of its address space

A program names bytes by virtual addresses, and `Translate` answers with an
exception or with a byte.  What it answers depends on

    marks      the entries of the page table, without the frames
    numPages   how many there are
    bytes      the byte at each address

and not on the frames.  Each operation on an address space and on memory is an
operation on this view, so two programs with the same view in different frames
stay alike.

## What an instruction can tell

The flags `use` and `dirty` are in the marks; they record what was done to a
page and not to which frame.  `check` is `Translate` on a view, and
`machineTranslate_view` says that the answer of the source depends on nothing
else.  `write_view` needs that no two pages have one frame, which is the
invariant of `MP2.FrameTable`.
-/
import EroikoBlue.MP2.Image

namespace EroikoBlue.MP2

open Bytes (Byte)
open ExceptionType

/-- What is seen of an entry. -/
def TranslationEntry.mark (pte : TranslationEntry) : TranslationEntry :=
  { pte with physicalPage := 0 }

/-- The flags that `Translate` sets. -/
def TranslationEntry.touch (writing : Bool) (pte : TranslationEntry) :
    TranslationEntry :=
  { pte with use := true, dirty := pte.dirty || writing }

/-- The exception that an access to the page raises. -/
def TranslationEntry.check (writing : Bool) (pte : TranslationEntry) :
    ExceptionType :=
  if ¬ pte.valid then PageFaultException
  else if pte.readOnly ∧ writing then ReadOnlyException
  else NoException

@[ext] structure View where
  marks : List TranslationEntry
  numPages : Nat
  bytes : Nat → Option Byte

namespace View

/-- The exception that an access raises. -/
def check (w : View) (v size : Nat) (writing : Bool) : ExceptionType :=
  if size = 4 ∧ v % 4 ≠ 0 ∨ size = 2 ∧ v % 2 ≠ 0 then AddressErrorException
  else if w.numPages ≤ v / PageSize then AddressErrorException
  else match w.marks[v / PageSize]? with
    | none => NoException
    | some pte => pte.check writing

def touch (w : View) (page : Nat) (writing : Bool) : View :=
  { w with marks := w.marks.modify page (.touch writing) }

def setReadOnly (w : View) (page : Nat) : View :=
  { w with marks := w.marks.modify page fun pte =>
    { pte with readOnly := true } }

def write (w : View) (v : Nat) (bytes : List Byte) : View :=
  { w with bytes := fun u => if v ≤ u ∧ u < v + bytes.length then bytes[u - v]?
    else w.bytes u }

end View

namespace AddrSpace

/-- What the program of an address space sees. -/
def view (a : AddrSpace) (mem : Memory) : View where
  marks := (a.pageTable.getD []).map (·.mark)
  numPages := a.numPages
  bytes := fun v => if v < a.numPages * PageSize then
    some (mem (paddr a.frames v)) else none

/-- The flags that `Translate` sets. -/
def touch (a : AddrSpace) (page : Nat) (writing : Bool) : AddrSpace :=
  { a with pageTable := a.pageTable.map (List.modify · page (.touch writing)) }

/-- A page table that gives each page a frame of its own. -/
structure Placed (a : AddrSpace) : Prop extends Mapped a where
  nodup : a.frames.Nodup

section
variable {a : AddrSpace} {mem mem' : Memory} {page v size : Nat}
  {writing : Bool} {bytes : List Byte}

theorem modify_frames {f : TranslationEntry → TranslationEntry}
    (hf : ∀ pte, (f pte).physicalPage = pte.physicalPage) :
    frames { a with pageTable := a.pageTable.map (List.modify · page f) } =
      a.frames := by
  obtain ⟨_ | ptb, n⟩ := a
  · rfl
  · rw [Option.map_some, frames_mk, frames_mk]
    refine List.ext_getElem? fun i => ?_
    rw [List.getElem?_map, List.getElem?_map, List.getElem?_modify]
    cases ptb[i]? with
    | none => rfl
    | some pte =>
        show some (if page = i then f pte else pte).physicalPage = _
        split
        · exact congrArg some (hf pte)
        · rfl

theorem Placed.modify (ha : a.Placed) {f : TranslationEntry → TranslationEntry}
    (hf : ∀ pte, (f pte).physicalPage = pte.physicalPage) :
    Placed { a with pageTable := a.pageTable.map (List.modify · page f) } := by
  have hframes := @modify_frames a page f hf
  obtain ⟨ptb, hptb, hlen⟩ := ha.table
  refine ⟨⟨⟨_, congrArg (Option.map _) hptb,
    (List.length_modify ..).trans hlen⟩, ?_⟩, ?_⟩
  · rw [hframes]
    exact ha.frames
  · rw [hframes]
    exact ha.nodup

theorem frames_touch : (a.touch page writing).frames = a.frames :=
  modify_frames fun _ => rfl

theorem Placed.touch (ha : a.Placed) : (a.touch page writing).Placed :=
  ha.modify fun _ => rfl

theorem Placed.setReadOnly (ha : a.Placed) : (a.setReadOnly page).Placed :=
  ha.modify fun _ => rfl

/-! ## Flags -/

theorem view_modify {f : TranslationEntry → TranslationEntry}
    (hf : ∀ pte, (f pte).physicalPage = pte.physicalPage)
    (hmark : ∀ pte, (f pte).mark = f pte.mark) :
    view { a with pageTable := a.pageTable.map (List.modify · page f) } mem =
      { a.view mem with marks := (a.view mem).marks.modify page f } := by
  refine View.ext ?_ rfl ?_
  · obtain ⟨_ | ptb, n⟩ := a
    · exact (List.modify_nil ..).symm
    · refine List.ext_getElem? fun i => ?_
      rw [view, view, Option.map_some, Option.getD_some, Option.getD_some,
        List.getElem?_map, List.getElem?_modify,
        List.getElem?_modify, List.getElem?_map]
      cases ptb[i]? with
      | none => rfl
      | some pte =>
          show some (if page = i then f pte else pte).mark =
            some (if page = i then f pte.mark else pte.mark)
          split
          · exact congrArg some (hmark pte)
          · rfl
  · rw [view, modify_frames hf]
    rfl

theorem view_touch :
    (a.touch page writing).view mem = (a.view mem).touch page writing :=
  view_modify (fun _ => rfl) fun _ => rfl

theorem view_setReadOnly :
    (a.setReadOnly page).view mem = (a.view mem).setReadOnly page :=
  view_modify (fun _ => rfl) fun _ => rfl

/-! ## Bytes -/

theorem length_frames (ha : a.Mapped) : a.frames.length = a.numPages := by
  obtain ⟨ptb, hptb, hlen⟩ := ha.table
  rw [frames, hptb, List.length_map]
  exact hlen

theorem page_lt (h : v < a.numPages * PageSize) (ha : a.Mapped) :
    v / PageSize < a.frames.length :=
  (Nat.div_lt_of_lt_mul (Nat.mul_comm .. ▸ h)).trans_eq (length_frames ha).symm

theorem paddr_eq {F : List Nat} (h : v / PageSize < F.length) :
    paddr F v = F[v / PageSize] * PageSize + v % PageSize := by
  rw [paddr, List.getElem?_eq_getElem h]
  rfl

/-- Different bytes of an address space are different bytes of memory. -/
theorem paddr_inj {F : List Nat} {u : Nat}
    (hF : F.Nodup) (hu : u / PageSize < F.length) (hv : v / PageSize < F.length)
    (h : paddr F u = paddr F v) : u = v := by
  have hframe : F[u / PageSize] = F[v / PageSize] := by
    rw [← @Pool.paddr_div F[u / PageSize] u, ← paddr_eq hu, h, paddr_eq hv,
      Pool.paddr_div]
  have hpage := (hF.getElem_inj_iff).mp hframe
  rw [paddr_eq hu, paddr_eq hv, hframe] at h
  have hoffset := Nat.add_left_cancel h
  rw [← Nat.div_add_mod u PageSize, hpage, hoffset, Nat.div_add_mod]

theorem paddr_add {F : List Nat} {k : Nat} (h : v % PageSize + k < PageSize) :
    paddr F (v + k) = paddr F v + k := by
  have hdiv : (v + k) / PageSize = v / PageSize := by
    simp only [PageSize] at h ⊢
    omega
  have hmod : (v + k) % PageSize = v % PageSize + k := by
    simp only [PageSize] at h ⊢
    omega
  rw [paddr, paddr, hdiv, hmod, Nat.add_assoc]

theorem paddr_page {F : List Nat} (h : v / PageSize < F.length) :
    paddr F v / PageSize = F[v / PageSize] := by
  rw [paddr_eq h, Pool.paddr_div]

theorem write_view (ha : a.Placed) (hv : v < a.numPages * PageSize)
    (hpage : v % PageSize + bytes.length ≤ PageSize) :
    ∃ mem', mem.write (paddr a.frames v) bytes = .ok mem' ∧
      a.view mem' = (a.view mem).write v bytes ∧
      ∀ x, x / PageSize ≠ paddr a.frames v / PageSize → mem' x = mem x := by
  have hvpn := page_lt hv ha.toMapped
  have hframe := ha.toMapped.frames _ (List.getElem_mem hvpn)
  have hbound : paddr a.frames v + bytes.length ≤ MemorySize := by
    rw [paddr_eq hvpn]
    simp only [PageSize, MemorySize, NumPhysPages] at *
    omega
  obtain ⟨mem', hrun, hput, hkept⟩ :=
    @Memory.write_ok mem (paddr a.frames v) bytes hbound
  refine ⟨mem', hrun, View.ext rfl rfl (funext fun u => ?_),
    fun x hx => hkept x fun k hk => ?_⟩
  · rw [View.write]
    dsimp only [view]
    by_cases hu : v ≤ u ∧ u < v + bytes.length
    · obtain ⟨k, rfl⟩ := Nat.exists_eq_add_of_le hu.1
      have hk : k < bytes.length := by omega
      have hin : v + k < a.numPages * PageSize := by
        simp only [PageSize] at *
        omega
      rw [if_pos hu, if_pos hin, Nat.add_sub_cancel_left, paddr_add (by omega),
        List.getElem?_eq_getElem hk,
        hput k _ (List.getElem?_eq_getElem hk)]
    · rw [if_neg hu]
      split
      · next hin =>
          refine congrArg some (hkept _ fun k hk heq => hu ?_)
          have hin' : v + k < a.numPages * PageSize := by
            simp only [PageSize] at *
            omega
          rw [← paddr_add (by omega)] at heq
          have hinj := paddr_inj ha.nodup (page_lt hin ha.toMapped)
            (page_lt hin' ha.toMapped) heq
          omega
      · rfl
  · rintro rfl
    refine hx ?_
    rw [paddr_eq hvpn]
    simp only [PageSize] at *
    omega

/-- Memory outside of the frames is not seen. -/
theorem view_congr (ha : a.Mapped)
    (h : ∀ x, x / PageSize ∈ a.frames → mem' x = mem x) :
    a.view mem' = a.view mem := by
  refine View.ext rfl rfl (funext fun v => ?_)
  dsimp only [view]
  split
  · next hv =>
      refine congrArg some (h _ ?_)
      rw [paddr_page (page_lt hv ha)]
      exact List.getElem_mem _
  · rfl

/-! ## `Translate` -/

theorem check_misaligned {w : View}
    (h : size = 4 ∧ v % 4 ≠ 0 ∨ size = 2 ∧ v % 2 ≠ 0) :
    w.check v size writing = AddressErrorException := if_pos h

theorem check_out {w : View} (h : w.numPages ≤ v / PageSize) :
    w.check v size writing = AddressErrorException := by
  rw [View.check, if_pos h, ite_self]

theorem check_in {w : View} {pte : TranslationEntry}
    (halign : ¬ (size = 4 ∧ v % 4 ≠ 0 ∨ size = 2 ∧ v % 2 ≠ 0))
    (hvpn : v / PageSize < w.numPages)
    (hpte : w.marks[v / PageSize]? = some pte) : w.check v size writing =
      pte.check writing := by
  rw [View.check, if_neg halign, if_neg (Nat.not_le.mpr hvpn), hpte]

theorem machineTranslate_view (mem : Memory) (ha : a.Placed)
    (hsize : size = 1 ∨ size = 2 ∨ size = 4) :
    machineTranslate a.pageTable a.numPages v size writing =
      if (a.view mem).check v size writing = NoException then
        .ok (NoException, paddr a.frames v,
          (a.touch (v / PageSize) writing).pageTable)
      else .ok ((a.view mem).check v size writing, 0, a.pageTable) := by
  obtain ⟨pageTable, numPages⟩ := a
  obtain ⟨⟨⟨ptb, hptb, hlen⟩, hframes⟩, _⟩ := ha
  cases hptb
  rw [machineTranslate]
  by_cases halign : size = 4 ∧ v % 4 ≠ 0 ∨ size = 2 ∧ v % 2 ≠ 0
  · rw [check_misaligned halign, if_pos halign]
    rfl
  rw [if_neg halign]
  dsimp only
  by_cases hvpn : numPages ≤ v / PageSize
  · rw [check_out hvpn, if_pos hvpn]
    rfl
  rw [if_neg hvpn]
  have hvpn' : v / PageSize < ptb.length :=
    (Nat.lt_of_not_le hvpn).trans_eq hlen.symm
  have hframe := hframes _ (List.mem_map.mpr ⟨_, List.getElem_mem hvpn', rfl⟩)
  have hentry : ptb.entry (v / PageSize) = .ok ptb[v / PageSize] := by
    rw [PageTable.entry, List.getElem?_eq_getElem hvpn']
    rfl
  have hmark : (view ⟨some ptb, numPages⟩ mem).marks[v / PageSize]? =
      some ptb[v / PageSize].mark := by
    rw [view, Option.getD_some, List.getElem?_map,
      List.getElem?_eq_getElem hvpn']
    rfl
  have hcheck : (view ⟨some ptb, numPages⟩ mem).check v size writing =
      if ¬ ptb[v / PageSize].valid then PageFaultException
      else if ptb[v / PageSize].readOnly ∧ writing then ReadOnlyException
      else NoException := by
    rw [check_in halign (Nat.lt_of_not_le hvpn) hmark]
    rfl
  rw [hcheck, hentry, Outcome.ok_bind]
  by_cases hvalid : ptb[v / PageSize].valid = true
  · rw [if_neg (not_not.mpr hvalid), if_neg (not_not.mpr hvalid)]
    by_cases hread : ptb[v / PageSize].readOnly = true ∧ writing = true
    · rw [if_pos hread, if_pos hread]
      rfl
    · have hpaddr : ptb[v / PageSize].physicalPage * PageSize + v % PageSize +
          size ≤ MemorySize := by
        simp only [PageSize, MemorySize, NumPhysPages] at *
        omega
      have hfind : paddr (frames ⟨some ptb, numPages⟩) v =
          ptb[v / PageSize].physicalPage * PageSize + v % PageSize := by
        rw [paddr, frames_mk, List.getElem?_map, List.getElem?_eq_getElem hvpn']
        rfl
      have htouch : ptb.set (v / PageSize) { ptb[v / PageSize] with
          use := true, dirty := ptb[v / PageSize].dirty || writing } =
              ptb.modify (v / PageSize) (.touch writing) := by
        rw [List.modify_eq_set_getElem?, List.getElem?_eq_getElem hvpn']
        rfl
      rw [if_neg hread, if_neg hread, if_neg (Nat.not_le.mpr hframe),
        assertMsg_pos hpaddr, Outcome.ok_bind, hfind,
        if_pos rfl, htouch]
      rfl
  · rw [if_pos hvalid, if_pos hvalid]
    rfl

/-- An access that raises nothing is in the address space, and in one page. -/
theorem check_ok {w : View} (hsize : size = 1 ∨ size = 2 ∨ size = 4)
    (h : w.check v size writing = NoException) : v < w.numPages * PageSize ∧
    v % PageSize + size ≤ PageSize := by
  rw [View.check] at h
  split at h
  · cases h
  next halign =>
  split at h
  · cases h
  next hvpn =>
  simp only [PageSize] at *
  omega

end
end AddrSpace

end EroikoBlue.MP2
