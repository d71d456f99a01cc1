/-
# `MP2.Placement` — a program in any frames

`Load` of a program whose segments start at pages gives the program the same
view in any frames, and writes to no others.  So the result can be compared with
the one on a machine that has nothing else to do: there the frames are the first
ones.

    Twin F mem s₁ s₂    the views of `s₁` and `s₂` are equal, and `s₁` has changed
                        `mem` in the frames `F` only

## What it is used for

A process that shares the machine with others is compared with one that has it
alone (`MP2.Multiprogram`), and the first thing that happens to both is `Load`.
So the two loads are taken side by side, statement by statement, with the rules
of `Lib.Lockstep`.

`Aligned` is needed because of `Load` itself: a page of the file goes to
consecutive bytes from the frame of its first byte, so a segment that starts
inside a page is written over the end of a frame (`MP2.Image`).  Then what the
program sees depends on where its frames are.
-/
import Mathlib.Data.List.Perm.Subperm
import EroikoBlue.Lib.Lockstep
import EroikoBlue.MP2.View

namespace EroikoBlue.MP2

open Bytes (Byte int32)
open ExceptionType
open Lockstep (Alike)

/-- The segment starts at a page, if there is anything in it. -/
def Segment.Aligned (seg : Segment) : Prop := 0 < seg.size →
    seg.virtualAddr % PageSize = 0

instance (seg : Segment) : Decidable seg.Aligned :=
  inferInstanceAs (Decidable (0 < seg.size → _))

def Executable.Aligned (e : Executable) : Prop :=
  ∀ seg ∈ e.noffH.loaded, seg.Aligned

instance (e : Executable) : Decidable e.Aligned :=
  inferInstanceAs (Decidable (∀ seg ∈ e.noffH.loaded, seg.Aligned))

structure Twin (F : List Nat) (mem : Memory)
    (s₁ s₂ : AddrSpace × Memory) : Prop where
  placed₁ : s₁.1.Placed
  placed₂ : s₂.1.Placed
  view : s₁.1.view s₁.2 = s₂.1.view s₂.2
  frames : s₁.1.frames = F
  memory : ∀ x, x / PageSize ∉ F → s₁.2 x = mem x

namespace AddrSpace

section
variable {a : AddrSpace} {F : List Nat} {mem : Memory}
  {s₁ s₂ : AddrSpace × Memory} {e : Executable} {seg : Segment}
  {rw : Bool}

theorem translate_view (mem : Memory) (ha : a.Placed) (v : Nat) (rw : Bool) :
    a.translate v rw =
    if (a.view mem).numPages ≤ v / PageSize then
      .ok (AddressErrorException, 0, a)
    else if rw ∧ (((a.view mem).marks[v / PageSize]?.map (·.readOnly)).getD
      false) then .ok (ReadOnlyException, 0, a)
    else .ok (NoException, paddr a.frames v, a.touch (v / PageSize) rw) := by
  obtain ⟨pageTable, numPages⟩ := a
  obtain ⟨⟨⟨ptb, hptb, hlen⟩, hframes⟩, _⟩ := ha
  cases hptb
  split
  · next hout => exact if_pos hout
  next hvpn =>
  have hvpn' : v / PageSize < ptb.length :=
    (Nat.lt_of_not_le hvpn).trans_eq hlen.symm
  have hframe := hframes _ (List.mem_map.mpr ⟨_, List.getElem_mem hvpn', rfl⟩)
  have hread : ((view ⟨some ptb, numPages⟩ mem).marks[v / PageSize]?.map
      (·.readOnly)).getD false =
      ptb[v / PageSize].readOnly := by
    rw [view, Option.getD_some, List.getElem?_map,
      List.getElem?_eq_getElem hvpn']
    rfl
  have hfind : paddr (frames ⟨some ptb, numPages⟩) v =
      ptb[v / PageSize].physicalPage * PageSize + v % PageSize := by
    rw [paddr, frames_mk, List.getElem?_map, List.getElem?_eq_getElem hvpn']
    rfl
  have htouch : ptb.set (v / PageSize) { ptb[v / PageSize] with
      use := true, dirty := ptb[v / PageSize].dirty || rw } =
          ptb.modify (v / PageSize) (.touch rw) := by
    rw [List.modify_eq_set_getElem?, List.getElem?_eq_getElem hvpn']
    rfl
  rw [translate_page rw hlen hvpn' hframe, hread, hfind, htouch]
  rfl

/-- The same bytes are written at the same address, in one page. -/
theorem write_twin {a₁ a₂ : AddrSpace} {mem₁ mem₂ : Memory}
    {v : Nat} {bytes : List Byte} (h : Twin F mem (a₁, mem₁) (a₂, mem₂))
    (hv : v < a₁.numPages * PageSize)
    (hpage : v % PageSize + bytes.length ≤ PageSize) :
    Alike (fun mem₁ mem₂ => Twin F mem (a₁, mem₁) (a₂, mem₂))
      (mem₁.write (paddr a₁.frames v) bytes)
      (mem₂.write (paddr a₂.frames v) bytes) := by
  have hpages : a₁.numPages = a₂.numPages := congrArg View.numPages h.view
  obtain ⟨mem₁', hrun₁, hview₁, hkept₁⟩ :=
    @write_view a₁ mem₁ v bytes h.placed₁ hv hpage
  obtain ⟨mem₂', hrun₂, hview₂, _⟩ :=
    @write_view a₂ mem₂ v bytes h.placed₂ (hpages ▸ hv) hpage
  rw [hrun₁, hrun₂]
  refine ⟨h.placed₁, h.placed₂, ?_, h.frames,
    fun x hx => (hkept₁ x ?_).trans (h.memory x hx)⟩
  · exact hview₁.trans
      ((congrArg (View.write · v bytes) h.view).trans hview₂.symm)
  · intro heq
    have hvpn := page_lt hv h.placed₁.toMapped
    rw [paddr_page hvpn] at heq
    exact hx (heq ▸ h.frames ▸ List.getElem_mem hvpn)

theorem touch_twin {a₁ a₂ : AddrSpace} {mem₁ mem₂ : Memory}
    (h : Twin F mem (a₁, mem₁) (a₂, mem₂)) (page : Nat) (writing : Bool) :
    Twin F mem (a₁.touch page writing, mem₁) (a₂.touch page writing, mem₂) where
  placed₁ := h.placed₁.touch
  placed₂ := h.placed₂.touch
  view := by
    rw [view_touch, view_touch]
    exact congrArg (View.touch · page writing) h.view
  frames := frames_touch.trans h.frames
  memory := h.memory

theorem setReadOnly_twin {a₁ a₂ : AddrSpace} {mem₁ mem₂ : Memory}
    (h : Twin F mem (a₁, mem₁) (a₂, mem₂)) (page : Nat) :
    Twin F mem (a₁.setReadOnly page, mem₁) (a₂.setReadOnly page, mem₂) where
  placed₁ := h.placed₁.setReadOnly
  placed₂ := h.placed₂.setReadOnly
  view := by
    rw [view_setReadOnly, view_setReadOnly]
    exact congrArg (View.setReadOnly · page) h.view
  frames := (frames_setReadOnly a₁ page).trans h.frames
  memory := h.memory

theorem loadPage_twin (h : Twin F mem s₁ s₂) (hseg : 0 < seg.size)
    (hal : seg.Aligned) (i : Nat) :
    Alike (Twin F mem) (loadPage e seg rw s₁ i) (loadPage e seg rw s₂ i) := by
  obtain ⟨a₁, mem₁⟩ := s₁
  obtain ⟨a₂, mem₂⟩ := s₂
  have hview : a₁.view mem₁ = a₂.view mem₂ := h.view
  have halign : unsigned (seg.virtualAddr + (i * PageSize : Nat)) % PageSize =
      0 := by
    have hmod := hal hseg
    rw [unsigned]
    simp only [PageSize] at *
    omega
  have htoLoad : (if i * PageSize + PageSize < seg.size.toNat then PageSize
      else seg.size.toNat - i * PageSize) ≤
      PageSize := by
    split <;> omega
  rw [loadPage, loadPage]
  dsimp only
  rw [translate_view mem₁ h.placed₁, translate_view mem₂ h.placed₂, hview]
  -- the address and the bytes that are copied
  generalize unsigned (seg.virtualAddr + (i * PageSize : Nat)) = v at *
  generalize (if i * PageSize + PageSize < seg.size.toNat then PageSize
    else seg.size.toNat - i * PageSize) = toLoad at *
  generalize int32 (seg.inFileAddr + (i * PageSize : Nat)) = position
  split
  · exact .error _
  next hvpn =>
  split
  · exact .error _
  rw [Outcome.ok_bind, Outcome.ok_bind]
  dsimp only
  rw [if_neg (not_not.mpr rfl), Outcome.pure_eq_ok, Outcome.ok_bind,
    Outcome.ok_bind, Executable.readAt,
    Executable.readAt]
  by_cases hposition : 0 ≤ position
  · rw [assertMsg_pos hposition, Outcome.ok_bind, Outcome.ok_bind]
    have hpages : (a₂.view mem₂).numPages = a₁.numPages :=
      (congrArg View.numPages hview).symm
    rw [hpages] at hvpn
    have hv : v < a₁.numPages * PageSize := by
      simp only [PageSize] at *
      omega
    have hlen := List.length_take_le toLoad (e.contents.drop position.toNat)
    exact (write_twin h hv (by omega)).bind fun _ _ h => touch_twin h _ _
  · rw [assertMsg_neg hposition]
    exact .error _

theorem loadSegment_twin (h : Twin F mem s₁ s₂) (hal : seg.Aligned) :
    Alike (Twin F mem) (loadSegment e seg rw s₁) (loadSegment e seg rw s₂) := by
  rw [loadSegment, loadSegment]
  split
  · next hseg =>
      exact Alike.foldlM (fun i _ _ _ h => loadPage_twin h hseg hal i) h
  · exact h

theorem markReadOnly_twin {a₁ a₂ : AddrSpace} {mem₁ mem₂ : Memory}
    (h : Twin F mem (a₁, mem₁) (a₂, mem₂)) :
    Alike (fun a₁ a₂ => Twin F mem (a₁, mem₁) (a₂, mem₂)) (markReadOnly seg a₁)
      (markReadOnly seg a₂) := by
  rw [markReadOnly, markReadOnly]
  split
  · refine Alike.foldlM (fun i _ b₁ b₂ h => ?_) h
    have hpages : b₁.numPages = b₂.numPages := congrArg View.numPages h.view
    rw [markPage, markPage, hpages]
    split
    · exact setReadOnly_twin h _
    · exact .error _
  · exact h

end
end AddrSpace

/-! ## The whole program -/

/-- The view when the frames have just been taken. -/
def View.fresh (n : Nat) : View where
  marks := (List.range' 0 n).map fun page =>
    ⟨page, 0, true, false, false, false⟩
  numPages := n
  bytes := fun v => if v < n * PageSize then some 0 else none

section
variable {ft : FrameTable} {mem : Memory} {n : Nat}

theorem FrameTable.allocateLoop_marks :
    ∀ {n i : Nat} {l l' : List Nat} {mem mem' : Memory} {ptb : PageTable},
    allocateLoop i n l mem = .ok (ptb, l', mem') →
      ptb.map (·.mark) = (List.range' i n).map fun page =>
        ⟨page, 0, true, false, false, false⟩
  | 0, _, _, _, _, _, _, hrun => by
      cases hrun
      rfl
  | n + 1, i, l, _, mem, _, _, hrun => by
      obtain ⟨⟨f, l₁⟩, _, hrun⟩ := Outcome.bind_eq_ok.mp hrun
      obtain ⟨⟨ptb, l₂, mem₂⟩, hrest, hpure⟩ := Outcome.bind_eq_ok.mp hrun
      cases hpure
      rw [List.map_cons, allocateLoop_marks hrest, List.range'_succ,
        List.map_cons]
      rfl

theorem FrameTable.allocate_view (mem : Memory) (hnodup : ft.available.Nodup)
    (hft : ∀ f ∈ ft.available, f < NumPhysPages) (hroom : n ≤ ft.remainSize) :
    ∃ ptb mem', ft.allocate mem n = .ok (some ptb,
        ⟨ft.available.drop n⟩, mem') ∧
      AddrSpace.Placed ⟨some ptb, n⟩ ∧
      AddrSpace.frames ⟨some ptb, n⟩ = ft.available.take n ∧
      AddrSpace.view ⟨some ptb, n⟩ mem' = .fresh n ∧
      ∀ x, x / PageSize ∉ ft.available.take n → mem' x = mem x := by
  obtain ⟨ptb, mem', hrun, hmapped, hframes, _, hzero⟩ :=
    allocate_fresh mem hft hroom
  have hplaced : AddrSpace.Placed ⟨some ptb, n⟩ :=
    ⟨hmapped, hframes ▸ hnodup.sublist (List.take_sublist _ _)⟩
  refine ⟨ptb, mem', hrun, hplaced, hframes,
    View.ext ?_ rfl (funext fun v => ?_), fun x hx => ?_⟩
  · rw [allocate, if_neg (Nat.not_lt.mpr hroom)] at hrun
    obtain ⟨⟨ptb', available, mem''⟩, hloop, hpure⟩ :=
      Outcome.bind_eq_ok.mp hrun
    cases hpure
    exact allocateLoop_marks hloop
  · rw [AddrSpace.view, View.fresh]
    dsimp only
    split
    · next hv =>
        have hvpn := @AddrSpace.page_lt ⟨some ptb, n⟩ v hv hmapped
        have hmem : paddr (AddrSpace.frames ⟨some ptb, n⟩) v / PageSize ∈
            ft.available.take n := by
          rw [AddrSpace.paddr_page hvpn, ← hframes]
          exact List.getElem_mem _
        rcases hzero (paddr (AddrSpace.frames ⟨some ptb, n⟩) v) with h | h
        · exact congrArg some h.2
        · exact absurd ⟨hmem, rfl⟩ (h.1 0)
    · rfl
  · rcases hzero x with h | h
    · exact absurd h.1 hx
    · exact h.2

end

/-- The frames of a machine with nothing else to do. -/
def FrameTable.all : FrameTable := ⟨List.range NumPhysPages⟩

/-- `Load` on such a machine. -/
def Executable.loadAlone (e : Executable) :
    Except Fault (Bool × AddrSpace × FrameTable × Memory) :=
  AddrSpace.new.load (some e) .all fun _ => 0

namespace AddrSpace

section
variable {a a' : AddrSpace} {e : Executable} {ft ft' : FrameTable}
  {mem mem' : Memory} {ok : Bool}

theorem load_eq (a : AddrSpace) {e : Executable} {ptb : PageTable}
    {mem₀ : Memory} (hmagic : e.noffH.noffMagic = NOFFMAGIC)
    (halloc : ft.allocate mem e.noffH.numPages = .ok (some ptb, ft', mem₀)) :
    a.load (some e) ft mem = (do
      let loaded ←
        loadSegment e e.noffH.code true (⟨some ptb, e.noffH.numPages⟩, mem₀)
      let loaded ← loadSegment e e.noffH.initData true loaded
      let a ← markReadOnly e.noffH.readonlyData loaded.1
      let loaded ← loadSegment e e.noffH.readonlyData false (a, loaded.2)
      pure (true, loaded.1, ft', loaded.2)) := by
  rw [load]
  dsimp only
  rw [assertMsg_pos hmagic, Outcome.ok_bind, halloc, Outcome.ok_bind]
  rfl

/-- A program that is loaded could have been loaded alone, and sees the same. -/
theorem load_alone (hnodup : ft.available.Nodup)
    (hft : ∀ f ∈ ft.available, f < NumPhysPages) (hal : e.Aligned)
    (hrun : a.load (some e) ft mem = .ok (ok, a', ft', mem')) :
    ∃ a₂ ft₂ mem₂, e.loadAlone = .ok (ok, a₂, ft₂, mem₂) ∧
      Twin (ft.available.take e.noffH.numPages) mem (a', mem') (a₂, mem₂) := by
  have hmagic : e.noffH.noffMagic = NOFFMAGIC := by
    by_contra hne
    rw [load] at hrun
    dsimp only at hrun
    rw [assertMsg_neg hne] at hrun
    cases hrun
  have hroom : e.noffH.numPages ≤ ft.remainSize := by
    by_contra hno
    rw [load] at hrun
    dsimp only at hrun
    rw [assertMsg_pos hmagic, Outcome.ok_bind,
      FrameTable.allocate_null (Nat.lt_of_not_le hno)] at hrun
    cases hrun
  have hsmall : ft.remainSize ≤ FrameTable.all.remainSize := by
    have hsub : ft.available ⊆ List.range NumPhysPages :=
      fun f hf => List.mem_range.mpr (hft f hf)
    exact (List.subperm_of_subset hnodup hsub).length_le
  obtain ⟨ptb₁, mem₁, halloc₁, hplaced₁, hframes₁, hview₁, hkept₁⟩ :=
    FrameTable.allocate_view mem hnodup hft hroom
  obtain ⟨ptb₂, mem₂, halloc₂, hplaced₂, _, hview₂, _⟩ :=
    @FrameTable.allocate_view .all e.noffH.numPages (fun _ => 0)
    List.nodup_range (fun f hf => List.mem_range.mp hf) (hroom.trans hsmall)
  have hstart : Twin (ft.available.take e.noffH.numPages) mem
      (⟨some ptb₁, e.noffH.numPages⟩, mem₁)
      (⟨some ptb₂, e.noffH.numPages⟩, mem₂) :=
        ⟨hplaced₁, hplaced₂, hview₁.trans hview₂.symm, hframes₁, hkept₁⟩
  have hcode : e.noffH.code.Aligned := hal _ (by simp [NoffHeader.loaded])
  have hinit : e.noffH.initData.Aligned := hal _ (by simp [NoffHeader.loaded])
  have hread : e.noffH.readonlyData.Aligned :=
    hal _ (by simp [NoffHeader.loaded])
  have hboth : Alike (fun r₁ r₂ : Bool × AddrSpace × FrameTable × Memory =>
      r₁.1 = r₂.1 ∧
      Twin (ft.available.take e.noffH.numPages) mem (r₁.2.1, r₁.2.2.2)
        (r₂.2.1, r₂.2.2.2))
      (a.load (some e) ft mem) e.loadAlone := by
    rw [Executable.loadAlone, load_eq a hmagic halloc₁,
      load_eq .new hmagic halloc₂]
    refine (loadSegment_twin hstart hcode).bind fun s₁ s₂ h => ?_
    refine (loadSegment_twin h hinit).bind fun s₁ s₂ h => ?_
    refine (markReadOnly_twin h).bind fun a₁ a₂ h => ?_
    exact (loadSegment_twin h hread).bind fun s₁ s₂ h => ⟨rfl, h⟩
  rw [hrun] at hboth
  cases halone : e.loadAlone with
  | error f =>
      rw [halone] at hboth
      exact hboth.elim
  | ok r =>
      rw [halone] at hboth
      obtain ⟨hok, htwin⟩ := hboth
      exact ⟨r.2.1, r.2.2.1, r.2.2.2, by rw [show ok = r.1 from hok], htwin⟩

end
end AddrSpace

end EroikoBlue.MP2
