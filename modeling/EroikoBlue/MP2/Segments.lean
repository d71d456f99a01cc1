/-
# `MP2.Segments` — how `Load` puts the segments of a program into memory

A segment is copied in pieces of a page, counted from its first byte, and each
piece goes to where the first byte of the piece is.  If the segment starts
inside a page, the pieces reach over the end of the page, and what is over goes
to the next frame instead of the next page.

    paddr F v        where address `v` is, if the page table has the frames `F`
    target F v k     where byte `k` of a segment at `v` is put
    Segment.Puts     the bytes of a segment, each with its place
    Segment.Marks    the pages that `readOnly` is set for

The loops are said with `Stores`: memory after the loop is memory before it, but
where something is put.  Nothing is said here about whether that is the right
place; the sum of it is `AddrSpace.load_yields`, for a program that has room in
the frames that are free and whose segments lie inside the address space and the
file (`Executable.Fits`).
-/
import EroikoBlue.Lib.Stores
import EroikoBlue.MP2.Process
import EroikoBlue.MP2.Syscall

namespace EroikoBlue.MP2

open Bytes (Byte int32)
open Stores (Stored)

/-! ## Addresses and flags -/

/-- The physical address of `v`, in a page table with the frames `F`. -/
def paddr (F : List Nat) (v : Nat) : Nat :=
  F[v / PageSize]?.getD 0 * PageSize + v % PageSize

/-- `pageTable[page].readOnly`. -/
def AddrSpace.readOnlyAt (a : AddrSpace) (page : Nat) : Bool :=
  ((a.pageTable.getD [])[page]?.map (·.readOnly)).getD false

namespace AddrSpace

/-- The same page table, but for flags. -/
structure Flagged (a a' : AddrSpace) : Prop where
  mapped : a'.Mapped
  frames : a'.frames = a.frames
  numPages : a'.numPages = a.numPages

/-- The same page table, but for flags other than `readOnly`. -/
structure Same (a a' : AddrSpace) : Prop extends Flagged a a' where
  readOnly : a'.readOnlyAt = a.readOnlyAt

section
variable {a a' a'' : AddrSpace} {v : Nat}

theorem Same.refl (ha : a.Mapped) : Same a a := ⟨⟨ha, rfl, rfl⟩, rfl⟩

theorem Same.trans (h : Same a a') (h' : Same a' a'') : Same a a'' :=
  ⟨⟨h'.mapped, h'.frames.trans h.frames, h'.numPages.trans h.numPages⟩,
    h'.readOnly.trans h.readOnly⟩

theorem translate_eq (rw : Bool) (ha : a.Mapped)
    (h : v < a.numPages * PageSize) :
    ∃ a', Same a a' ∧ a.translate v rw =
      if rw = true ∧ a.readOnlyAt (v / PageSize) = true then .ok (.ReadOnlyException, 0, a)
      else .ok (.NoException, paddr a.frames v, a') := by
  obtain ⟨pageTable, numPages⟩ := a
  obtain ⟨⟨ptb, hptb, hlen⟩, hframes⟩ := ha
  cases hptb
  have hvpn : v / PageSize < ptb.length :=
    (Nat.div_lt_of_lt_mul (Nat.mul_comm .. ▸ h)).trans_eq hlen.symm
  have hframe := hframes _ (List.mem_map.mpr ⟨_, List.getElem_mem hvpn, rfl⟩)
  have hread : readOnlyAt ⟨some ptb, numPages⟩ (v / PageSize) =
      ptb[v / PageSize].readOnly := by
    rw [readOnlyAt, Option.getD_some, List.getElem?_eq_getElem hvpn]
    rfl
  have hpaddr : paddr (frames ⟨some ptb, numPages⟩) v =
      ptb[v / PageSize].physicalPage * PageSize + v % PageSize := by
    rw [paddr, frames_mk, List.getElem?_map, List.getElem?_eq_getElem hvpn]
    rfl
  let pte : TranslationEntry := { ptb[v / PageSize] with use := true, dirty := ptb[v / PageSize].dirty || rw }
  have hsame : frames ⟨some (ptb.set (v / PageSize) pte), numPages⟩ =
      frames ⟨some ptb, numPages⟩ := by
    rw [frames_mk, frames_mk, List.map_set]
    refine List.ext_getElem? fun i => ?_
    grind
  refine ⟨⟨some (ptb.set (v / PageSize) pte), numPages⟩,
    ⟨⟨⟨⟨_, rfl, ?_⟩, ?_⟩, hsame, rfl⟩, ?_⟩, ?_⟩
  · exact (List.length_set ..).trans hlen
  · rw [hsame]
    exact hframes
  · refine funext fun page => ?_
    rw [readOnlyAt, readOnlyAt, Option.getD_some, Option.getD_some]
    grind
  · rw [translate_page rw hlen hvpn hframe, hread, hpaddr]

theorem physical_in (ha : a.Mapped) (h : v < a.numPages * PageSize) :
    a.physical v = some (paddr a.frames v) := by
  obtain ⟨_, _, hrun⟩ := translate_eq false ha h
  rw [physical, hrun, if_neg (by rintro ⟨⟨⟩, -⟩)]

theorem setReadOnly_stored {page : Nat} (ha : a.Mapped)
    (hpage : page < a.numPages) :
    Stored (fun p b => p = page ∧ b = true) a.readOnlyAt
      (a.setReadOnly page).readOnlyAt := by
  obtain ⟨pageTable, numPages⟩ := a
  obtain ⟨⟨ptb, hptb, hlen⟩, _⟩ := ha
  cases hptb
  intro p
  rw [setReadOnly, readOnlyAt, readOnlyAt, Option.map_some, Option.getD_some,
    Option.getD_some, List.getElem?_modify]
  by_cases hp : page = p
  · subst hp
    refine .inl ⟨rfl, ?_⟩
    rw [List.getElem?_eq_getElem (hpage.trans_eq hlen.symm)]
    simp
  · refine .inr ⟨fun b hb => hp hb.1.symm, ?_⟩
    simp [hp]

end
end AddrSpace

/-! ## The pieces of a segment -/

/-- Where `loadPage` puts byte `k` of a segment at `v`. -/
def target (F : List Nat) (v k : Nat) : Nat :=
  paddr F (v + k / PageSize * PageSize) + k % PageSize

/-- The stores of a segment: byte `k` of it, from its place in the file. -/
def Segment.Puts (F : List Nat) (contents : List Byte) (seg : Segment) (x : Nat)
    (b : Byte) : Prop :=
  ∃ k, k < seg.size.toNat ∧ x = target F seg.virtualAddr.toNat k ∧
    contents[seg.inFileAddr.toNat + k]? = some b

/-- The segment is empty, or lies in an address space of so many pages. -/
def Segment.Inside (seg : Segment) (numPages : Nat) : Prop :=
  0 < seg.size → 0 ≤ seg.virtualAddr ∧
    seg.virtualAddr + seg.size ≤ (numPages * PageSize : Nat)

/-- The bytes of the segment are in the file; a position in a file is an
`int`. -/
def Segment.InFile (seg : Segment) (contents : List Byte) : Prop :=
  0 < seg.size → 0 ≤ seg.inFileAddr ∧
    seg.inFileAddr + seg.size ≤ contents.length ∧
    seg.inFileAddr + seg.size < 2147483648

theorem Memory.write_stored {mem mem' : Memory} {p : Nat} {bytes : List Byte}
    (hrun : mem.write p bytes = .ok mem') :
    Stored (fun x b => ∃ j, x = p + j ∧ bytes[j]? = some b) mem mem' := by
  rcases Nat.lt_or_ge MemorySize (p + bytes.length) with hout | hin
  · cases (if_pos hout).symm.trans hrun
  obtain ⟨_, hrun', hput, hkept⟩ := @Memory.write_ok mem p bytes hin
  cases hrun'.symm.trans hrun
  intro x
  by_cases hx : ∃ j < bytes.length, x = p + j
  · obtain ⟨j, hj, rfl⟩ := hx
    refine .inl ⟨j, rfl, ?_⟩
    rw [hput j _ (List.getElem?_eq_getElem hj)]
    exact List.getElem?_eq_getElem hj
  · refine .inr ⟨?_, hkept x fun j hj heq => hx ⟨j, hj, heq⟩⟩
    rintro b ⟨j, hj, hb⟩
    exact hx ⟨j, (List.getElem?_eq_some_iff.mp hb).1, hj⟩

namespace AddrSpace

section
variable {a a' : AddrSpace} {mem mem' : Memory} {e : Executable} {seg : Segment}
  {rw : Bool} {i : Nat}

theorem loadPage_eq (ha : a.Mapped) (hsize : a.numPages * PageSize ≤ 4294967296)
    (hin : seg.Inside a.numPages) (hfile : seg.InFile e.contents)
    (hi : i * PageSize < seg.size.toNat) (hwrite : rw = true → a.readOnlyAt
      ((seg.virtualAddr.toNat + i * PageSize) / PageSize) = false) :
    ∃ a', Same a a' ∧ loadPage e seg rw (a, mem) i = (do
      let mem ←
        mem.write (paddr a.frames (seg.virtualAddr.toNat + i * PageSize))
        ((e.contents.drop (seg.inFileAddr.toNat + i * PageSize)).take
          (min PageSize (seg.size.toNat - i * PageSize)))
      pure (a', mem)) := by
  have hpos : 0 < seg.size := by omega
  obtain ⟨hva, hend⟩ := hin hpos
  obtain ⟨hpos₀, _, hpos₁⟩ := hfile hpos
  have hvaddr : unsigned (seg.virtualAddr + (i * PageSize : Nat)) =
      seg.virtualAddr.toNat + i * PageSize := by
    rw [unsigned, Int.emod_eq_of_lt (by omega) (by omega)]
    omega
  have hposition : int32 (seg.inFileAddr + (i * PageSize : Nat)) =
      (seg.inFileAddr.toNat + i * PageSize : Nat) := by
    have hsum : seg.inFileAddr + (i * PageSize : Nat) =
      (seg.inFileAddr.toNat + i * PageSize : Nat) := by omega
    rw [hsum, Bytes.int32_of_nat (by omega)]
  have hrange : seg.virtualAddr.toNat + i * PageSize <
    a.numPages * PageSize := by omega
  obtain ⟨a', hsame, htranslate⟩ := translate_eq rw ha hrange
  have hno : ¬ (rw = true ∧ a.readOnlyAt
      ((seg.virtualAddr.toNat + i * PageSize) / PageSize) = true) := by
    rintro ⟨hrw, hread⟩
    rw [hwrite hrw] at hread
    cases hread
  have hload : (if i * PageSize + PageSize < seg.size.toNat then PageSize
      else seg.size.toNat - i * PageSize) =
      min PageSize (seg.size.toNat - i * PageSize) := by
    split <;> omega
  refine ⟨a', hsame, ?_⟩
  rw [loadPage]
  dsimp only
  rw [hvaddr, htranslate, if_neg hno, Outcome.ok_bind]
  dsimp only
  rw [if_neg (fun h => h rfl), Outcome.pure_eq_ok, Outcome.ok_bind,
    Executable.readAt, hposition,
    assertMsg_pos (Int.natCast_nonneg _), Outcome.ok_bind, hload]
  rfl

theorem lt_divRoundUp {n : Nat} : i < divRoundUp n PageSize ↔
    i * PageSize < n := by
  simp only [PageSize, divRoundUp]
  split <;> omega

/-- The stores of one piece. -/
def PutsPage (F : List Nat) (contents : List Byte) (seg : Segment) (i x : Nat)
    (b : Byte) : Prop :=
  ∃ j, x = paddr F (seg.virtualAddr.toNat + i * PageSize) + j ∧
    ((contents.drop (seg.inFileAddr.toNat + i * PageSize)).take
      (min PageSize (seg.size.toNat - i * PageSize)))[j]? =
      some b

theorem exists_putsPage {F : List Nat} {contents : List Byte} {x : Nat}
    {b : Byte} :
    (∃ i ∈ List.range (divRoundUp seg.size.toNat PageSize),
        PutsPage F contents seg i x b) ↔
      seg.Puts F contents x b := by
  constructor
  · rintro ⟨i, _, j, rfl, hb⟩
    rw [List.getElem?_take] at hb
    split at hb
    · next hj =>
        simp only [PageSize] at hj
        have hdiv : (i * PageSize + j) / PageSize =
          i := by simp only [PageSize]; omega
        have hmod : (i * PageSize + j) % PageSize =
          j := by simp only [PageSize]; omega
        refine ⟨i * PageSize + j, by simp only [PageSize]; omega, ?_, ?_⟩
        · rw [target, hdiv, hmod]
        · rw [List.getElem?_drop] at hb
          rw [← Nat.add_assoc]
          exact hb
    · cases hb
  · rintro ⟨k, hk, rfl, hb⟩
    have hsum : k / PageSize * PageSize + k % PageSize = k :=
      Nat.div_add_mod' k PageSize
    have hj : k % PageSize <
        min PageSize (seg.size.toNat - k / PageSize * PageSize) := by
      simp only [PageSize] at hsum ⊢
      omega
    refine ⟨k / PageSize, List.mem_range.mpr (lt_divRoundUp.mpr (by omega)),
      k % PageSize, rfl, ?_⟩
    rw [List.getElem?_take, if_pos hj, List.getElem?_drop, Nat.add_assoc, hsum]
    exact hb

/-- What a segment needs to be copied. -/
structure Loadable (a : AddrSpace) (e : Executable) (seg : Segment)
    (rw : Bool) : Prop where
  mapped : a.Mapped
  range : a.numPages * PageSize ≤ 4294967296
  inside : seg.Inside a.numPages
  inFile : seg.InFile e.contents
  writable : rw = true → ∀ page, a.readOnlyAt page = false

theorem Loadable.loadPage_eq {b : AddrSpace} (h : Loadable a e seg rw)
    (hb : Same a b) (hi : i ∈ List.range (divRoundUp seg.size.toNat PageSize)) :
    ∃ b', Same a b' ∧
      loadPage e seg rw (b, mem) i = (do
        let mem ←
          mem.write (paddr a.frames (seg.virtualAddr.toNat + i * PageSize))
          ((e.contents.drop (seg.inFileAddr.toNat + i * PageSize)).take
            (min PageSize (seg.size.toNat - i * PageSize)))
        pure (b', mem)) := by
  obtain ⟨b', hsame, hrun⟩ := AddrSpace.loadPage_eq hb.mapped
    (hb.numPages ▸ h.range)
    (hb.numPages ▸ h.inside) h.inFile (lt_divRoundUp.mp (List.mem_range.mp hi))
    (fun hrw => (congrFun hb.readOnly _).trans (h.writable hrw _))
  rw [hb.frames] at hrun
  exact ⟨b', hb.trans hsame, hrun⟩

theorem Loadable.stored (h : Loadable a e seg rw)
    (hrun : loadSegment e seg rw (a, mem) = .ok (a', mem')) :
    Same a a' ∧ Stored (seg.Puts a.frames e.contents) mem mem' := by
  rw [loadSegment] at hrun
  split at hrun
  · have hround : ∀ i ∈ List.range (divRoundUp seg.size.toNat PageSize),
        ∀ s s' : AddrSpace × Memory, Same a s.1 →
        loadPage e seg rw s i = .ok s' → Same a s'.1 ∧
            Stored (PutsPage a.frames e.contents seg i) s.2 s'.2 := by
      rintro i hi ⟨b, m⟩ s' hb hpage
      obtain ⟨b', hsame, heq⟩ := h.loadPage_eq hb hi
      obtain ⟨m', hwrite, hpure⟩ := Outcome.bind_eq_ok.mp (heq.symm.trans hpage)
      cases hpure
      exact ⟨hsame, Memory.write_stored hwrite⟩
    obtain ⟨hsame, hstored⟩ :=
      Stored.foldlM (m := Prod.snd) hround (.refl h.mapped) hrun
    exact ⟨hsame, hstored.congr fun x b => exists_putsPage⟩
  · next hsize =>
      cases hrun
      refine ⟨.refl h.mapped, .refl ?_⟩
      rintro x b ⟨k, hk, _⟩
      omega

theorem Loadable.loadSegment_ok (h : Loadable a e seg rw)
    (hmem : ∀ k < seg.size.toNat, target a.frames seg.virtualAddr.toNat k <
      MemorySize) :
    ∃ s', loadSegment e seg rw (a, mem) = .ok s' := by
  rw [loadSegment]
  split
  · refine Stores.foldlM_ok (I := fun s => Same a s.1) ?_ (.refl h.mapped)
    rintro i hi ⟨b, m⟩ hb
    obtain ⟨b', hsame, heq⟩ := h.loadPage_eq hb hi
    have hlt := lt_divRoundUp.mp (List.mem_range.mp hi)
    -- the last byte of the piece
    obtain ⟨n, hn⟩ : ∃ n, n = min PageSize (seg.size.toNat - i * PageSize) :=
      ⟨_, rfl⟩
    simp only [PageSize] at hlt hn
    have hlast := hmem (i * PageSize + (n - 1)) (by simp only [PageSize]; omega)
    have hdiv : (i * PageSize + (n - 1)) / PageSize =
      i := by simp only [PageSize]; omega
    have hmod : (i * PageSize + (n - 1)) % PageSize =
      n - 1 := by simp only [PageSize]; omega
    rw [target, hdiv, hmod] at hlast
    have hlen := List.length_take_le n
      (e.contents.drop (seg.inFileAddr.toNat + i * PageSize))
    obtain ⟨m', hwrite, _⟩ := @Memory.write_ok m
      (paddr a.frames (seg.virtualAddr.toNat + i * PageSize))
      ((e.contents.drop (seg.inFileAddr.toNat + i * PageSize)).take n)
        (by omega)
    refine ⟨(b', m'), ?_, hsame⟩
    rw [heq, show min PageSize (seg.size.toNat - i * PageSize) = n
      from hn.symm, hwrite]
    rfl
  · exact ⟨_, rfl⟩

theorem Loadable.yields (h : Loadable a e seg rw) (mem : Memory) {enough : Prop}
    (hmem : enough → ∀ k < seg.size.toNat,
      target a.frames seg.virtualAddr.toNat k < MemorySize) :
    Outcome.Yields (loadSegment e seg rw (a, mem))
      (fun s => Same a s.1 ∧ Stored (seg.Puts a.frames e.contents) mem s.2)
        enough where
  sound := h.stored
  total := fun henough => h.loadSegment_ok (hmem henough)

end
end AddrSpace

/-! ## The frames that are allocated -/

theorem bzero_stored (mem : Memory) (f : Nat) :
    Stored (fun x b => x / PageSize = f ∧ b = 0) mem
      (bzero mem (f * PageSize) PageSize) := by
  intro x
  have hpage : f * PageSize ≤ x ∧ x < f * PageSize + PageSize ↔
      x / PageSize = f := by
    simp only [PageSize]
    omega
  rw [bzero]
  by_cases hx : x / PageSize = f
  · exact .inl ⟨hx, if_pos (hpage.mpr hx)⟩
  · exact .inr ⟨fun b hb => hx hb.1, if_neg fun h => hx (hpage.mp h)⟩

namespace FrameTable

theorem allocateLoop_fresh : ∀ {n i : Nat} {l l' : List Nat} {mem mem' : Memory}
    {ptb : PageTable},
    allocateLoop i n l mem = .ok (ptb, l', mem') →
      (∀ pte ∈ ptb, pte.readOnly = false) ∧
      Stored (fun x b => x / PageSize ∈ ptb.map (·.physicalPage) ∧
        b = 0) mem mem'
  | 0, _, _, _, _, _, _, hrun => by
      cases hrun
      exact ⟨nofun, .refl fun x b h => nomatch h.1⟩
  | n + 1, i, l, _, mem, _, _, hrun => by
      obtain ⟨⟨f, l₁⟩, _, hrun⟩ := Outcome.bind_eq_ok.mp hrun
      obtain ⟨⟨ptb, l₂, mem₂⟩, hrest, hpure⟩ := Outcome.bind_eq_ok.mp hrun
      cases hpure
      obtain ⟨hread, hmem⟩ := allocateLoop_fresh hrest
      refine ⟨List.forall_mem_cons.mpr ⟨rfl, hread⟩,
        ((bzero_stored mem f).trans hmem).congr ?_⟩
      intro x b
      rw [List.map_cons, List.mem_cons, or_and_right]

theorem allocate_fresh {ft : FrameTable}
    {n : Nat} (mem : Memory) (hft : ∀ f ∈ ft.available, f < NumPhysPages)
    (hfit : n ≤ ft.remainSize) : ∃ ptb mem', ft.allocate mem n = .ok (some ptb,
      ⟨ft.available.drop n⟩, mem') ∧
      AddrSpace.Mapped ⟨some ptb, n⟩ ∧
      AddrSpace.frames ⟨some ptb, n⟩ = ft.available.take n ∧
      (∀ page, AddrSpace.readOnlyAt ⟨some ptb, n⟩ page = false) ∧
      Stored (fun x b => x / PageSize ∈ ft.available.take n ∧
        b = 0) mem mem' := by
  obtain ⟨ptb, mem', hrun, hlen, hframes⟩ := @allocate_ok ft mem n hfit
  have hrun' := hrun
  rw [allocate, if_neg (Nat.not_lt.mpr hfit)] at hrun'
  obtain ⟨⟨ptb', available, mem''⟩, hloop, hpure⟩ := Outcome.bind_eq_ok.mp hrun'
  cases hpure
  obtain ⟨hread, hmem⟩ := allocateLoop_fresh hloop
  rw [hframes] at hmem
  refine ⟨ptb, mem', hrun, ⟨⟨ptb, rfl, hlen⟩, ?_⟩, hframes, ?_, hmem⟩
  · intro f hf
    rw [AddrSpace.frames_mk, hframes] at hf
    exact hft f (List.mem_of_mem_take hf)
  · intro page
    rw [AddrSpace.readOnlyAt, Option.getD_some]
    cases hpage : ptb[page]? with
    | none => rfl
    | some pte => exact hread pte (List.mem_of_getElem? hpage)

end FrameTable

/-! ## The pages that are marked -/

/-- The pages that `Load` marks for the read only segment. -/
def Segment.Marks (seg : Segment) (page : Nat) : Prop :=
  seg.virtualAddr.toNat / PageSize ≤ page ∧
    page < seg.virtualAddr.toNat / PageSize + divRoundUp seg.size.toNat PageSize

namespace AddrSpace

section
variable {a a' : AddrSpace} {seg : Segment}

theorem markPage_ok {i : Nat} (ha : a.Mapped) (hin : seg.Inside a.numPages)
    (hi : i * PageSize < seg.size.toNat) :
    ∃ a', markPage seg a i = .ok a' ∧ Flagged a a' ∧
      Stored (fun p b => p = seg.virtualAddr.toNat / PageSize + i ∧
        b = true) a.readOnlyAt a'.readOnlyAt := by
  obtain ⟨hva, hend⟩ := hin (by omega)
  obtain ⟨v, hv⟩ := Int.eq_ofNat_of_zero_le hva
  have hpage : seg.virtualAddr.tdiv PageSize + i =
      (seg.virtualAddr.toNat / PageSize + i : Nat) := by
    rw [hv]
    rfl
  have hlt : seg.virtualAddr.toNat / PageSize + i < a.numPages := by
    simp only [PageSize] at hi hend ⊢
    omega
  refine ⟨a.setReadOnly (seg.virtualAddr.toNat / PageSize + i), ?_,
    ⟨ha.setReadOnly _, a.frames_setReadOnly _, rfl⟩,
    setReadOnly_stored ha hlt⟩
  rw [markPage, hpage, if_pos ⟨Int.natCast_nonneg _, Int.ofNat_lt.mpr hlt⟩,
    Int.toNat_natCast]
  rfl

theorem markReadOnly_ok (ha : a.Mapped) (hin : seg.Inside a.numPages) :
    ∃ a', markReadOnly seg a = .ok a' ∧
    Flagged a a' ∧ Stored (fun p b => seg.Marks p ∧
        b = true) a.readOnlyAt a'.readOnlyAt := by
  rw [markReadOnly]
  split
  · have hround : ∀ i ∈ List.range (divRoundUp seg.size.toNat PageSize), ∀ b,
        Flagged a b → ∃ b',
        markPage seg b i = .ok b' ∧ Flagged a b' ∧
          Stored (fun p x => p = seg.virtualAddr.toNat / PageSize + i ∧
              x = true) b.readOnlyAt b'.readOnlyAt := by
      intro i hi b hb
      obtain ⟨b', hrun, hflag, hstored⟩ := markPage_ok hb.mapped
        (hb.numPages ▸ hin)
        (lt_divRoundUp.mp (List.mem_range.mp hi))
      exact ⟨b', hrun, ⟨hflag.mapped, hflag.frames.trans hb.frames,
        hflag.numPages.trans hb.numPages⟩, hstored⟩
    have hstart : Flagged a a := ⟨ha, rfl, rfl⟩
    obtain ⟨a', hrun⟩ := Stores.foldlM_ok (I := Flagged a) (fun i hi b hb => by
      obtain ⟨b', hpage, hb', _⟩ := hround i hi b hb
      exact ⟨b', hpage, hb'⟩) hstart
    obtain ⟨hflag, hstored⟩ :=
        Stored.foldlM (m := readOnlyAt) (fun i hi b b' hb hpage => by
      obtain ⟨_, hpage', hb', hs⟩ := hround i hi b hb
      cases hpage'.symm.trans hpage
      exact ⟨hb', hs⟩) hstart hrun
    refine ⟨a', hrun, hflag, hstored.congr ?_⟩
    intro p x
    rw [Segment.Marks]
    constructor
    · rintro ⟨i, hi, rfl, hx⟩
      exact ⟨⟨Nat.le_add_right _ _,
        Nat.add_lt_add_left (List.mem_range.mp hi) _⟩, hx⟩
    · rintro ⟨⟨hle, hlt⟩, hx⟩
      exact ⟨p - seg.virtualAddr.toNat / PageSize,
        List.mem_range.mpr (Nat.sub_lt_left_of_lt_add hle hlt),
        (Nat.add_sub_cancel' hle).symm, hx⟩
  · next hsize =>
      refine ⟨a, rfl, ⟨ha, rfl, rfl⟩, .refl ?_⟩
      rintro p x ⟨⟨hle, hlt⟩, _⟩
      rw [Int.toNat_of_nonpos (Int.not_lt.mp hsize)] at hlt
      exact absurd hlt (Nat.not_lt.mpr hle)

end
end AddrSpace

/-! ## A whole program -/

/-- The segments that are loaded. -/
def NoffHeader.loaded (noffH : NoffHeader) : List Segment :=
  [noffH.code, noffH.initData, noffH.readonlyData]

theorem NoffHeader.numPages_le (noffH : NoffHeader) :
    noffH.numPages * PageSize ≤ 4294967296 := by
  have hlt : unsigned (noffH.code.size + noffH.readonlyData.size +
      noffH.initData.size + noffH.uninitData.size +
      UserStackSize) < 4294967296 := by
    rw [unsigned]
    omega
  have hpages : noffH.numPages ≤ 33554432 := by
    by_contra hgt
    have hmul := AddrSpace.lt_divRoundUp.mp (Nat.lt_of_not_le hgt)
    simp only [PageSize] at hmul
    omega
  simp only [PageSize]
  omega

/-- A program with all its bytes, and room for it. -/
structure Executable.Fits (e : Executable) (ft : FrameTable) : Prop where
  magic : e.noffH.noffMagic = NOFFMAGIC
  inside : ∀ seg ∈ e.noffH.loaded, seg.Inside e.noffH.numPages
  inFile : ∀ seg ∈ e.noffH.loaded, seg.InFile e.contents
  room : e.noffH.numPages ≤ ft.remainSize

/-- The frames that a program gets. -/
def Executable.frames (e : Executable) (ft : FrameTable) : List Nat :=
  ft.available.take e.noffH.numPages

section
variable {a : AddrSpace} {e : Executable} {ft : FrameTable} {mem : Memory}

/-- What `Load` has stored when it returns; and it returns if nothing is stored
past the end of memory. -/
theorem AddrSpace.load_yields (a : AddrSpace) (mem : Memory)
    (hft : ∀ f ∈ ft.available, f < NumPhysPages) (h : e.Fits ft) :
    ∃ mem₀, Stored (fun x b => x / PageSize ∈ e.frames ft ∧ b = 0) mem mem₀ ∧
      Outcome.Yields (a.load (some e) ft mem)
        (fun r => Stored (fun x b => ∃ seg ∈ e.noffH.loaded,
          seg.Puts (e.frames ft) e.contents x b) mem₀ r.2.2.2)
        (∀ seg ∈ e.noffH.loaded, ∀ k < seg.size.toNat,
          target (e.frames ft) seg.virtualAddr.toNat k < MemorySize) := by
  obtain ⟨ptb, mem₀, halloc, hmapped, hframes, hread, hzero⟩ :=
    FrameTable.allocate_fresh mem hft h.room
  obtain ⟨hcode, hinit, hro⟩ : e.noffH.code ∈ e.noffH.loaded ∧
      e.noffH.initData ∈ e.noffH.loaded ∧
      e.noffH.readonlyData ∈ e.noffH.loaded := by simp [NoffHeader.loaded]
  let a₀ : AddrSpace := ⟨some ptb, e.noffH.numPages⟩
  have hF : a₀.frames = e.frames ft := hframes
  -- every address space on the way is like the first
  have hload : ∀ {b : AddrSpace} {seg : Segment} {rw : Bool}, Flagged a₀ b →
      seg ∈ e.noffH.loaded →
      (rw = true → ∀ page, b.readOnlyAt page = false) →
          Loadable b e seg rw := by
    intro b seg rw hb hseg hwrite
    exact ⟨hb.mapped, hb.numPages ▸ e.noffH.numPages_le,
      hb.numPages ▸ h.inside seg hseg, h.inFile seg hseg, hwrite⟩
  have hpages : ∀ {b : AddrSpace}, Flagged a₀ b →
    b.numPages = e.noffH.numPages := fun hb => hb.numPages
  have hread₁ : ∀ {b : AddrSpace}, Same a₀ b →
      ∀ page, b.readOnlyAt page = false :=
    fun hb page => (congrFun hb.readOnly page).trans (hread page)
  have heq : a.load (some e) ft mem = (do
      let loaded ← loadSegment e e.noffH.code true (a₀, mem₀)
      let loaded ← loadSegment e e.noffH.initData true loaded
      let a ← markReadOnly e.noffH.readonlyData loaded.1
      let loaded ← loadSegment e e.noffH.readonlyData false (a, loaded.2)
      pure (true, loaded.1, ⟨ft.available.drop e.noffH.numPages⟩,
          loaded.2)) := by
    rw [load]
    dsimp only
    rw [assertMsg_pos h.magic, Outcome.ok_bind, halloc, Outcome.ok_bind]
    rfl
  rw [heq]
  refine ⟨mem₀, hzero, ?_⟩
  have h₀ : Loadable a₀ e e.noffH.code true :=
    hload (Same.refl hmapped).toFlagged hcode fun _ => hread
  refine (h₀.yields mem₀ fun hmem => hF ▸ hmem _ hcode).bind ?_
  rintro ⟨a₁, m₁⟩ ⟨hsame₁, hput₁⟩
  have h₁ : Loadable a₁ e e.noffH.initData true :=
    hload hsame₁.toFlagged hinit fun _ => hread₁ hsame₁
  have hF₁ : a₁.frames = e.frames ft := hsame₁.frames.trans hF
  refine (h₁.yields m₁ fun hmem => hF₁ ▸ hmem _ hinit).bind ?_
  rintro ⟨a₂, m₂⟩ ⟨hsame₂, hput₂⟩
  have hsame := hsame₁.trans hsame₂
  obtain ⟨a₃, hrun₃, hflag, _⟩ :=
    markReadOnly_ok hsame.mapped (hpages hsame.toFlagged ▸ h.inside _ hro)
  have hflag₃ : Flagged a₀ a₃ := ⟨hflag.mapped, hflag.frames.trans hsame.frames,
    hflag.numPages.trans hsame.numPages⟩
  have h₃ : Loadable a₃ e e.noffH.readonlyData false :=
    hload hflag₃ hro (by rintro ⟨⟩)
  have hF₃ : a₃.frames = e.frames ft := hflag₃.frames.trans hF
  dsimp only
  rw [hrun₃, Outcome.ok_bind]
  refine (h₃.yields m₂ fun hmem => hF₃ ▸ hmem _ hro).bind ?_
  rintro ⟨a₄, m₄⟩ ⟨_, hput₄⟩
  rw [hF] at hput₁
  rw [hF₁] at hput₂
  rw [hF₃] at hput₄
  refine .ok (((hput₁.trans hput₂).trans hput₄).congr ?_)
  intro x b
  simp [NoffHeader.loaded, or_assoc]

end

end EroikoBlue.MP2
