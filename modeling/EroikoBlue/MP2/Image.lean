/-
# `MP2.Image` — when a program finds its image in memory

`Image` is what a program may expect of `Load`: every byte of its segments at
its address, zeros elsewhere.  Where `Load` puts the bytes is in `MP2.Segments`,
and the two places differ for a segment that starts inside a page, unless the
next frame happens to belong to the next page.

So `load_image_iff` is an equivalence: `Load` gives every program with the same
addresses its image just when the pages of such segments are in consecutive
frames (`Segment.Contiguous`).  One direction is a calculation of places
(`loads_image`).  The other needs a program that shows the difference: all of
its bytes are zero but one, which is put where another page is
(`NoffHeader.marked`, `contiguous_of_loads`).

In the run at the end the frames are not consecutive, because of the order in
which others were given back.
-/
import EroikoBlue.MP2.Segments

namespace EroikoBlue.MP2

open Bytes (Byte int32)
open Stores (Stored)

/-! ## The image -/

def Segment.Covers (seg : Segment) (v : Nat) : Prop := seg.virtualAddr ≤ v ∧
    v < seg.virtualAddr + seg.size

instance (seg : Segment) (v : Nat) : Decidable (seg.Covers v) :=
  inferInstanceAs
    (Decidable (seg.virtualAddr ≤ v ∧ v < seg.virtualAddr + seg.size))

/-- Memory after `Load`, seen through the page table and from outside. -/
structure Image (e : Executable) (a : AddrSpace)
    (mem mem' : Memory) : Prop where
  loaded : ∀ seg ∈ e.noffH.loaded, ∀ k : Nat, k < seg.size → ∃ p,
    a.physical (seg.virtualAddr + k).toNat = some p ∧
      e.contents[(seg.inFileAddr + k).toNat]? = some (mem' p)
  zero : ∀ v < a.numPages * PageSize, (∀ seg ∈ e.noffH.loaded, ¬ seg.Covers v) →
    ∃ p,
    a.physical v = some p ∧ mem' p = 0
  frame : ∀ x, x / PageSize ∉ a.frames → mem' x = mem x

/-- `Load` returns, and the image is right. -/
def LoadsImage (a : AddrSpace) (e : Executable) (ft : FrameTable)
    (mem : Memory) : Prop :=
  ∃ a' ft' mem', a.load (some e) ft mem = .ok (true, a', ft', mem') ∧
    Image e a' mem mem'

/-- The pages of a segment that starts inside a page are in consecutive
frames. -/
def Segment.Contiguous (F : List Nat) (seg : Segment) : Prop :=
  seg.virtualAddr % PageSize ≠ 0 →
  ∀ page : Nat, seg.virtualAddr < ((page + 1) * PageSize : Nat) →
    ((page + 1) * PageSize : Nat) < seg.virtualAddr + seg.size →
      F[page + 1]?.getD 0 = F[page]?.getD 0 + 1

/-- The segments that are loaded lie in the address space, and apart from each
other. -/
structure NoffHeader.Layout (noffH : NoffHeader) : Prop where
  inside : ∀ seg ∈ noffH.loaded, seg.Inside noffH.numPages
  apart : noffH.loaded.Pairwise fun seg seg' =>
    ∀ v, ¬ (seg.Covers v ∧ seg'.Covers v)

section
variable {F : List Nat} {v w k : Nat} {seg seg' : Segment} {noffH : NoffHeader}

theorem target_eq_paddr (h : v % PageSize + k % PageSize < PageSize ∨
    F[(v + k / PageSize * PageSize) / PageSize + 1]?.getD 0 =
      F[(v + k / PageSize * PageSize) / PageSize]?.getD 0 + 1) :
    target F v k = paddr F (v + k) := by
  rw [target, paddr, paddr]
  rcases Nat.lt_or_ge (v % PageSize + k % PageSize) PageSize with hlt | hge
  · have hpage : (v + k) / PageSize =
        (v + k / PageSize * PageSize) / PageSize := by
      simp only [PageSize] at hlt ⊢
      omega
    rw [hpage]
    simp only [PageSize] at hlt ⊢
    omega
  · have hnext := h.resolve_left (Nat.not_lt.mpr hge)
    have hpage : (v + k) / PageSize =
        (v + k / PageSize * PageSize) / PageSize + 1 := by
      simp only [PageSize] at hge ⊢
      omega
    rw [hpage, hnext]
    simp only [PageSize] at hge ⊢
    omega

theorem Segment.Contiguous.target_eq (h : seg.Contiguous F)
    (_ : 0 ≤ seg.virtualAddr) (hk : k < seg.size.toNat) :
    target F seg.virtualAddr.toNat k = paddr F (seg.virtualAddr.toNat + k) := by
  refine target_eq_paddr ?_
  rcases Nat.lt_or_ge (seg.virtualAddr.toNat % PageSize +
    k % PageSize) PageSize with hlt | hge
  · exact .inl hlt
  · refine .inr (h ?_ _ ?_ ?_)
    all_goals
      simp only [PageSize] at hge ⊢
      omega

theorem paddr_inj (hF : F.Nodup) (hv : v < F.length * PageSize)
    (hw : w < F.length * PageSize) (h : paddr F v = paddr F w) : v = w := by
  have hv' : v / PageSize < F.length :=
    Nat.div_lt_of_lt_mul (Nat.mul_comm .. ▸ hv)
  have hw' : w / PageSize < F.length :=
    Nat.div_lt_of_lt_mul (Nat.mul_comm .. ▸ hw)
  rw [paddr, paddr, List.getElem?_eq_getElem hv', List.getElem?_eq_getElem hw',
    Option.getD_some, Option.getD_some] at h
  have hframe : F[v / PageSize] = F[w / PageSize] := by
    simp only [PageSize] at h ⊢
    omega
  have hpage := hF.getElem_inj_iff.mp hframe
  rw [hframe] at h
  simp only [PageSize] at h hpage
  omega

theorem paddr_div_mem (hv : v < F.length * PageSize) :
    paddr F v / PageSize ∈ F := by
  have hv' : v / PageSize < F.length :=
    Nat.div_lt_of_lt_mul (Nat.mul_comm .. ▸ hv)
  rw [paddr, List.getElem?_eq_getElem hv', Option.getD_some, Pool.paddr_div]
  exact List.getElem_mem hv'

/-- No address belongs to two segments. -/
theorem NoffHeader.Layout.unique (h : noffH.Layout) (hseg : seg ∈ noffH.loaded)
    (hseg' : seg' ∈ noffH.loaded) (hv : seg.Covers v) (hv' : seg'.Covers v) :
    seg = seg' := by
  by_contra hne
  have : Std.Symm fun s s' : Segment => ∀ v, ¬ (s.Covers v ∧ s'.Covers v) :=
    ⟨fun s s' hss v hv => hss v hv.symm⟩
  exact h.apart.forall hseg hseg' hne v ⟨hv, hv'⟩

end

section
variable {e : Executable} {ft : FrameTable}

theorem Executable.length_frames (h : e.Fits ft) :
    (e.frames ft).length = e.noffH.numPages :=
  (List.length_take ..).trans (Nat.min_eq_left h.room)

theorem AddrSpace.load_physical {a a' : AddrSpace}
    {mem mem' : Memory} {ft' : FrameTable}
    {loaded : Bool} (hft : ∀ f ∈ ft.available, f < NumPhysPages)
    (hrun : a.load (some e) ft mem = .ok (loaded, a', ft', mem')) :
    loaded = true ∧ a'.frames = e.frames ft ∧
      a'.numPages = (e.frames ft).length ∧
      ∀ v < (e.frames ft).length * PageSize, a'.physical v =
        some (paddr (e.frames ft) v) := by
  obtain ⟨hloaded, ha', hframes, _⟩ := AddrSpace.load_some hft hrun
  have hF : a'.frames = e.frames ft := hframes
  have hpages : a'.numPages = (e.frames ft).length := by
    obtain ⟨ptb, hptb, hlength⟩ := ha'.table
    rw [← hlength, ← hF, AddrSpace.frames, hptb]
    exact (List.length_map ..).symm
  refine ⟨hloaded, hF, hpages, fun v hv => ?_⟩
  rw [AddrSpace.physical_in ha' (hpages ▸ hv), hF]

/-- Where the pages are in consecutive frames, `Load` builds the image. -/
theorem loads_image (a : AddrSpace)
    (mem : Memory) (hft : ∀ f ∈ ft.available, f < NumPhysPages)
    (hnodup : ft.available.Nodup) (h : e.Fits ft) (hlayout : e.noffH.Layout)
    (hcontig : ∀ seg ∈ e.noffH.loaded, seg.Contiguous (e.frames ft)) :
    LoadsImage a e ft mem := by
  have hlen := e.length_frames h
  have hF : (e.frames ft).Nodup := hnodup.sublist (List.take_sublist _ _)
  have hFlt : ∀ f ∈ e.frames ft, f < NumPhysPages :=
    fun f hf => hft f (List.mem_of_mem_take hf)
  -- every byte of a segment is put where its address is
  have htarget : ∀ seg ∈ e.noffH.loaded, ∀ k < seg.size.toNat,
      0 ≤ seg.virtualAddr ∧
        seg.virtualAddr.toNat + k < (e.frames ft).length * PageSize ∧
        target (e.frames ft) seg.virtualAddr.toNat k =
            paddr (e.frames ft) (seg.virtualAddr.toNat + k) := by
    intro seg hseg k hk
    obtain ⟨hva, hend⟩ := h.inside seg hseg (by omega)
    refine ⟨hva, ?_, (hcontig seg hseg).target_eq hva hk⟩
    rw [hlen]
    omega
  obtain ⟨mem₀, hzero, hyields⟩ := a.load_yields mem hft h
  obtain ⟨⟨loaded, a', ft', mem'⟩, hrun⟩ := hyields.total (by
    intro seg hseg k hk
    obtain ⟨_, hlt, heq⟩ := htarget seg hseg k hk
    rw [heq, paddr]
    have hpage := List.getElem?_eq_getElem (l := e.frames ft)
      (Nat.div_lt_of_lt_mul (Nat.mul_comm .. ▸ hlt))
    rw [hpage]
    exact AddrSpace.paddr_lt (hFlt _ (List.getElem_mem _)))
  obtain ⟨rfl, hframes, hpages, hphysical⟩ := AddrSpace.load_physical hft hrun
  have hput : Stored (fun x b => ∃ seg ∈ e.noffH.loaded,
      seg.Puts (e.frames ft) e.contents x b) mem₀ mem' :=
    hyields.sound hrun
  refine ⟨a', ft', mem', hrun, ?_, ?_, ?_⟩
  · intro seg hseg k hk
    obtain ⟨hva, hlt, heq⟩ := htarget seg hseg k (by omega)
    obtain ⟨hfa, hfend, _⟩ := h.inFile seg hseg (by omega)
    have haddr : (seg.virtualAddr + k).toNat = seg.virtualAddr.toNat + k := by
      omega
    have hpos : (seg.inFileAddr + k).toNat = seg.inFileAddr.toNat + k := by
      omega
    have hin : seg.inFileAddr.toNat + k < e.contents.length := by omega
    rw [haddr, hpos, List.getElem?_eq_getElem hin]
    refine ⟨_, hphysical _ hlt, congrArg some (Eq.symm ?_)⟩
    refine hput.read ⟨seg, hseg, k, by omega, heq.symm,
      List.getElem?_eq_getElem hin⟩ ?_
    -- no other byte is put there
    rintro b' ⟨seg', hseg', k', hk', hx, hb'⟩
    obtain ⟨hva', hlt', heq'⟩ := htarget seg' hseg' k' hk'
    have hsame := paddr_inj hF hlt hlt' (hx.trans heq')
    have heqseg := hlayout.unique hseg hseg' (v := seg.virtualAddr.toNat + k)
      ⟨by omega, by omega⟩ ⟨by omega, by omega⟩
    subst heqseg
    have hkk : k' = k := by omega
    subst hkk
    exact Option.some.inj (hb'.symm.trans (List.getElem?_eq_getElem hin))
  · intro v hv hnone
    rw [hpages] at hv
    refine ⟨_, hphysical v hv, ?_⟩
    rw [hput.kept ?_]
    · exact hzero.read ⟨paddr_div_mem hv, rfl⟩ fun b hb => hb.2
    · rintro b ⟨seg, hseg, k, hk, hx, _⟩
      obtain ⟨hva, hlt, heq⟩ := htarget seg hseg k hk
      have hsame := paddr_inj hF hv hlt (hx.trans heq)
      exact hnone seg hseg ⟨by omega, by omega⟩
  · intro x hx
    rw [hframes] at hx
    rw [hput.kept ?_, hzero.kept fun b hb => hx hb.1]
    rintro b ⟨seg, hseg, k, hk, rfl, _⟩
    obtain ⟨_, hlt, heq⟩ := htarget seg hseg k hk
    exact hx (heq ▸ paddr_div_mem hlt)

end

/-! ## And nowhere else -/

/-- The addresses and the sizes of the segments. -/
def NoffHeader.addresses (noffH : NoffHeader) : List (Int × Int) :=
  [noffH.code, noffH.initData, noffH.readonlyData, noffH.uninitData].map
    fun seg => (seg.virtualAddr, seg.size)

section
variable {noffH noffH' : NoffHeader}

theorem NoffHeader.numPages_congr (h : noffH.addresses = noffH'.addresses) :
    noffH.numPages = noffH'.numPages := by
  simp only [addresses, List.map_cons, List.map_nil, List.cons.injEq,
    Prod.mk.injEq] at h
  obtain ⟨⟨_, hcode⟩, ⟨_, hinit⟩, ⟨_, hro⟩, ⟨_, huninit⟩, _⟩ := h
  rw [numPages, numPages, hcode, hinit, hro, huninit]

theorem Segment.covers_congr {s s' : Segment}
    (hva : s.virtualAddr = s'.virtualAddr) (hsize : s.size = s'.size) :
    s.Covers = s'.Covers := by
  refine funext fun v => ?_
  rw [Covers, Covers, hva, hsize]

theorem NoffHeader.forall_loaded_congr {P : Segment → Prop}
    (hP : ∀ s s' : Segment, s.virtualAddr = s'.virtualAddr →
      s.size = s'.size → P s → P s') (h : noffH.addresses = noffH'.addresses)
    (hall : ∀ seg ∈ noffH.loaded, P seg) : ∀ seg ∈ noffH'.loaded, P seg := by
  simp only [addresses, List.map_cons, List.map_nil, List.cons.injEq,
    Prod.mk.injEq] at h
  obtain ⟨⟨hcode, hcode'⟩, ⟨hinit, hinit'⟩, ⟨hro, hro'⟩, _⟩ := h
  simp only [loaded, List.forall_mem_cons] at hall ⊢
  exact ⟨hP _ _ hcode hcode' hall.1, hP _ _ hinit hinit' hall.2.1,
    hP _ _ hro hro' hall.2.2.1, List.forall_mem_nil _⟩

theorem NoffHeader.Layout.congr (h : noffH.addresses = noffH'.addresses)
    (hlayout : noffH.Layout) : noffH'.Layout := by
  refine ⟨?_, ?_⟩
  · rw [← numPages_congr h]
    refine forall_loaded_congr ?_ h hlayout.inside
    intro s s' hva hsize hs
    rw [Segment.Inside, ← hva, ← hsize]
    exact hs
  · have hcovers : noffH'.loaded.map Segment.Covers =
        noffH.loaded.map Segment.Covers := by
      simp only [addresses, List.map_cons, List.map_nil, List.cons.injEq,
        Prod.mk.injEq] at h
      obtain ⟨⟨hcode, hcode'⟩, ⟨hinit, hinit'⟩, ⟨hro, hro'⟩, _⟩ := h
      rw [loaded, loaded, List.map_cons, List.map_cons, List.map_cons,
        List.map_cons, List.map_cons, List.map_cons,
        Segment.covers_congr hcode hcode', Segment.covers_congr hinit hinit',
          Segment.covers_congr hro hro']
    have hapart := (List.pairwise_map (f := Segment.Covers)
      (R := fun c c' : Nat → Prop => ∀ v, ¬ (c v ∧ c' v))).mpr hlayout.apart
    rw [← hcovers] at hapart
    exact List.pairwise_map.mp hapart

/-- A file with the same addresses, in which the segments follow each other and
one byte is 1. -/
def NoffHeader.marked (noffH : NoffHeader) (position : Nat) : Executable where
  noffH := {
    noffMagic := NOFFMAGIC
    code := { noffH.code with inFileAddr := 52 }
    initData := { noffH.initData with inFileAddr := 52 + noffH.code.size.toNat }
    readonlyData := { noffH.readonlyData with
      inFileAddr := 52 + noffH.code.size.toNat + noffH.initData.size.toNat }
    uninitData := noffH.uninitData }
  contents :=
    (List.range (52 + noffH.code.size.toNat + noffH.initData.size.toNat +
    noffH.readonlyData.size.toNat)).map fun n => if n = position then 1 else 0

theorem NoffHeader.marked_addresses (position : Nat) :
    (noffH.marked position).noffH.addresses = noffH.addresses := rfl

theorem NoffHeader.length_marked (position : Nat) :
    (noffH.marked position).contents.length =
    52 + noffH.code.size.toNat + noffH.initData.size.toNat +
      noffH.readonlyData.size.toNat :=
  (List.length_map ..).trans List.length_range

theorem NoffHeader.marked_inFile (hlayout : noffH.Layout)
    (hpages : noffH.numPages ≤ NumPhysPages) (position : Nat) :
    ∀ seg ∈ (noffH.marked position).noffH.loaded,
      seg.InFile (noffH.marked position).contents := by
  have hinside := hlayout.inside
  simp only [loaded, List.forall_mem_cons, Segment.Inside, PageSize] at hinside
  obtain ⟨hcode, hinit, hro, _⟩ := hinside
  simp only [NumPhysPages] at hpages
  simp only [loaded, List.forall_mem_cons, Segment.InFile, length_marked]
  simp only [marked]
  refine ⟨?_, ?_, ?_, List.forall_mem_nil _⟩ <;> intro hpos <;> omega

theorem NoffHeader.marked_contents {position n : Nat} {b : Byte}
    (h : (noffH.marked position).contents[n]? = some b) :
    b = if n = position then 1 else 0 := by
  rw [marked, List.getElem?_map] at h
  obtain ⟨n', hn', hb⟩ := Option.map_eq_some_iff.mp h
  obtain ⟨hlt, heq⟩ := List.getElem?_eq_some_iff.mp hn'
  rw [List.getElem_range] at heq
  rw [heq]
  exact hb.symm

theorem NoffHeader.marked_unique {position k k' : Nat} {seg seg' : Segment}
    (hseg : seg ∈ (noffH.marked position).noffH.loaded)
    (hseg' : seg' ∈ (noffH.marked position).noffH.loaded)
    (hk : k < seg.size.toNat) (hk' : k' < seg'.size.toNat)
    (h : seg.inFileAddr.toNat + k = seg'.inFileAddr.toNat + k') : seg = seg' ∧
    k = k' := by
  simp only [loaded, marked, List.mem_cons, List.not_mem_nil,
    or_false] at hseg hseg'
  rcases hseg with rfl | rfl | rfl <;> rcases hseg' with rfl | rfl | rfl
    <;> dsimp only at hk hk' h <;>
    first
    | exact ⟨rfl, by omega⟩
    | omega

/-- Where a page of a segment is not in the next frame, its first byte is put
elsewhere. -/
theorem target_ne_paddr {F : List Nat} {v page : Nat} (hv : v % PageSize ≠ 0)
    (hpage : v < (page + 1) * PageSize)
    (hne : F[page + 1]?.getD 0 ≠ F[page]?.getD 0 + 1) :
    target F v ((page + 1) * PageSize - v) ≠
      paddr F (v + ((page + 1) * PageSize - v)) := by
  intro heq
  have hstart : v + ((page + 1) * PageSize - v) / PageSize * PageSize =
      page * PageSize + v % PageSize := by
    simp only [PageSize] at hv hpage ⊢
    omega
  have hdiv : (page * PageSize + v % PageSize) / PageSize = page := by
    simp only [PageSize]
    omega
  have hend : v + ((page + 1) * PageSize - v) = (page + 1) * PageSize :=
    Nat.add_sub_cancel' hpage.le
  rw [target, paddr, paddr, hstart, hdiv, hend,
    Nat.mul_div_cancel _ (by decide)] at heq
  simp only [PageSize] at hv hpage heq
  omega

/-- If `Load` builds the image of all programs with these addresses, then also
of those with a single 1. -/
theorem contiguous_of_loads {a : AddrSpace} {ft : FrameTable}
    {mem : Memory} (hft : ∀ f ∈ ft.available, f < NumPhysPages)
    (hpages : noffH.numPages ≤ NumPhysPages) (hlayout : noffH.Layout)
    (hroom : noffH.numPages ≤ ft.remainSize) {position : Nat}
    {seg : Segment} (hseg : seg ∈ (noffH.marked position).noffH.loaded)
    (hall : ∀ position, LoadsImage a (noffH.marked position) ft mem) :
    seg.Contiguous (ft.available.take noffH.numPages) := by
  intro hva page hpage hend
  by_contra hne
  -- byte `k` of the segment is the first of the next page, and the one that is
  -- 1
  obtain ⟨k, hk⟩ : ∃ k, k = (page + 1) * PageSize - seg.virtualAddr.toNat :=
    ⟨_, rfl⟩
  let e := noffH.marked (seg.inFileAddr.toNat + k)
  have hinFile :=
    NoffHeader.marked_inFile hlayout hpages (seg.inFileAddr.toNat + k)
  have hlayout' : e.noffH.Layout :=
    hlayout.congr (NoffHeader.marked_addresses _).symm
  have hfits : e.Fits ft := ⟨rfl, hlayout'.inside, hinFile, hroom⟩
  obtain ⟨hpos, hlast⟩ := hlayout'.inside seg hseg (by omega)
  obtain ⟨hfile, _⟩ := hinFile seg hseg (by omega)
  have hin : seg.virtualAddr.toNat + k < (e.frames ft).length * PageSize := by
    rw [e.length_frames hfits]
    omega
  obtain ⟨a', ft', mem', hrun, himage⟩ := hall (seg.inFileAddr.toNat + k)
  obtain ⟨mem₀, hzero, hyields⟩ := a.load_yields mem hft hfits
  obtain ⟨_, hframes, _, hphysical⟩ := AddrSpace.load_physical hft hrun
  obtain ⟨p, hp, hbyte⟩ := himage.loaded seg hseg k (by omega)
  rw [show (seg.virtualAddr + k).toNat = seg.virtualAddr.toNat + k by omega,
    hphysical _ hin] at hp
  cases hp
  rw [show (seg.inFileAddr + k).toNat =
    seg.inFileAddr.toNat + k by omega] at hbyte
  have hone := NoffHeader.marked_contents hbyte
  rw [if_pos rfl] at hone
  have hput : Stored (fun x b => ∃ seg ∈ e.noffH.loaded,
      seg.Puts (e.frames ft) e.contents x b) mem₀ mem' :=
    hyields.sound hrun
  rcases hput (paddr (e.frames ft) (seg.virtualAddr.toNat + k)) with
    ⟨s, hs, j, hj, hx, hb⟩ | ⟨_, hkept⟩
  · -- only one byte of the file is 1
    have hb' := NoffHeader.marked_contents hb
    rw [hone] at hb'
    split at hb'
    · next heq =>
        obtain ⟨rfl, rfl⟩ := NoffHeader.marked_unique hs hseg hj (by omega) heq
        have hv : s.virtualAddr.toNat % PageSize ≠ 0 := by
          simp only [PageSize] at hva ⊢
          omega
        refine target_ne_paddr hv (by omega) hne ?_
        rw [← hk]
        exact hx.symm
    · exact absurd hb' (by decide)
  · rw [hkept, hzero.read ⟨paddr_div_mem hin, rfl⟩ fun b hb => hb.2] at hone
    exact absurd hone (by decide)

/-- `Load` builds the image of every program with these addresses just when the
pages of every segment that starts inside a page are in consecutive frames. -/
theorem load_image_iff {mem : Memory} {calls : List Call} {pool : Pool}
    (hpool : Pool.run mem calls = .ok pool) (hlayout : noffH.Layout)
    (hroom : noffH.numPages ≤ pool.frameTable.remainSize) (a : AddrSpace) :
    (∀ e : Executable, e.noffH.noffMagic = NOFFMAGIC →
        e.noffH.addresses = noffH.addresses →
        (∀ seg ∈ e.noffH.loaded, seg.InFile e.contents) →
        LoadsImage a e pool.frameTable pool.mainMemory) ↔
      ∀ seg ∈ noffH.loaded,
        seg.Contiguous (pool.frameTable.available.take noffH.numPages) := by
  obtain ⟨_, hpool', hwhole⟩ := Pool.run_whole mem calls
  cases hpool'.symm.trans hpool
  have hft : ∀ f ∈ pool.frameTable.available, f < NumPhysPages := fun f hf =>
    List.mem_range.mp (hwhole.frames.mem_iff.mp (List.mem_append_left _ hf))
  have hnodup : pool.frameTable.available.Nodup :=
    (List.nodup_append.mp hwhole.frames.nodup).1
  have hpages : noffH.numPages ≤ NumPhysPages := by
    have hlen := hwhole.frames.length_eq
    rw [List.length_append, List.length_range] at hlen
    exact hroom.trans (Nat.le_of_add_right_le hlen.le)
  have hcongr : ∀ {n : Nat} (s s' : Segment), s.virtualAddr = s'.virtualAddr →
      s.size = s'.size →
      s.Contiguous (pool.frameTable.available.take n) →
          s'.Contiguous (pool.frameTable.available.take n) := by
    intro n s s' hva hsize hs
    rw [Segment.Contiguous, ← hva, ← hsize]
    exact hs
  constructor
  · intro hall
    refine NoffHeader.forall_loaded_congr hcongr (NoffHeader.marked_addresses 0)
      fun seg hseg => ?_
    refine @contiguous_of_loads noffH a _ pool.mainMemory hft hpages hlayout
      hroom 0 seg hseg fun position => ?_
    exact hall _ rfl rfl (NoffHeader.marked_inFile hlayout hpages position)
  · intro hcontig e hmagic haddr hfile
    have hlayout' := hlayout.congr haddr.symm
    have hpages' := NoffHeader.numPages_congr haddr
    refine loads_image a pool.mainMemory hft hnodup ⟨hmagic, hlayout'.inside,
      hfile, hpages' ▸ hroom⟩ hlayout' ?_
    rw [Executable.frames, hpages']
    exact NoffHeader.forall_loaded_congr hcongr haddr.symm hcontig

end

/-! ## A program that straddles pages -/

/-- 100 bytes of code at address 100, which is in the pages 0 and 1. -/
def straddling : Executable where
  noffH := ⟨NOFFMAGIC, ⟨100, 52, 100⟩, ⟨0, 0, 0⟩, ⟨0, 0, 0⟩, ⟨0, 0, 0⟩⟩
  contents := List.replicate 152 1

theorem straddling_layout : straddling.noffH.Layout := by
  refine ⟨?_, ?_⟩
  · simp only [NoffHeader.loaded, straddling, List.forall_mem_cons,
      Segment.Inside]
    exact ⟨fun _ => by decide, fun hpos => absurd hpos (by decide),
      fun hpos => absurd hpos (by decide), List.forall_mem_nil _⟩
  · simp only [NoffHeader.loaded, straddling, List.pairwise_cons,
      List.forall_mem_cons, Segment.Covers]
    refine ⟨⟨?_, ?_, List.forall_mem_nil _⟩, ⟨?_, List.forall_mem_nil _⟩,
      List.forall_mem_nil _, .nil⟩ <;> intro v <;> omega

/-- Nine frames are free, 0 and 2 … 9; frame 1 belongs to another program. -/
def returned : List Call :=
  [.allocate 1, .allocate 1, .allocate 1, .allocate 7, .allocate 118,
    .release 0, .release 1, .release 1]

theorem load_image_iff_straddling :
    ∃ pool, Pool.run (fun _ => 0) returned = .ok pool ∧
    ((∀ e : Executable, e.noffH.noffMagic = NOFFMAGIC →
        e.noffH.addresses = straddling.noffH.addresses →
        (∀ seg ∈ e.noffH.loaded, seg.InFile e.contents) →
          LoadsImage .new e pool.frameTable pool.mainMemory) ↔
      ∀ seg ∈ straddling.noffH.loaded, seg.Contiguous
          (pool.frameTable.available.take straddling.noffH.numPages)) := by
  obtain ⟨pool, hpool, _⟩ := Pool.run_whole (fun _ => 0) returned
  have hroom : straddling.noffH.numPages ≤ pool.frameTable.remainSize := by
    have heval : (Pool.run (fun _ => 0) returned).toOption.map
        (·.frameTable.remainSize) = some 9 := by
      decide +kernel
    rw [hpool] at heval
    rw [show pool.frameTable.remainSize = 9 from Option.some.inj heval]
    decide
  exact ⟨pool, hpool, load_image_iff hpool straddling_layout hroom .new⟩

/-- The 29th byte of the segment belongs to address 128, in frame 2, and is put
into frame 1. -/
theorem load_spills : ∃ pool, Pool.run (fun _ => 0) returned = .ok pool ∧
    straddling.Fits pool.frameTable ∧ straddling.noffH.Layout ∧
    ¬ LoadsImage .new straddling pool.frameTable pool.mainMemory := by
  obtain ⟨pool, hpool, _⟩ := Pool.run_whole (fun _ => 0) returned
  have heval : (Pool.run (fun _ => 0) returned).toOption.map
      (fun pool => (pool.frameTable.remainSize,
      (AddrSpace.new.load (some straddling) pool.frameTable
        pool.mainMemory).toOption.map
        fun r => (r.2.1.physical 128, r.2.2.2 256))) =
            some (9, some (some 256, 0)) := by
    decide +kernel
  rw [hpool] at heval
  obtain ⟨hremain, hload⟩ := Prod.mk.inj (Option.some.inj heval)
  refine ⟨pool, hpool, ⟨rfl, straddling_layout.inside, ?_, ?_⟩,
    straddling_layout, ?_⟩
  · simp only [NoffHeader.loaded, straddling, List.forall_mem_cons,
      Segment.InFile, List.length_replicate]
    exact ⟨fun _ => by decide, fun hpos => absurd hpos (by decide),
      fun hpos => absurd hpos (by decide), List.forall_mem_nil _⟩
  · rw [hremain]
    decide
  · rintro ⟨a', ft', mem', hrun, himage⟩
    obtain ⟨p, hp, hbyte⟩ := himage.loaded _ (.head _) 28 (by decide)
    rw [hrun] at hload
    obtain ⟨hphysical, hmem⟩ := Prod.mk.inj (Option.some.inj hload)
    cases hphysical.symm.trans hp
    have hone : straddling.contents[(52 + 28 : Int).toNat]? = some 1 := by
      decide +kernel
    exact absurd ((hone.symm.trans hbyte).trans (congrArg some hmem))
      (by decide)

end EroikoBlue.MP2
