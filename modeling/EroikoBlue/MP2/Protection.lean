/-
# `MP2.Protection` — the pages of the read only data

`Load` marks pages, from that of the first byte of the segment on, as many as
its size fills.  A segment that starts inside a page may reach into one page
more, which stays writable; and the first and the last page may hold bytes of
others, which are not writable then.

    Marks page         the page is marked (`MP2.Image`)
    Covered            the segment does not reach into one page more
    Writable v         address `v` is data or stack

## The condition

What should be protected is read off the header of the program: a write to the
read only data raises `ReadOnlyException`, and a write to data or stack does
not.  `protects_iff` says that `Load` achieves it if and only if the segment
does not reach into one page more than its size fills (`Covered`) and no page
that is marked holds an address that should be written.

The two halves are independent.  `protects_iff_paged` is a program whose
segments start at pages; `load_protects_wrong` is one in which the data shares a
page with the read only data, and cannot be written.
-/
import EroikoBlue.MP2.Image

namespace EroikoBlue.MP2

open Stores (Stored)

/-! ## The flags after `Load` -/

namespace AddrSpace

section
variable {a a' : AddrSpace} {mem mem' : Memory} {e : Executable}
  {ft ft' : FrameTable}

theorem Mapped.translate_same {v p : Nat} {rw : Bool} {ex : ExceptionType}
    (ha : a.Mapped) (hrun : a.translate v rw = .ok (ex, p, a')) :
    Same a a' := by
  rcases Nat.lt_or_ge v (a.numPages * PageSize) with hin | hout
  · obtain ⟨b, hsame, heq⟩ := translate_eq rw ha hin
    rw [heq] at hrun
    split at hrun
    · cases hrun
      exact .refl ha
    · cases hrun
      exact hsame
  · cases (translate_out rw hout).symm.trans hrun
    exact .refl ha

theorem loadSegment_same {seg : Segment} {rw : Bool} {s s' : AddrSpace × Memory}
    (hs : s.1.Mapped) (hrun : loadSegment e seg rw s = .ok s') :
    Same s.1 s'.1 := by
  have hround : ∀ (p : AddrSpace × Memory) (i : Nat) p', Same s.1 p.1 →
      loadPage e seg rw p i = .ok p' →
      Same s.1 p'.1 := by
    intro p i p' hp hpage
    obtain ⟨⟨ex, paddr, b⟩, htranslate, hpage⟩ := Outcome.bind_eq_ok.mp hpage
    obtain ⟨_, _, hpage⟩ := Outcome.bind_eq_ok.mp hpage
    obtain ⟨mem', _, hpage⟩ := Outcome.bind_eq_ok.mp hpage
    cases hpage
    exact hp.trans (hp.mapped.translate_same htranslate)
  rw [loadSegment] at hrun
  split at hrun
  · exact Outcome.foldlM_inv hround (.refl hs) hrun
  · cases hrun
    exact .refl hs

/-- After `Load` the pages of the read only segment are marked, and no
others. -/
theorem load_marks {loaded : Bool} (hft : ∀ f ∈ ft.available, f < NumPhysPages)
    (hin : e.noffH.readonlyData.Inside e.noffH.numPages)
    (hrun : a.load (some e) ft mem = .ok (loaded, a', ft', mem')) :
    a'.Mapped ∧ a'.numPages = e.noffH.numPages ∧
      ∀ page, a'.readOnlyAt page = true ↔ e.noffH.readonlyData.Marks page := by
  obtain ⟨_, _, hrun⟩ := Outcome.bind_eq_ok.mp hrun
  obtain ⟨⟨ptb, ft₁, mem₁⟩, halloc, hrun⟩ := Outcome.bind_eq_ok.mp hrun
  obtain ⟨_, hptb, hrun⟩ := Outcome.bind_eq_ok.mp hrun
  obtain ⟨⟨a₁, m₁⟩, hrun₁, hrun⟩ := Outcome.bind_eq_ok.mp hrun
  obtain ⟨⟨a₂, m₂⟩, hrun₂, hrun⟩ := Outcome.bind_eq_ok.mp hrun
  obtain ⟨a₃, hrun₃, hrun⟩ := Outcome.bind_eq_ok.mp hrun
  obtain ⟨⟨a₄, m₄⟩, hrun₄, hpure⟩ := Outcome.bind_eq_ok.mp hrun
  cases hpure
  rcases Nat.lt_or_ge ft.remainSize e.noffH.numPages with hn | hn
  · cases (FrameTable.allocate_null hn).symm.trans halloc
    cases hptb
  · obtain ⟨t, _, halloc', hmapped, _, hread, _⟩ :=
      FrameTable.allocate_fresh mem hft hn
    cases halloc'.symm.trans halloc
    have hsame₁ : Same ⟨some t, e.noffH.numPages⟩ a₁ :=
      loadSegment_same hmapped hrun₁
    have hsame₂ : Same ⟨some t, e.noffH.numPages⟩ a₂ :=
      hsame₁.trans (loadSegment_same hsame₁.mapped hrun₂)
    have hpages₂ : a₂.numPages = e.noffH.numPages := hsame₂.numPages
    obtain ⟨_, hrun₃', hflag, hmarks⟩ :=
      markReadOnly_ok hsame₂.mapped (hpages₂ ▸ hin)
    cases hrun₃'.symm.trans hrun₃
    have hsame₄ : Same a₃ a' := loadSegment_same hflag.mapped hrun₄
    refine ⟨hsame₄.mapped, hsame₄.numPages.trans (hflag.numPages.trans hpages₂),
      fun page => ?_⟩
    rw [hsame₄.readOnly]
    constructor
    · intro htrue
      by_contra hno
      rw [hmarks.kept fun b hb => hno hb.1, hsame₂.readOnly, hread] at htrue
      cases htrue
    · intro hpage
      exact hmarks.read ⟨hpage, rfl⟩ fun b hb => hb.2

end
end AddrSpace

/-! ## What should be protected -/

/-- The end of the address space is for the stack. -/
def NoffHeader.Stack (noffH : NoffHeader) (v : Nat) : Prop :=
  (noffH.numPages * PageSize : Nat) - UserStackSize ≤ v ∧
    v < noffH.numPages * PageSize

def NoffHeader.Writable (noffH : NoffHeader) (v : Nat) : Prop :=
  noffH.initData.Covers v ∨ noffH.uninitData.Covers v ∨ noffH.Stack v

/-- The exception that `Translate` returns in write mode. -/
def AddrSpace.Writes (a : AddrSpace) (v : Nat) (ex : ExceptionType) : Prop :=
  ∃ paddr a', a.translate v true = .ok (ex, paddr, a')

structure Protects (noffH : NoffHeader) (a : AddrSpace) : Prop where
  readOnly : ∀ v, noffH.readonlyData.Covers v → a.Writes v .ReadOnlyException
  writable : ∀ v, noffH.Writable v → a.Writes v .NoException

/-- The segment ends in the last of the pages that its size fills. -/
def Segment.Covered (seg : Segment) : Prop :=
  seg.size ≤ 0 ∨
    seg.virtualAddr % PageSize + (seg.size - 1) % PageSize < PageSize

/-- All four segments lie in the address space. -/
def NoffHeader.Inside (noffH : NoffHeader) : Prop :=
  ∀ seg ∈ noffH.loaded ++ [noffH.uninitData], seg.Inside noffH.numPages

section
variable {a a' : AddrSpace} {noffH : NoffHeader} {seg : Segment} {v : Nat}

theorem AddrSpace.writes_readOnly (ha : a.Mapped)
    (hv : v < a.numPages * PageSize) :
    a.Writes v .ReadOnlyException ↔ a.readOnlyAt (v / PageSize) = true := by
  obtain ⟨b, _, heq⟩ := translate_eq true ha hv
  rw [Writes, heq]
  constructor
  · rintro ⟨p, a', hrun⟩
    split at hrun
    · next h => exact h.2
    · cases hrun
  · intro h
    exact ⟨0, a, if_pos ⟨rfl, h⟩⟩

theorem AddrSpace.writes_ok (ha : a.Mapped) (hv : v < a.numPages * PageSize) :
    a.Writes v .NoException ↔ a.readOnlyAt (v / PageSize) ≠ true := by
  obtain ⟨b, _, heq⟩ := translate_eq true ha hv
  rw [Writes, heq]
  constructor
  · rintro ⟨p, a', hrun⟩
    split at hrun
    · cases hrun
    · next h => exact fun hread => h ⟨rfl, hread⟩
  · intro h
    exact ⟨_, _, if_neg fun hread => h hread.2⟩

theorem Segment.Inside.lt {n : Nat} (h : seg.Inside n) (hv : seg.Covers v) :
    v < n * PageSize := by
  obtain ⟨hle, hlt⟩ := hv
  have hend := (h (by omega)).2
  omega

theorem Segment.marks_iff_lt (hle : seg.virtualAddr.toNat ≤ v) :
    seg.Marks (v / PageSize) ↔
      (v / PageSize - seg.virtualAddr.toNat / PageSize) * PageSize <
        seg.size.toNat := by
  have hpage : seg.virtualAddr.toNat / PageSize ≤ v / PageSize :=
    Nat.div_le_div_right hle
  rw [← AddrSpace.lt_divRoundUp, Marks, Nat.sub_lt_iff_lt_add' hpage]
  exact and_iff_right hpage

/-- The pages that are marked hold the whole segment just when it does not reach
into one more. -/
theorem Segment.marks_iff {n : Nat} (h : seg.Inside n) :
    (∀ v, seg.Covers v → seg.Marks (v / PageSize)) ↔ seg.Covered := by
  rcases Int.lt_or_le 0 seg.size with hpos | hneg
  · obtain ⟨hva, _⟩ := h hpos
    constructor
    · intro hall
      have hlast :=
        hall (seg.virtualAddr.toNat + (seg.size.toNat - 1)) ⟨by omega, by omega⟩
      rw [marks_iff_lt (Nat.le_add_right _ _)] at hlast
      refine .inr ?_
      simp only [PageSize] at hlast ⊢
      omega
    · rintro hcovered v ⟨hle, hlt⟩
      rw [marks_iff_lt (by omega)]
      have hpage := hcovered.resolve_left (Int.not_le.mpr hpos)
      simp only [PageSize] at hpage ⊢
      omega
  · refine iff_of_true (fun v hv => ?_) (.inl hneg)
    obtain ⟨hle, hlt⟩ := hv
    omega

theorem NoffHeader.Writable.lt (h : noffH.Inside) (hv : noffH.Writable v) :
    v < noffH.numPages * PageSize := by
  rcases hv with hinit | huninit | hstack
  · exact (h noffH.initData (by simp [loaded])).lt hinit
  · exact (h noffH.uninitData (by simp)).lt huninit
  · exact hstack.2

/-- `Load` protects the read only data, and nothing else that matters, just when
the segment does not reach into one more page than its size fills, and no data
and no stack are in the pages that are marked. -/
theorem protects_iff {mem mem' : Memory} {calls : List Call}
    {pool : Pool} {e : Executable} {ft' : FrameTable} {loaded : Bool}
    (hpool : Pool.run mem calls = .ok pool) (hin : e.noffH.Inside)
    (hload : a.load (some e) pool.frameTable pool.mainMemory = .ok (loaded, a',
      ft', mem')) :
    Protects e.noffH a' ↔
      e.noffH.readonlyData.Covered ∧ ∀ v, e.noffH.Writable v →
      ¬ e.noffH.readonlyData.Marks (v / PageSize) := by
  obtain ⟨_, hpool', hwhole⟩ := Pool.run_whole mem calls
  cases hpool'.symm.trans hpool
  have hft : ∀ f ∈ pool.frameTable.available, f < NumPhysPages := fun f hf =>
    List.mem_range.mp (hwhole.frames.mem_iff.mp (List.mem_append_left _ hf))
  have hro : e.noffH.readonlyData.Inside e.noffH.numPages :=
    hin _ (by simp [NoffHeader.loaded])
  obtain ⟨ha', hpages, hmarks⟩ := AddrSpace.load_marks hft hro hload
  have hwrite : ∀ v, e.noffH.Writable v →
      (a'.Writes v .NoException ↔
          ¬ e.noffH.readonlyData.Marks (v / PageSize)) := by
    intro v hv
    rw [AddrSpace.writes_ok ha' (hpages ▸ hv.lt hin), ne_eq, hmarks]
  have hread : ∀ v, e.noffH.readonlyData.Covers v →
      (a'.Writes v .ReadOnlyException ↔
          e.noffH.readonlyData.Marks (v / PageSize)) := by
    intro v hv
    rw [AddrSpace.writes_readOnly ha' (hpages ▸ hro.lt hv), hmarks]
  rw [← Segment.marks_iff hro]
  constructor
  · intro h
    exact ⟨fun v hv => (hread v hv).mp (h.readOnly v hv),
      fun v hv => (hwrite v hv).mp (h.writable v hv)⟩
  · rintro ⟨hall, hnone⟩
    exact ⟨fun v hv => (hread v hv).mpr (hall v hv),
      fun v hv => (hwrite v hv).mpr (hnone v hv)⟩

end

/-! ## Two programs -/

/-- Every segment fills a page. -/
def paged : Executable where
  noffH :=
    ⟨NOFFMAGIC, ⟨0, 52, 128⟩, ⟨256, 308, 128⟩, ⟨128, 180, 128⟩, ⟨0, 0, 0⟩⟩
  contents := List.replicate 436 1

theorem protects_iff_paged :
    ∃ pool a' ft' mem', Pool.run (fun _ => 0) [] = .ok pool ∧
    AddrSpace.new.load (some paged) pool.frameTable pool.mainMemory = .ok (true,
      a', ft', mem') ∧
    (Protects paged.noffH a' ↔ paged.noffH.readonlyData.Covered ∧
      ∀ v, paged.noffH.Writable v →
          ¬ paged.noffH.readonlyData.Marks (v / PageSize)) := by
  have hin : paged.noffH.Inside := by
    simp only [NoffHeader.Inside, NoffHeader.loaded, paged, List.cons_append,
      List.nil_append, List.forall_mem_cons,
      Segment.Inside]
    exact ⟨fun _ => by decide, fun _ => by decide, fun _ => by decide,
      (by rintro ⟨⟩), List.forall_mem_nil _⟩
  obtain ⟨pool, hpool, hmap⟩ := Option.map_eq_some_iff.mp
      (show (Pool.run (fun _ => 0) []).toOption.map (fun pool =>
      (AddrSpace.new.load (some paged) pool.frameTable
          pool.mainMemory).toOption.map (·.1)) = some (some true) by
    decide +kernel)
  obtain ⟨⟨_, a', ft', mem'⟩, hload, rfl⟩ := Option.map_eq_some_iff.mp hmap
  exact ⟨pool, a', ft', mem', Outcome.ok_of_toOption hpool,
    Outcome.ok_of_toOption hload,
    protects_iff (Outcome.ok_of_toOption hpool) hin
      (Outcome.ok_of_toOption hload)⟩

/-- The read only data are at 100 … 159, and data at 0 … 49. -/
def sharing : Executable where
  noffH := ⟨NOFFMAGIC, ⟨160, 162, 40⟩, ⟨0, 52, 50⟩, ⟨100, 102, 60⟩, ⟨0, 0, 0⟩⟩
  contents := List.replicate 202 1

/-- Page 0 is marked: address 128 can be written, and address 0 cannot. -/
theorem load_protects_wrong : sharing.noffH.Inside ∧ sharing.noffH.Layout ∧
    ∃ pool a' ft' mem', Pool.run (fun _ => 0) [] = .ok pool ∧
      AddrSpace.new.load (some sharing) pool.frameTable pool.mainMemory =
        .ok (true, a', ft', mem') ∧
      sharing.noffH.readonlyData.Covers 128 ∧ a'.Writes 128 .NoException ∧
      sharing.noffH.initData.Covers 0 ∧ a'.Writes 0 .ReadOnlyException ∧
          ¬ Protects sharing.noffH a' := by
  have hin : sharing.noffH.Inside := by
    simp only [NoffHeader.Inside, NoffHeader.loaded, sharing, List.cons_append,
      List.nil_append, List.forall_mem_cons,
      Segment.Inside]
    exact ⟨fun _ => by decide, fun _ => by decide, fun _ => by decide,
      (by rintro ⟨⟩), List.forall_mem_nil _⟩
  have hlayout : sharing.noffH.Layout := by
    refine ⟨fun seg hseg => hin seg (List.mem_append_left _ hseg), ?_⟩
    simp only [NoffHeader.loaded, sharing, List.pairwise_cons,
      List.forall_mem_cons, Segment.Covers]
    refine ⟨⟨?_, ?_, List.forall_mem_nil _⟩, ⟨?_, List.forall_mem_nil _⟩,
      List.forall_mem_nil _, .nil⟩ <;>
      intro v <;> omega
  obtain ⟨pool, hpool, hmap⟩ := Option.map_eq_some_iff.mp
      (show (Pool.run (fun _ => 0) []).toOption.map (fun pool =>
      (AddrSpace.new.load (some sharing) pool.frameTable
          pool.mainMemory).toOption.map fun r =>
        (r.1, (r.2.1.translate 128 true).toOption.map (·.1),
          (r.2.1.translate 0 true).toOption.map (·.1))) =
      some (some (true, some .NoException, some .ReadOnlyException)) by
    decide +kernel)
  obtain ⟨⟨_, a', ft', mem'⟩, hload, hwrites⟩ := Option.map_eq_some_iff.mp hmap
  simp only [Prod.mk.injEq, Option.map_eq_some_iff] at hwrites
  obtain ⟨rfl, ⟨⟨_, p, b⟩, hwrite, rfl⟩, ⟨⟨_, p', b'⟩, hwrite', rfl⟩⟩ := hwrites
  refine ⟨hin, hlayout, pool, a', ft', mem', Outcome.ok_of_toOption hpool,
    Outcome.ok_of_toOption hload, by decide,
    ⟨p, b, Outcome.ok_of_toOption hwrite⟩, by
      decide, ⟨p', b', Outcome.ok_of_toOption hwrite'⟩, ?_⟩
  intro h
  obtain ⟨_, _, hread⟩ := h.readOnly 128 (by decide)
  cases (Outcome.ok_of_toOption hwrite).symm.trans hread

end EroikoBlue.MP2
