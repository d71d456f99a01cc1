/-
# `MP2.Multiprogram` — every program runs as if it were alone

`runs_alone` is the statement: whatever the others do, and however their steps
are interleaved, a program has the registers and the memory that it would have
on a machine of its own, after the same acts.

`Good` is the simulation.  For every thread that runs a program it has the
machine on which the program is alone, and says that it is `Alike` to what the
thread has here: the same registers, and through the page table the same memory.
A step of the kernel moves registers about but changes none of a program's; an
act of the current thread is an act of its own machine, and is confined to its
own frames, so that the others see nothing of it; and a program that is loaded
begins as it would alone, in other frames.
-/
import EroikoBlue.MP2.Computer

namespace EroikoBlue.MP2

open Bytes (Byte Word)
open ExceptionType Register Machine
open Lockstep (Steps Results)

/-! ## The invariant -/

namespace Computer

/-- Thread `t` runs a program in address space `s`. -/
def Runs (c : Computer) (t : ThreadId) (s : Nat) : Prop :=
  shown c.kernel.threads t = some (some s, .user)

/-- Every program is where it would be alone. -/
structure Good (c : Computer) : Prop where
  inv : Inv c.kernel
  spaced : ∀ t space, shown c.kernel.threads t = some (space, .user) →
    ∃ s, space = some s
  started : ∀ t, (t = c.kernel.currentThread ∨ ∃ s, c.Runs t s) →
    c.started t = true
  table : ∀ s, c.Runs c.kernel.currentThread s → c.table = some s ∧
    c.pageTableSize = ((c.kernel.spaces[s]?).map (·.numPages)).getD 0
  alone : ∀ t s, c.Runs t s → ∃ e m, c.executables t = some e ∧
    e.runAlone (c.record t) = .ok (m, c.calling t) ∧
    Alike (c.machineOf t s) m

section
variable {c c' : Computer} {t : ThreadId} {s : Nat} {k : Kernel}

theorem Good.machine_eq (h : Good c) (ht : c.Runs c.kernel.currentThread s) :
    c.machine = c.machineOf c.kernel.currentThread s := by
  obtain ⟨htable, hsize⟩ := h.table s ht
  rw [machine, machineOf, htable, hsize, if_pos rfl]
  rfl

/-- A program sees no change in frames that are not its own. -/
theorem alike_kept {m₁ m₁' m₂ : Machine}
    (h : Alike m₁ m₂) (hregisters : m₁'.registers = m₁.registers)
    (htable : m₁'.pageTable = m₁.pageTable)
    (hsize : m₁'.pageTableSize = m₁.pageTableSize) (hmem : ∀ x,
      x / PageSize ∈ m₁.space.frames → m₁'.mainMemory x = m₁.mainMemory x) :
    Alike m₁' m₂ := by
  have hspace : m₁'.space = m₁.space := by
    rw [Machine.space, Machine.space, htable, hsize]
  refine ⟨⟨hspace ▸ h.ready₁.placed, ?_⟩, h.ready₂,
    hregisters.trans h.registers, ?_⟩
  · rw [hregisters]
    exact h.ready₁.load
  · rw [← h.view, Machine.view, Machine.view, hspace]
    exact AddrSpace.view_congr h.ready₁.placed.toMapped hmem

theorem Good.kept (h : Good c) (ht : c.Runs t s)
    (hregisters : (c'.machineOf t s).registers = (c.machineOf t s).registers)
    (hspace : c'.kernel.spaces[s]? = c.kernel.spaces[s]?)
    (hmem : ∀ a, c.kernel.spaces[s]? = some a → ∀ x, x / PageSize ∈ a.frames →
      c'.kernel.mainMemory x = c.kernel.mainMemory x)
    (hexecutable : c'.executables t = c.executables t)
    (hrecord : c'.record t = c.record t)
    (hcalling : c'.calling t = c.calling t) :
    ∃ e m, c'.executables t = some e ∧ e.runAlone (c'.record t) = .ok (m,
        c'.calling t) ∧ Alike (c'.machineOf t s) m := by
  obtain ⟨e, m, he, hrun, halike⟩ := h.alone t s ht
  refine ⟨e, m, hexecutable.trans he, by rw [hrecord, hcalling]; exact hrun, ?_⟩
  have hs : s < c.kernel.spaces.length := h.inv.made t s _ ht
  have hfind : c.kernel.spaces[s]? = some c.kernel.spaces[s] :=
    List.getElem?_eq_getElem hs
  refine alike_kept halike hregisters ?_ ?_ fun x hx => ?_
  · rw [machineOf, machineOf, hspace]
  · rw [machineOf, machineOf, hspace]
  · refine hmem _ hfind x ?_
    rw [Machine.space, machineOf, hfind] at hx
    exact hx

/-! ## Steps of the kernel -/

theorem spaceOf_eq {space : Option Nat} {code : Code}
    (h : shown k.threads t = some (space, code)) :
    spaceOf k t = space := by
  rw [shown] at h
  rw [spaceOf]
  cases hth : k.threads t with
  | none =>
      rw [hth] at h
      cases h
  | some th =>
      rw [hth] at h
      cases h
      rfl

theorem code_eq {space : Option Nat} {code : Code} (hsleep : k.sleeping = none)
    (h : shown k.threads k.currentThread = some (space, code)) :
    k.code = some code := by
  obtain ⟨th, hth, hshown⟩ := Option.map_eq_some_iff.mp h
  rw [Kernel.code, if_pos hsleep, hth, Option.map_some, (Prod.mk.inj hshown).2]

theorem saved_eq (ht : c.Runs t s) :
    c.saved t = (c.machineOf t s).registers := by
  rw [saved, machineOf]
  by_cases hcur : t = c.kernel.currentThread
  · subst hcur
    rw [spaceOf_eq ht, if_pos Option.isSome_some]
    exact (if_pos rfl).trans (if_pos rfl).symm
  · refine Eq.trans ?_ (if_neg hcur).symm
    split
    · exact if_neg hcur
    · rfl

theorem Good.switched (h : Good c) (hinv : Inv k) (hk : Leaves c.kernel k) :
    Good (c.switch k) := by
  have hback : ∀ {t s}, shown k.threads t = some (some s, .user) → c.Runs t s :=
    fun ht => hk.users _ _ ht
  have hspace : ∀ {t s}, c.Runs t s → k.spaces[s]? = c.kernel.spaces[s]? :=
    fun ht => hk.spaces _ (h.inv.made _ _ _ ht)
  have hspaced : ∀ t space, shown k.threads t = some (space, .user) →
      ∃ s, space = some s :=
    fun t space ht => h.spaced t space (hk.users t space ht)
  rw [switch]
  split
  · next hsame =>
      constructor
      case inv => exact hinv
      case spaced => exact hspaced
      case started =>
        rintro t (rfl | ⟨s, ht⟩)
        · exact h.started _ (.inl hsame)
        · exact h.started t (.inr ⟨s, hback ht⟩)
      case table =>
        intro s ht
        have ht' : c.Runs c.kernel.currentThread s := hsame ▸ hback ht
        obtain ⟨htable, hsize⟩ := h.table s ht'
        exact ⟨htable, by rw [hspace ht']; exact hsize⟩
      case alone =>
        intro t s ht
        refine h.kept (hback ht) ?_ (hspace (hback ht))
          (fun _ _ x _ => congrFun hk.memory x) rfl rfl rfl
        rw [machineOf, machineOf]
        dsimp only
        rw [hsame]
  · next hdiff =>
      have hstarted : ∀ t, (t = k.currentThread ∨ ∃ s,
          shown k.threads t = some (some s, .user)) →
          set c.started k.currentThread true t = true := by
        rintro t (rfl | ⟨s, ht⟩)
        · exact if_pos rfl
        · rw [set]
          split
          · rfl
          · exact h.started t (.inr ⟨s, hback ht⟩)
      dsimp only
      split
      · next hnone =>
          have hnext : ∀ s, shown k.threads k.currentThread ≠ some (some s,
              .user) := by
            intro s ht
            rw [h.started _ (.inr ⟨s, hback ht⟩), if_pos rfl,
              spaceOf_eq ht] at hnone
            cases hnone
          constructor
          case inv => exact hinv
          case spaced => exact hspaced
          case started => exact hstarted
          case table => exact fun s ht => absurd ht (hnext s)
          case alone =>
            intro t s ht
            refine h.kept (hback ht) ?_ (hspace (hback ht))
              (fun _ _ x _ => congrFun hk.memory x) rfl rfl rfl
            refine (if_neg ?_).trans (saved_eq (hback ht))
            rintro rfl
            exact hnext s ht
      · next s' hsome =>
          constructor
          case inv => exact hinv
          case spaced => exact hspaced
          case started => exact hstarted
          case table =>
            intro s ht
            rw [h.started _ (.inr ⟨s, hback ht⟩), if_pos rfl,
              spaceOf_eq ht] at hsome
            cases hsome
            exact ⟨rfl, rfl⟩
          case alone =>
            intro t s ht
            refine h.kept (hback ht) ?_ (hspace (hback ht))
              (fun _ _ x _ => congrFun hk.memory x) rfl rfl rfl
            refine Eq.trans ?_ (saved_eq (hback ht))
            show ite _ _ _ = _
            dsimp only
            split
            · next hcur => rw [hcur]
            · rfl

/-! ## A program is loaded -/

/-- What `ForkExecute` does. -/
structure Forks (k k' : Kernel) (executable : Option Executable) (s : Nat)
    (a a' : AddrSpace) (loaded : Bool) : Prop where
  found : shown k.threads k.currentThread = some (some s, .forkExecute)
  before : k.spaces[s]? = some a
  load : a.load executable k.frameTable k.mainMemory = .ok (loaded, a',
    k'.frameTable, k'.mainMemory)
  self : shown k'.threads k.currentThread = some (some s, if loaded then .user
    else .threadFinish)
  others : ∀ t, t ≠ k.currentThread → shown k'.threads t = shown k.threads t
  spaces : k'.spaces = k.spaces.set s a'
  currentThread : k'.currentThread = k.currentThread
  sleeping : k'.sleeping = none

theorem forkExecute_forks {k' : Kernel}
    {executable : Option Executable} (hcode : k.code = some .forkExecute)
    (hrun : k.forkExecute executable = .ok k') :
    ∃ s a a' loaded, Forks k k' executable s a a' loaded := by
  rw [Kernel.forkExecute] at hrun
  split at hrun
  · cases hrun
  next th hth =>
  split at hrun
  · cases hrun
  next s hs =>
  split at hrun
  · cases hrun
  next a ha =>
  obtain ⟨⟨loaded, a', ft', mem'⟩, hload, hrun⟩ := Outcome.bind_eq_ok.mp hrun
  cases hrun
  rw [Kernel.code, hth] at hcode
  split at hcode
  · next hsleep =>
      have hcode : th.code = .forkExecute := Option.some.inj hcode
      refine ⟨s, a, a', loaded, ?_, ha, hload, ?_, fun t ht => ?_, rfl,
        rfl, hsleep⟩
      · rw [shown, hth, Option.map_some, hs, hcode]
      · dsimp only [shown, Threads.modify]
        rw [if_pos rfl, hth, Option.map_some, Option.map_some, hs]
      · dsimp only [shown, Threads.modify]
        rw [if_neg ht]
  · cases hcode

theorem Inv.free (h : Inv k) : k.frameTable.available.Nodup ∧
    ∀ f ∈ k.frameTable.available, f < NumPhysPages :=
  ⟨(List.nodup_append.mp h.frames.nodup).1, fun _ hf =>
    List.mem_range.mp (h.frames.mem_iff.mp (List.mem_append_left _ hf))⟩

theorem boot_eq {e : Executable}
    {loaded : Bool} {a : AddrSpace} {ft : FrameTable} {mem : Memory}
    (h : e.loadAlone = .ok (loaded, a, ft, mem)) :
    e.boot = .ok (⟨initRegisters a.numPages, mem, a.pageTable, a.numPages⟩,
        false) := by
  rw [Executable.boot, h]
  rfl

theorem initRegisters_load (numPages : Nat) :
    (initRegisters numPages LoadReg).toNat < NumGPRegs := by
  show (0 : Word).toNat < NumGPRegs
  decide

/-- A program that was loaded is where it would be alone. -/
theorem boot_alike {e : Executable} {a a' : AddrSpace} {ft ft' : FrameTable}
    {mem mem' : Memory} {loaded : Bool} (hnodup : ft.available.Nodup)
    (hft : ∀ f ∈ ft.available, f < NumPhysPages) (hal : e.Aligned)
    (hrun : a.load (some e) ft mem = .ok (loaded, a', ft', mem')) :
    (∃ m, e.boot = .ok (m, false) ∧
        Alike ⟨initRegisters a'.numPages, mem', a'.pageTable, a'.numPages⟩ m) ∧
      ∀ x, x / PageSize ∉ ft.available → mem' x = mem x := by
  obtain ⟨a₂, ft₂, mem₂, halone, htwin⟩ :=
    AddrSpace.load_alone hnodup hft hal hrun
  have hpages : a'.numPages = a₂.numPages := congrArg View.numPages htwin.view
  refine ⟨⟨_, boot_eq halone, ⟨htwin.placed₁, initRegisters_load a'.numPages⟩,
    ⟨htwin.placed₂, initRegisters_load a₂.numPages⟩, ?_, htwin.view⟩,
      fun x hx => ?_⟩
  · exact congrArg initRegisters hpages
  · exact htwin.memory x fun hmem => hx (List.mem_of_mem_take hmem)

theorem Inv.taken {a : AddrSpace} {x : Nat} (h : Inv k)
    (ha : k.spaces[s]? = some a) (hx : x ∈ a.frames) :
    x ∉ k.frameTable.available := fun hfree =>
  (List.nodup_append.mp h.frames.nodup).2.2 x hfree x
    (List.mem_flatMap.mpr ⟨a, List.mem_of_getElem? ha, hx⟩) rfl

theorem Good.loaded (h : Good c)
    {executable : Option Executable} (hcode : c.kernel.code = some .forkExecute)
    (hal : ∀ e ∈ executable, e.Aligned)
    (hrun : c.kernel.forkExecute executable = .ok k) :
    Good (execute { c with kernel := k } executable) := by
  have hinv : Inv k := h.inv.step (.forkExecute executable) hcode hrun
  obtain ⟨s, a, a', loaded, hf⟩ := forkExecute_forks hcode hrun
  obtain ⟨hnodup, hft⟩ := Inv.free h.inv
  have hs : s < c.kernel.spaces.length := h.inv.made _ _ _ hf.found
  have hload := hf.load
  cases loaded with
  | false =>
      -- there is no program, and nothing has changed
      have hnone : executable = none := by
        cases executable with
        | none => rfl
        | some e => cases (AddrSpace.load_some hft hload).1
      subst hnone
      have hself : shown k.threads k.currentThread = some (some s,
        .threadFinish) := hf.currentThread ▸ hf.self
      obtain ⟨-, ha, -, hmem⟩ : false = false ∧ a = a' ∧
          c.kernel.frameTable = k.frameTable ∧
          c.kernel.mainMemory = k.mainMemory := by
            simpa [AddrSpace.load] using hload
      have hleaves : Leaves c.kernel k := by
        refine ⟨hmem.symm, fun s' _ => ?_, fun t space ht => ?_⟩
        · rw [hf.spaces, List.getElem?_set]
          split
          · next heq => rw [← heq, hf.before, ha]
          · rfl
        · rcases eq_or_ne t c.kernel.currentThread with rfl | hne
          · cases hf.self.symm.trans ht
          · exact (hf.others t hne).symm.trans ht
      have hgood := h.switched hinv hleaves
      rw [switch, if_pos hf.currentThread] at hgood
      rw [execute, code_eq hf.sleeping hself]
      exact hgood
  | true =>
      obtain ⟨e, rfl⟩ : ∃ e, executable = some e := by
        cases executable with
        | none => cases hload
        | some e => exact ⟨e, rfl⟩
      have hself : shown k.threads k.currentThread = some (some s, .user) :=
        hf.currentThread ▸ hf.self
      obtain ⟨⟨m, hboot, halike⟩, hmem⟩ :=
        boot_alike hnodup hft (hal e rfl) hload
      have hfind : k.spaces[s]? = some a' := by
        rw [hf.spaces]
        exact List.getElem?_set_self hs
      have hback : ∀ {t s'}, t ≠ k.currentThread →
          shown k.threads t = some (some s', .user) → c.Runs t s' :=
        fun hne ht => (hf.others _ (hf.currentThread ▸ hne)).symm.trans ht
      rw [execute, code_eq hf.sleeping hself, spaceOf_eq hself]
      dsimp only
      rw [hfind]
      constructor
      case inv => exact hinv
      case spaced =>
        intro t space ht
        rcases eq_or_ne t k.currentThread with rfl | hne
        · cases hself.symm.trans ht
          exact ⟨s, rfl⟩
        · exact h.spaced t space
            ((hf.others t (hf.currentThread ▸ hne)).symm.trans ht)
      case started =>
        rintro t (rfl | ⟨s', ht⟩)
        · exact h.started _ (.inl hf.currentThread)
        · rcases eq_or_ne t k.currentThread with rfl | hne
          · exact h.started _ (.inl hf.currentThread)
          · exact h.started t (.inr ⟨s', hback hne ht⟩)
      case table =>
        intro s' ht
        cases hself.symm.trans ht
        exact ⟨rfl, by rw [hfind]⟩
      case alone =>
        intro t s' ht
        rcases eq_or_ne t k.currentThread with rfl | hne
        · cases hself.symm.trans ht
          refine ⟨e, m, set_self, ?_, alike_kept halike (if_pos rfl) ?_ ?_
            fun _ _ => rfl⟩
          · dsimp only
            rw [set_self, set_self, Executable.runAlone, hboot]
            rfl
          · rw [machineOf]
            dsimp only
            rw [hfind]
            rfl
          · rw [machineOf]
            dsimp only
            rw [hfind]
            rfl
        · have hne' : t ≠ c.kernel.currentThread := hf.currentThread ▸ hne
          have hspace : s ≠ s' := by
            rintro rfl
            exact hne' (h.inv.unique _ _ _ _ _ (hback hne ht) hf.found)
          refine h.kept (hback hne ht) ((if_neg hne).trans (if_neg hne').symm)
            ?_ ?_ (set_other hne) (set_other hne)
            (set_other hne)
          · show k.spaces[s']? = _
            rw [hf.spaces, List.getElem?_set_ne hspace]
          · exact fun b hb x hx => hmem x (Inv.taken h.inv hb hx)

/-! ## A program acts -/

theorem Inv.flags {a a' : AddrSpace}
    (h : Inv k) (ht : shown k.threads t = some (some s, .user))
    (ha : k.spaces[s]? = some a) (hframes : a'.frames = a.frames)
    (htable : ∀ ptb, a'.pageTable = some ptb → ptb.length = a'.numPages)
    (mem : Memory) :
    Inv { k with mainMemory := mem, spaces := k.spaces.set s a' } where
  frames := h.frames.set ha (.of_eq (congrArg (_ ++ ·) hframes))
  tables := by
    intro b hb ptb hptb
    rcases List.mem_or_eq_of_mem_set hb with hb | rfl
    · exact h.tables b hb ptb hptb
    · exact htable ptb hptb
  fresh := by
    intro x s' b hx hb
    rcases eq_or_ne s s' with rfl | hne
    · have heq := h.unique _ _ _ _ _ hx ht
      subst heq
      cases hx.symm.trans ht
    · exact h.fresh x s' b hx ((List.getElem?_set_ne hne).symm.trans hb)
  unique := h.unique
  made :=
    fun x s' code hx => (h.made x s' code hx).trans_eq (List.length_set ..).symm
  owned := fun s' hs' => h.owned s' (hs'.trans_eq (List.length_set ..))
  ids := h.ids
  toBeDestroyed := h.toBeDestroyed

theorem runAlone_append (e : Executable) (acts : List Act) (act : Act) :
    e.runAlone (acts ++ [act]) = (do
      let s ← e.runAlone acts
      act.run s) := by
  rw [Executable.runAlone, Executable.runAlone, bind_assoc]
  refine bind_congr fun s => ?_
  rw [List.foldlM_append]
  refine bind_congr fun s => ?_
  rw [List.foldlM_cons]
  exact bind_pure _

theorem mayWrite_frames {m : Machine} {x : Nat} (hm : m.Ready)
    (h : m.MayWrite x) : x / PageSize ∈ m.space.frames := by
  obtain ⟨v, hv, rfl, _⟩ := h
  have hvpn := @AddrSpace.page_lt m.space v hv hm.placed.toMapped
  rw [AddrSpace.paddr_page hvpn]
  exact List.getElem_mem hvpn

theorem Good.acts (h : Good c) {act : Act}
    {r : Machine × Bool} (ht : c.Runs c.kernel.currentThread s)
    (hrun : act.run (c.machine, c.calling c.kernel.currentThread) = .ok r) :
    Good (c.put act r) := by
  obtain ⟨e, m, he, halone, halike⟩ := h.alone _ s ht
  obtain ⟨htable, hsize⟩ := h.table s ht
  have hs : s < c.kernel.spaces.length := h.inv.made _ _ _ ht
  have hfind : c.kernel.spaces[s]? = some c.kernel.spaces[s] :=
    List.getElem?_eq_getElem hs
  rw [h.machine_eq ht] at hrun
  have hstays := Act.run_stays halike.ready₁ hrun
  have hboth := Act.run_alike act halike (c.calling c.kernel.currentThread)
  rw [hrun] at hboth
  cases hact : act.run (m, c.calling c.kernel.currentThread) with
  | error f =>
      rw [hact] at hboth
      exact hboth.elim
  | ok r₂ =>
  rw [hact] at hboth
  obtain ⟨halike', hcalling⟩ := hboth
  -- the address space with the flags of the machine
  obtain ⟨a, ha⟩ : ∃ a, c.kernel.spaces[s]? = some a := ⟨_, hfind⟩
  let a' : AddrSpace := { a with pageTable := r.1.pageTable }
  have hspace : (c.machineOf c.kernel.currentThread s).space = a := by
    rw [Machine.space, machineOf, ha]
    rfl
  have hpages : (c.machineOf c.kernel.currentThread s).pageTableSize =
    a.numPages := congrArg AddrSpace.numPages hspace
  have hframes : a'.frames = a.frames :=
    hstays.frames.trans (congrArg AddrSpace.frames hspace)
  have hlength : ∀ ptb, a'.pageTable = some ptb → ptb.length = a'.numPages := by
    intro ptb hptb
    obtain ⟨ptb', hptb', hlen⟩ := hstays.ready.placed.table
    cases hptb'.symm.trans hptb
    exact hlen.trans (hstays.size.trans hpages)
  have hkernel : (c.put act r).kernel = { c.kernel with
      mainMemory := r.1.mainMemory, spaces := c.kernel.spaces.set s a' } := by
    rw [put, htable]
    dsimp only
    rw [List.modify_eq_set_getElem?, ha]
    rfl
  have hspaces : (c.put act r).kernel.spaces = c.kernel.spaces.set s a' := by
    rw [hkernel]
  have hset : (c.put act r).kernel.spaces[s]? = some a' := by
    rw [hspaces]
    exact List.getElem?_set_self hs
  constructor
  case inv =>
    rw [hkernel]
    exact Inv.flags h.inv ht ha hframes hlength _
  case spaced => exact h.spaced
  case started => exact h.started
  case table =>
    intro s' ht'
    cases ht.symm.trans ht'
    refine ⟨htable, ?_⟩
    rw [hset]
    exact hsize.trans (by rw [ha]; rfl)
  case alone =>
    intro t s' ht'
    rcases eq_or_ne t c.kernel.currentThread with rfl | hne
    · cases ht.symm.trans ht'
      refine ⟨e, r₂.1, he, ?_, alike_kept halike' (if_pos rfl) ?_ ?_
        fun _ _ => rfl⟩
      · rw [put]
        dsimp only
        rw [set_self, set_self, runAlone_append, halone, Outcome.ok_bind,
          hact, hcalling]
      · rw [machineOf, hset]
        rfl
      · rw [machineOf, hset]
        exact hpages.symm.trans hstays.size.symm
    · have hdiff : s ≠ s' := by
        rintro rfl
        exact hne (h.inv.unique _ _ _ _ _ ht' ht)
      refine h.kept ht' ((if_neg hne).trans (if_neg hne).symm) ?_ ?_ rfl
        (set_other hne) (set_other hne)
      · rw [hspaces, List.getElem?_set_ne hdiff]
      · intro b hb x hx
        refine hstays.memory x fun hwrite => ?_
        have hmem := mayWrite_frames halike.ready₁ hwrite
        rw [hspace] at hmem
        exact h.inv.frames.disjoint ha hb hdiff hmem hx

theorem delayedLoad_kept (m : Machine) (nextReg : BitVec 5) (nextValue : Word) :
    (Outcome.final (delayedLoad nextReg nextValue m)).mainMemory =
      m.mainMemory ∧
      (Outcome.final (delayedLoad nextReg nextValue m)).pageTable =
        m.pageTable := by
  rw [delayedLoad, Outcome.bind_of_ok
    (show register LoadReg m = .ok (m.registers LoadReg) m from rfl)]
  split
  · exact ⟨rfl, rfl⟩
  · exact ⟨rfl, rfl⟩

theorem put_kernel {act : Act}
    {r : Machine × Bool} (hmem : r.1.mainMemory = c.machine.mainMemory)
    (htable : r.1.pageTable = c.machine.pageTable) :
    (c.put act r).kernel = c.kernel := by
  have hspaces : (c.put act r).kernel.spaces = c.kernel.spaces := by
    rw [put, htable, machine]
    dsimp only
    split
    · rfl
    · next i hi =>
        rw [hi]
        refine List.ext_getElem? fun j => ?_
        rw [List.getElem?_modify]
        cases ha : c.kernel.spaces[j]? with
        | none => rfl
        | some a =>
            show some (if i = j then _ else a) = some a
            split
            · next heq =>
                subst heq
                rw [Option.bind_some, ha]
                rfl
            · rfl
  calc (c.put act r).kernel
      = { c.kernel with mainMemory := r.1.mainMemory, spaces := (c.put act r).kernel.spaces } := rfl
    _ = { c.kernel with mainMemory := c.machine.mainMemory, spaces := c.kernel.spaces } := by rw [hmem, hspaces]
    _ = c.kernel := rfl

theorem Good.interrupted (h : Good c)
    {r : Machine × Bool} (hnone : ∀ s, ¬ c.Runs c.kernel.currentThread s)
    (hrun : Act.interrupt.run (c.machine, c.calling c.kernel.currentThread) =
      .ok r) : Good (c.put .interrupt r) := by
  obtain ⟨hmem, htable⟩ := delayedLoad_kept c.machine 0 0
  have hkernel : (c.put .interrupt r).kernel = c.kernel := by
    rw [← ends_final hrun] at hmem htable
    exact put_kernel hmem htable
  constructor
  case inv => exact hkernel ▸ h.inv
  case spaced => exact h.spaced
  case started => exact h.started
  case table => exact fun s ht => absurd ht (hnone s)
  case alone =>
    intro t s ht
    have hne : t ≠ c.kernel.currentThread := by
      rintro rfl
      exact hnone s ht
    refine h.kept ht ((if_neg hne).trans (if_neg hne).symm) ?_ ?_ rfl
      (set_other hne) (set_other hne)
    · rw [hkernel]
    · intro _ _ x _
      rw [hkernel]

theorem Good.step (h : Good c) (e : Event) (hallowed : e.Allowed c)
    (hrun : e.run c = .ok c') : Good c' := by
  cases e with
  | kernel op =>
      obtain ⟨k, hop, hpure⟩ := Outcome.bind_eq_ok.mp hrun
      cases hpure
      exact h.switched (h.inv.step op hallowed.1 hop)
        (hallowed.2.leaves h.inv hop)
  | forkExecute executable =>
      obtain ⟨k, hfork, hpure⟩ := Outcome.bind_eq_ok.mp hrun
      cases hpure
      exact h.loaded hallowed.1 hallowed.2 hfork
  | user act =>
      obtain ⟨r, hact, hpure⟩ := Outcome.bind_eq_ok.mp hrun
      cases hpure
      by_cases hruns : ∃ s, c.Runs c.kernel.currentThread s
      · obtain ⟨s, ht⟩ := hruns
        exact h.acts ht hact
      · have hnone : ∀ s, ¬ c.Runs c.kernel.currentThread s :=
          fun s ht => hruns ⟨s, ht⟩
        have hcode : c.kernel.code ≠ some .user := by
          intro hcode
          rw [Kernel.code] at hcode
          split at hcode
          · obtain ⟨th, hth, huser⟩ := Option.map_eq_some_iff.mp hcode
            have hshown : shown c.kernel.threads c.kernel.currentThread =
                some (th.space, .user) := by
              rw [shown, hth, Option.map_some, huser]
            obtain ⟨s, hs⟩ := h.spaced _ _ hshown
            rw [hs] at hshown
            exact hnone s hshown
          · cases hcode
        cases act with
        | instruction => exact absurd hallowed.1 hcode
        | interrupt => exact h.interrupted hnone hact
        | sysReturn => exact absurd hallowed.1 hcode

theorem start_good {mem : Memory} (hrun : Kernel.boot mem = .ok k) :
    Good (start k) := by
  have hinv := boot_inv hrun
  have hnone : ∀ t space, shown k.threads t ≠ some (space, .user) := by
    rw [Kernel.boot, FrameTable.new_ok] at hrun
    cases hrun
    intro t space ht
    rw [shown] at ht
    dsimp only at ht
    split at ht
    · cases ht
    · cases ht
  have hcurrent : k.currentThread = 0 := by
    rw [Kernel.boot, FrameTable.new_ok] at hrun
    cases hrun
    rfl
  constructor
  case inv => exact hinv
  case spaced => exact fun t space ht => absurd ht (hnone t space)
  case started =>
    rintro t (rfl | ⟨s, ht⟩)
    · exact decide_eq_true hcurrent
    · exact absurd ht (hnone t _)
  case table => exact fun s ht => absurd ht (hnone _ _)
  case alone => exact fun t s ht => absurd ht (hnone t _)

theorem Reachable.good (h : Reachable c) : Good c := by
  induction h with
  | start hrun => exact start_good hrun
  | step _ e hallowed hrun ih => exact ih.step e hallowed hrun

/-- Each program has the registers and the memory it would have alone. -/
theorem runs_alone (h : Reachable c) (ht : c.Runs t s) :
    (t = c.kernel.currentThread → c.machine = c.machineOf t s) ∧
      ∃ e m, c.executables t = some e ∧
      e.runAlone (c.record t) = .ok (m, c.calling t) ∧
      (c.machineOf t s).registers = m.registers ∧
      (c.machineOf t s).view = m.view := by
  obtain ⟨e, m, he, hrun, halike⟩ := h.good.alone t s ht
  refine ⟨?_, e, m, he, hrun, halike.registers, halike.view⟩
  rintro rfl
  exact h.good.machine_eq ht

/-! ## Two programs that take turns -/

instance (c : Computer) : (e : Event) → Decidable (e.Allowed c)
  | .kernel op => inferInstanceAs (Decidable (op.Allowed c.kernel ∧ op.Kernels))
  | .forkExecute executable =>
    inferInstanceAs (Decidable ((Op.forkExecute executable).Allowed c.kernel ∧
      ∀ e ∈ executable, e.Aligned))
  | .user .instruction =>
    inferInstanceAs (Decidable (c.kernel.code = some .user ∧
      c.calling c.kernel.currentThread = false))
  | .user .interrupt => .isTrue trivial
  | .user .sysReturn => inferInstanceAs (Decidable (c.kernel.code = some .user ∧
      c.calling c.kernel.currentThread = true ∧
        (c.registers 2 = SC_PrintInt ∨ c.registers 2 = SC_Add)))

def steps (c : Computer) : List Event → Option Computer
  | [] => some c
  | e :: es =>
    if e.Allowed c then
      match e.run c with
      | .ok c' => steps c' es
      | .error _ => none
    else none

theorem Reachable.steps : ∀ {es : List Event} {c c' : Computer}, Reachable c →
    c.steps es = some c' → Reachable c'
  | [], _, _, h, hrun => Option.some.inj hrun ▸ h
  | e :: es, c, c', h, hrun => by
      rw [Computer.steps] at hrun
      split at hrun
      · next hallowed =>
          split at hrun
          · next c₁ he => exact (h.step e hallowed he).steps hrun
          · cases hrun
      · cases hrun

end

/-- `ADDIU r2, r0, 16` and `SYSCALL`: it prints register 4. -/
def printer : Executable where
  noffH := ⟨NOFFMAGIC, ⟨0, 0, 8⟩, ⟨0, 0, 0⟩, ⟨0, 0, 0⟩, ⟨0, 0, 0⟩⟩
  contents := [0x10, 0x00, 0x02, 0x24, 0x0c, 0x00, 0x00, 0x00]

/-- Two programs take turns; the second is in a system call while the first goes
on. -/
def turns : List Event :=
  [.kernel .exec, .kernel .exec, .kernel .yield, .forkExecute (some program),
  .user .instruction, .user .interrupt, .kernel .yield, .forkExecute
    (some printer), .user .instruction,
  .user .instruction, .kernel .yield, .kernel .yield, .user .instruction,
    .kernel .yield, .user .sysReturn]

/-- The second thread after that. -/
theorem turns_alone : ∃ c, (start booted).steps turns = some c ∧
    (2 = c.kernel.currentThread → c.machine = c.machineOf 2 1) ∧
      ∃ e m, c.executables 2 = some e ∧
      e.runAlone (c.record 2) = .ok (m, c.calling 2) ∧
      (c.machineOf 2 1).registers = m.registers ∧
      (c.machineOf 2 1).view = m.view := by
  have hsome : ((start booted).steps turns).map
      (fun c => shown c.kernel.threads 2) = some (some (some 1, .user)) := by
    decide +kernel
  obtain ⟨c, hrun, hshown⟩ := Option.map_eq_some_iff.mp hsome
  have hboot : Kernel.boot (fun _ => 0) = .ok booted := by
    rw [Kernel.boot, FrameTable.new_ok]
    rfl
  exact ⟨c, hrun, runs_alone ((Reachable.start hboot).steps hrun) hshown⟩

end Computer

end EroikoBlue.MP2
