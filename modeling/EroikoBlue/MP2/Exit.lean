/-
# `MP2.Exit` — what is left when a process exits

    Same, Deletes, Makes, Loads   all that a step can do to the threads and
                                  their address spaces
    Inv                           the frames of the address spaces, with those
                                  that are free, are all there are; each has
                                  one owner
    Reclaimed                     the frames of a deleted thread are free again

`~AddrSpace` is where the frames are released, and `~Thread` does not delete
`space`.  `exit_reclaims_iff` says when this is not seen: when no thread that
was deleted had ever loaded a program.  The run at the end is the shortest one
where it is: one program exits, and ten frames are gone.
-/
import EroikoBlue.MP2.Process

namespace EroikoBlue.MP2

open Bytes (Byte int32)

/-! ## What a step does to threads and address spaces -/

/-- The address space of a thread, and its code. -/
def shown (T : ThreadId → Option Thread) (t : ThreadId) :
    Option (Option Nat × Code) :=
  (T t).map fun th => (th.space, th.code)

/-- Only statuses, the ready list and what runs have changed. -/
structure Same (k k' : Kernel) : Prop where
  shown : shown k'.threads = shown k.threads
  threadNum : k'.threadNum = k.threadNum
  spaces : k'.spaces = k.spaces
  frameTable : k'.frameTable = k.frameTable
  deleted : k'.deleted = k.deleted
  toBeDestroyed : k'.toBeDestroyed = none

/-- All that has changed besides is that a thread was deleted. -/
structure Deletes (k k' : Kernel) (t : ThreadId) (th : Thread) : Prop where
  found : shown k.threads t = some (th.space, th.code)
  shown : ∀ x, shown k'.threads x = if x = t then none else shown k.threads x
  threadNum : k'.threadNum = k.threadNum
  spaces : k'.spaces = k.spaces
  frameTable : k'.frameTable = k.frameTable
  deleted : k'.deleted = k.deleted ++ [th]
  toBeDestroyed : k'.toBeDestroyed = none

/-- A thread was made, with an address space of its own. -/
structure Makes (k k' : Kernel) : Prop where
  shown : ∀ x, shown k'.threads x =
    if x = k.threadNum then some (some k.spaces.length, .forkExecute)
      else shown k.threads x
  threadNum : k'.threadNum = k.threadNum + 1
  spaces : k'.spaces = k.spaces ++ [.new]
  frameTable : k'.frameTable = k.frameTable
  deleted : k'.deleted = k.deleted
  toBeDestroyed : k'.toBeDestroyed = k.toBeDestroyed

/-- The current thread has called `Load`. -/
structure Loads (k k' : Kernel) (s : Nat) (a a' : AddrSpace)
    (code : Code) : Prop where
  found : shown k.threads k.currentThread = some (some s, .forkExecute)
  before : k.spaces[s]? = some a
  left : code ≠ .forkExecute
  shown : ∀ x, shown k'.threads x = if x = k.currentThread then
    some (some s, code) else shown k.threads x
  threadNum : k'.threadNum = k.threadNum
  spaces : k'.spaces = k.spaces.set s a'
  frames : (k'.frameTable.available ++ a'.frames).Perm
    (k.frameTable.available ++ a.frames)
  table : ∀ ptb, a'.pageTable = some ptb → ptb.length = a'.numPages
  deleted : k'.deleted = k.deleted
  toBeDestroyed : k'.toBeDestroyed = k.toBeDestroyed

/-- A switch to another thread. -/
def Switched (k k' : Kernel) : Prop := Same k k' ∨ ∃ t th, Deletes k k' t th

section
variable {k k' : Kernel} {t : ThreadId} {finishing : Bool}

theorem shown_modify {T : ThreadId → Option Thread} {f : Thread → Thread}
    (hf : ∀ th, (f th).space = th.space ∧ (f th).code = th.code) :
    shown (Threads.modify T t f) = shown T := by
  funext x
  rw [shown, Threads.modify]
  split
  · next hx =>
      subst hx
      rw [Option.map_map]
      exact congrArg (Option.map · (T x))
        (funext fun th => Prod.ext (hf th).1 (hf th).2)
  · rfl

namespace Kernel

theorem setStatus_eq {status : ThreadStatus}
    (hrun : k.setStatus t status = .ok k') :
    ∃ T, k' = { k with threads := T } ∧ shown T = shown k.threads := by
  rw [setStatus] at hrun
  split at hrun
  · cases hrun
  · cases hrun
    exact ⟨_, rfl, shown_modify fun _ => ⟨rfl, rfl⟩⟩

theorem readyToRun_eq (hrun : k.readyToRun t = .ok k') :
    ∃ T l, k' = { k with threads := T, readyList := l } ∧
      shown T = shown k.threads := by
  obtain ⟨_, hstatus, hrun⟩ := Outcome.bind_eq_ok.mp hrun
  obtain ⟨l, _, hrun⟩ := Outcome.bind_eq_ok.mp hrun
  obtain ⟨T, rfl, hshown⟩ := setStatus_eq hstatus
  cases hrun
  exact ⟨T, l, rfl, hshown⟩

theorem deleteThread_eq (hrun : k.deleteThread t = .ok k') :
    ∃ th, k.threads t = some th ∧
    k' = { k with threads := fun x => if x = t then none else k.threads x, deleted := k.deleted ++ [th] } := by
  rw [deleteThread] at hrun
  split at hrun
  · cases hrun
  · next th hth =>
      obtain ⟨_, _, hrun⟩ := Outcome.bind_eq_ok.mp hrun
      cases hrun
      exact ⟨th, hth, rfl⟩

end Kernel

theorem Same.switched {k₁ : Kernel} (h : Same k k₁) : Switched k₁ k' →
    Switched k k'
  | .inl h' => .inl ⟨h'.shown.trans h.shown, h'.threadNum.trans h.threadNum,
        h'.spaces.trans h.spaces,
      h'.frameTable.trans h.frameTable, h'.deleted.trans h.deleted,
        h'.toBeDestroyed⟩
  | .inr ⟨t, th, h'⟩ => .inr ⟨t, th, h.shown ▸ h'.found, h.shown ▸ h'.shown,
        h'.threadNum.trans h.threadNum,
      h'.spaces.trans h.spaces, h'.frameTable.trans h.frameTable,
        h.deleted ▸ h'.deleted, h'.toBeDestroyed⟩

namespace Kernel

theorem run_switched (h : k.toBeDestroyed = none) (hrun : k.run t finishing = .ok k') : Switched k k' := by
  obtain ⟨_, _, hrun⟩ := Outcome.bind_eq_ok.mp hrun
  obtain ⟨_, hstatus, hrun⟩ := Outcome.bind_eq_ok.mp hrun
  obtain ⟨T, rfl, hT⟩ := setStatus_eq hstatus
  cases finishing with
  | false =>
      rw [checkToBeDestroyed] at hrun
      simp only [Bool.false_eq_true, if_false, h] at hrun
      cases hrun
      exact .inl ⟨hT, rfl, rfl, rfl, rfl, rfl⟩
  | true =>
      obtain ⟨_, hdelete, hrun⟩ := Outcome.bind_eq_ok.mp hrun
      obtain ⟨th, hth, rfl⟩ := deleteThread_eq hdelete
      cases hrun
      have hfound : T k.currentThread = some th := hth
      refine .inr ⟨k.currentThread, th, ?_, ?_, rfl, rfl, rfl, rfl, rfl⟩
      · rw [← hT, shown, hfound]
        rfl
      · intro x
        rw [← hT, shown]
        dsimp only
        split
        · rfl
        · rfl

theorem sleepLoop_switched (h : k.toBeDestroyed = none)
    (hrun : k.sleepLoop finishing = .ok k') :
    Switched k k' := by
  rw [sleepLoop] at hrun
  split at hrun
  · cases hrun
    exact .inl ⟨rfl, rfl, rfl, rfl, rfl, h⟩
  · next t l _ =>
      have hsame : Same k { k with readyList := l, sleeping := none } :=
        ⟨rfl, rfl, rfl, rfl, rfl, h⟩
      exact hsame.switched (run_switched h hrun)

theorem sleep_switched (h : k.toBeDestroyed = none)
    (hrun : k.sleep finishing = .ok k') : Switched k k' := by
  obtain ⟨_, hstatus, hrun⟩ := Outcome.bind_eq_ok.mp hrun
  obtain ⟨T, rfl, hT⟩ := setStatus_eq hstatus
  have hsame : Same k { k with threads := T } := ⟨hT, rfl, rfl, rfl, rfl, h⟩
  exact hsame.switched (sleepLoop_switched h hrun)

theorem idleReturn_switched (h : k.toBeDestroyed = none)
    (hrun : k.idleReturn = .ok k') : Switched k k' := by
  rw [idleReturn] at hrun
  split at hrun
  · cases hrun
    exact .inl ⟨rfl, rfl, rfl, rfl, rfl, h⟩
  · exact sleepLoop_switched h hrun

theorem yield_switched (h : k.toBeDestroyed = none) (hrun : k.yield = .ok k') :
    Switched k k' := by
  rw [yield] at hrun
  split at hrun
  · cases hrun
    exact .inl ⟨rfl, rfl, rfl, rfl, rfl, h⟩
  · obtain ⟨_, hready, hrun⟩ := Outcome.bind_eq_ok.mp hrun
    obtain ⟨T, l, rfl, hT⟩ := readyToRun_eq hready
    have hsame : Same k { k with threads := T, readyList := l } :=
      ⟨hT, rfl, rfl, rfl, rfl, h⟩
    exact hsame.switched (run_switched h hrun)

end Kernel

end

/-! ## The invariant -/

/-- Every address space has one thread, or had one. -/
structure Inv (k : Kernel) : Prop where
  frames : Pool.Partition k.frameTable.available k.spaces
  tables : ∀ a ∈ k.spaces, ∀ ptb, a.pageTable = some ptb →
    ptb.length = a.numPages
  /-- A program is loaded once, into an address space of its own. -/
  fresh : ∀ t s a, shown k.threads t = some (some s, .forkExecute) →
    k.spaces[s]? = some a → a.pageTable = none
  unique : ∀ t t' s code code', shown k.threads t = some (some s, code) →
    shown k.threads t' = some (some s, code') → t = t'
  made : ∀ t s code, shown k.threads t = some (some s, code) →
    s < k.spaces.length
  owned : ∀ s < k.spaces.length,
    (∃ t code, shown k.threads t = some (some s, code)) ∨
      ∃ th ∈ k.deleted, th.space = some s
  ids : ∀ t, k.threadNum ≤ t → shown k.threads t = none
  toBeDestroyed : k.toBeDestroyed = none

section
variable {k k' : Kernel} {t : ThreadId}

theorem Inv.same (h : Inv k) (hs : Same k k') : Inv k' where
  frames := hs.frameTable ▸ hs.spaces ▸ h.frames
  tables := hs.spaces ▸ h.tables
  fresh := hs.shown ▸ hs.spaces ▸ h.fresh
  unique := hs.shown ▸ h.unique
  made := hs.shown ▸ hs.spaces ▸ h.made
  owned := hs.shown ▸ hs.spaces ▸ hs.deleted ▸ h.owned
  ids := hs.shown ▸ hs.threadNum ▸ h.ids
  toBeDestroyed := hs.toBeDestroyed

theorem Inv.deletes {th : Thread} (h : Inv k) (hd : Deletes k k' t th) :
    Inv k' := by
  have hsub : ∀ x v, shown k'.threads x = some v →
      shown k.threads x = some v := by
    intro x v hx
    rw [hd.shown x] at hx
    split at hx
    · cases hx
    · exact hx
  constructor
  case frames => exact hd.frameTable ▸ hd.spaces ▸ h.frames
  case tables => exact hd.spaces ▸ h.tables
  case fresh => exact fun x s a hx => hd.spaces ▸ h.fresh x s a (hsub x _ hx)
  case unique => exact fun x y s _ _ hx hy => h.unique x y s _ _ (hsub x _ hx) (hsub y _ hy)
  case made => exact fun x s _ hx => hd.spaces ▸ h.made x s _ (hsub x _ hx)
  case owned =>
    intro s hs
    rw [hd.deleted]
    rcases h.owned s (hd.spaces ▸ hs) with ⟨x, code, hx⟩ | ⟨y, hy, hspace⟩
    · rcases eq_or_ne x t with rfl | hne
      · refine .inr ⟨th, List.mem_append_right _ (.head _), ?_⟩
        exact congrArg Prod.fst (Option.some.inj (hd.found.symm.trans hx))
      · refine .inl ⟨x, code, ?_⟩
        rw [hd.shown, if_neg hne]
        exact hx
    · exact .inr ⟨y, List.mem_append_left _ hy, hspace⟩
  case ids =>
    intro x hx
    rw [hd.shown]
    split
    · rfl
    · exact h.ids x (hd.threadNum ▸ hx)
  case toBeDestroyed => exact hd.toBeDestroyed

theorem Inv.switched (h : Inv k) : Switched k k' → Inv k'
  | .inl hs => h.same hs
  | .inr ⟨_, _, hd⟩ => h.deletes hd

theorem Kernel.exec_makes (hrun : k.exec = .ok k') : Makes k k' := by
  rw [Kernel.exec] at hrun
  split at hrun
  · cases hrun
  · obtain ⟨_, hready, hrun⟩ := Outcome.bind_eq_ok.mp hrun
    obtain ⟨T, l, rfl, hT⟩ := Kernel.readyToRun_eq hready
    cases hrun
    refine ⟨fun x => ?_, rfl, rfl, rfl, rfl, rfl⟩
    rw [hT, shown]
    dsimp only
    split
    · rfl
    · rfl

theorem Inv.makes (h : Inv k) (hm : Makes k k') : Inv k' := by
  have hold : ∀ x s code, shown k.threads x = some (some s, code) →
      s ≠ k.spaces.length :=
    fun x s code hx => (h.made x s code hx).ne
  constructor
  case frames =>
    rw [hm.spaces, hm.frameTable]
    exact h.frames.append (.of_eq (List.append_nil _))
  case tables =>
    rw [hm.spaces]
    intro a ha ptb hptb
    rcases List.mem_append.mp ha with ha | ha
    · exact h.tables a ha ptb hptb
    · cases List.mem_singleton.mp ha
      cases hptb
  case fresh =>
    rw [hm.spaces]
    intro x s a hx hs
    rw [hm.shown] at hx
    split at hx
    · cases hx
      rw [List.getElem?_concat_length] at hs
      cases hs
      rfl
    · rw [List.getElem?_append_left (h.made x s _ hx)] at hs
      exact h.fresh x s a hx hs
  case unique =>
    intro x y s code code' hx hy
    rw [hm.shown] at hx hy
    split at hx <;> split at hy
    · next hxt hyt => exact hxt.trans hyt.symm
    · cases hx
      exact absurd rfl (hold y _ _ hy)
    · cases hy
      exact absurd rfl (hold x _ _ hx)
    · exact h.unique x y s code code' hx hy
  case made =>
    intro x s code hx
    rw [hm.shown] at hx
    rw [hm.spaces, List.length_append]
    split at hx
    · cases hx
      exact Nat.lt_succ_self _
    · exact Nat.lt_succ_of_lt (h.made x s code hx)
  case owned =>
    intro s hs
    rw [hm.spaces, List.length_append] at hs
    rw [hm.deleted]
    rcases Nat.lt_succ_iff_lt_or_eq.mp hs with hs | rfl
    · rcases h.owned s hs with ⟨x, code, hx⟩ | hdel
      · refine .inl ⟨x, code, ?_⟩
        have hne : x ≠ k.threadNum := by
          rintro rfl
          cases (h.ids _ (Nat.le_refl _)).symm.trans hx
        rw [hm.shown, if_neg hne]
        exact hx
      · exact .inr hdel
    · exact .inl ⟨k.threadNum, .forkExecute, (hm.shown _).trans (if_pos rfl)⟩
  case ids =>
    rw [hm.threadNum]
    intro x hx
    rw [hm.shown, if_neg (Nat.lt_of_succ_le hx).ne']
    exact h.ids x (Nat.le_of_succ_le hx)
  case toBeDestroyed => exact hm.toBeDestroyed.trans h.toBeDestroyed

/-- `Load` takes its frames from the free list, and leaves the table with its
length. -/
theorem AddrSpace.load_conserves {a a' : AddrSpace}
    {executable : Option Executable} {loaded : Bool}
    {ft ft' : FrameTable} {mem mem' : Memory}
    (ha : a.pageTable = none) (hfree : ∀ f ∈ ft.available, f < NumPhysPages)
    (hrun : a.load executable ft mem = .ok (loaded, a', ft', mem')) :
    (ft'.available ++ a'.frames).Perm (ft.available ++ a.frames) ∧
      ∀ ptb, a'.pageTable = some ptb → ptb.length = a'.numPages := by
  cases executable with
  | none =>
      cases hrun
      exact ⟨.refl _, fun ptb hptb => nomatch ha.symm.trans hptb⟩
  | some e =>
      obtain ⟨-, ha', hframes, rfl⟩ := load_some hfree hrun
      have hempty : a.frames = [] := by
        rw [frames, ha]
        rfl
      refine ⟨?_, ?_⟩
      · rw [hempty, hframes, List.append_nil]
        exact List.perm_append_comm.trans (.of_eq (List.take_append_drop ..))
      · intro ptb hptb
        obtain ⟨t, ht, hlen⟩ := ha'.table
        cases ht.symm.trans hptb
        exact hlen

theorem Kernel.forkExecute_loads (h : Inv k)
    {executable : Option Executable} (hcode : k.code = some .forkExecute)
    (hrun : k.forkExecute executable = .ok k') :
    ∃ s a a' code, Loads k k' s a a' code := by
  rw [Kernel.forkExecute] at hrun
  split at hrun
  · cases hrun
  next th hth =>
  split at hrun
  · cases hrun
  next s hs =>
  split at hrun
  · cases hrun
  next a ha =>
  obtain ⟨⟨loaded, a', ft', mem'⟩, hload, hrun⟩ := Outcome.bind_eq_ok.mp hrun
  cases hrun
  have hcur : shown k.threads k.currentThread = some (some s,
      .forkExecute) := by
    rw [Kernel.code, hth] at hcode
    split at hcode
    · have hcode : th.code = .forkExecute := Option.some.inj hcode
      rw [shown, hth, Option.map_some, hs, hcode]
    · cases hcode
  have hfree : ∀ f ∈ k.frameTable.available, f < NumPhysPages := fun f hf =>
    List.mem_range.mp (h.frames.mem_iff.mp (List.mem_append_left _ hf))
  obtain ⟨hperm, htable⟩ :=
    AddrSpace.load_conserves (h.fresh _ s a hcur ha) hfree hload
  refine ⟨s, a, a', if loaded then Code.user else Code.threadFinish, hcur, ha,
    ?_, fun x => ?_, rfl, rfl, hperm,
    htable, rfl, rfl⟩
  · cases loaded with
    | true => exact nofun
    | false => exact nofun
  · rw [shown]
    dsimp only [Threads.modify]
    split
    · rw [hth, Option.map_some, Option.map_some, hs]
    · rfl

theorem Inv.loads {s : Nat} {a a' : AddrSpace} {code : Code} (h : Inv k)
    (hl : Loads k k' s a a' code) : Inv k' := by
  have hback : ∀ x s' code', shown k'.threads x = some (some s', code') →
      ∃ code, shown k.threads x = some (some s', code) := by
    intro x s' code' hx
    rw [hl.shown] at hx
    split at hx
    · next heq =>
        cases hx
        exact ⟨_, heq ▸ hl.found⟩
    · exact ⟨code', hx⟩
  constructor
  case frames =>
    rw [hl.spaces]
    exact h.frames.set hl.before hl.frames
  case tables =>
    rw [hl.spaces]
    intro b hb ptb hptb
    rcases List.mem_or_eq_of_mem_set hb with hb | rfl
    · exact h.tables b hb ptb hptb
    · exact hl.table ptb hptb
  case fresh =>
    rw [hl.spaces]
    intro x s' b hx hs'
    rw [hl.shown] at hx
    split at hx
    · cases hx
      exact absurd rfl hl.left
    · next hne =>
        have hdiff : s ≠ s' := by
          rintro rfl
          exact hne (h.unique _ _ _ _ _ hx hl.found)
        rw [List.getElem?_set_ne hdiff] at hs'
        exact h.fresh x s' b hx hs'
  case unique =>
    intro x y s' _ _ hx hy
    obtain ⟨_, hx⟩ := hback x s' _ hx
    obtain ⟨_, hy⟩ := hback y s' _ hy
    exact h.unique x y s' _ _ hx hy
  case made =>
    intro x s' _ hx
    obtain ⟨_, hx⟩ := hback x s' _ hx
    rw [hl.spaces, List.length_set]
    exact h.made x s' _ hx
  case owned =>
    intro s' hs'
    rw [hl.spaces, List.length_set] at hs'
    rw [hl.deleted]
    rcases h.owned s' hs' with ⟨x, code', hx⟩ | hdel
    · rcases eq_or_ne x k.currentThread with rfl | hne
      · cases hl.found.symm.trans hx
        exact .inl ⟨k.currentThread, _, (hl.shown _).trans (if_pos rfl)⟩
      · exact .inl ⟨x, code', (hl.shown x).trans ((if_neg hne).trans hx)⟩
    · exact .inr hdel
  case ids =>
    rw [hl.threadNum]
    intro x hx
    have hne : x ≠ k.currentThread := by
      rintro rfl
      cases (h.ids _ hx).symm.trans hl.found
    exact (hl.shown x).trans ((if_neg hne).trans (h.ids x hx))
  case toBeDestroyed => exact hl.toBeDestroyed.trans h.toBeDestroyed

theorem Inv.step (h : Inv k) (op : Op) (hallowed : op.Allowed k)
    (hrun : op.run k = .ok k') : Inv k' := by
  cases op with
  | exec => exact h.makes (Kernel.exec_makes hrun)
  | forkExecute executable =>
      obtain ⟨_, _, _, _, hloads⟩ := Kernel.forkExecute_loads h hallowed hrun
      exact h.loads hloads
  | user mem =>
      cases hrun
      exact h.same ⟨rfl, rfl, rfl, rfl, rfl, h.toBeDestroyed⟩
  | yield => exact h.switched (Kernel.yield_switched h.toBeDestroyed hrun)
  | sleep => exact h.switched (Kernel.sleep_switched h.toBeDestroyed hrun)
  | wake t =>
      obtain ⟨T, l, rfl, hT⟩ := Kernel.readyToRun_eq hrun
      exact h.same ⟨hT, rfl, rfl, rfl, rfl, h.toBeDestroyed⟩
  | idleReturn =>
      exact h.switched (Kernel.idleReturn_switched h.toBeDestroyed hrun)
  | finish => exact h.switched (Kernel.sleep_switched h.toBeDestroyed hrun)

theorem boot_inv {mem : Memory} (hrun : Kernel.boot mem = .ok k) : Inv k := by
  rw [Kernel.boot, FrameTable.new_ok] at hrun
  cases hrun
  have hnone : ∀ t s code, shown (fun t => if t = 0 then
      some (⟨none, .RUNNING, .kernel⟩ : Thread) else none) t ≠
      some (some s, code) := by
    intro t s code ht
    rw [shown] at ht
    split at ht
    · cases ht
    · cases ht
  constructor
  case frames => exact .of_eq (List.append_nil _)
  case tables => exact nofun
  case fresh => exact nofun
  case unique => exact fun t _ s code _ ht => absurd ht (hnone t s code)
  case made => exact fun t s code ht => absurd ht (hnone t s code)
  case owned => exact nofun
  case ids =>
    intro t ht
    rw [shown]
    dsimp only
    rw [if_neg (Nat.lt_of_succ_le ht).ne']
    rfl
  case toBeDestroyed => rfl

theorem Reachable.inv (h : Reachable k) : Inv k := by
  induction h with
  | start hrun => exact boot_inv hrun
  | step _ op hallowed hrun ih => exact ih.step op hallowed hrun

end

/-! ## Frames at exit -/

namespace Kernel

/-- The frames of the page table a thread has, or had. -/
def framesOf (k : Kernel) (th : Thread) : List Nat :=
  match th.space.bind (k.spaces[·]?) with
  | none => []
  | some a => a.frames

/-- No thread with an address space is there. -/
def NoUserThread (k : Kernel) : Prop := ∀ t th, k.threads t = some th →
    th.space = none

/-- The frames of the threads that were deleted are free again. -/
def Reclaimed (k : Kernel) : Prop :=
  (∀ th ∈ k.deleted, ∀ f ∈ k.framesOf th, f ∈ k.frameTable.available) ∧
    (k.NoUserThread → k.frameTable.remainSize = NumPhysPages)

/-- No thread that was deleted had loaded a page. -/
def NonePaged (k : Kernel) : Prop :=
  ∀ th ∈ k.deleted, ∀ s a, th.space = some s → k.spaces[s]? = some a →
  a.pageTable = none ∨ a.numPages = 0

end Kernel

theorem AddrSpace.frames_eq_nil {a : AddrSpace}
    (h : ∀ ptb, a.pageTable = some ptb → ptb.length = a.numPages) :
    a.frames = [] ↔ a.pageTable = none ∨ a.numPages = 0 := by
  obtain ⟨_ | ptb, n⟩ := a
  · exact iff_of_true rfl (.inl rfl)
  · rw [frames_mk, List.map_eq_nil_iff, ← List.length_eq_zero_iff, h ptb rfl]
    exact ⟨.inr, fun hor => hor.resolve_left nofun⟩

/-- Nothing is ever put back, so the frames of a deleted thread are free only if
it has none. -/
theorem exit_reclaims_iff {k : Kernel} (h : Reachable k) : k.Reclaimed ↔
    k.NonePaged := by
  have hinv := h.inv
  constructor
  · intro hrec th hth s a hs ha
    refine (AddrSpace.frames_eq_nil
      (hinv.tables a (List.mem_of_getElem? ha))).mp ?_
    refine List.eq_nil_iff_forall_not_mem.mpr fun f hf => ?_
    have hmem : f ∈ k.framesOf th := by
      rw [Kernel.framesOf, hs, Option.bind_some, ha]
      exact hf
    have hfree := hrec.1 th hth f hmem
    have htaken : f ∈ k.spaces.flatMap AddrSpace.frames :=
      List.mem_flatMap.mpr ⟨a, List.mem_of_getElem? ha, hf⟩
    exact (List.nodup_append.mp hinv.frames.nodup).2.2 f hfree f htaken rfl
  · intro hnone
    have hempty : ∀ th ∈ k.deleted, ∀ s a, th.space = some s →
        k.spaces[s]? = some a → a.frames = [] :=
      fun th hth s a hs ha =>
        (AddrSpace.frames_eq_nil (hinv.tables a (List.mem_of_getElem? ha))).mpr
          (hnone th hth s a hs ha)
    constructor
    · intro th hth f hf
      rw [Kernel.framesOf] at hf
      split at hf
      · cases hf
      · next a ha =>
          obtain ⟨s, hs, ha⟩ := Option.bind_eq_some_iff.mp ha
          rw [hempty th hth s a hs ha] at hf
          cases hf
    · intro hlive
      have hall : k.spaces.flatMap AddrSpace.frames = [] := by
        refine List.flatMap_eq_nil_iff.mpr fun a ha => ?_
        obtain ⟨s, hs, rfl⟩ := List.mem_iff_getElem.mp ha
        rcases hinv.owned s hs with ⟨t, code, ht⟩ | ⟨th, hth, hspace⟩
        · obtain ⟨th, hth, heq⟩ := Option.map_eq_some_iff.mp ht
          cases (hlive t th hth).symm.trans (congrArg Prod.fst heq)
        · exact hempty th hth s _ hspace (List.getElem?_eq_getElem hs)
      have hlen := hinv.frames.length_eq
      rw [hall, List.append_nil, List.length_range] at hlen
      exact hlen

/-! ## A program that exits -/

instance (k : Kernel) : (op : Op) → Decidable (op.Allowed k)
  | .exec => inferInstanceAs (Decidable (k.code = some .kernel))
  | .forkExecute _ => inferInstanceAs (Decidable (k.code = some .forkExecute))
  | .user _ => inferInstanceAs (Decidable (k.code = some .user))
  | .yield => inferInstanceAs (Decidable (k.sleeping = none))
  | .sleep => inferInstanceAs (Decidable (k.sleeping = none))
  | .wake t =>
      inferInstanceAs (Decidable ((k.threads t).map (·.status) = some .BLOCKED ∧
      ¬ (t = k.currentThread ∧ k.sleeping = some true)))
  | .idleReturn => inferInstanceAs (Decidable (k.sleeping ≠ none))
  | .finish => inferInstanceAs
        (Decidable (k.sleeping = none ∧ k.code ≠ some .forkExecute))

def Kernel.steps (k : Kernel) : List Op → Option Kernel
  | [] => some k
  | op :: ops =>
    if op.Allowed k then
      match op.run k with
      | .ok k' => steps k' ops
      | .error _ => none
    else none

theorem Reachable.steps : ∀ {ops : List Op} {k k' : Kernel}, Reachable k →
    k.steps ops = some k' → Reachable k'
  | [], k, k', h, hrun => Option.some.inj hrun ▸ h
  | op :: ops, k, k', h, hrun => by
      rw [Kernel.steps] at hrun
      split at hrun
      · next hallowed =>
          split at hrun
          · next k₁ hop => exact (h.step op hallowed hop).steps hrun
          · cases hrun
      · cases hrun

/-- The kernel after `Initialize`. -/
def booted : Kernel where
  threads := fun t => if t = 0 then some ⟨none, .RUNNING, .kernel⟩ else none
  threadNum := 1
  currentThread := 0
  readyList := []
  toBeDestroyed := none
  sleeping := none
  spaces := []
  frameTable := ⟨List.range NumPhysPages⟩
  mainMemory := fun _ => 0
  deleted := []

theorem reachable_booted : Reachable booted := by
  have hrun : Kernel.boot (fun _ => 0) = .ok booted := by
    rw [Kernel.boot, FrameTable.new_ok]
    rfl
  exact .start hrun

/-- A program of 256 bytes of code: ten pages with its stack. -/
def program : Executable where
  noffH := ⟨NOFFMAGIC, ⟨0, 60, 256⟩, ⟨0, 0, 0⟩, ⟨0, 0, 0⟩, ⟨0, 0, 0⟩⟩
  contents := List.replicate 316 0

/-- The only program exits while the main thread is ready, and is deleted.  Ten
frames are gone. -/
theorem exit_leaks : ∃ k, booted.steps [.exec, .yield,
      .forkExecute (some program), .finish] = some k ∧
    Reachable k ∧ k.NoUserThread ∧ k.frameTable.remainSize = 118 ∧
      ¬ k.Reclaimed := by
  obtain ⟨k, hrun, hk⟩ := Option.map_eq_some_iff.mp (show (booted.steps
      [.exec, .yield, .forkExecute (some program), .finish]).map
        (fun k => (k.frameTable.remainSize, k.threadNum, k.threads 0,
          k.threads 1)) =
      some (118, 2, some ⟨none, .RUNNING, .kernel⟩, none) by decide +kernel)
  simp only [Prod.mk.injEq] at hk
  obtain ⟨hsize, hnum, h0, h1⟩ := hk
  have hreach := reachable_booted.steps hrun
  have hlive : k.NoUserThread
    | 0, th, hth => by
        cases h0.symm.trans hth
        rfl
    | 1, th, hth => nomatch h1.symm.trans hth
    | t + 2, th, hth => by
        have hnone :=
          hreach.inv.ids (t + 2) (by rw [hnum]; exact Nat.le_add_left 2 t)
        rw [shown, hth] at hnone
        cases hnone
  refine ⟨k, hrun, hreach, hlive, hsize, ?_⟩
  intro hrec
  cases hsize.symm.trans (hrec.2 hlive)

/-- The file is not there: the thread is deleted with an address space that was
never loaded. -/
theorem exit_reclaims_missing :
    ∃ k, booted.steps [.exec, .yield, .forkExecute none, .finish] = some k ∧
    k.deleted = [⟨some 0, .BLOCKED, .threadFinish⟩] ∧
      (k.Reclaimed ↔ k.NonePaged) := by
  obtain ⟨k, hrun, hdel⟩ := Option.map_eq_some_iff.mp (show (booted.steps
      [.exec, .yield, .forkExecute none, .finish]).map (·.deleted) =
      some [⟨some 0, .BLOCKED, .threadFinish⟩] by decide +kernel)
  exact ⟨k, hrun, hdel, exit_reclaims_iff (reachable_booted.steps hrun)⟩

end EroikoBlue.MP2
