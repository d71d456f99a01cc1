/-
# `MP3.Wakeups` — no wakeup of a `SynchList` is lost

The lock of a `SynchList` is a monitor in the sense of `Lib.Threads`: a thread
gets past a `P` of it only when nobody is under it, and what holds whenever
nobody is (`Consistent 1 0 []`) need be restored only when the lock is released.
Under it there is one thread, so its statements can be taken one after the other
(`Held.act`); what the others do meanwhile is to get past their own semaphores.

`Wait` lets go of the lock in the middle.  A thread that sleeps there is
outside, and comes back as one that enters; between the signal and its return
another thread may have taken the item, so it looks at the list again.  That is
why the balance counts signalled semaphores and not threads that are awake.

`fifo_without_lost_wakeup` is about every order of statements, for any number of
threads: items leave in the order in which their calls got the lock, each once;
and while nobody has the lock, and there are items and threads that wait for
one, one of these is on its way.
-/
import EroikoBlue.MP3.SynchList

namespace EroikoBlue.MP3.SynchList

open Function (update)

section
variable {Id α : Type} {t u : Id} {d d' : ListData Id α}
  {sh sh' : ListShared Id α}

/-! ## The statements under the lock -/

theorem ListData.perm_signal {n : Nat} {waitQueue : List Nat}
    (hw : d.waitQueue = n :: waitQueue) :
    (waitQueue ++ (d.signalled ++ [n])).Perm (d.waitQueue ++ d.signalled) := by
  rw [hw, ← List.append_assoc]
  exact List.perm_append_singleton n _

theorem ListData.perm_enqueue (d : ListData Id α) :
    (d.waitQueue ++ [d.next] ++ d.signalled).Perm
      (d.next :: (d.waitQueue ++ d.signalled)) := by
  rw [List.append_assoc]
  exact List.perm_middle

theorem Consistent.append {item : α} (h : Consistent 0 0 [item] sh) :
    Consistent 0 1 [] { sh with data :=
      { sh.data with list := sh.data.list ++ [item], appended := sh.data.appended ++ [item] } } where
  lock := h.lock
  owned := h.owned
  waiters := h.waiters
  items := by
    show sh.data.appended ++ [item] =
      sh.data.removed ++ (sh.data.list ++ [item])
    rw [h.items, List.append_assoc]
  passed := by
    rw [List.append_nil]
    exact h.passed
  woken := fun hw => by
    show (sh.data.list ++ [item]).length ≤ sh.data.signalled.length + 1
    rw [List.length_append]
    exact Nat.succ_le_succ (h.woken hw)

/-- With nobody to wake there need be no wakeup. -/
theorem Consistent.of_nobody {k : Nat} {todo : List α}
    (h : Consistent 0 k todo sh) (hw : sh.data.waitQueue = []) :
    Consistent 0 0 todo sh :=
  { h with woken := fun hne => absurd hw hne }

theorem Consistent.signal {n : Nat}
    {waitQueue : List Nat} (h : Consistent 0 1 ([] : List α) sh)
    (hw : sh.data.waitQueue = n :: waitQueue) :
    Consistent 0 0 [] { sh with data :=
      { sh.data with waitQueue := waitQueue, signalled := sh.data.signalled ++ [n] } } where
  lock := h.lock
  owned := fun m hm => h.owned m ((ListData.perm_signal hw).mem_iff.mp hm)
  waiters := (hw ▸ h.waiters).signal
  items := h.items
  passed := h.passed
  woken := fun _ => by
    show sh.data.list.length ≤ (sh.data.signalled ++ [n]).length
    rw [List.length_append]
    exact h.woken (hw ▸ List.cons_ne_nil n waitQueue)

theorem ListData.waits_signal {n : Nat} {waitQueue : List Nat}
    (hw : d.waitQueue = n :: waitQueue) (t : Id) (m : Nat) :
    { d with waitQueue := waitQueue, signalled := d.signalled ++ [n] }.Waits t m ↔ d.Waits t m := by
  exact and_congr (ListData.perm_signal hw).mem_iff Iff.rfl

theorem ListData.waits_enqueue {n : Nat} (hn : n ≠ d.next) :
    { d with
      waitQueue := d.waitQueue ++ [d.next]
      next := d.next + 1
      owner := update d.owner d.next (some t) }.Waits u n ↔ d.Waits u n := by
  refine and_congr ?_ ?_
  · rw [(ListData.perm_enqueue d).mem_iff, List.mem_cons]
    exact or_iff_right hn
  · show update d.owner d.next (some t) n = some u ↔ d.owner n = some u
    rw [Function.update_of_ne hn]

theorem ListData.waits_delete (h : (d.waitQueue ++ d.signalled).Nodup)
    {n m : Nat} (hn : n ∈ d.signalled) :
    { d with signalled := d.signalled.erase n }.Waits u m ↔ m ≠ n ∧
      d.Waits u m := by
  have hq : n ∉ d.waitQueue :=
    fun hmem => (List.nodup_append.mp h).2.2 n hmem n hn rfl
  have herase : m ∈ d.waitQueue ++ d.signalled.erase n ↔ m ≠ n ∧
      m ∈ d.waitQueue ++ d.signalled := by
    rw [← List.erase_append_right _ hq]
    exact h.mem_erase_iff
  exact (and_congr_left' herase).trans and_assoc

theorem Consistent.removeFront {item : α} {list : List α}
    (h : Consistent 0 1 [] sh) (hl : sh.data.list = item :: list) :
    Consistent 0 0 [] { sh with data :=
      { sh.data with list := list, removed := sh.data.removed ++ [item] } } where
  lock := h.lock
  owned := h.owned
  waiters := h.waiters
  items := by
    show sh.data.appended = sh.data.removed ++ [item] ++ list
    rw [h.items, hl, List.append_assoc]
    rfl
  passed := h.passed
  woken := fun hw => by
    have hle := h.woken hw
    rw [hl] at hle
    exact Nat.le_of_succ_le_succ hle

theorem Consistent.delete {n : Nat} (h : Consistent 0 0 ([] : List α) sh)
    (hn : n ∈ sh.data.signalled) :
    Consistent 0 1 [] { sh with
        data := { sh.data with signalled := sh.data.signalled.erase n } } where
  lock := h.lock
  owned := fun m hm =>
    h.owned m ((List.Sublist.append_left List.erase_sublist _).subset hm)
  waiters := h.waiters.delete n
  items := h.items
  passed := h.passed
  woken := fun hw => by
    show sh.data.list.length ≤ (sh.data.signalled.erase n).length + 1
    rw [List.length_erase_of_mem hn,
      Nat.sub_add_cancel (List.length_pos_of_mem hn)]
    exact h.woken hw

theorem Consistent.enqueue (h : Consistent 0 0 ([] : List α) sh)
    (hl : sh.data.list = []) :
    Consistent 0 0 [] { sh with data := { sh.data with
      waitQueue := sh.data.waitQueue ++ [sh.data.next]
      next := sh.data.next + 1
      owner := update sh.data.owner sh.data.next (some t) } } where
  lock := h.lock
  owned := by
    intro n hn
    by_cases hnext : n = sh.data.next
    · exact ⟨t, hnext ▸ Function.update_self _ _ _⟩
    · have hmem := (ListData.perm_enqueue sh.data).mem_iff.mp hn
      obtain ⟨u, hu⟩ := h.owned n ((List.mem_cons.mp hmem).resolve_left hnext)
      exact ⟨u, (Function.update_of_ne hnext _ _).trans hu⟩
  waiters := h.waiters.enqueue
  items := h.items
  passed := h.passed
  woken := fun _ => by
    show sh.data.list.length ≤ _
    rw [hl]
    exact Nat.zero_le _

theorem ListData.Owns.enqueue (h : d.Owns t none) :
    { d with
      waitQueue := d.waitQueue ++ [d.next]
      next := d.next + 1
      owner := update d.owner d.next (some t) }.Owns t (some d.next) := by
  intro n
  by_cases hn : n = d.next
  · subst hn
    refine ⟨fun _ => rfl, fun _ => ⟨?_, Function.update_self _ _ _⟩⟩
    exact List.mem_append_left _ (List.mem_append_right _ (.head _))
  · rw [ListData.waits_enqueue hn]
    refine ⟨fun hw => ?_, fun heq => absurd (Option.some.inj heq).symm hn⟩
    cases (h n).mp hw

theorem Others.enqueue (hmem : d.next ∉ d.waitQueue ++ d.signalled) : Others t d
    { d with
      waitQueue := d.waitQueue ++ [d.next]
      next := d.next + 1
      owner := update d.owner d.next (some t) } where
  waits := by
    intro u hu n
    by_cases hn : n = d.next
    · subst hn
      refine ⟨fun hw => ?_, fun hw => absurd hw.1 hmem⟩
      have hself : update d.owner d.next (some t) d.next = some t :=
        Function.update_self _ _ _
      exact absurd (Option.some.inj (hself.symm.trans hw.2)).symm hu
    · exact ListData.waits_enqueue hn
  signalled := fun _ _ _ _ hn => hn

theorem ListData.Owns.delete {n : Nat} (h : d.Owns t (some n))
    (hnodup : (d.waitQueue ++ d.signalled).Nodup) (hn : n ∈ d.signalled) :
    { d with signalled := d.signalled.erase n }.Owns t none := by
  intro m
  rw [ListData.waits_delete hnodup hn]
  refine ⟨fun hw => ?_, nofun⟩
  exact absurd (Option.some.inj ((h m).mp hw.2)).symm hw.1

theorem Others.delete {n : Nat} (h : d.Owns t (some n))
    (hnodup : (d.waitQueue ++ d.signalled).Nodup) (hn : n ∈ d.signalled) :
    Others t d { d with signalled := d.signalled.erase n } := by
  have hne : ∀ {u m}, u ≠ t → d.owner m = some u → m ≠ n := by
    rintro u m hu howner rfl
    have ht := ((h m).mpr rfl).2
    rw [howner] at ht
    exact hu (Option.some.inj ht)
  constructor
  · intro u hu m
    rw [ListData.waits_delete hnodup hn]
    exact ⟨fun hw => hw.2, fun hw => ⟨hne hu hw.2, hw⟩⟩
  · intro u hu m howner hm
    exact (List.mem_erase_of_ne (hne hu howner)).mpr hm

variable [DecidableEq Id] [DecidableEq α]

/-- Each statement moves the holder to its next place, except the assertion of
`List<T>::Append` on an item that is in the list already. -/
theorem Held.act {c : ListCall α} {a : ListAct α} {l : List (ListStmt α)}
    (h : Held t c (.act a :: l) sh) :
    (∃ d more, sh.data.act t a = .ok (d, more) ∧
      Held t c (more ++ l) { sh with data := d } ∧
      Others t sh.data d) ∨ ∃ item, a = .append item ∧ item ∈ sh.data.list := by
  cases h with
  | appendEntered hc ho =>
      exact .inl ⟨_, _, rfl, .appending (hc.setHolder _) ho rfl,
        .of_eq rfl rfl rfl⟩
  | @appending item _ hc ho hh =>
      by_cases hmem : item ∈ sh.data.list
      · exact .inr ⟨item, rfl, hmem⟩
      · refine .inl ⟨_, _, Outcome.bind_eq_ok.mpr ⟨_, LinkedList.append_ok hmem,
          rfl⟩, ?_, .of_eq rfl rfl rfl⟩
        exact .appended hc.append ho hh
  | appended hc ho hh =>
      refine .inl ⟨sh.data, [], ?_, .signalling hc ho hh, .of_eq rfl rfl rfl⟩
      rw [ListData.act, assertMsg_pos hh]
      rfl
  | signalling hc ho hh =>
      cases hw : sh.data.waitQueue with
      | nil =>
          refine .inl ⟨sh.data, [], ?_,
            .releasing (hc.of_nobody hw) ho hh (.done c), .of_eq rfl rfl rfl⟩
          rw [ListData.act, hw]
          rfl
      | cons n waitQueue =>
          refine .inl ⟨_, [.V (.waiter n)], ?_,
            .waking (hc.signal hw) (ho.congr (ListData.waits_signal hw t)) hh
            (List.mem_append_right _ (.head _)), fun u _ =>
              ListData.waits_signal hw u,
            fun _ _ _ _ hm => List.mem_append_left _ hm⟩
          rw [ListData.act, hw]
          rfl
  | entered hc ho => exact .inl ⟨_, _, rfl,
        .testing (hc.setHolder _).spare ho rfl, .of_eq rfl rfl rfl⟩
  | reentered hc ho hn => exact .inl ⟨_, _, rfl,
        .deleting (hc.setHolder _) ho rfl hn, .of_eq rfl rfl rfl⟩
  | deleting hc ho hh hn =>
      exact .inl ⟨_, _, rfl,
        .testing (hc.delete hn) (ho.delete hc.waiters.nodup hn) hh,
        .delete ho hc.waiters.nodup hn⟩
  | testing hc ho hh =>
      cases hl : sh.data.list with
      | nil =>
          refine .inl ⟨sh.data, wait ++ [.act .isEmpty], ?_,
            .mustWait (hc.of_empty hl) ho hh hl, .of_eq rfl rfl rfl⟩
          rw [ListData.act, hl]
          rfl
      | cons item list =>
          refine .inl ⟨sh.data, [], ?_, .removing hc ho hh
            (hl ▸ List.cons_ne_nil item list), .of_eq rfl rfl rfl⟩
          rw [ListData.act, hl]
          rfl
  | mustWait hc ho hh hl =>
      refine .inl ⟨sh.data, [], ?_, .enqueueing hc ho hh hl, .of_eq rfl rfl rfl⟩
      rw [ListData.act, assertMsg_pos hh]
      rfl
  | enqueueing hc ho hh hl =>
      have hmem := hc.waiters.next_not_mem
      refine .inl ⟨_, _, Outcome.bind_eq_ok.mpr ⟨_,
          LinkedList.append_ok fun hm =>
        hmem (List.mem_append_left _ hm), rfl⟩, ?_, .enqueue hmem⟩
      exact .releasing (hc.enqueue hl) ho.enqueue hh (.asleep _)
  | removing hc ho hh hl =>
      cases hlist : sh.data.list with
      | nil => exact absurd hlist hl
      | cons item list =>
          refine .inl ⟨_, [], ?_, .releasing (hc.removeFront hlist) ho hh
            (.done _), .of_eq rfl rfl rfl⟩
          rw [ListData.act, hlist]
          rfl
  | releasing hc ho hh hl =>
      refine .inl ⟨sh.data, [], ?_, .clearing hc ho hl, .of_eq rfl rfl rfl⟩
      rw [ListData.act, assertMsg_pos hh]
      rfl
  | clearing hc ho hl => exact .inl ⟨_, _, rfl, .leaving (hc.setHolder _) ho hl,
        .of_eq rfl rfl rfl⟩

end

variable {Id α : Type} [DecidableEq Id] [DecidableEq α]

theorem synchList_monitor :
    (synchList Id α).Monitor .lock (Consistent 1 0 []) Out Held where
  starts := by
    intro t c sh hout c'
    generalize hl : ([] : List (ListStmt α)) = l at hout
    cases hout with
    | idle ho => exact .starting c' ho
    | starting c ho => cases c with
      | append | removeFront => cases hl
    | waiting | back => cases hl
  waits := by
    intro t c a l sh hout
    generalize hl : a :: l = l' at hout
    cases hout with
    | idle => cases hl
    | starting c ho =>
        cases c with
        | append | removeFront => exact ⟨_, (List.cons.inj hl).1⟩
    | waiting | back => exact ⟨_, (List.cons.inj hl).1⟩
  enters := fun hout hfree => by
    obtain ⟨c', hc, hheld⟩ := hout.enter hfree
    exact ⟨c', hc, hheld, Others.keeps (.of_eq rfl rfl rfl)⟩
  passes := by
    intro t c s l sh hout hs hv hsome
    have hw : Waiters sh.value sh.data.waitQueue sh.data.signalled
        sh.data.next := by
      rcases hsome with hfree | ⟨_, _, _, hheld⟩
      · exact hfree.waiters
      · obtain ⟨_, _, hc⟩ := hheld.exists_consistent
        exact hc.waiters
    obtain ⟨hself, n, rfl⟩ := hout.wake hs hv hw
    exact ⟨hself, Others.keeps (.of_eq rfl rfl rfl),
      fun hfree => hfree.pass n c,
      fun _ _ _ _ hheld => hheld.pass n c⟩
  one := Consistent.lock
  zero := Held.lock
  notDone := nofun
  P := nofun
  V := fun h hs => ⟨h.wake hs, Others.keeps (.of_eq rfl rfl rfl)⟩
  leaves := fun h => ⟨h.leave.1, h.leave.2, Others.keeps (.of_eq rfl rfl rfl)⟩
  act := by
    intro t c a l sh data more h hact
    rcases h.act with ⟨d, more', hd, hnext, hothers⟩ | ⟨item, rfl, hmem⟩
    · cases hd.symm.trans hact
      exact ⟨hnext, hothers.keeps⟩
    · have herror : (synchList Id α).act t (.append item) sh.data =
          .error (.assertFailed "") := by
        show sh.data.act t (.append item) = _
        rw [ListData.act, LinkedList.append_error hmem]
        rfl
      cases herror.symm.trans hact
  freeInterrupt := nofun
  heldInterrupt := nofun

/-! ## Every order of statements -/

/-- The thread of a signalled waiter is yet to look at the list. -/
def OnItsWay (w : ListWorld Id α) (t : Id) : Prop :=
  ∃ n, n ∉ w.shared.data.waitQueue ∧
    (w.rest t = .P (.waiter n) :: back n ∨ w.rest t = back n)

omit [DecidableEq Id] [DecidableEq α] in
/-- An item that nobody waits for without a wakeup has a signalled waiter, and
the thread of that is where it says. -/
theorem Consistent.exists_onItsWay {w : ListWorld Id α}
    (h : Consistent 1 0 [] w.shared)
    (hall : ∀ t, Out t (w.call t) (w.rest t) w.shared)
    (hlist : w.shared.data.list ≠ []) (hqueue : w.shared.data.waitQueue ≠ []) :
    ∃ t, OnItsWay w t := by
  have hpos : 0 < w.shared.data.signalled.length :=
    Nat.lt_of_lt_of_le (List.length_pos_iff.mpr hlist) (h.woken hqueue)
  obtain ⟨n, hn⟩ := List.exists_mem_of_length_pos hpos
  have hmem := List.mem_append_right w.shared.data.waitQueue hn
  obtain ⟨t, ht⟩ := h.owned n hmem
  refine ⟨t, n, h.waiters.not_mem_waitQueue hn, ?_⟩
  have hout := hall t
  generalize w.call t = c, w.rest t = l at hout ⊢
  cases hout with
  | idle ho | starting _ ho => cases (ho n).mp ⟨hmem, ht⟩
  | waiting ho =>
      cases (ho n).mp ⟨hmem, ht⟩
      exact .inl rfl
  | back ho =>
      cases (ho n).mp ⟨hmem, ht⟩
      exact .inr rfl

omit [DecidableEq Id] [DecidableEq α] in
theorem newSynchList_free :
    Threads.System.Monitored (Consistent 1 0 []) Out Held (newSynchList Id α) := by
  have ho : ∀ t, (newSynchList Id α).shared.data.Owns t none :=
    fun t n => ⟨fun hw => absurd hw.1 List.not_mem_nil, nofun⟩
  have hw : Waiters (newSynchList Id α).shared.value [] [] 0 :=
    ⟨.nil, nofun, nofun, fun _ _ => rfl⟩
  exact .free ⟨rfl, nofun, hw, rfl, rfl, fun hne => absurd rfl hne⟩ fun t =>
    .idle (ho t)

/-- The only assertion to fail is that of `List<T>::Append` on an item that is
in the list; items are removed in the order in which the calls of `Append` had
the lock; none is removed from an empty list; and with the lock free nobody
waits for items there are, unless a signalled waiter is on its way. -/
theorem fifo_without_lost_wakeup {w : ListWorld Id α}
    (h : (synchList Id α).Reachable (newSynchList Id α) w) :
    (∀ t e, (synchList Id α).exec w t = .error e →
      ∃ item l, w.rest t = .act (.append item) :: l ∧
      item ∈ w.shared.data.list) ∧
      w.shared.data.removed <+: (w.shared.passed .lock).filterMap
        ListCall.item ∧
      (∀ t l, w.rest t = .act .removeFront :: l → w.shared.data.list ≠ []) ∧
      (w.shared.value .lock ≠ 0 → w.shared.data.list ≠ [] →
        w.shared.data.waitQueue ≠ [] →
        ∃ t, OnItsWay w t) := by
  have hmonitored := synchList_monitor.monitored newSynchList_free h
  refine ⟨fun t e hexec => ?_, ?_, fun t l hrest => ?_,
    fun hlock hlist hqueue => ?_⟩
  · obtain ⟨c, a, l, -, hrest, hheld, herror⟩ :=
      synchList_monitor.error hmonitored hexec
    rcases hheld.act with ⟨d, more, hd, -⟩ | ⟨item, rfl, hmem⟩
    · cases hd.symm.trans herror
    · exact ⟨item, l, hrest, hmem⟩
  · obtain ⟨lock, k, todo, hc⟩ : ∃ lock k todo, Consistent lock k todo
        w.shared := by
      cases hmonitored with
      | free hfree => exact ⟨_, _, _, hfree⟩
      | held _ hheld =>
          obtain ⟨k, todo, hc⟩ := hheld.exists_consistent
          exact ⟨_, k, todo, hc⟩
    rw [hc.passed, hc.items, List.append_assoc]
    exact List.prefix_append _ _
  · have hout : ¬ Out t (w.call t) (w.rest t) w.shared := by
      intro hout
      rw [hrest] at hout
      obtain ⟨s, hs⟩ := synchList_monitor.waits hout
      cases hs
    cases hmonitored with
    | free _ hall => exact absurd (hall t) hout
    | @held o c _ hheld hall =>
        obtain rfl : t = o := by
          by_contra ht
          exact hout (hall t ht)
        rw [hrest] at hheld
        cases hheld with
        | removing _ _ _ hl => exact hl
  · cases hmonitored with
    | held _ hheld => exact absurd hheld.lock hlock
    | free hfree hall => exact hfree.exists_onItsWay hall hlist hqueue

/-- A thread sleeps, and another appends an item: it is on its way. -/
theorem fifo_without_lost_wakeup_two : ∃ w : ListWorld Nat Char,
    w.status 0 = .woken ∧ w.rest 1 = [] ∧ w.shared.data.list = ['a'] ∧
      w.shared.data.removed <+:
        (w.shared.passed .lock).filterMap ListCall.item := by
  have hready : Threads.Status.ready ≠ .blocked := by decide
  have h₀ : (synchList Nat Char).Reachable (newSynchList Nat Char) _ := .init
  have h₁ := h₀.start (t := 0) .removeFront rfl
  have h₂ := h₁.start (t := 1) (.append 'a') rfl
  have h₃ := h₂.exec (t := 0) hready rfl
  have h₄ := h₃.exec (t := 0) hready rfl
  have h₅ := h₄.exec (t := 0) hready rfl
  have h₆ := h₅.exec (t := 0) hready rfl
  have h₇ := h₆.exec (t := 0) hready rfl
  have h₈ := h₇.exec (t := 0) hready rfl
  have h₉ := h₈.exec (t := 0) hready rfl
  have h₁₀ := h₉.exec (t := 0) hready rfl
  have h₁₁ := h₁₀.exec (t := 0) hready rfl
  have h₁₂ := h₁₁.exec (t := 1) hready rfl
  have h₁₃ := h₁₂.exec (t := 1) hready rfl
  have h₁₄ := h₁₃.exec (t := 1) hready rfl
  have h₁₅ := h₁₄.exec (t := 1) hready rfl
  have h₁₆ := h₁₅.exec (t := 1) hready rfl
  have h₁₇ := h₁₆.exec (t := 1) hready rfl
  have h₁₈ := h₁₇.exec (t := 1) hready rfl
  have h₁₉ := h₁₈.exec (t := 1) hready rfl
  have h₂₀ := h₁₉.exec (t := 1) hready rfl
  exact ⟨_, rfl, rfl, rfl, (fifo_without_lost_wakeup h₂₀).2.1⟩

end EroikoBlue.MP3.SynchList
