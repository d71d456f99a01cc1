/-
# `MP4.Network` — the mail of any number of machines

The machines of `MP4.PostOffice` put together.  The invariant is theirs, for the
letters that the network took to each machine and did not lose.

`mail_in_order`: whatever machines and threads do, and however their steps are
interleaved, a box gets the mail that was sent to it and not lost, in order,
once, as it was sent; and no assertion fails.  `mail_arrives`: nothing is left
on the way when nobody has anything to do.

## When nothing is left to do

`Quiet` says that no event of the machines themselves changes anything: no
interrupt is due, no thread is on its way through `Send`, no worker has a mail
in its hand.  The argument goes through the places a letter can be in, one after
the other, and finds each of them empty: the network and the packet in the
device (`Quiet.put`), the sender that waits for the lock or for the interrupt
(`Quiet.unlocked`, `Quiet.idle`).  What is left is the box.

`mail_arrives_one` is a run with one mail, followed from `Send` into the box.
-/
import EroikoBlue.MP4.PostOffice

namespace EroikoBlue.MP4.PostOffice

open Bytes (Byte Word blit)
open Function (update update_self update_of_ne)

variable {Id : Type} [DecidableEq Id]

/-! ## The whole network -/

structure Net.Inv (net : Net Id) : Prop where
  outputs : ∀ hostName, (net.outputs hostName).Inv hostName
  inputs : ∀ hostName, (net.inputs hostName).Inv hostName
    (net.arrivals hostName)

namespace Net
variable {net net' : Net Id} {hostName : Word} {o : Output Id} {i : Input}

omit [DecidableEq Id] in
theorem Inv.setOutput (h : net.Inv) (ho : o.Inv hostName) :
    (net.setOutput hostName o).Inv := by
  refine ⟨fun u => ?_, h.inputs⟩
  show (update net.outputs hostName o u).Inv u
  by_cases hu : u = hostName
  · subst hu
    rw [update_self]
    exact ho
  · rw [update_of_ne hu]
    exact h.outputs u

omit [DecidableEq Id] in
theorem Inv.setInput (h : net.Inv)
    (hi : i.Inv hostName (net.arrivals hostName)) :
    (net.setInput hostName i).Inv := by
  refine ⟨h.outputs, fun u => ?_⟩
  show (update net.inputs hostName i u).Inv u (net.arrivals u)
  by_cases hu : u = hostName
  · subst hu
    rw [update_self]
    exact hi
  · rw [update_of_ne hu]
    exact h.inputs u

omit [DecidableEq Id] in
theorem arrivals_append {outputs : Word → Output Id} {inputs : Word → Input}
    (l : Letter) (lost : Bool) (u : Word) :
    arrivals ⟨outputs, inputs, net.sent ++ [(l, lost)]⟩ u =
      net.arrivals u ++ if lost = false ∧ l.toAddr = u then [l] else [] := by
  rw [arrivals, arrivals, List.filter_append, List.map_append]
  cases lost with
  | false => by_cases hu : l.toAddr = u <;> simp [hu]
  | true => simp

theorem Inv.send (h : net.Inv) {t : Id} {lost : Bool} {padding : List Byte}
    (hpadding : ∀ l, (net.outputs hostName).senders t = .sends l →
      (l.wire padding).length = MaxWireSize) :
    ∃ net', net.send hostName t lost padding = .ok net' ∧ net'.Inv := by
  unfold Net.send
  cases hplace : (net.outputs hostName).senders t with
  | sends l =>
      obtain ⟨o, hsend, ho⟩ := (h.outputs hostName).send hplace
      obtain ⟨hl, -⟩ := (h.outputs hostName).letters t l (.inr hplace)
      dsimp only
      rw [hsend, Outcome.ok_bind]
      refine ⟨_, rfl, (h.setOutput ho).outputs, fun u => ?_⟩
      rw [arrivals_append]
      cases lost with
      | true =>
          show (net.inputs u).Inv u (net.arrivals u ++ [])
          rw [List.append_nil]
          exact h.inputs u
      | false =>
          show (update net.inputs l.toAddr _ u).Inv u _
          by_cases hu : u = l.toAddr
          · subst hu
            rw [update_self, if_pos ⟨rfl, rfl⟩]
            exact (h.inputs _).queue hl rfl ⟨padding, rfl, hpadding l hplace⟩
          · rw [update_of_ne hu, if_neg (fun hto => hu hto.2.symm),
              List.append_nil]
            exact h.inputs u
  | _ => exact ⟨net, rfl, h⟩

/-- An event fails nowhere, and keeps the invariant. -/
theorem Inv.step (h : net.Inv) {e : Event Id}
    (hallowed : e.Allowed net hostName) :
    ∃ net', e.run net hostName = .ok net' ∧ net'.Inv := by
  cases e with
  | post t toAddr mailHdr data =>
      obtain ⟨o, hrun, ho⟩ := (h.outputs hostName).post (t := t)
        (l := ⟨toAddr, hostName, mailHdr, data⟩)
        ⟨hallowed.1, hallowed.2.1, hallowed.2.2⟩ rfl
      exact ⟨_, Outcome.bind_eq_ok.mpr ⟨o, hrun, rfl⟩, h.setOutput ho⟩
  | acquire t => exact ⟨_, rfl, h.setOutput ((h.outputs hostName).acquire t)⟩
  | send t lost padding => exact h.send hallowed
  | sendInt => exact ⟨_, rfl, h.setOutput (h.outputs hostName).callBack⟩
  | sent t => exact ⟨_, rfl, h.setOutput ((h.outputs hostName).await t)⟩
  | release t =>
      obtain ⟨o, hrun, ho⟩ := (h.outputs hostName).release t
      exact ⟨_, Outcome.bind_eq_ok.mpr ⟨o, hrun, rfl⟩, h.setOutput ho⟩
  | recvInt =>
      obtain ⟨i, hrun, hi⟩ := (h.inputs hostName).callBack
      exact ⟨_, Outcome.bind_eq_ok.mpr ⟨i, hrun, rfl⟩, h.setInput hi⟩
  | available => exact ⟨_, rfl, h.setInput (h.inputs hostName).await⟩
  | receive => exact ⟨_, rfl, h.setInput (h.inputs hostName).receive⟩
  | put =>
      obtain ⟨i, hrun, hi⟩ := (h.inputs hostName).put
      exact ⟨_, Outcome.bind_eq_ok.mpr ⟨i, hrun, rfl⟩, h.setInput hi⟩
  | get box =>
      obtain ⟨i, hrun, hi⟩ := (h.inputs hostName).get hallowed
      exact ⟨_, Outcome.bind_eq_ok.mpr ⟨i, hrun, rfl⟩, h.setInput hi⟩

omit [DecidableEq Id] in
theorem inv_start : (start : Net Id).Inv where
  outputs := by
    refine fun _ => ⟨.free rfl rfl rfl, fun _ _ => .inl rfl, ?_, rfl⟩
    rintro _ _ (⟨⟨⟩⟩ | ⟨⟨⟩⟩)
  inputs := fun _ => ⟨nofun, [], [], [], [], rfl, fun _ => rfl, .waits,
    .none nofun rfl, .nil⟩

theorem Reachable.inv (h : Reachable net) : net.Inv := by
  induction h with
  | start => exact inv_start
  | step _ hostName e hallowed hrun ih =>
      obtain ⟨net', hok, hinv⟩ := ih.step hallowed
      cases hok.symm.trans hrun
      exact hinv

omit [DecidableEq Id] in
/-- What was sent to a box and not lost. -/
def sentTo (net : Net Id) (hostName : Word) (box : Nat) : List Letter :=
  (net.arrivals hostName).filter (boxOf · = box)

/-- A box gets what was sent to it and not lost, in order, once and as it was
sent; and no assertion fails. -/
theorem mail_in_order (h : Reachable net) :
    (∀ hostName box,
      (net.inputs hostName).got box ++ (net.inputs hostName).boxes box <+:
      (net.sentTo hostName box).map (·.mail)) ∧
    ∀ hostName (e : Event Id), e.Allowed net hostName →
      ∃ net', e.run net hostName = .ok net' := by
  refine ⟨fun hostName box => ?_, fun hostName e hallowed => ?_⟩
  · obtain ⟨-, put, hand, unread, queued, heq, hholds⟩ := h.inv.inputs hostName
    rw [hholds.boxes, sentTo, heq, List.append_assoc, List.append_assoc,
      List.filter_append, List.map_append]
    exact List.prefix_append ..
  · obtain ⟨net', hrun, -⟩ := h.inv.step hallowed
    exact ⟨net', hrun⟩

/-- One byte for box 0 of machine 1, from machine 0. -/
theorem mail_in_order_one :
    ∃ net : Net Unit, (net.inputs 1).boxes 0 = [⟨⟨1, 0, 13⟩, ⟨0, 1, 1⟩, [7]⟩] ∧
    (∀ hostName box,
      (net.inputs hostName).got box ++ (net.inputs hostName).boxes box <+:
      (net.sentTo hostName box).map (·.mail)) ∧
    ∀ hostName (e : Event Unit), e.Allowed net hostName →
      ∃ net', e.run net hostName = .ok net' := by
  have h₁ := Reachable.start.step 0 (.post () 1 ⟨0, 1, 1⟩ [7])
    ⟨⟨by decide, by decide⟩, by decide, by decide⟩ rfl
  have h₂ := h₁.step 0 (.acquire ()) trivial rfl
  have h₃ := h₂.step 0 (.send () false (List.replicate 39 0))
    (by rintro _ ⟨⟩; decide) rfl
  have h₄ := h₃.step 1 .recvInt trivial rfl
  have h₅ := h₄.step 1 .available trivial rfl
  have h₆ := h₅.step 1 .receive trivial rfl
  have h₇ := h₆.step 1 .put trivial rfl
  exact ⟨_, rfl, mail_in_order h₇⟩

/-- Nothing happens by itself any more. -/
def Quiet (net : Net Id) : Prop :=
  ∀ hostName (e : Event Id), e.Internal → e.Allowed net hostName →
    e.run net hostName = .ok net

omit [DecidableEq Id] in
theorem setOutput_eq (hset : net.setOutput hostName o = net) :
    o = net.outputs hostName := by
  have happly : update net.outputs hostName o hostName = net.outputs hostName :=
    congrFun (congrArg Net.outputs hset) hostName
  rwa [update_self] at happly

omit [DecidableEq Id] in
theorem setInput_eq (hset : net.setInput hostName i = net) :
    i = net.inputs hostName := by
  have happly : update net.inputs hostName i hostName = net.inputs hostName :=
    congrFun (congrArg Net.inputs hset) hostName
  rwa [update_self] at happly

theorem Quiet.not_sends (h : net.Quiet) (hinv : net.Inv) (hostName : Word)
    (t : Id) (l : Letter) :
    (net.outputs hostName).senders t ≠ .sends l := by
  intro hplace
  have hl := ((hinv.outputs hostName).letters t l (.inr hplace)).1
  obtain ⟨o, hsend, -⟩ := (hinv.outputs hostName).send hplace
  have hlen : (l.wire (List.replicate (MaxPacketSize - l.buffer.length)
      0)).length = MaxWireSize := by
    have hle := Letter.pktHdr_length_le hl.toFits
    rw [Letter.toNat_pktHdr_length hl.toFits] at hle
    rw [Letter.wire, List.length_append, List.length_append,
      Header.length_bytes, List.length_replicate]
    simp only [MaxPacketSize, MaxWireSize, HeaderSize] at *
    omega
  have hallowed : (Event.send t true (List.replicate
      (MaxPacketSize - l.buffer.length) 0)).Allowed net hostName := by
    intro l' hplace'
    cases hplace.symm.trans hplace'
    exact hlen
  have hrun := h hostName (.send t true
    (List.replicate (MaxPacketSize - l.buffer.length) 0)) trivial hallowed
  rw [Event.run, Net.send, hplace] at hrun
  dsimp only at hrun
  rw [hsend, Outcome.ok_bind] at hrun
  have hsent : net.sent ++ [(l, true)] = net.sent :=
    congrArg Net.sent (Except.ok.inj hrun)
  exact List.cons_ne_nil _ _ (List.append_right_eq_self.mp hsent)

theorem Quiet.unlocked (h : net.Quiet) (hinv : net.Inv) (hostName : Word) :
    (net.outputs hostName).sendLock = none := by
  cases (hinv.outputs hostName).held with
  | free hlock => exact hlock
  | sends _ hplace => exact absurd hplace (h.not_sends hinv hostName _ _)
  | @waits t hlock hplace howed =>
      have hcallBack :=
        setOutput_eq (Except.ok.inj (h hostName (.sendInt) trivial trivial))
      have hawait :=
        setOutput_eq (Except.ok.inj (h hostName (.sent t) trivial trivial))
      by_cases hdue : (net.outputs hostName).scheduled = 0
      · have hsent : (net.outputs hostName).messageSent ≠ 0 := by omega
        rw [Output.await, hplace] at hawait
        dsimp only at hawait
        rw [if_neg hsent] at hawait
        have hmessage : (net.outputs hostName).messageSent - 1 =
            (net.outputs hostName).messageSent :=
          congrArg Output.messageSent hawait
        omega
      · rw [Output.callBack, if_neg hdue] at hcallBack
        have hscheduled : (net.outputs hostName).scheduled - 1 =
            (net.outputs hostName).scheduled :=
          congrArg Output.scheduled hcallBack
        omega
  | @releases t hlock hplace =>
      obtain ⟨o, hrelease, hrun⟩ :=
        Outcome.bind_eq_ok.mp (h hostName (.release t) trivial trivial)
      rw [Output.release, hplace] at hrelease
      dsimp only at hrelease
      rw [assertMsg_pos hlock] at hrelease
      cases hrelease
      have hnone : none = (net.outputs hostName).sendLock :=
        congrArg Output.sendLock (setOutput_eq (Except.ok.inj hrun))
      exact hnone.symm

theorem Quiet.idle (h : net.Quiet) (hinv : net.Inv) (hostName : Word) (t : Id) :
    (net.outputs hostName).senders t = .idle := by
  have hlock := h.unlocked hinv hostName
  rcases (hinv.outputs hostName).outside t (hlock ▸ nofun) with
    hplace | ⟨l, hplace⟩
  · exact hplace
  · have hacquire :=
      setOutput_eq (Except.ok.inj (h hostName (.acquire t) trivial trivial))
    rw [Output.acquire, hplace, hlock] at hacquire
    have hsome : some t = (net.outputs hostName).sendLock :=
      congrArg Output.sendLock hacquire
    cases hlock.symm.trans hsome.symm

theorem Quiet.put (h : net.Quiet) (hinv : net.Inv) (hostName : Word)
    (box : Nat) :
    (net.inputs hostName).got box ++ (net.inputs hostName).boxes box =
      (net.sentTo hostName box).map (·.mail) := by
  obtain ⟨hall, put, hand, unread, queued, heq, hholds⟩ := hinv.inputs hostName
  have hcallBack : (net.inputs hostName).callBack hostName =
      .ok (net.inputs hostName) := by
    obtain ⟨i, hcallBack, hrun⟩ :=
      Outcome.bind_eq_ok.mp (h hostName (.recvInt) trivial trivial)
    exact hcallBack.trans
      (congrArg Except.ok (setInput_eq (Except.ok.inj hrun)))
  obtain ⟨rfl, rfl, rfl⟩ : hand = [] ∧ unread = [] ∧ queued = [] := by
    refine hholds.settled hcallBack ?_ ?_ ?_
    · exact setInput_eq
        (Except.ok.inj (h hostName (.available) trivial trivial))
    · exact setInput_eq (Except.ok.inj (h hostName (.receive) trivial trivial))
    · obtain ⟨i, hput, hrun⟩ :=
        Outcome.bind_eq_ok.mp (h hostName (.put) trivial trivial)
      exact hput.trans (congrArg Except.ok (setInput_eq (Except.ok.inj hrun)))
  rw [hholds.boxes, sentTo, heq, List.append_nil, List.append_nil,
    List.append_nil]

/-- When nothing happens by itself any more, every call of `Send` has returned,
and everything that was not lost is in its box or was taken out of it. -/
theorem mail_arrives (h : Reachable net) (hquiet : net.Quiet) :
    (∀ hostName t, (net.outputs hostName).senders t = .idle) ∧ ∀ hostName box,
      (net.inputs hostName).got box ++ (net.inputs hostName).boxes box =
        (net.sentTo hostName box).map (·.mail) :=
  ⟨fun hostName t => hquiet.idle h.inv hostName t,
    fun hostName box => hquiet.put h.inv hostName box⟩

/-- It is enough that no interrupt is due, nobody is in `Send`, and the worker
waits for mail. -/
theorem quiet_of (houtputs : ∀ hostName, (net.outputs hostName).scheduled = 0 ∧
      ∀ t, (net.outputs hostName).senders t = .idle)
    (hinputs : ∀ hostName, (net.inputs hostName).inHdr.length = 0 ∧
      (net.inputs hostName).sock = [] ∧
      (net.inputs hostName).messageAvailable = 0 ∧
      (net.inputs hostName).worker = .waits) : net.Quiet := by
  intro hostName e hinternal _
  obtain ⟨hscheduled, hidle⟩ := houtputs hostName
  obtain ⟨hlength, hsock, havailable, hworker⟩ := hinputs hostName
  have houtput : net.setOutput hostName (net.outputs hostName) = net :=
    congrArg (Net.mk · net.inputs net.sent) (Function.update_eq_self ..)
  have hinput : net.setInput hostName (net.inputs hostName) = net :=
    congrArg (Net.mk net.outputs · net.sent) (Function.update_eq_self ..)
  cases e with
  | post => exact hinternal.elim
  | get => exact hinternal.elim
  | send t =>
      rw [Event.run, Net.send, hidle t]
      rfl
  | acquire t =>
      rw [Event.run, Output.acquire, hidle t]
      exact congrArg Except.ok houtput
  | sendInt =>
      rw [Event.run, Output.callBack, if_pos hscheduled]
      exact congrArg Except.ok houtput
  | sent t =>
      rw [Event.run, Output.await, hidle t]
      exact congrArg Except.ok houtput
  | release t =>
      rw [Event.run, Output.release, hidle t]
      exact congrArg Except.ok houtput
  | recvInt =>
      rw [Event.run, Input.callBack, if_neg (not_not.mpr hlength), hsock]
      exact congrArg Except.ok hinput
  | available =>
      rw [Event.run, Input.await, hworker]
      dsimp only
      rw [if_pos havailable]
      exact congrArg Except.ok hinput
  | receive =>
      rw [Event.run, Input.receive, hworker]
      exact congrArg Except.ok hinput
  | put =>
      rw [Event.run, Input.put, hworker]
      exact congrArg Except.ok hinput

/-- Machine 0 sends as `o` and machine 1 receives as `i`, and no other has done
anything. -/
def between (o : Output Unit) (i : Input)
    (sent : List (Letter × Bool)) : Net Unit :=
  ⟨update (start : Net Unit).outputs 0 o,
    update (start : Net Unit).inputs 1 i, sent⟩

section
variable {o o' : Output Unit} {i i' : Input} {sent sent' : List (Letter × Bool)}

theorem Reachable.output (h : Reachable (between o i sent)) (e : Event Unit)
    (hallowed : e.Allowed (between o i sent) 0) (hrun : e.run (between o i sent)
      0 = .ok ((between o i sent).setOutput 0 o')) :
    Reachable (between o' i sent) := by
  have heq : (between o i sent).setOutput 0 o' = between o' i sent := by
    simp only [setOutput, between, Function.update_idem]
  exact heq ▸ h.step 0 e hallowed hrun

theorem Reachable.input (h : Reachable (between o i sent)) (e : Event Unit)
    (hallowed : e.Allowed (between o i sent) 1) (hrun : e.run (between o i sent)
      1 = .ok ((between o i sent).setInput 1 i')) :
    Reachable (between o i' sent) := by
  have heq : (between o i sent).setInput 1 i' = between o i' sent := by
    simp only [setInput, between, Function.update_idem]
  exact heq ▸ h.step 1 e hallowed hrun

theorem Reachable.brought (h : Reachable (between o i sent)) (e : Event Unit)
    (hallowed : e.Allowed (between o i sent) 0)
    (hrun : e.run (between o i sent) 0 =
      .ok ⟨update (between o i sent).outputs 0 o',
        update (between o i sent).inputs 1 i', sent'⟩) :
    Reachable (between o' i' sent') := by
  have hstep := h.step 0 e hallowed hrun
  simp only [between, Function.update_idem] at hstep
  exact hstep

theorem quiet_between (ho : o.scheduled = 0 ∧ ∀ t, o.senders t = .idle)
    (hi : i.inHdr.length = 0 ∧ i.sock = [] ∧ i.messageAvailable = 0 ∧
      i.worker = .waits) :
    (between o i sent).Quiet := by
  refine quiet_of (fun hostName => ?_) fun hostName => ?_
  · by_cases hhost : hostName = 0
    · subst hhost
      exact ho
    · have hother : (between o i sent).outputs hostName =
        start.outputs hostName := update_of_ne hhost _ _
      rw [hother]
      exact ⟨rfl, fun _ => rfl⟩
  · by_cases hhost : hostName = 1
    · subst hhost
      exact hi
    · have hother : (between o i sent).inputs hostName =
          (start : Net Unit).inputs hostName :=
        update_of_ne hhost _ _
      rw [hother]
      exact ⟨rfl, rfl, rfl, rfl⟩

end

/-- The byte of `mail_in_order_one`, when `Send` has returned and the worker has
put it away. -/
theorem mail_arrives_one :
    ∃ net : Net Unit, net.sent = [(⟨1, 0, ⟨0, 1, 1⟩, [7]⟩, false)] ∧
    (net.inputs 1).boxes 0 = [⟨⟨1, 0, 13⟩, ⟨0, 1, 1⟩, [7]⟩] ∧
    (∀ hostName t, (net.outputs hostName).senders t = .idle) ∧ ∀ hostName box,
      (net.inputs hostName).got box ++ (net.inputs hostName).boxes box =
        (net.sentTo hostName box).map (·.mail) := by
  have hstart : between ((start : Net Unit).outputs 0)
      ((start : Net Unit).inputs 1) [] = start := by
    rw [between, Function.update_eq_self, Function.update_eq_self]
    rfl
  have h₀ := hstart.symm ▸ (Reachable.start : Reachable (start : Net Unit))
  have h₁ := h₀.output (.post () 1 ⟨0, 1, 1⟩ [7])
    ⟨⟨by decide, by decide⟩, by decide, by decide⟩ rfl
  have h₂ := h₁.output (.acquire ()) trivial rfl
  have h₃ := h₂.brought (.send () false (List.replicate 39 0))
    (by rintro _ ⟨⟩; decide) rfl
  have h₄ := h₃.output .sendInt trivial rfl
  have h₅ := h₄.output (.sent ()) trivial rfl
  have h₆ := h₅.output (.release ()) trivial rfl
  have h₇ := h₆.input .recvInt trivial rfl
  have h₈ := h₇.input .available trivial rfl
  have h₉ := h₈.input .receive trivial rfl
  have h := h₉.input .put trivial rfl
  exact ⟨_, rfl, rfl,
    mail_arrives h (quiet_between ⟨rfl, fun _ => rfl⟩ ⟨rfl, rfl, rfl, rfl⟩)⟩

end Net

end EroikoBlue.MP4.PostOffice
