/-
# `MP4.PostOffice` — `network/post.cc` over `machine/network.cc`, on any number of machines

Each machine has a post office.  `Send` makes a packet, takes a lock, hands the
packet to the network, which may lose it, and waits for the interrupt that says
the next one can be sent.  On the other side an interrupt looks for a packet in
the socket, and a thread, the postal worker, puts the mail of the packet into a
box:

    sock      the packets the network has brought, in order
    inbox     one of them, if `inHdr.length` is not 0
    buffer    what the worker has received
    boxes     what is there for `Receive`

The steps of a machine are single calls on a semaphore, a lock or the network,
so threads and interrupts may come between any two of them.  `Output.Inv` is
about a sending side: who has the lock, and that the network or the semaphore
owes the thread that waits one answer and nobody else any (`Owed`).  `Input.Inv`
is about a receiving side: the letters that have come to it are put away, with
the worker, in the inbox and in the socket, in this order.  There is one lemma
for each step, which says that its assertions hold too; `MP4.Network` puts the
machines together.
-/
import Mathlib.Data.List.Forall2
import EroikoBlue.MP4.Mail

namespace EroikoBlue.MP4.PostOffice

open Bytes (Byte Word blit)
open Function (update update_self update_of_ne)

/-- `PostOfficeInput(10)` in `Kernel::Initialize`. -/
abbrev NumBoxes : Nat := 10

/-- Where a thread is in `Send`. -/
inductive Sender where
  | idle
  /-- At `sendLock->Acquire()`. -/
  | acquires (l : Letter)
  /-- At `network->Send(pktHdr, buffer)`. -/
  | sends (l : Letter)
  /-- At `messageSent->P()`. -/
  | waits
  /-- At `sendLock->Release()`. -/
  | releases

/-- `PostOfficeOutput`, its `NetworkOutput`, and the threads that send. -/
structure Output (Id : Type) where
  sendLock : Option Id
  messageSent : Nat
  sendBusy : Bool
  /-- Interrupts of type `NetworkSendInt` that are scheduled. -/
  scheduled : Nat
  senders : Id → Sender

/-- Where the postal worker is in `PostalDelivery`. -/
inductive Worker where
  /-- At `messageAvailable->P()`. -/
  | waits
  /-- At `network->Receive(buffer)`. -/
  | receives
  /-- At `boxes[mailHdr.to].Put(..)`. -/
  | puts (pktHdr : PacketHeader)

/-- `PostOfficeInput` and its `NetworkInput`. -/
structure Input where
  sock : List (List Byte)
  inHdr : PacketHeader
  inbox : List Byte
  messageAvailable : Nat
  worker : Worker
  buffer : List Byte
  boxes : Nat → List Mail
  /-- A record of what was taken out of the boxes. -/
  got : Nat → List Mail

/-- The machines, by `hostName`. -/
structure Net (Id : Type) where
  outputs : Word → Output Id
  inputs : Word → Input
  /-- A record of what was sent, and of whether the network lost it. -/
  sent : List (Letter × Bool)

variable {Id : Type} [DecidableEq Id]

namespace Output
variable (o : Output Id) (t : Id)

/-- `Send`, up to the lock. -/
def post (l : Letter) : Except Fault (Output Id) :=
  match o.senders t with
  | .idle => do
    assertMsg (l.mailHdr.length.toNat ≤ MaxMailSize) ""
    assertMsg (0 ≤ l.mailHdr.toAddr.toInt) ""
    pure { o with senders := update o.senders t (.acquires l) }
  | _ => pure o

/-- `sendLock->Acquire()`. -/
def acquire : Output Id :=
  match o.senders t, o.sendLock with
  | .acquires l, none =>
      { o with sendLock := some t, senders := update o.senders t (.sends l) }
  | _, _ => o

/-- `NetworkOutput::Send`, but for the packet. -/
def send (hostName : Word) (l : Letter) : Except Fault (Output Id) := do
  assertMsg (o.sendBusy = false ∧ l.pktHdr.length ≠ 0 ∧
    l.pktHdr.length.toNat ≤ MaxPacketSize ∧
    l.pktHdr.fromAddr = hostName) ""
  pure { o with scheduled := o.scheduled + 1, senders := update o.senders t .waits }

omit [DecidableEq Id] in
/-- `NetworkOutput::CallBack`, if it is due. -/
def callBack : Output Id :=
  if o.scheduled = 0 then o
  else { o with scheduled := o.scheduled - 1, sendBusy := false, messageSent := o.messageSent + 1 }

/-- `messageSent->P()`. -/
def await : Output Id :=
  match o.senders t with
  | .waits =>
    if o.messageSent = 0 then o
    else { o with messageSent := o.messageSent - 1, senders := update o.senders t .releases }
  | _ => o

/-- `sendLock->Release()`. -/
def release : Except Fault (Output Id) :=
  match o.senders t with
  | .releases => do
    assertMsg (o.sendLock = some t) ""
    pure { o with sendLock := none, senders := update o.senders t .idle }
  | _ => pure o

end Output

namespace Input
variable (i : Input)

/-- `NetworkInput::CallBack`. -/
def callBack (hostName : Word) : Except Fault Input :=
  if i.inHdr.length ≠ 0 then pure i
  else match i.sock with
    | [] => pure i
    | buffer :: sock => do
      assertMsg (buffer.length = MaxWireSize) ""
      let inHdr := Header.ofBytes buffer
      assertMsg (inHdr.toAddr = hostName ∧
        inHdr.length.toNat ≤ MaxPacketSize) ""
      pure { i with
        sock
        inHdr
        inbox :=
          blit i.inbox ((buffer.drop HeaderSize).take inHdr.length.toNat) 0
        messageAvailable := i.messageAvailable + 1 }

/-- `messageAvailable->P()`. -/
def await : Input :=
  match i.worker with
  | .waits =>
    if i.messageAvailable = 0 then i
    else { i with messageAvailable := i.messageAvailable - 1, worker := .receives }
  | _ => i

/-- `NetworkInput::Receive`. -/
def receive : Input :=
  match i.worker with
  | .receives =>
    let hdr := i.inHdr
    { i with
      inHdr := { hdr with length := 0 }
      buffer := if hdr.length ≠ 0 then
        blit i.buffer (i.inbox.take hdr.length.toNat) 0 else i.buffer
      worker := .puts hdr }
  | _ => i

/-- The rest of a round of `PostalDelivery`. -/
def put : Except Fault Input :=
  match i.worker with
  | .puts pktHdr => do
    let mailHdr := Header.ofBytes i.buffer
    assertMsg (0 ≤ mailHdr.toAddr.toInt ∧ mailHdr.toAddr.toInt < NumBoxes) ""
    assertMsg (mailHdr.length.toNat ≤ MaxMailSize) ""
    let mail ← Mail.new pktHdr mailHdr (i.buffer.drop HeaderSize)
    let box := mailHdr.toAddr.toInt.toNat
    pure { i with worker := .waits, boxes := update i.boxes box (i.boxes box ++ [mail]) }
  | _ => pure i

/-- `PostOfficeInput::Receive`; with nothing in the box the caller waits. -/
def get (box : Int) : Except Fault Input := do
  assertMsg (0 ≤ box ∧ box < NumBoxes) ""
  match i.boxes box.toNat with
  | [] => pure i
  | mail :: messages => do
    assertMsg (mail.mailHdr.length.toNat ≤ MaxMailSize) ""
    pure { i with
      boxes := update i.boxes box.toNat messages
      got := update i.got box.toNat (i.got box.toNat ++ [mail]) }

end Input

/-- What can happen on a machine. -/
inductive Event (Id : Type) where
  | post (t : Id) (toAddr : Word) (mailHdr : MailHeader) (data : List Byte)
  | acquire (t : Id)
  | send (t : Id) (lost : Bool) (padding : List Byte)
  | sendInt
  | sent (t : Id)
  | release (t : Id)
  | recvInt
  | available
  | receive
  | put
  | get (box : Int)

namespace Net
variable (net : Net Id) (hostName : Word)

omit [DecidableEq Id] in
def setOutput (o : Output Id) : Net Id :=
  { net with outputs := update net.outputs hostName o }

omit [DecidableEq Id] in
def setInput (i : Input) : Net Id :=
  { net with inputs := update net.inputs hostName i }

/-- `network->Send(pktHdr, buffer)`. -/
def send (t : Id) (lost : Bool) (padding : List Byte) : Except Fault (Net Id) :=
  match (net.outputs hostName).senders t with
  | .sends l => do
    let o ← (net.outputs hostName).send t hostName l
    let toAddr := net.inputs l.toAddr
    pure { net with
      outputs := update net.outputs hostName o
      inputs := if lost then net.inputs else update net.inputs l.toAddr
        { toAddr with sock := toAddr.sock ++ [l.wire padding] }
      sent := net.sent ++ [(l, lost)] }
  | _ => pure net

end Net

namespace Event

def run (net : Net Id) (hostName : Word) : Event Id → Except Fault (Net Id)
  | .post t toAddr mailHdr data => do
    let o ← (net.outputs hostName).post t ⟨toAddr, hostName, mailHdr, data⟩
    pure (net.setOutput hostName o)
  | .acquire t =>
      pure (net.setOutput hostName ((net.outputs hostName).acquire t))
  | .send t lost padding => net.send hostName t lost padding
  | .sendInt => pure (net.setOutput hostName (net.outputs hostName).callBack)
  | .sent t => pure (net.setOutput hostName ((net.outputs hostName).await t))
  | .release t => do
    let o ← (net.outputs hostName).release t
    pure (net.setOutput hostName o)
  | .recvInt => do
    let i ← (net.inputs hostName).callBack hostName
    pure (net.setInput hostName i)
  | .available => pure (net.setInput hostName (net.inputs hostName).await)
  | .receive => pure (net.setInput hostName (net.inputs hostName).receive)
  | .put => do
    let i ← (net.inputs hostName).put
    pure (net.setInput hostName i)
  | .get box => do
    let i ← (net.inputs hostName).get box
    pure (net.setInput hostName i)

omit [DecidableEq Id] in
/-- Callers name boxes that there are and have the data they say; a packet fills
the wire. -/
def Allowed (net : Net Id) (hostName : Word) : Event Id → Prop
  | .post _ toAddr mailHdr data =>
      (Letter.mk toAddr hostName mailHdr data).Fits ∧ 0 ≤ mailHdr.toAddr.toInt ∧
      mailHdr.toAddr.toInt < NumBoxes
  | .send t _ padding => ∀ l, (net.outputs hostName).senders t = .sends l →
        (l.wire padding).length = MaxWireSize
  | .get box => 0 ≤ box ∧ box < NumBoxes
  | _ => True

/-- The steps that are not calls. -/
def Internal : Event Id → Prop
  | .post .. | .get _ => False
  | _ => True

end Event

namespace Net

omit [DecidableEq Id] in
/-- Every machine after `Kernel::Initialize`. -/
def start : Net Id where
  outputs := fun _ => ⟨none, 0, false, 0, fun _ => .idle⟩
  inputs := fun _ => ⟨[], ⟨0, 0, 0⟩, List.replicate MaxPacketSize 0, 0, .waits,
    List.replicate MaxPacketSize 0,
    fun _ => [], fun _ => []⟩
  sent := []

inductive Reachable : Net Id → Prop
  | start : Reachable start
  | step {net net' : Net Id} (h : Reachable net) (hostName : Word)
      (e : Event Id) (hallowed : e.Allowed net hostName)
      (hrun : e.run net hostName = .ok net') : Reachable net'

omit [DecidableEq Id] in
/-- What the network took to a machine. -/
def arrivals (net : Net Id) (hostName : Word) : List Letter :=
  (net.sent.filter fun s => !s.2 && s.1.toAddr = hostName).map Prod.fst

end Net

/-! ## Sending -/

/-- A letter to a box that there is. -/
structure Deliverable (l : Letter) : Prop extends l.Fits where
  nonneg : 0 ≤ l.mailHdr.toAddr.toInt
  lt : l.mailHdr.toAddr.toInt < NumBoxes

/-- The box on the machine it goes to. -/
def boxOf (l : Letter) : Nat := l.mailHdr.toAddr.toInt.toNat

/-- Who has `sendLock`, and whether the network or the semaphore owes it an
answer. -/
inductive Output.Held (o : Output Id) : Prop
  | free (hlock : o.sendLock = none) (hscheduled : o.scheduled = 0)
      (hsent : o.messageSent = 0)
  | sends {t : Id} {l : Letter} (hlock : o.sendLock = some t)
      (hplace : o.senders t = .sends l)
      (hscheduled : o.scheduled = 0) (hsent : o.messageSent = 0)
  | waits {t : Id} (hlock : o.sendLock = some t) (hplace : o.senders t = .waits)
      (howed : o.scheduled + o.messageSent = 1)
  | releases {t : Id} (hlock : o.sendLock = some t)
      (hplace : o.senders t = .releases)
      (hscheduled : o.scheduled = 0) (hsent : o.messageSent = 0)

structure Output.Inv (hostName : Word) (o : Output Id) : Prop where
  held : o.Held
  outside : ∀ t, o.sendLock ≠ some t → o.senders t = .idle ∨
    ∃ l, o.senders t = .acquires l
  letters : ∀ t l, o.senders t = .acquires l ∨ o.senders t = .sends l →
    Deliverable l ∧ l.fromAddr = hostName
  busy : o.sendBusy = false

/-- What is owed to the thread that has the lock, by where it is. -/
inductive Output.Owed (o : Output Id) : Sender → Prop
  | sends {l : Letter} (hscheduled : o.scheduled = 0)
      (hsent : o.messageSent = 0) : Owed o (.sends l)
  | waits (howed : o.scheduled + o.messageSent = 1) : Owed o .waits
  | releases (hscheduled : o.scheduled = 0) (hsent : o.messageSent = 0) :
      Owed o .releases

omit [DecidableEq Id] in
theorem Output.Held.owed {o : Output Id} {t : Id} (h : o.Held)
    (hlock : o.sendLock = some t) :
    o.Owed (o.senders t) := by
  cases h with
  | free hnone => cases hnone.symm.trans hlock
  | sends hlock' hplace hscheduled hsent =>
      cases hlock'.symm.trans hlock
      exact hplace ▸ .sends hscheduled hsent
  | waits hlock' hplace howed =>
      cases hlock'.symm.trans hlock
      exact hplace ▸ .waits howed
  | releases hlock' hplace hscheduled hsent =>
      cases hlock'.symm.trans hlock
      exact hplace ▸ .releases hscheduled hsent

omit [DecidableEq Id] in
/-- With the lock free nothing is owed. -/
theorem Output.Held.none_owed {o : Output Id} (h : o.Held)
    (hlock : o.sendLock = none) :
    o.scheduled = 0 ∧ o.messageSent = 0 := by
  cases h with
  | free _ hscheduled hsent => exact ⟨hscheduled, hsent⟩
  | sends hlock' => cases hlock.symm.trans hlock'
  | waits hlock' => cases hlock.symm.trans hlock'
  | releases hlock' => cases hlock.symm.trans hlock'

namespace Output.Inv
variable {hostName : Word} {o : Output Id} {t : Id} {l : Letter}

omit [DecidableEq Id] in
theorem not_holder (h : o.Inv hostName)
    (hplace : o.senders t = .idle ∨ o.senders t = .acquires l) :
    o.sendLock ≠ some t := by
  intro hlock
  have howed := h.held.owed hlock
  rcases hplace with hplace | hplace
  · rw [hplace] at howed
    cases howed
  · rw [hplace] at howed
    cases howed

omit [DecidableEq Id] in
theorem holder (h : o.Inv hostName) (hidle : o.senders t ≠ .idle)
    (hacquires : ∀ l, o.senders t ≠ .acquires l) :
    o.sendLock = some t := by
  by_contra hlock
  rcases h.outside t hlock with hplace | ⟨l, hplace⟩
  · exact hidle hplace
  · exact hacquires l hplace

theorem moved (h : o.Inv hostName) {o' : Output Id} {place : Sender}
    (hsenders : o'.senders = update o.senders t place)
    (hheld : o'.Held) (hbusy : o'.sendBusy = false)
    (hlocks : ∀ u, u ≠ t → o'.sendLock ≠ some u → o.sendLock ≠ some u)
    (houtside : o'.sendLock ≠ some t → place = .idle ∨ ∃ l, place = .acquires l)
    (hletters : ∀ l, place = .acquires l ∨ place = .sends l → Deliverable l ∧
      l.fromAddr = hostName) :
    o'.Inv hostName := by
  refine ⟨hheld, ?_, ?_, hbusy⟩
  · intro u hu
    rw [hsenders]
    by_cases hut : u = t
    · subst hut
      rw [update_self]
      exact houtside hu
    · rw [update_of_ne hut]
      exact h.outside u (hlocks u hut hu)
  · intro u l
    rw [hsenders]
    by_cases hut : u = t
    · subst hut
      rw [update_self]
      exact hletters l
    · rw [update_of_ne hut]
      exact h.letters u l

theorem held_other (h : o.Inv hostName) {place : Sender}
    (hlock : o.sendLock ≠ some t) :
    Output.Held { o with senders := update o.senders t place } := by
  have hother : ∀ u, o.sendLock = some u →
      update o.senders t place u = o.senders u := by
    intro u hu
    refine update_of_ne ?_ _ _
    rintro rfl
    exact hlock hu
  cases h.held with
  | free hnone hscheduled hsent => exact .free hnone hscheduled hsent
  | sends hlock hplace hscheduled hsent =>
      exact .sends hlock ((hother _ hlock).trans hplace) hscheduled hsent
  | waits hlock hplace howed =>
      exact .waits hlock ((hother _ hlock).trans hplace) howed
  | releases hlock hplace hscheduled hsent =>
      exact .releases hlock ((hother _ hlock).trans hplace) hscheduled hsent

theorem post (h : o.Inv hostName) (hl : Deliverable l)
    (hfrom : l.fromAddr = hostName) :
    ∃ o', o.post t l = .ok o' ∧ o'.Inv hostName := by
  unfold Output.post
  cases hplace : o.senders t with
  | idle =>
      rw [assertMsg_pos hl.length, assertMsg_pos hl.nonneg]
      refine ⟨_, rfl, h.moved rfl (h.held_other
        (h.not_holder (l := l) (.inl hplace))) h.busy (fun _ _ hu => hu)
        (fun _ => .inr ⟨l, rfl⟩) ?_⟩
      rintro l' (⟨⟨⟩⟩ | ⟨⟨⟩⟩)
      exact ⟨hl, hfrom⟩
  | _ => exact ⟨o, rfl, h⟩

theorem acquire (h : o.Inv hostName) (t : Id) : (o.acquire t).Inv hostName := by
  unfold Output.acquire
  split
  · next l hplace hlock =>
      obtain ⟨hscheduled, hsent⟩ := h.held.none_owed hlock
      refine h.moved rfl (.sends rfl (update_self ..) hscheduled hsent) h.busy
        ?_ (fun hne => absurd rfl hne) ?_
      · rintro u - - heq
        cases hlock.symm.trans heq
      · rintro l' (⟨⟨⟩⟩ | ⟨⟨⟩⟩)
        exact h.letters t l (.inl hplace)
  · exact h

theorem send (h : o.Inv hostName) (hplace : o.senders t = .sends l) :
    ∃ o', o.send t hostName l = .ok o' ∧ o'.Inv hostName := by
  have hlock := h.holder (t := t) (hplace ▸ nofun) (hplace ▸ nofun)
  obtain ⟨hl, hfrom⟩ := h.letters t l (.inr hplace)
  have hassert : o.sendBusy = false ∧ l.pktHdr.length ≠ 0 ∧
      l.pktHdr.length.toNat ≤ MaxPacketSize ∧
      l.pktHdr.fromAddr = hostName :=
    ⟨h.busy, Letter.pktHdr_length_pos hl.toFits,
      Letter.pktHdr_length_le hl.toFits, hfrom⟩
  refine ⟨_, by rw [Output.send, assertMsg_pos hassert]; rfl, ?_⟩
  have howed := h.held.owed hlock
  rw [hplace] at howed
  cases howed with
  | sends hscheduled hsent =>
      refine h.moved rfl (.waits hlock (update_self ..) ?_) h.busy
        (fun _ _ hu => hu) (fun hne => absurd hlock hne) ?_
      · show o.scheduled + 1 + o.messageSent = 1
        rw [hscheduled, hsent]
      · rintro l' (⟨⟨⟩⟩ | ⟨⟨⟩⟩)

omit [DecidableEq Id] in
theorem callBack (h : o.Inv hostName) : o.callBack.Inv hostName := by
  unfold Output.callBack
  split
  · exact h
  · next hdue =>
      refine ⟨?_, h.outside, h.letters, rfl⟩
      cases h.held with
      | free _ hscheduled => exact absurd hscheduled hdue
      | sends _ _ hscheduled => exact absurd hscheduled hdue
      | waits hlock hplace howed =>
          exact .waits hlock hplace (by dsimp only; omega)
      | releases _ _ hscheduled => exact absurd hscheduled hdue

theorem await (h : o.Inv hostName) (t : Id) : (o.await t).Inv hostName := by
  unfold Output.await
  split
  · next hplace =>
      split
      · exact h
      · next hsent =>
          have hlock := h.holder (t := t) (hplace ▸ nofun) (hplace ▸ nofun)
          have howed := h.held.owed hlock
          rw [hplace] at howed
          cases howed with
          | waits howed =>
              refine h.moved rfl (.releases hlock (update_self ..) ?_ ?_) h.busy
                (fun _ _ hu => hu)
                (fun hne => absurd hlock hne) ?_
              · dsimp only
                omega
              · dsimp only
                omega
              · rintro l' (⟨⟨⟩⟩ | ⟨⟨⟩⟩)
  · exact h

theorem release (h : o.Inv hostName) (t : Id) : ∃ o', o.release t = .ok o' ∧
    o'.Inv hostName := by
  unfold Output.release
  cases hplace : o.senders t with
  | releases =>
      have hlock := h.holder (t := t) (hplace ▸ nofun) (hplace ▸ nofun)
      rw [assertMsg_pos hlock]
      refine ⟨_, rfl, ?_⟩
      have howed := h.held.owed hlock
      rw [hplace] at howed
      cases howed with
      | releases hscheduled hsent =>
          refine h.moved rfl (.free rfl hscheduled hsent) h.busy ?_
            (fun _ => .inl rfl) ?_
          · rintro u hut - heq
            cases hlock.symm.trans heq
            exact hut rfl
          · rintro l' (⟨⟨⟩⟩ | ⟨⟨⟩⟩)
  | _ => exact ⟨o, rfl, h⟩

end Output.Inv

/-! ## Receiving -/

/-- A packet of the network with `l` in it. -/
def Carries (packet : List Byte) (l : Letter) : Prop :=
  ∃ padding, packet = l.wire padding ∧ (l.wire padding).length = MaxWireSize

/-- What the worker has received and not put away. -/
inductive InHand : Worker → List Byte → List Letter → Prop
  | waits {buffer : List Byte} : InHand .waits buffer []
  | receives {buffer : List Byte} : InHand .receives buffer []
  | puts (l : Letter) (rest : List Byte) :
      InHand (.puts l.pktHdr) (l.buffer ++ rest) [l]

/-- What is in the inbox; the semaphore and the worker know of it. -/
inductive InInbox : Worker → Nat → PacketHeader → List Byte → List Letter → Prop
  | none {worker : Worker} {inHdr : PacketHeader} {inbox : List Byte}
      (hworker : worker ≠ .receives)
      (hlength : inHdr.length = 0) : InInbox worker 0 inHdr inbox []
  | arrived {worker : Worker} (hworker : worker ≠ .receives) (l : Letter)
      (rest : List Byte) :
      InInbox worker 1 l.pktHdr (l.buffer ++ rest) [l]
  | noticed (l : Letter) (rest : List Byte) :
      InInbox .receives 0 l.pktHdr (l.buffer ++ rest) [l]

/-- Where the letters are that have come to a machine: put away, with the
worker, in the inbox, in the socket. -/
structure Input.Holds (i : Input)
    (put hand unread queued : List Letter) : Prop where
  boxes : ∀ b, i.got b ++ i.boxes b = (put.filter (boxOf · = b)).map (·.mail)
  hand : InHand i.worker i.buffer hand
  inbox : InInbox i.worker i.messageAvailable i.inHdr i.inbox unread
  sock : List.Forall₂ Carries i.sock queued

/-- The letters that have come to a machine are all there, in order. -/
def Input.Inv (hostName : Word) (i : Input) (letters : List Letter) : Prop :=
  (∀ l ∈ letters, Deliverable l ∧ l.toAddr = hostName) ∧
    ∃ put hand unread queued, letters = put ++ hand ++ unread ++ queued ∧
      i.Holds put hand unread queued

namespace Input.Inv
variable {hostName : Word} {i : Input} {letters : List Letter}

theorem queue {packet : List Byte} {l : Letter} (h : i.Inv hostName letters)
    (hl : Deliverable l) (hto : l.toAddr = hostName)
    (hcarries : Carries packet l) : Input.Inv hostName { i with
      sock := i.sock ++ [packet] } (letters ++ [l]) := by
  obtain ⟨hall, put, hand, unread, queued, rfl, hholds⟩ := h
  refine ⟨?_, put, hand, unread, queued ++ [l], (List.append_assoc ..),
    hholds.boxes, hholds.hand, hholds.inbox, ?_⟩
  · intro l' hl'
    rcases List.mem_append.mp hl' with hl' | hl'
    · exact hall l' hl'
    · cases List.mem_singleton.mp hl'
      exact ⟨hl, hto⟩
  · exact List.rel_append hholds.sock (.cons hcarries .nil)

theorem carries_eq {packet : List Byte} {l : Letter} (hl : l.Fits)
    (h : Carries packet l) :
    packet.length = MaxWireSize ∧ Header.ofBytes packet = l.pktHdr ∧
      (packet.drop HeaderSize).take l.pktHdr.length.toNat = l.buffer := by
  obtain ⟨padding, rfl, hlen⟩ := h
  refine ⟨hlen, Header.ofBytes_append _ _, ?_⟩
  rw [Letter.wire, ← Header.length_bytes l.pktHdr, List.drop_left,
    Letter.take_append hl]

theorem callBack (h : i.Inv hostName letters) :
    ∃ i', i.callBack hostName = .ok i' ∧ i'.Inv hostName letters := by
  obtain ⟨sock, inHdr, inbox, messageAvailable, worker, buffer, boxes, got⟩ := i
  have hinv := h
  obtain ⟨hall, put, hand, unread, queued, rfl, hboxes, hhand, hinbox, hsock⟩ :=
    h
  dsimp only at hboxes hhand hinbox hsock
  unfold Input.callBack
  split
  · exact ⟨_, rfl, hinv⟩
  · next hlength =>
      have hempty : inHdr.length = 0 := not_not.mp hlength
      cases hsock with
      | nil => exact ⟨_, rfl, hinv⟩
      | @cons packet l sock rest hcarries hrest =>
          have hmem : l ∈ put ++ hand ++ unread ++ l :: rest :=
            List.mem_append_right _ (List.mem_cons_self ..)
          obtain ⟨hl, hto⟩ := hall l hmem
          obtain ⟨hlen, hhdr, hbytes⟩ := carries_eq hl.toFits hcarries
          have hassert : l.pktHdr.toAddr = hostName ∧
              l.pktHdr.length.toNat ≤ MaxPacketSize :=
            ⟨hto, Letter.pktHdr_length_le hl.toFits⟩
          cases hinbox with
          | none hworker =>
              dsimp only
              rw [hhdr, hbytes, assertMsg_pos hlen, assertMsg_pos hassert]
              refine ⟨_, rfl, hall, put, hand, [l], rest, by simp, hboxes,
                hhand, ?_, hrest⟩
              exact .arrived hworker l _
          | arrived _ l' =>
              have hmem' : l' ∈ put ++ hand ++ [l'] ++ l :: rest := by simp
              exact absurd hempty
                (Letter.pktHdr_length_pos (hall l' hmem').1.toFits)
          | noticed l' =>
              have hmem' : l' ∈ put ++ hand ++ [l'] ++ l :: rest := by simp
              exact absurd hempty
                (Letter.pktHdr_length_pos (hall l' hmem').1.toFits)

theorem await (h : i.Inv hostName letters) : i.await.Inv hostName letters := by
  obtain ⟨sock, inHdr, inbox, messageAvailable, worker, buffer, boxes, got⟩ := i
  have hinv := h
  obtain ⟨hall, put, hand, unread, queued, rfl, hboxes, hhand, hinbox, hsock⟩ :=
    h
  dsimp only at hboxes hhand hinbox hsock
  unfold Input.await
  cases hhand with
  | waits =>
      dsimp only
      split
      · exact hinv
      · next havailable =>
          cases hinbox with
          | none => exact absurd rfl havailable
          | arrived _ l rest => exact ⟨hall, put, [], [l], queued, rfl, hboxes, .receives, .noticed l rest, hsock⟩
  | receives => exact hinv
  | puts => exact hinv

theorem receive (h : i.Inv hostName letters) :
    i.receive.Inv hostName letters := by
  obtain ⟨sock, inHdr, inbox, messageAvailable, worker, buffer, boxes, got⟩ := i
  have hinv := h
  obtain ⟨hall, put, hand, unread, queued, rfl, hboxes, hhand, hinbox, hsock⟩ :=
    h
  dsimp only at hboxes hhand hinbox hsock
  unfold Input.receive
  cases hhand with
  | waits => exact hinv
  | puts => exact hinv
  | receives =>
      cases hinbox with
      | none hworker => exact absurd rfl hworker
      | arrived hworker => exact absurd rfl hworker
      | noticed l rest =>
          have hl : l.Fits := (hall l (by simp)).1.toFits
          dsimp only
          rw [if_pos (Letter.pktHdr_length_pos hl), Letter.take_append hl]
          refine ⟨hall, put, [l], [], queued, by simp, hboxes, .puts l _,
            .none nofun rfl, hsock⟩

theorem put (h : i.Inv hostName letters) : ∃ i', i.put = .ok i' ∧
    i'.Inv hostName letters := by
  obtain ⟨sock, inHdr, inbox, messageAvailable, worker, buffer, boxes, got⟩ := i
  have hinv := h
  obtain ⟨hall, put, hand, unread, queued, rfl, hboxes, hhand, hinbox, hsock⟩ :=
    h
  dsimp only at hboxes hhand hinbox hsock
  unfold Input.put
  cases hhand with
  | waits => exact ⟨_, rfl, hinv⟩
  | receives => exact ⟨_, rfl, hinv⟩
  | puts l rest =>
      have hl : Deliverable l := (hall l (by simp)).1
      have hmail : Mail.new l.pktHdr (.ofBytes (l.buffer ++ rest))
          ((l.buffer ++ rest).drop HeaderSize) = .ok l.mail :=
        Letter.mail_new hl.toFits
      have hto : 0 ≤ l.mailHdr.toAddr.toInt ∧
        l.mailHdr.toAddr.toInt < NumBoxes := ⟨hl.nonneg, hl.lt⟩
      rw [Letter.ofBytes_buffer] at hmail
      dsimp only
      rw [Letter.ofBytes_buffer, assertMsg_pos hto,
        assertMsg_pos hl.length, hmail]
      refine ⟨_, rfl, hall, put ++ [l], [], unread, queued, by simp,
        fun b => ?_, .waits, ?_, hsock⟩
      · rw [List.filter_append, List.map_append, ← hboxes b]
        show got b ++ update boxes (boxOf l) (boxes (boxOf l) ++ [l.mail]) b = _
        by_cases hb : boxOf l = b
        · subst hb
          rw [update_self, ← List.append_assoc]
          simp
        · rw [update_of_ne (Ne.symm hb)]
          simp [hb]
      · have hwaits : Worker.waits ≠ .receives := nofun
        cases hinbox with
        | none _ hlength => exact .none hwaits hlength
        | arrived _ l' rest' => exact .arrived hwaits l' rest'

theorem get (h : i.Inv hostName letters) {box : Int}
    (hbox : 0 ≤ box ∧ box < NumBoxes) :
    ∃ i', i.get box = .ok i' ∧ i'.Inv hostName letters := by
  have hinv := h
  obtain ⟨hall, put, hand, unread, queued, rfl, hholds⟩ := h
  unfold Input.get
  rw [assertMsg_pos hbox, Outcome.ok_bind]
  split
  · exact ⟨i, rfl, hinv⟩
  · next mail messages hcons =>
      have hboxes := hholds.boxes box.toNat
      rw [hcons] at hboxes
      -- the mail is of a letter that fits
      have hmem : mail ∈ (put.filter (boxOf · = box.toNat)).map (·.mail) :=
        hboxes ▸ List.mem_append_right _ (List.mem_cons_self ..)
      obtain ⟨l, hl, rfl⟩ := List.mem_map.mp hmem
      have hput : l ∈ put ++ hand ++ unread ++ queued := by
        simp [List.mem_of_mem_filter hl]
      have hlength : l.mail.mailHdr.length.toNat ≤ MaxMailSize :=
        (hall l hput).1.length
      rw [assertMsg_pos hlength]
      refine ⟨_, rfl, hall, put, hand, unread, queued, rfl, fun b => ?_,
        hholds.hand, hholds.inbox, hholds.sock⟩
      dsimp only
      by_cases hb : b = box.toNat
      · subst hb
        rw [update_self, update_self, List.append_assoc]
        exact hboxes
      · rw [update_of_ne hb, update_of_ne hb]
        exact hholds.boxes b

end Input.Inv

/-- With nothing to do for the interrupt and the worker, all letters are put
away. -/
theorem Input.Holds.settled {hostName : Word} {i : Input}
    {put hand unread queued : List Letter} (h : i.Holds put hand unread queued)
    (hcallBack : i.callBack hostName = .ok i) (hawait : i.await = i)
    (hreceive : i.receive = i) (hput : i.put = .ok i) : hand = [] ∧
    unread = [] ∧ queued = [] := by
  obtain ⟨sock, inHdr, inbox, messageAvailable, worker, buffer, boxes, got⟩ := i
  obtain ⟨-, hhand, hinbox, hsock⟩ := h
  dsimp only at hhand hinbox hsock
  cases hhand with
  | puts l rest =>
      obtain ⟨_, -, hput⟩ := Outcome.bind_eq_ok.mp hput
      obtain ⟨_, -, hput⟩ := Outcome.bind_eq_ok.mp hput
      obtain ⟨_, -, hput⟩ := Outcome.bind_eq_ok.mp hput
      cases congrArg Input.worker (Except.ok.inj hput)
  | receives => cases congrArg Input.worker hreceive
  | waits =>
      cases hinbox with
      | arrived => cases congrArg Input.worker hawait
      | none _ hlength =>
          cases hsock with
          | nil => exact ⟨rfl, rfl, rfl⟩
          | cons hcarries hrest =>
              unfold Input.callBack at hcallBack
              dsimp only at hcallBack
              rw [if_neg (not_not.mpr hlength)] at hcallBack
              obtain ⟨_, -, hcallBack⟩ := Outcome.bind_eq_ok.mp hcallBack
              obtain ⟨_, -, hcallBack⟩ := Outcome.bind_eq_ok.mp hcallBack
              cases congrArg Input.messageAvailable (Except.ok.inj hcallBack)

end EroikoBlue.MP4.PostOffice
