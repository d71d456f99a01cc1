/-
# `MP4.Mail` — packets and mail of `machine/network.cc` and `network/post.cc`

The network takes packets of 64 bytes.  What a sender gives to
`PostOfficeOutput::Send` is put between two headers and bytes that nobody has
set:

    to, from, length     12 bytes   `PacketHeader`, of the machines
    to, from, length     12 bytes   `MailHeader`, of the mail boxes
    data                 `length` bytes
    padding

A header is copied to and from a buffer as it is in memory.  `mail_new` is the
round trip: the receiver has the headers and the data, whatever the padding is.
-/
import EroikoBlue.Debug
import EroikoBlue.Lib.Bytes

namespace EroikoBlue.MP4

open Bytes (Byte Word byteWord wordsToBytes blit)

/-- `PacketHeader` and `MailHeader`: two addresses and a length. -/
structure Header where
  toAddr : Word
  fromAddr : Word
  length : Word
  deriving DecidableEq, Repr

abbrev PacketHeader := Header
abbrev MailHeader := Header

/-- `sizeof(PacketHeader)` and `sizeof(MailHeader)`. -/
abbrev HeaderSize : Nat := 12
abbrev MaxWireSize : Nat := 64
abbrev MaxPacketSize : Nat := MaxWireSize - HeaderSize
abbrev MaxMailSize : Nat := MaxPacketSize - HeaderSize

/-- An `int` of a buffer. -/
def intAt (buffer : List Byte) (offset : Nat) : Word :=
  byteWord (buffer[offset]?.getD 0) (buffer[offset + 1]?.getD 0)
    (buffer[offset + 2]?.getD 0)
    (buffer[offset + 3]?.getD 0)

namespace Header

/-- The header in memory. -/
def bytes (h : Header) : List Byte :=
  wordsToBytes [h.toAddr, h.fromAddr, h.length]

/-- `*(PacketHeader *)buffer` and `*(MailHeader *)buffer`. -/
def ofBytes (buffer : List Byte) : Header :=
  ⟨intAt buffer 0, intAt buffer 4, intAt buffer 8⟩

theorem length_bytes (h : Header) : h.bytes.length = HeaderSize := rfl

theorem ofBytes_append (h : Header) (rest : List Byte) :
    ofBytes (h.bytes ++ rest) = h := by
  obtain ⟨toAddr, fromAddr, length⟩ := h
  have hto : intAt (bytes ⟨toAddr, fromAddr, length⟩ ++ rest) 0 = toAddr :=
    Bytes.byteWord_extract toAddr
  have hfrom : intAt (bytes ⟨toAddr, fromAddr, length⟩ ++ rest) 4 = fromAddr :=
    Bytes.byteWord_extract fromAddr
  have hlength : intAt (bytes ⟨toAddr, fromAddr, length⟩ ++ rest) 8 = length :=
    Bytes.byteWord_extract length
  rw [ofBytes, hto, hfrom, hlength]

end Header

/-- A message in a mail box; `data` is the part of the array that is set. -/
structure Mail where
  pktHdr : PacketHeader
  mailHdr : MailHeader
  data : List Byte
  deriving DecidableEq, Repr

/-- `Mail::Mail`. -/
def Mail.new (pktH : PacketHeader) (mailH : MailHeader) (msgData : List Byte) :
    Except Fault Mail := do
  assertMsg (mailH.length.toNat ≤ MaxMailSize) ""
  pure ⟨pktH, mailH, msgData.take mailH.length.toNat⟩

/-- What a call of `PostOfficeOutput::Send` is to deliver, with the machine it
runs on; `data` is the caller's buffer. -/
structure Letter where
  toAddr : Word
  fromAddr : Word
  mailHdr : MailHeader
  data : List Byte
  deriving DecidableEq, Repr

namespace Letter

/-- There are as many bytes as the caller says, and they fit in a packet. -/
structure Fits (l : Letter) : Prop where
  data : l.mailHdr.length.toNat ≤ l.data.length
  length : l.mailHdr.length.toNat ≤ MaxMailSize

/-- `pktHdr` in `Send`. -/
def pktHdr (l : Letter) : PacketHeader :=
  ⟨l.toAddr, l.fromAddr, l.mailHdr.length + BitVec.ofNat 32 HeaderSize⟩

/-- `buffer` in `Send`, as far as it is set. -/
def buffer (l : Letter) : List Byte :=
  l.mailHdr.bytes ++ l.data.take l.mailHdr.length.toNat

/-- What `NetworkOutput::Send` gives to the socket. -/
def wire (l : Letter) (padding : List Byte) : List Byte :=
  l.pktHdr.bytes ++ (l.buffer ++ padding)

/-- What is put in the mail box. -/
def mail (l : Letter) : Mail :=
  ⟨l.pktHdr, l.mailHdr, l.data.take l.mailHdr.length.toNat⟩

section
variable {l : Letter} {bytes padding rest : List Byte}

theorem length_buffer (h : l.Fits) :
    l.buffer.length = HeaderSize + l.mailHdr.length.toNat := by
  rw [buffer, List.length_append, Header.length_bytes, List.length_take,
    Nat.min_eq_left h.data]

theorem toNat_pktHdr_length (h : l.Fits) :
    l.pktHdr.length.toNat = l.buffer.length := by
  have hle := h.length
  rw [length_buffer h, pktHdr, BitVec.toNat_add]
  show (l.mailHdr.length.toNat + 12) % 2 ^ 32 = _
  simp only [HeaderSize, MaxMailSize, MaxPacketSize, MaxWireSize] at *
  omega

theorem pktHdr_length_pos (h : l.Fits) : l.pktHdr.length ≠ 0 := by
  intro hzero
  have hlen := toNat_pktHdr_length h
  rw [hzero, length_buffer h] at hlen
  exact absurd hlen
    (Nat.ne_of_lt (Nat.lt_of_lt_of_le (by decide) (Nat.le_add_right _ _)))

theorem pktHdr_length_le (h : l.Fits) :
    l.pktHdr.length.toNat ≤ MaxPacketSize := by
  have hle := h.length
  rw [toNat_pktHdr_length h, length_buffer h]
  simp only [HeaderSize, MaxMailSize, MaxPacketSize, MaxWireSize] at *
  omega

theorem take_append (h : l.Fits) :
    (l.buffer ++ rest).take l.pktHdr.length.toNat = l.buffer := by
  rw [toNat_pktHdr_length h, List.take_left]

theorem ofBytes_buffer : Header.ofBytes (l.buffer ++ rest) = l.mailHdr := by
  rw [buffer, List.append_assoc, Header.ofBytes_append]

theorem drop_buffer : (l.buffer ++ rest).drop HeaderSize =
    l.data.take l.mailHdr.length.toNat ++ rest := by
  rw [buffer, List.append_assoc, ← Header.length_bytes l.mailHdr,
    List.drop_left]

theorem mail_new (h : l.Fits) : Mail.new l.pktHdr (.ofBytes (l.buffer ++ rest))
    ((l.buffer ++ rest).drop HeaderSize) =
    .ok l.mail := by
  have hlen : (l.data.take l.mailHdr.length.toNat).length =
      l.mailHdr.length.toNat := by
    rw [List.length_take, Nat.min_eq_left h.data]
  have hdata :
      (l.data.take l.mailHdr.length.toNat ++ rest).take l.mailHdr.length.toNat =
      l.data.take l.mailHdr.length.toNat := List.take_left' hlen
  rw [ofBytes_buffer, drop_buffer, Mail.new, assertMsg_pos h.length,
    Outcome.ok_bind, hdata]
  rfl

end

end Letter

end EroikoBlue.MP4
